import Mathlib.Data.Finset.Card
import Qumode.Proofs.Readout.Demands
import Qumode.Proofs.Typing.Composition

/-!
# The table of a schema

The leaves of an observable touch wires: each leaf, if it is not an identity, its own in order. The
schema that an observable is resolved to has an entry for every wire that is touched, in the order
in which the wires are touched first (`Observable.FirstTouch`), and the entry has the readout that
is asked for at the first touch. Later touches leave the table as it is.
-/

namespace Qumode

/-- The first entries are one for each wire, in order of first occurrence. -/
theorem map_fst_firstEntries (entries : List (WireId × WireReadout)) :
    (firstEntries entries).map (·.1) = (entries.map (·.1)).eraseDups := by
  induction entries using List.reverseRecOn with
  | nil => rfl
  | append_singleton entries e ih =>
    have first : firstEntries (entries ++ [e]) =
        if (firstEntries entries).any fun e' => e.1 == e'.1 then firstEntries entries
        else firstEntries entries ++ [e] := eraseDupsBy_concat entries e
    have wires : (entries.map (·.1) ++ [e.1]).eraseDups =
        if (entries.map (·.1)).eraseDups.any (e.1 == ·) then (entries.map (·.1)).eraseDups
        else (entries.map (·.1)).eraseDups ++ [e.1] := eraseDupsBy_concat _ e.1
    rw [List.map_append, List.map_singleton, first, wires, ← ih, List.any_map,
      apply_ite (List.map _), List.map_append]
    rfl

namespace Observable

variable {t : Observable Leaf} {l : Leaf} {w : WireId} {position : Nat}

/-- The wires that an observable touches, each as often as it is touched, in order. -/
def touched (t : Observable Leaf) : List WireId := t.asking.flatMap (·.wires)

/-- The leaf touches the wire at the position, and no leaf before it and no position before that one
does. -/
structure FirstTouch (t : Observable Leaf) (w : WireId) (l : Leaf) (position : Nat) : Prop where
  leaf : ∃ before after, t.asking = before ++ l :: after ∧ ∀ l' ∈ before, w ∉ l'.wires
  there : l.wires[position]? = some w
  first : w ∉ l.wires.take position

theorem mem_touched : w ∈ t.touched ↔ ∃ l ∈ t.asking, w ∈ l.wires := List.mem_flatMap

/-- A wire that is touched has a first touch. -/
theorem exists_firstTouch (on : w ∈ t.touched) : ∃ l position, t.FirstTouch w l position := by
  have found : (t.asking.find? fun l => w ∈ l.wires).isSome := by
    simpa only [List.find?_isSome, decide_eq_true_eq] using mem_touched.1 on
  obtain ⟨l, first⟩ := Option.isSome_iff_exists.1 found
  obtain ⟨here, before, after, split, none_before⟩ := List.find?_eq_some_iff_append.1 first
  obtain ⟨wires, others, same, new⟩ := List.eq_append_cons_of_mem (of_decide_eq_true here)
  refine ⟨l, wires.length, ⟨before, after, split, fun l' mem => ?_⟩, ?_, ?_⟩
  · simpa using none_before l' mem
  · rw [same, List.getElem?_append_right (Nat.le_refl _), Nat.sub_self, List.getElem?_cons_zero]
  · rwa [same, List.take_left]

theorem demands_eq_flatMap_asking (t : Observable Leaf) :
    t.demands = t.asking.flatMap Leaf.demands := by
  have leaves : t.asking.flatMap Typing.named = t.leafList.flatMap Typing.named :=
    Typing.flatMap_named_filter t.leafList
  rw [← Typing.snd_named, ← leaves]
  simp [List.map_flatMap, Typing.named, Function.comp_def]

theorem map_wire_of_asking (asks : l ∈ t.asking) : l.demands.map (·.wire) = l.wires := by
  have kind : l.kind ≠ .identity := by simpa using (List.mem_filter.1 asks).2
  rw [Leaf.map_wire_demands, if_neg kind]

/-- The demands of an observable are on the wires it touches, in their order. -/
theorem map_wire_demands (t : Observable Leaf) : t.demands.map (·.wire) = t.touched := by
  rw [demands_eq_flatMap_asking, List.map_flatMap]
  exact List.flatMap_congr fun l => map_wire_of_asking

/-- The demand of a first touch stands behind demands on other wires. -/
theorem FirstTouch.exists_demand (touch : t.FirstTouch w l position) :
    ∃ before d after, t.demands = before ++ d :: after ∧ w ∉ before.map (·.wire) ∧ d.wire = w ∧
      l.demands[position]? = some d := by
  obtain ⟨leaves, others, split, untouched⟩ := touch.leaf
  have asks : ∀ l' ∈ leaves ++ l :: others, l' ∈ t.asking := fun l' mem => split ▸ mem
  have wires := map_wire_of_asking (asks l (by simp))
  obtain ⟨d, there, on⟩ : ∃ d, l.demands[position]? = some d ∧ d.wire = w := by
    rw [← Option.map_eq_some_iff, ← List.getElem?_map, wires]
    exact touch.there
  obtain ⟨inside, rfl⟩ := List.getElem?_eq_some_iff.1 there
  refine ⟨leaves.flatMap Leaf.demands ++ l.demands.take position, _,
    l.demands.drop (position + 1) ++ others.flatMap Leaf.demands, ?_, ?_, on, there⟩
  · rw [demands_eq_flatMap_asking, split, List.flatMap_append, List.flatMap_cons, List.append_assoc,
      ← List.cons_append, List.getElem_cons_drop, ← List.append_assoc (l.demands.take position),
      List.take_append_drop]
  · rw [List.map_append, List.mem_append, not_or, List.map_take, wires, List.map_flatMap]
    refine ⟨fun mem => ?_, touch.first⟩
    obtain ⟨l', mem', on'⟩ := List.mem_flatMap.1 mem
    rw [map_wire_of_asking (asks l' (by simp [mem']))] at on'
    exact untouched l' mem' on'

end Observable

namespace MeasurementSchema

variable {t : Observable Leaf} {s : MeasurementSchema} {ds : List Demand} {l : Leaf} {w : WireId}
  {position : Nat}

/-- Demands that are collected have readouts. -/
theorem exists_readout_of_collect? (collected : empty.collect? ds = some s) :
    ∀ d ∈ ds, ∃ r, d.readout = some r := by
  intro d mem
  obtain ⟨r, asked, -⟩ := (exists_collect?_iff.1 ⟨s, collected⟩).admitted d mem
  exact ⟨r, asked⟩

theorem map_fst_wireReadout? (asked : ∀ d ∈ ds, ∃ r, d.readout = some r) :
    (ds.filterMap Demand.wireReadout?).map (·.1) = ds.map (·.wire) := by
  induction ds with
  | nil => rfl
  | cons d rest ih =>
    rw [List.forall_mem_cons] at asked
    obtain ⟨⟨r, first⟩, others⟩ := asked
    rw [List.filterMap_cons_some (Demand.wireReadout?_eq_some first), List.map_cons, List.map_cons,
      ih others]

/-- The wires of a schema are those that the observable touches, in the order of first touch. -/
theorem wires_of_schema? (found : t.schema? = some s) :
    s.entries.map (·.1) = t.touched.eraseDups := by
  rw [entries_of_collect? found, map_fst_firstEntries]
  exact congrArg List.eraseDups
    ((map_fst_wireReadout? (exists_readout_of_collect? found)).trans t.map_wire_demands)

theorem findSome?_readoutOn_eq_none (apart : w ∉ ds.map (·.wire)) :
    ds.findSome? (Demand.readoutOn w) = none := by
  rw [List.findSome?_eq_none_iff]
  intro d mem
  exact if_neg fun on => apart (List.mem_map.2 ⟨d, mem, on⟩)

/-- A schema has the readout that is asked for at the first touch. -/
theorem get?_of_firstTouch (found : t.schema? = some s) (touch : t.FirstTouch w l position) :
    ∃ type r, l.demands[position]? = some ⟨w, type, some r⟩ ∧ s.get? w = some r := by
  obtain ⟨before, d, after, split, apart, rfl, there⟩ := touch.exists_demand
  obtain ⟨r, asked⟩ := exists_readout_of_collect? found d (by rw [split]; simp)
  refine ⟨d.type, r, ?_, ?_⟩
  · rw [there, ← asked]
  · rw [get?_of_collect? found, get?_empty, split, List.findSome?_append,
      findSome?_readoutOn_eq_none apart, List.findSome?_cons, Demand.readoutOn, if_pos rfl, asked]
    rfl

end MeasurementSchema

namespace Typing

variable {c : Circuit} {ctx ctx' : TypeContext} {s : MeasurementSchema}

/-- The schema of an observable lists every wire that its leaves touch, identities apart, once and
in the order of first touch. Look-up finds the readout that is listed for a wire, and nothing on
other wires; the size is the number of distinct wires. The readout of a wire is the one that is
asked for where it is touched first. -/
theorem schema_lists_first_touches {t : Observable Leaf} {index : Nat}
    (done : (observable c t index).run ctx = .ok s ctx') :
    (s.entries.map (·.1)).Nodup ∧
    s.entries.map (·.1) = t.touched.eraseDups ∧
    (∀ w, w ∈ s.entries.map (·.1) ↔ ∃ l ∈ t.asking, w ∈ l.wires) ∧
    (∀ w r, s.get? w = some r ↔ (w, r) ∈ s.entries) ∧
    (∀ w, s.get? w = none ↔ ∀ l ∈ t.asking, w ∉ l.wires) ∧
    s.size = t.touched.toFinset.card ∧
    ∀ w r, (w, r) ∈ s.entries ↔ ∃ l position type, t.FirstTouch w l position ∧
      l.Touches w type (some r) ∧ l.demands[position]? = some ⟨w, type, some r⟩ := by
  have found := schema?_of_observable done
  have wires := MeasurementSchema.wires_of_schema? found
  have covers : ∀ w, w ∈ s.entries.map (·.1) ↔ ∃ l ∈ t.asking, w ∈ l.wires := by
    intro w
    rw [wires, List.mem_eraseDups, Observable.mem_touched]
  refine ⟨s.distinct, wires, covers, fun w r => MeasurementSchema.get?_eq_some_iff, fun w => ?_, ?_,
    fun w r => ?_⟩
  · rw [MeasurementSchema.get?_eq_none_iff, covers]
    simp only [not_exists, not_and]
  · have same : t.touched.eraseDups.toFinset = t.touched.toFinset := by
      ext w
      rw [List.mem_toFinset, List.mem_toFinset, List.mem_eraseDups]
    rw [← same, ← wires, List.toFinset_card_of_nodup s.distinct, List.length_map]
    rfl
  · rw [← MeasurementSchema.get?_eq_some_iff]
    constructor
    · intro held
      have on : w ∈ t.touched := by
        rw [Observable.mem_touched, ← covers]
        exact List.mem_map_of_mem (MeasurementSchema.get?_eq_some_iff.1 held)
      obtain ⟨l, position, touch⟩ := Observable.exists_firstTouch on
      obtain ⟨type, r', asked, held'⟩ := MeasurementSchema.get?_of_firstTouch found touch
      cases held.symm.trans held'
      exact ⟨l, position, type, touch, Leaf.mem_demands.1 (List.mem_of_getElem? asked), asked⟩
    · rintro ⟨l, position, type, touch, -, asked⟩
      obtain ⟨type', r', asked', held⟩ := MeasurementSchema.get?_of_firstTouch found touch
      cases asked.symm.trans asked'
      exact held

/-- A quadrature is touched three times, the last time at the angle minus zero: the angle zero of
the first touch is kept. The wire of the identity is not in the schema. -/
theorem schema_lists_first_of_three_touches :
    let c := (Circuit.empty "c").afterCalls [.standard "Toffoli" [.index 0, .index 1, .index 2] []]
    let x : Leaf := ⟨"QuadX", [⟨1⟩], .continuous (some (.quadrature .zero))⟩
    let i : Leaf := ⟨"Identity", [⟨2⟩], .identity⟩
    let h : Leaf := ⟨"ConditionalQuadX", [⟨1⟩, ⟨0⟩], .hybrid 1 (some (.quadrature .zero))⟩
    let y : Leaf := ⟨"QuadOperator", [⟨1⟩], .continuous (some (.quadrature ⟨0x8000000000000000⟩))⟩
    let t : Observable Leaf := .sum [.leaf x, .product [.leaf i, .leaf h], .adjoint (.leaf y)]
    ∃ s ctx, (observable c t 0).run (.start c) = .ok s ctx ∧
      s.entries.map (·.1) = [⟨1⟩, ⟨0⟩] ∧ s.size = 2 ∧ s.get? ⟨2⟩ = none ∧
      (⟨1⟩, .rotated .position .zero ⟨1⟩) ∈ s.entries ∧
      (⟨1⟩, .rotated .position ⟨0x8000000000000000⟩ ⟨1⟩) ∉ s.entries := by
  intro c x i h y t
  obtain ⟨s, ctx, done⟩ : ∃ s ctx, (observable c t 0).run (.start c) = .ok s ctx := ⟨_, _, rfl⟩
  obtain ⟨-, wires, -, looked_up, absent, size, first⟩ := schema_lists_first_touches done
  have touch : t.FirstTouch ⟨1⟩ x 0 := ⟨⟨[], [h, y], rfl, nofun⟩, rfl, nofun⟩
  have asks : x.Touches ⟨1⟩ .continuous (some (.rotated .position .zero ⟨1⟩)) :=
    Leaf.mem_demands.1 (List.mem_singleton_self _)
  have kept := (first _ _).2 ⟨x, 0, .continuous, touch, asks, rfl⟩
  refine ⟨s, ctx, done, wires, size, (absent ⟨2⟩).2 (by decide), kept, fun other => ?_⟩
  cases ((looked_up _ _).2 kept).symm.trans ((looked_up _ _).2 other)

end Typing

end Qumode
