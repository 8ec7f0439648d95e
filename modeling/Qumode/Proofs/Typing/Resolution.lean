import Mathlib.Data.List.Forall2
import Qumode.Proofs.Readout.Sameness
import Qumode.Proofs.Typing.Settling
import Qumode.Readout.Resolution

/-!
# When observables are resolved

An observable makes the demands of its leaves, one after another (`Typing.tree_eq_foldlM`). What it
has collected at a demand depends on the demands before, but whether the run succeeds does not
depend on an order: it succeeds when every demand has a readout and demands on one wire have the
same (`Readable`), since readouts that are the same as the first are the same as each other.
-/

namespace Qumode

namespace MeasurementSchema

variable {s s' : MeasurementSchema} {v w : WireId} {r : WireReadout}

theorem get?_empty (w : WireId) : empty.get? w = none := rfl

/-- A wire that is added has its readout, and the others keep theirs. -/
theorem get?_push (fresh : w ∉ s.entries.map (·.1)) :
    (s.push w r fresh).get? v = if v = w then some r else s.get? v := by
  refine Option.ext fun r' => ?_
  rw [get?_eq_some_iff, push, List.mem_append, List.mem_singleton, Prod.mk.injEq,
    ← get?_eq_some_iff]
  by_cases same : v = w
  · subst same
    simp [get?_eq_none_iff.2 fresh, eq_comm]
  · simp [same]

/-- A wire without a readout takes any. -/
theorem insert_of_fresh (fresh : s.get? w = none) :
    s.insert w r = .ok (s.push w r (get?_eq_none_iff.1 fresh)) := by
  rw [insert]
  split
  case h_1 => rfl
  case h_2 there found => cases fresh.symm.trans found

/-- A wire keeps its readout, and refuses one that is not numerically equal. -/
theorem insert_of_held {there : WireReadout} (held : s.get? w = some there) :
    s.insert w r = if there.numEq r then .ok s else .error (there.schema, r.schema) := by
  rw [insert]
  split
  case h_1 fresh => cases fresh.symm.trans held
  case h_2 there' found =>
    cases found.symm.trans held
    rfl

/-- The wire has no readout in the schema or the same one. -/
def Accepts (s : MeasurementSchema) (w : WireId) (r : WireReadout) : Prop :=
  ∀ there, s.get? w = some there → there.numEq r = true

/-- Any readout is accepted by an empty schema. -/
theorem accepts_empty (w : WireId) (r : WireReadout) : empty.Accepts w r := by
  intro there found
  cases found

/-- The second schema is the first with a readout for a wire, which may have the same one already.
-/
structure Adds (s : MeasurementSchema) (w : WireId) (r : WireReadout) (s' : MeasurementSchema) :
    Prop where
  accepts : s.Accepts w r
  get? : ∀ v, s'.get? v = if v = w then (s.get? w).or (some r) else s.get? v

/-- A readout is inserted unless the wire has a different one. The first readout of a wire stays. -/
theorem insert_spec (s : MeasurementSchema) (w : WireId) (r : WireReadout) :
    match s.insert w r with
    | .ok s' => s.Adds w r s'
    | .error _ => ¬ s.Accepts w r := by
  cases held : s.get? w with
  | none =>
    rw [insert_of_fresh held]
    refine ⟨fun there found => ?_, fun v => ?_⟩
    · cases held.symm.trans found
    · rw [get?_push, held, Option.none_or]
  | some there =>
    rw [insert_of_held held]
    by_cases same : there.numEq r = true
    · rw [if_pos same]
      refine ⟨fun there' found => ?_, fun v => ?_⟩
      · cases held.symm.trans found
        exact same
      · split
        case isTrue at_w => rw [at_w, held, Option.some_or]
        case isFalse => rfl
    · rw [if_neg same]
      exact fun accepts => same (accepts there held)

/-- With one readout more, a schema accepts what it did before, unless it differs from that one. -/
theorem Adds.accepts_iff (h : s.Adds w r s') {r' : WireReadout} :
    s'.Accepts v r' ↔ s.Accepts v r' ∧ (v = w → r.numEq r' = true) := by
  by_cases same_wire : v = w
  · subst same_wire
    cases held : s.get? v with
    | none => simp [Accepts, h.get?, held]
    | some there =>
      have first := h.accepts there held
      simp only [Accepts, h.get?, held, ↓reduceIte, Option.some_or, Option.some.injEq, forall_eq',
        forall_const]
      refine (and_iff_left_of_imp fun same => ?_).symm
      -- both are the same as the readout that the wire has
      exact WireReadout.sameness.trans (WireReadout.sameness.symm first) same
  · rw [Accepts, h.get?, if_neg same_wire]
    exact ⟨fun accepts => ⟨accepts, fun same => absurd same same_wire⟩, And.left⟩

end MeasurementSchema

namespace Demand

/-- Demands on one wire ask for the same readout. -/
def Agrees (d d' : Demand) : Prop :=
  d.wire = d'.wire → ∀ r r', d.readout = some r → d'.readout = some r' → r.numEq r' = true

/-- The demand has a readout, and the schema accepts it. -/
def Admitted (s : MeasurementSchema) (d : Demand) : Prop :=
  ∃ r, d.readout = some r ∧ s.Accepts d.wire r

/-- The demand has a readout, and the second schema is the first with it. -/
def Recorded (s : MeasurementSchema) (d : Demand) (s' : MeasurementSchema) : Prop :=
  ∃ r, d.readout = some r ∧ s.Adds d.wire r s'

end Demand

/-- Demands that have readouts, the same ones on the same wire, also as those of the schema. -/
structure Readable (s : MeasurementSchema) (ds : List Demand) : Prop where
  admitted : ∀ d ∈ ds, d.Admitted s
  agree : ds.Pairwise Demand.Agrees

/-- After a demand is recorded, the next one is admitted if it was before and agrees with it. -/
theorem Demand.Recorded.admitted_iff {s s' : MeasurementSchema} {d e : Demand}
    (h : d.Recorded s s') : e.Admitted s' ↔ e.Admitted s ∧ d.Agrees e := by
  obtain ⟨r, asked, adds⟩ := h
  constructor
  · rintro ⟨r', asked', accepts⟩
    obtain ⟨before, same⟩ := adds.accepts_iff.1 accepts
    refine ⟨⟨r', asked', before⟩, ?_⟩
    intro on q q' hq hq'
    cases asked.symm.trans hq
    cases asked'.symm.trans hq'
    exact same on.symm
  · rintro ⟨⟨r', asked', before⟩, agree⟩
    exact ⟨r', asked', adds.accepts_iff.2 ⟨before, fun on => agree on.symm r r' asked asked'⟩⟩

/-- After the first of some demands is recorded, the others are readable just when all of them were
before. -/
theorem Demand.Recorded.readable_iff {s s' : MeasurementSchema} {d : Demand} {ds : List Demand}
    (h : d.Recorded s s') : Readable s' ds ↔ Readable s (d :: ds) := by
  obtain ⟨r, asked, adds⟩ := id h
  constructor
  · rintro ⟨admitted, agree⟩
    refine ⟨List.forall_mem_cons.2 ⟨⟨r, asked, adds.accepts⟩, ?_⟩, List.pairwise_cons.2 ⟨?_, agree⟩⟩
    · exact fun e he => (h.admitted_iff.1 (admitted e he)).1
    · exact fun e he => (h.admitted_iff.1 (admitted e he)).2
  · rintro ⟨admitted, agree⟩
    rw [List.forall_mem_cons] at admitted
    rw [List.pairwise_cons] at agree
    exact ⟨fun e he => h.admitted_iff.2 ⟨admitted.2 e he, agree.1 e he⟩, agree.2⟩

/-- The readouts of the second schema are those of the first or of the demands. -/
def Collects (s : MeasurementSchema) (ds : List Demand) (s' : MeasurementSchema) : Prop :=
  ∀ w r, s'.get? w = some r → s.get? w = some r ∨ ∃ d ∈ ds, d.wire = w ∧ d.readout = some r

/-- The demands of all leaves. -/
def Observable.demands (t : Observable Leaf) : List Demand := t.leafList.flatMap Leaf.demands

/-- What a demand says about types. -/
def Demand.typed (d : Demand) : WireId × WireType := (d.wire, d.type)

namespace Typing

variable {c : Circuit} {site : Site}

/-- Recording a readout makes no demand, and succeeds when the schema accepts it. -/
theorem record_makes (s : MeasurementSchema) (w : WireId) (r : WireReadout) :
    (record c site s w r).Makes [] (s.Accepts w r) (s.Adds w r) := by
  have spec := s.insert_spec w r
  rw [record]
  cases inserted : s.insert w r with
  | ok s' =>
    rw [inserted] at spec
    exact (Makes.pure spec).mono (iff_of_true trivial spec.accepts) fun _ => id
  | error conflict =>
    rw [inserted] at spec
    exact (Makes.throw _).mono (iff_of_false id spec) fun _ => id

/-- A demand makes the demand of its type, and its readout has to be admitted. -/
theorem demand_makes (name : String) (s : MeasurementSchema) (d : Demand) :
    (demand c site name s d).Makes [d.typed] (d.Admitted s) fun s' => d.Recorded s s' := by
  have typed := require_makes c d.wire d.type site
  rw [demand]
  cases asked : d.readout with
  | none =>
    refine (typed.bind fun _ _ => Makes.throw _).mono ?_ fun _ => id
    simp [Demand.Admitted, asked]
  | some r =>
    refine (typed.bind fun _ _ => record_makes s d.wire r).mono ?_ fun s' recorded => ?_
    · simp [Demand.Admitted, asked]
    · exact ⟨r, asked, recorded⟩

/-- Demands in a row have to be readable one after another. -/
theorem demands_makes (ds : List (String × Demand)) (s : MeasurementSchema) :
    (ds.foldlM (fun s (name, d) => demand c site name s d) s).Makes
      ((ds.map Prod.snd).map Demand.typed) (Readable s (ds.map Prod.snd))
      (Collects s (ds.map Prod.snd)) := by
  induction ds generalizing s with
  | nil => exact (Makes.pure fun w r => .inl).mono (iff_of_true trivial ⟨by simp, .nil⟩) fun _ => id
  | cons d ds ih =>
    have others : ∀ s', d.2.Recorded s s' →
        (ds.foldlM (fun s (name, d) => demand c site name s d) s').Makes
          ((ds.map Prod.snd).map Demand.typed) (Readable s (d.2 :: ds.map Prod.snd))
          (Collects s (d.2 :: ds.map Prod.snd)) := by
      intro s' recorded
      refine (ih s').mono recorded.readable_iff fun s'' found => ?_
      obtain ⟨r, asked, adds⟩ := recorded
      intro w r' present
      rcases found w r' present with held | ⟨e, he, on, asked'⟩
      · rw [adds.get?] at held
        split at held
        case isFalse => exact .inl held
        case isTrue on =>
          subst on
          rw [Option.or_eq_some_iff] at held
          rcases held with before | ⟨-, new⟩
          · exact .inl before
          · exact .inr ⟨d.2, List.mem_cons_self, rfl, new ▸ asked⟩
      · exact .inr ⟨e, List.mem_cons_of_mem _ he, on, asked'⟩
    rw [List.foldlM_cons]
    refine ((demand_makes d.1 s d.2).bind others).mono ?_ fun _ => id
    exact ⟨And.right, fun readable => ⟨readable.admitted d.2 List.mem_cons_self, readable⟩⟩

/-- The demands of a leaf with its name. -/
def named (l : Leaf) : List (String × Demand) := l.demands.map fun d => (l.name, d)

/-- Naming the demands of the leaves does not change them. -/
theorem snd_named (t : Observable Leaf) : (t.leafList.flatMap named).map Prod.snd = t.demands := by
  simp [Observable.demands, List.map_flatMap, named, Function.comp_def]

/-- A leaf makes its demands one after another. -/
theorem leaf_eq_foldlM (s : MeasurementSchema) (l : Leaf) :
    leaf c site s l = (named l).foldlM (fun s (name, d) => demand c site name s d) s := by
  rw [leaf, named, List.foldlM_map]

mutual

/-- A tree makes the demands of its leaves one after another. -/
theorem tree_eq_foldlM : (t : Observable Leaf) → (s : MeasurementSchema) →
    tree c site s t =
      (t.leafList.flatMap named).foldlM (fun s (name, d) => demand c site name s d) s
  | .leaf l, s => by
    rw [tree, Observable.leafList, List.flatMap_singleton, leaf_eq_foldlM]
  | .sum terms, s => by rw [tree, Observable.leafList, trees_eq_foldlM]
  | .product factors, s => by rw [tree, Observable.leafList, trees_eq_foldlM]
  | .adjoint base, s => by rw [tree, Observable.leafList, tree_eq_foldlM]
  | .power base _, s => by rw [tree, Observable.leafList, tree_eq_foldlM]

/-- So do trees in a row. -/
theorem trees_eq_foldlM : (ts : List (Observable Leaf)) → (s : MeasurementSchema) →
    trees c site s ts =
      ((Observable.leafLists ts).flatMap named).foldlM (fun s (name, d) => demand c site name s d) s
  | [], s => rfl
  | t :: rest, s => by
    rw [trees, Observable.leafLists, List.flatMap_append, List.foldlM_append, tree_eq_foldlM]
    exact bind_congr fun s' => trees_eq_foldlM rest s'

end

/-- An observable makes the demands of its leaves, and its readouts have to be readable. -/
theorem observable_makes (t : Observable Leaf) (index : Nat) :
    (observable c t index).Makes (t.demands.map Demand.typed) (Readable .empty t.demands)
      (Collects .empty t.demands) := by
  have makes := @demands_makes c (.measurement index) (t.leafList.flatMap named) .empty
  rwa [← tree_eq_foldlM, snd_named] at makes

/-- Every measurement collects readouts of its own, and all make their demands. -/
theorem measurementsFrom_makes (ts : List (Observable Leaf)) (index : Nat) :
    (measurementsFrom c index ts).Makes (ts.flatMap fun t => t.demands.map Demand.typed)
      (∀ t ∈ ts, Readable .empty t.demands)
      (List.Forall₂ (fun t s => Collects .empty t.demands s) ts) := by
  induction ts generalizing index with
  | nil => exact (Makes.pure .nil).mono (iff_of_true trivial (by simp)) fun _ => id
  | cons t rest ih =>
    rw [measurementsFrom, List.flatMap_cons, List.forall_mem_cons]
    refine (observable_makes t index).bind fun s found => ?_
    exact (ih (index + 1)).map fun schemas others => .cons found others

/-- The measurements of a circuit make all of their demands. -/
theorem measurements_makes (c : Circuit) :
    (measurements c).Makes (c.measurements.flatMap fun t => t.demands.map Demand.typed)
      (∀ t ∈ c.measurements, Readable .empty t.demands)
      (List.Forall₂ (fun t s => Collects .empty t.demands s) c.measurements) :=
  measurementsFrom_makes c.measurements 0

end Typing

end Qumode
