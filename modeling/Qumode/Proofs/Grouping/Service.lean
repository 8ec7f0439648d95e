import Mathlib.Data.List.Nodup
import Qumode.Proofs.FirstOccurrences
import Qumode.Proofs.Grouping.Partition

/-!
# What a group does for its measurements

A measurement is in one group (`existsUnique_group`), and there every wire it touches is read out:
as the first measurement of the group that touches the wire asks, and a later one is in the group
only because it asks for the same. `OpenGroup.Serves` is what every placement keeps of this, and
`serves` says it of the groups in the end, of their readouts and of the operations before them.
-/

namespace Qumode

/-! ## Lists of readouts by wire -/

section Entries

variable {β : Type} {entries : List (WireId × β)}

/-- The entries of a wire are the one that is looked up. -/
theorem filter_fst_eq (distinct : (entries.map (·.1)).Nodup) (w : WireId) :
    entries.filter (·.1 = w) = ((entries.lookup w).map (w, ·)).toList := by
  induction entries with
  | nil => rfl
  | cons e rest ih =>
    obtain ⟨v, a⟩ := e
    rw [List.map_cons, List.nodup_cons] at distinct
    rw [List.filter_cons, List.lookup_cons]
    by_cases same : v = w
    · subst same
      have none_left : rest.lookup v = none := by
        rw [List.lookup_eq_none_iff]
        intro p hp
        have apart : v ≠ p.1 := by
          rintro rfl
          exact distinct.1 (List.mem_map.2 ⟨p, hp, rfl⟩)
        simpa using apart
      simp [ih distinct.2, none_left]
    · have apart : (w == v) = false := by simpa using Ne.symm same
      rw [apart]
      simp [same, ih distinct.2]

end Entries

/-- Looking a wire up in the list of entries finds what the schema has for it. -/
theorem MeasurementSchema.lookup_entries (s : MeasurementSchema) (w : WireId) :
    s.entries.lookup w = s.get? w := by
  refine Option.ext fun r => ?_
  rw [lookup_eq_some_iff_mem s.distinct, ← MeasurementSchema.get?_eq_some_iff]

/-- Numerically equal readouts are of one schema. -/
theorem WireReadout.schema_eq_of_numEq {r r' : WireReadout} (same : r.numEq r' = true) :
    r.schema = r'.schema := by
  unfold numEq at same
  simp only [Bool.and_eq_true, decide_eq_true_eq] at same
  exact same.1

namespace OpenGroup

variable {schemas : List MeasurementSchema} {g : OpenGroup} {w : WireId}

/-- The first readout for a wire stays. -/
theorem lookup_addReadout (readouts : List (WireId × WireReadout)) (v w : WireId)
    (r : WireReadout) :
    (addReadout readouts v r).lookup w =
      (readouts.lookup w).or (if w = v then some r else none) := by
  unfold addReadout
  by_cases same : w = v
  · subst same
    cases held : readouts.lookup w with
    | some there => simp [held]
    | none => simp [held, List.lookup_append]
  · have apart : (w == v) = false := by simpa using same
    rw [if_neg same, Option.or_none]
    split
    · rfl
    · simp [apart, List.lookup_append, List.lookup_cons]

/-- A wire keeps the readout it has, and else gets that of the first entry for it. -/
theorem lookup_foldl_addReadout (entries readouts : List (WireId × WireReadout)) (w : WireId) :
    (entries.foldl (fun rs (v, r) => addReadout rs v r) readouts).lookup w =
      (readouts.lookup w).or (entries.lookup w) := by
  induction entries generalizing readouts with
  | nil => simp
  | cons e rest ih =>
    obtain ⟨v, r⟩ := e
    rw [List.foldl_cons, ih, lookup_addReadout, Option.or_assoc, List.lookup_cons]
    by_cases same : w = v
    · simp [same]
    · have apart : (w == v) = false := by simpa using same
      simp [same, apart]

/-- No wire gets a second readout. -/
theorem distinct_addReadout {readouts : List (WireId × WireReadout)}
    (distinct : (readouts.map (·.1)).Nodup) (v : WireId) (r : WireReadout) :
    ((addReadout readouts v r).map (·.1)).Nodup := by
  unfold addReadout
  split
  case isTrue => exact distinct
  case isFalse free =>
    have fresh : v ∉ readouts.map (·.1) := by
      intro mem
      obtain ⟨⟨v, r⟩, listed, rfl⟩ := List.mem_map.1 mem
      have held := (lookup_eq_some_iff_mem distinct).2 listed
      rw [held] at free
      exact free rfl
    rw [List.map_append, List.nodup_append]
    refine ⟨distinct, List.pairwise_singleton _ _, ?_⟩
    intro u hu u' hu'
    rw [List.mem_singleton.1 hu']
    rintro rfl
    exact fresh hu

/-- Nor does it when many are added. -/
theorem distinct_foldl_addReadout (entries : List (WireId × WireReadout))
    {readouts : List (WireId × WireReadout)} (distinct : (readouts.map (·.1)).Nodup) :
    ((entries.foldl (fun rs (v, r) => addReadout rs v r) readouts).map (·.1)).Nodup := by
  induction entries generalizing readouts with
  | nil => exact distinct
  | cons e rest ih => exact ih (distinct_addReadout distinct e.1 e.2)

/-- The readout of a wire that a measurement asks for. -/
def asked (schemas : List MeasurementSchema) (w : WireId) (i : Nat) : Option WireReadout :=
  schemas[i]?.bind (·.get? w)

/-- A group reads a wire out as the first of its measurements asks that touches the wire. What a
later one asks for is the same. -/
structure Serves (schemas : List MeasurementSchema) (g : OpenGroup) : Prop where
  ascending : g.measurements.Pairwise (· < ·)
  distinct : (g.readouts.map (·.1)).Nodup
  placed : ∀ w, g.readouts.lookup w = g.measurements.findSome? (asked schemas w)
  agreeing : ∀ i ∈ g.measurements, ∀ w r placed, asked schemas w i = some r →
    g.readouts.lookup w = some placed →
      (∀ j ∈ g.measurements, j < i → asked schemas w j = none) ∨ placed.numEq r = true

/-- A group without measurements serves what it has. -/
theorem serves_empty : empty.Serves schemas where
  ascending := .nil
  distinct := .nil
  placed _ := rfl
  agreeing _ mem := (nomatch mem)

/-- A measurement that does not collide has readouts equal to those placed. -/
theorem numEq_of_not_collides {s : MeasurementSchema} (free : g.collides s = false) {r placed}
    (touched : s.get? w = some r) (held : g.readouts.lookup w = some placed) :
    placed.numEq r = true := by
  have listed := MeasurementSchema.get?_eq_some_iff.1 touched
  unfold collides at free
  rw [List.any_eq_false] at free
  have same := free (w, r) listed
  simpa [differs, readout?, held] using same

/-- What a measurement asks of a wire is what its schema has for it. -/
theorem asked_eq_get? {index : Nat} {s : MeasurementSchema} (listed : schemas[index]? = some s)
    (w : WireId) : asked schemas w index = s.get? w := by
  unfold asked
  rw [listed, Option.bind_some]

/-- A wire of a group keeps its readout, and else gets that of the measurement that joins. -/
theorem lookup_add (g : OpenGroup) (index : Nat) (s : MeasurementSchema) (w : WireId) :
    (g.add index s).readouts.lookup w = (g.readouts.lookup w).or (s.get? w) := by
  unfold OpenGroup.add
  rw [lookup_foldl_addReadout, s.lookup_entries]

/-- What comes before the new measurement was in the group. -/
theorem mem_of_mem_add {index : Nat} {s : MeasurementSchema} {j : Nat}
    (member : j ∈ (g.add index s).measurements) (earlier : j < index) : j ∈ g.measurements := by
  rw [measurements_add, List.mem_append, List.mem_singleton] at member
  rcases member with old | rfl
  · exact old
  · exact absurd earlier (Nat.lt_irrefl j)

/-- A wire that a measurement of the group touches is read out. -/
theorem Serves.exists_placed (h : g.Serves schemas) {i : Nat} (hi : i ∈ g.measurements)
    {r : WireReadout} (asks : asked schemas w i = some r) :
    ∃ placed, g.readouts.lookup w = some placed := by
  rw [h.placed, ← Option.isSome_iff_exists, List.findSome?_isSome_iff]
  exact ⟨i, hi, by rw [asks]; rfl⟩

/-- The agreement is kept: the measurements of the group have their readouts already, and the new
one has to agree with them because it does not collide. -/
theorem Serves.agreeing_add (h : g.Serves schemas) {index : Nat} {s : MeasurementSchema}
    (later : ∀ i ∈ g.measurements, i < index) (listed : schemas[index]? = some s)
    (free : g.collides s = false) {i : Nat} (hi : i ∈ (g.add index s).measurements)
    {r placed : WireReadout} (asks : asked schemas w i = some r)
    (held : (g.add index s).readouts.lookup w = some placed) :
    (∀ j ∈ (g.add index s).measurements, j < i → asked schemas w j = none) ∨
      placed.numEq r = true := by
  rw [lookup_add] at held
  rw [measurements_add, List.mem_append, List.mem_singleton] at hi
  rcases hi with old | rfl
  -- the wire was read out before, and the readout that is there stays
  · obtain ⟨there, found⟩ := h.exists_placed old asks
    rw [found] at held
    cases held
    refine (h.agreeing i old w r placed asks found).imp_left fun first j hj earlier => ?_
    exact first j (mem_of_mem_add hj (Nat.lt_trans earlier (later i old))) earlier
  · rw [asked_eq_get? listed] at asks
    cases found : g.readouts.lookup w with
    | some there =>
      rw [found] at held
      cases held
      exact .inr (numEq_of_not_collides free asks found)
    | none =>
      rw [h.placed, List.findSome?_eq_none_iff] at found
      exact .inl fun j hj earlier => found j (mem_of_mem_add hj earlier)

/-- A group serves one more measurement if it does not collide. -/
theorem Serves.add (h : g.Serves schemas) {index : Nat} {s : MeasurementSchema}
    (later : ∀ i ∈ g.measurements, i < index) (listed : schemas[index]? = some s)
    (free : g.collides s = false) : (g.add index s).Serves schemas where
  ascending := by
    rw [measurements_add, List.pairwise_append]
    refine ⟨h.ascending, List.pairwise_singleton _ _, ?_⟩
    intro i hi j hj
    rw [List.mem_singleton.1 hj]
    exact later i hi
  distinct := distinct_foldl_addReadout s.entries h.distinct
  placed w := by
    rw [lookup_add, measurements_add, List.findSome?_append, ← h.placed, List.findSome?_singleton,
      asked_eq_get? listed]
  agreeing _ hi _ _ _ asks held := h.agreeing_add later listed free hi asks held

/-- The readout of a wire that a measurement of the group touches: the one asked for if no
measurement before it touches the wire, and otherwise the same. -/
theorem Serves.readout (h : g.Serves schemas) {i : Nat} (hi : i ∈ g.measurements)
    {r : WireReadout} (asks : asked schemas w i = some r) :
    ∃ placed, g.readouts.lookup w = some placed ∧
      ((¬ ∃ j ∈ g.measurements, j < i ∧ asked schemas w j ≠ none) → placed = r) ∧
      ((∃ j ∈ g.measurements, j < i ∧ asked schemas w j ≠ none) → placed.numEq r = true) := by
  obtain ⟨placed, found⟩ := h.exists_placed hi asks
  refine ⟨placed, found, ?_, ?_⟩
  · intro untouched
    rw [h.placed] at found
    obtain ⟨before, j, after, order, asks', none_before⟩ := List.findSome?_eq_some_iff.1 found
    rw [order, List.mem_append, List.mem_cons] at hi
    rcases hi with early | rfl | late
    · cases (none_before i early).symm.trans asks
    · exact Option.some.inj (asks'.symm.trans asks)
    · have ascending := h.ascending
      rw [order, List.pairwise_append, List.pairwise_cons] at ascending
      have earlier : j < i := ascending.2.1.1 i late
      have listed : j ∈ g.measurements := by
        rw [order]
        exact List.mem_append_right _ List.mem_cons_self
      exact absurd ⟨j, listed, earlier, Option.ne_none_iff_exists'.2 ⟨_, asks'⟩⟩ untouched
  · rintro ⟨j, hj, earlier, touches⟩
    rcases h.agreeing i hi w r placed asks found with first | same
    · exact absurd (first j hj earlier) touches
    · exact same

/-- The readout of a wire that a measurement of the group touches has the schema that is asked for.
-/
theorem Serves.exists_schema (h : g.Serves schemas) {i : Nat} (hi : i ∈ g.measurements)
    {r : WireReadout} (asks : asked schemas w i = some r) :
    ∃ placed, g.readouts.lookup w = some placed ∧ placed.schema = r.schema := by
  obtain ⟨placed, found, first, later⟩ := h.readout hi asks
  refine ⟨placed, found, ?_⟩
  by_cases touched : ∃ j ∈ g.measurements, j < i ∧ asked schemas w j ≠ none
  · exact WireReadout.schema_eq_of_numEq (later touched)
  · rw [first touched]

end OpenGroup

namespace Grouping

open OpenGroup (asked)

variable {schemas : List MeasurementSchema} {g : ExecutionGroup} {w : WireId}

/-- Every group that is placed serves its measurements. -/
theorem serves_placeAll (schemas : List MeasurementSchema) :
    ∀ g ∈ placeAll schemas, g.Serves schemas := by
  have kept : Inductive schemas fun g => g.Serves schemas := by
    refine ⟨OpenGroup.serves_empty, ?_⟩
    intro g index s serves later listed free
    exact serves.add later listed free
  exact kept.placeAll

/-- Every measurement is in one group. -/
theorem existsUnique_group {i : Nat} (there : i < schemas.length) :
    ∃ (k : Nat) (g : ExecutionGroup), (groupMeasurements schemas)[k]? = some g ∧
      i ∈ g.measurements ∧ ∀ (k' : Nat) (g' : ExecutionGroup),
        (groupMeasurements schemas)[k']? = some g' → i ∈ g'.measurements → k' = k := by
  have shared : ((groupMeasurements schemas).flatMap (·.measurements)).Perm
      (List.range schemas.length) := by
    rw [groupMeasurements_eq_map_placeAll, List.flatMap_map]
    exact placeAll_measurements schemas
  have once : ((groupMeasurements schemas).flatMap (·.measurements)).Nodup :=
    shared.nodup_iff.2 List.nodup_range
  have listed : i ∈ (groupMeasurements schemas).flatMap (·.measurements) :=
    shared.mem_iff.2 (List.mem_range.2 there)
  obtain ⟨g, hg, member⟩ := List.mem_flatMap.1 listed
  obtain ⟨k, found⟩ := List.mem_iff_getElem?.1 hg
  refine ⟨k, g, found, member, ?_⟩
  intro k' g' found' member'
  -- a second group with the measurement would list it twice
  have apart := (List.nodup_flatMap.1 once).2
  rw [List.pairwise_iff_getElem] at apart
  obtain ⟨inside, rfl⟩ := List.getElem?_eq_some_iff.1 found
  obtain ⟨inside', rfl⟩ := List.getElem?_eq_some_iff.1 found'
  rcases Nat.lt_trichotomy k' k with before | same | after
  · exact absurd member (apart k' k inside' inside before member')
  · exact same
  · exact absurd member' (apart k k' inside inside' after member)

/-- A measurement of the group touches the wire before the measurement `i` does. -/
def TouchedBefore (schemas : List MeasurementSchema) (g : ExecutionGroup) (i : Nat) (w : WireId) :
    Prop :=
  ∃ j ∈ g.measurements, j < i ∧ ∃ s r, schemas[j]? = some s ∧ s.get? w = some r

/-- A wire is touched before in a group when a measurement of it that is earlier asks for it. -/
theorem touchedBefore_iff {g : OpenGroup} {i : Nat} : TouchedBefore schemas g.close i w ↔
    ∃ j ∈ g.measurements, j < i ∧ asked schemas w j ≠ none := by
  refine exists_congr fun j => and_congr_right fun _ => and_congr_right fun _ => ?_
  rw [Option.ne_none_iff_exists', exists_comm]
  refine exists_congr fun r => ?_
  rw [asked, Option.bind_eq_some_iff]

/-- If every operation is on the wire of its readout, the operations on a wire are those of its
readouts. -/
theorem filter_diagonalizing {entries : List (WireId × WireReadout)}
    (on_wire : ∀ e ∈ entries, ∀ op ∈ e.2.diagonalizing, op.wires = [e.1]) (w : WireId) :
    (entries.flatMap (·.2.diagonalizing)).filter (·.wires = [w]) =
      (entries.filter (·.1 = w)).flatMap (·.2.diagonalizing) := by
  induction entries with
  | nil => rfl
  | cons e rest ih =>
    rw [List.forall_mem_cons] at on_wire
    rw [List.flatMap_cons, List.filter_append, ih on_wire.2, List.filter_cons]
    by_cases same : e.1 = w
    · have all : e.2.diagonalizing.filter (·.wires = [w]) = e.2.diagonalizing := by
        rw [List.filter_eq_self]
        intro op hop
        simp [on_wire.1 op hop, same]
      simp [all, same]
    · have none_left : e.2.diagonalizing.filter (·.wires = [w]) = [] := by
        rw [List.filter_eq_nil_iff]
        intro op hop
        simp [on_wire.1 op hop, same]
      simp [none_left, same]

/-- What a group does for a wire that one of its measurements touches: it reads the wire out once,
as the first measurement asks that touches the wire, after the operations that this one asks for. A
later measurement has asked for the same. -/
theorem serves (hg : g ∈ groupMeasurements schemas) {i : Nat} (hi : i ∈ g.measurements)
    {s : MeasurementSchema} (listed : schemas[i]? = some s) {r : WireReadout}
    (touched : s.get? w = some r)
    (local_operations : ∀ s ∈ schemas, ∀ v r, s.get? v = some r →
      ∀ op ∈ r.diagonalizing, op.wires = [v]) :
    ∃ placed : WireReadout, g.readouts.filter (·.1 = w) = [(w, placed.schema)] ∧
      g.diagonalizing.filter (·.wires = [w]) = placed.diagonalizing ∧
      (¬ TouchedBefore schemas g i w → placed = r) ∧
      (TouchedBefore schemas g i w → placed.numEq r = true) := by
  rw [groupMeasurements_eq_map_placeAll] at hg
  obtain ⟨opened, placed_in, rfl⟩ := List.mem_map.1 hg
  have serves := serves_placeAll schemas opened placed_in
  have asks : asked schemas w i = some r := (OpenGroup.asked_eq_get? listed w).trans touched
  obtain ⟨placed, found, first, later⟩ := serves.readout hi asks
  have entry : opened.readouts.filter (·.1 = w) = [(w, placed)] := by
    rw [filter_fst_eq serves.distinct, found]
    rfl
  refine ⟨placed, ?_, ?_, ?_, ?_⟩
  · unfold OpenGroup.close
    dsimp only
    rw [List.filter_map]
    exact congrArg (List.map fun (v, r) => (v, r.schema)) entry
  · have on_wire : ∀ e ∈ opened.readouts, ∀ op ∈ e.2.diagonalizing, op.wires = [e.1] := by
      intro e he
      obtain ⟨s', hs', listed'⟩ := readFrom_placeAll schemas opened placed_in e he
      exact local_operations s' hs' e.1 e.2 (MeasurementSchema.get?_eq_some_iff.2 listed')
    unfold OpenGroup.close
    dsimp only
    rw [filter_diagonalizing on_wire, entry, List.flatMap_singleton]
  · intro untouched
    exact first (mt touchedBefore_iff.2 untouched)
  · intro touched_before
    exact later (touchedBefore_iff.1 touched_before)

end Grouping

end Qumode
