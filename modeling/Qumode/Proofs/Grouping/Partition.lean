import Qumode.Proofs.Grouping.Index
import Qumode.Proofs.Steps

/-!
# What the groups hold

Every placement puts one index into one group, so the groups share the measurements out among
themselves (`placeAll_measurements`). What a group keeps when it takes one more measurement holds of
all groups in the end (`Inductive.placeAll`): so the readouts of a group are those of measurements,
and so are its diagonalizing operations.
-/

namespace Qumode

namespace OpenGroup

variable {g : OpenGroup} {index : Nat} {s : MeasurementSchema} {e : WireId × WireReadout}

theorem measurements_add (g : OpenGroup) (index : Nat) (s : MeasurementSchema) :
    (g.add index s).measurements = g.measurements ++ [index] := rfl

theorem mem_addReadout {readouts : List (WireId × WireReadout)} {w : WireId} {r : WireReadout}
    (h : e ∈ addReadout readouts w r) : e ∈ readouts ∨ e = (w, r) := by
  rw [addReadout] at h
  split at h
  · exact .inl h
  · rwa [List.mem_append, List.mem_singleton] at h

/-- Readouts of a group come from before or from the measurement that joins. -/
theorem mem_foldl_addReadout {entries readouts : List (WireId × WireReadout)}
    (h : e ∈ entries.foldl (fun rs (w, r) => addReadout rs w r) readouts) :
    e ∈ readouts ∨ e ∈ entries := by
  induction entries generalizing readouts with
  | nil => exact .inl h
  | cons entry entries ih =>
    rcases ih h with early | late
    · rcases mem_addReadout early with before | rfl
      · exact .inl before
      · exact .inr List.mem_cons_self
    · exact .inr (List.mem_cons_of_mem _ late)

/-- Nothing collides with an empty group. -/
theorem empty_free (s : MeasurementSchema) : empty.collides s = false := by
  rw [collides, List.any_eq_false]
  intro e _ differ
  cases differ

theorem mem_readouts_add (h : e ∈ (g.add index s).readouts) : e ∈ g.readouts ∨ e ∈ s.entries :=
  mem_foldl_addReadout h

end OpenGroup

namespace Grouping

variable {index : Nat} {s : MeasurementSchema} {groups : List OpenGroup} {g : OpenGroup}
  {schemas : List MeasurementSchema}

/-- After a placement a group is one from before, or it is one that the measurement does not collide
with, from before or new, with the measurement. -/
theorem mem_place (h : g ∈ place index s groups) :
    g ∈ groups ∨ ∃ old, (old ∈ groups ∨ old = .empty) ∧ old.collides s = false ∧
      g = old.add index s := by
  induction groups with
  | nil => exact .inr ⟨.empty, .inr rfl, OpenGroup.empty_free s, List.mem_singleton.1 h⟩
  | cons first rest ih =>
    rw [place] at h
    split at h
    case isTrue =>
      rcases List.mem_cons.1 h with rfl | later
      · exact .inl List.mem_cons_self
      · rcases ih later with kept | ⟨old, from_rest, free, rfl⟩
        · exact .inl (List.mem_cons_of_mem _ kept)
        · exact .inr ⟨old, from_rest.imp_left (List.mem_cons_of_mem _), free, rfl⟩
    case isFalse free =>
      rcases List.mem_cons.1 h with rfl | later
      · exact .inr ⟨first, .inl List.mem_cons_self, by simpa using free, rfl⟩
      · exact .inl (List.mem_cons_of_mem _ later)

/-- A placement puts one index into one group. -/
theorem place_measurements (index : Nat) (s : MeasurementSchema) (groups : List OpenGroup) :
    ((place index s groups).flatMap (·.measurements)).Perm
      (groups.flatMap (·.measurements) ++ [index]) := by
  induction groups with
  | nil => exact .refl [index]
  | cons g rest ih =>
    rw [place]
    split
    · rw [List.flatMap_cons, List.flatMap_cons, List.append_assoc]
      exact ih.append_left g.measurements
    · rw [List.flatMap_cons, List.flatMap_cons, List.append_assoc]
      rw [OpenGroup.measurements_add, List.append_assoc]
      exact List.perm_append_comm.append_left g.measurements

/-- All measurements of the groups come before the index. -/
def Earlier (index : Nat) (groups : List OpenGroup) : Prop :=
  ∀ g ∈ groups, ∀ i ∈ g.measurements, i < index

/-- A placement adds its own measurement behind all earlier ones. -/
theorem Earlier.place (earlier : Earlier index groups) (s : MeasurementSchema) :
    Earlier (index + 1) (place index s groups) := by
  intro g hg i hi
  have listed : i ∈ groups.flatMap (·.measurements) ++ [index] :=
    (place_measurements index s groups).mem_iff.1 (List.mem_flatMap.2 ⟨g, hg, hi⟩)
  rw [List.mem_append, List.mem_singleton, List.mem_flatMap] at listed
  rcases listed with ⟨g', hg', hi'⟩ | rfl
  · exact Nat.lt_succ_of_lt (earlier g' hg' i hi')
  · exact Nat.lt_succ_self i

/-- What holds of the empty group, and of a group with one more measurement if that one comes later
and does not collide. -/
structure Inductive (schemas : List MeasurementSchema) (P : OpenGroup → Prop) : Prop where
  empty : P .empty
  add : ∀ g index s, P g → (∀ i ∈ g.measurements, i < index) → schemas[index]? = some s →
    g.collides s = false → P (g.add index s)

/-- A run of placements keeps what a placement keeps. -/
theorem Inductive.places {P : OpenGroup → Prop} (h : Inductive schemas P)
    {rest : List MeasurementSchema} {start : Nat} (left : schemas.drop start = rest)
    (holds : ∀ g ∈ groups, P g) (earlier : Earlier start groups) :
    ∀ g ∈ (rest.zipIdx start).foldl (fun groups (s, index) => place index s groups) groups,
      P g := by
  induction rest generalizing start groups with
  | nil => exact holds
  | cons s rest ih =>
    obtain ⟨next, behind⟩ := Steps.of_drop_eq_cons left
    refine ih behind (fun g hg => ?_) (earlier.place s)
    rcases mem_place hg with kept | ⟨old, known | rfl, free, rfl⟩
    · exact holds g kept
    · exact h.add old start s (holds old known) (earlier old known) next free
    · exact h.add .empty start s h.empty nofun next free

/-- What placements keep holds of every group in the end. -/
theorem Inductive.placeAll {P : OpenGroup → Prop} (h : Inductive schemas P) :
    ∀ g ∈ placeAll schemas, P g :=
  h.places rfl (List.forall_mem_nil P) (List.forall_mem_nil _)

/-- A run of placements puts every index of the run into one group. -/
theorem places_measurements (rest : List MeasurementSchema) (start : Nat)
    (groups : List OpenGroup) :
    (((rest.zipIdx start).foldl (fun groups (s, index) => place index s groups)
      groups).flatMap (·.measurements)).Perm
      (groups.flatMap (·.measurements) ++ List.range' start rest.length) := by
  induction rest generalizing start groups with
  | nil => simp
  | cons s rest ih =>
    rw [List.zipIdx_cons, List.foldl_cons, List.length_cons, List.range'_succ, List.append_cons]
    exact (ih (start + 1) _).trans ((place_measurements start s groups).append_right _)

/-- The groups share the measurements out among themselves: every index is in one group, once. -/
theorem placeAll_measurements (schemas : List MeasurementSchema) :
    ((placeAll schemas).flatMap (·.measurements)).Perm (List.range schemas.length) := by
  rw [List.range_eq_range']
  exact places_measurements schemas 0 []

/-- The readouts of the groups are readouts of the measurements. -/
def ReadFrom (schemas : List MeasurementSchema) (groups : List OpenGroup) : Prop :=
  ∀ g ∈ groups, ∀ e ∈ g.readouts, ∃ s ∈ schemas, e ∈ s.entries

/-- A group reads nothing out that no measurement asks for. -/
theorem readFrom_placeAll (schemas : List MeasurementSchema) :
    ReadFrom schemas (placeAll schemas) := by
  have kept : Inductive schemas fun g => ∀ e ∈ g.readouts, ∃ s ∈ schemas, e ∈ s.entries := by
    refine ⟨fun e he => (nomatch he), ?_⟩
    intro g index s held _ listed _ e he
    rcases OpenGroup.mem_readouts_add he with before | new
    · exact held e before
    · exact ⟨s, List.mem_of_getElem? listed, new⟩
  exact kept.placeAll

/-- The groups are the placed ones, closed. -/
theorem groupMeasurements_eq_map_placeAll (schemas : List MeasurementSchema) :
    groupMeasurements schemas = (placeAll schemas).map OpenGroup.close := by
  rw [groupMeasurements_eq_map_close, board_openGroups]

/-- As many measurements are placed as there are. -/
theorem length_measurements (schemas : List MeasurementSchema) :
    ((groupMeasurements schemas).flatMap ExecutionGroup.measurements).length = schemas.length := by
  have shared := (placeAll_measurements schemas).length_eq
  rw [List.length_range] at shared
  rw [groupMeasurements_eq_map_placeAll, List.flatMap_map, ← shared]
  rfl

/-- A group reads a wire out as some measurement does. -/
theorem mem_readouts {g : ExecutionGroup} (hg : g ∈ groupMeasurements schemas) {w : WireId}
    {schema : BasisSchema} (h : (w, schema) ∈ g.readouts) :
    ∃ s ∈ schemas, ∃ r, s.get? w = some r ∧ r.schema = schema := by
  rw [groupMeasurements_eq_map_placeAll] at hg
  obtain ⟨opened, placed, rfl⟩ := List.mem_map.1 hg
  obtain ⟨⟨v, r⟩, he, equal⟩ := List.mem_map.1 h
  cases equal
  obtain ⟨s, hs, entry⟩ := readFrom_placeAll schemas opened placed _ he
  exact ⟨s, hs, r, MeasurementSchema.get?_eq_some_iff.2 entry, rfl⟩

/-- A group applies the operations that come with its readouts. -/
theorem mem_diagonalizing {g : ExecutionGroup} (hg : g ∈ groupMeasurements schemas)
    {op : Operation} (h : op ∈ g.diagonalizing) :
    ∃ s ∈ schemas, ∃ w r, s.get? w = some r ∧ op ∈ r.diagonalizing := by
  rw [groupMeasurements_eq_map_placeAll] at hg
  obtain ⟨opened, placed, rfl⟩ := List.mem_map.1 hg
  obtain ⟨⟨w, r⟩, he, hop⟩ := List.mem_flatMap.1 h
  obtain ⟨s, hs, entry⟩ := readFrom_placeAll schemas opened placed _ he
  exact ⟨s, hs, w, r, MeasurementSchema.get?_eq_some_iff.2 entry, hop⟩

end Grouping

end Qumode
