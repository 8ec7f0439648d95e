import Qumode.Proofs.Grouping.Growth
import Qumode.Proofs.Grouping.Service

/-!
# The order of groups and of their measurements

Measurements come to a group one after another, and a new group is opened behind the others. So the
measurements of a group ascend, and the groups stand in the order of their first measurements
(`Ordered`). A measurement that touches no wire collides with no group and goes to the first one.
-/

namespace Qumode.Grouping

variable {g h : OpenGroup} {groups : List OpenGroup} {index : Nat} {s : MeasurementSchema}

/-- Some measurement of the first group comes before all those of the second. -/
def Precedes (g h : OpenGroup) : Prop := ∃ i ∈ g.measurements, ∀ j ∈ h.measurements, i < j

/-- Every group has a measurement, and it precedes the groups behind it. -/
structure Ordered (groups : List OpenGroup) : Prop where
  nonempty : ∀ g ∈ groups, g.measurements ≠ []
  pairwise : groups.Pairwise Precedes

/-- A group that takes a later measurement keeps its place behind another. -/
theorem Precedes.add (before : Precedes g h) (earlier : ∀ i ∈ g.measurements, i < index) :
    Precedes g (h.add index s) := by
  obtain ⟨i, hi, first⟩ := before
  refine ⟨i, hi, fun j hj => ?_⟩
  rw [OpenGroup.measurements_add, List.mem_append, List.mem_singleton] at hj
  rcases hj with old | rfl
  · exact first j old
  · exact earlier i hi

/-- A group still precedes another when a measurement joins it, since none leaves it. -/
theorem Precedes.of_add (before : Precedes g h) : Precedes (g.add index s) h := by
  obtain ⟨i, hi, first⟩ := before
  exact ⟨i, List.mem_append_left _ hi, first⟩

/-- A group with earlier measurements precedes one that is opened now. -/
theorem precedes_new (nonempty : g.measurements ≠ []) (earlier : ∀ i ∈ g.measurements, i < index) :
    Precedes g (OpenGroup.empty.add index s) := by
  obtain ⟨i, hi⟩ := List.exists_mem_of_ne_nil g.measurements nonempty
  refine ⟨i, hi, fun j hj => ?_⟩
  rw [List.mem_singleton.1 hj]
  exact earlier i hi

theorem ordered_cons : Ordered (g :: groups) ↔
    (g.measurements ≠ [] ∧ ∀ h ∈ groups, Precedes g h) ∧ Ordered groups := by
  constructor
  · rintro ⟨nonempty, pairwise⟩
    rw [List.forall_mem_cons] at nonempty
    rw [List.pairwise_cons] at pairwise
    exact ⟨⟨nonempty.1, pairwise.1⟩, nonempty.2, pairwise.2⟩
  · rintro ⟨⟨nonempty, first⟩, rest⟩
    exact ⟨List.forall_mem_cons.2 ⟨nonempty, rest.nonempty⟩,
      List.pairwise_cons.2 ⟨first, rest.pairwise⟩⟩

/-- A placement of a later measurement keeps the order. -/
theorem Ordered.place (ordered : Ordered groups) (earlier : Earlier index groups)
    (s : MeasurementSchema) : Ordered (place index s groups) := by
  induction groups with
  | nil => exact ⟨by simp [Grouping.place, OpenGroup.measurements_add], List.pairwise_singleton _ _⟩
  | cons g rest ih =>
    obtain ⟨⟨nonempty, first⟩, behind⟩ := ordered_cons.1 ordered
    obtain ⟨before, later⟩ := List.forall_mem_cons.1 earlier
    unfold Grouping.place
    split
    · refine ordered_cons.2 ⟨⟨nonempty, fun h hh => ?_⟩, ih behind later⟩
      rcases mem_place hh with kept | ⟨old, known | rfl, -, rfl⟩
      · exact first h kept
      · exact (first old known).add before
      · exact precedes_new nonempty before
    · refine ordered_cons.2 ⟨⟨?_, fun h hh => (first h hh).of_add⟩, behind⟩
      simp [OpenGroup.measurements_add]

/-- A run of placements keeps the order. -/
theorem Ordered.places (ordered : Ordered groups) (earlier : Earlier index groups)
    (rest : List MeasurementSchema) :
    Ordered ((rest.zipIdx index).foldl (fun groups (s, index) => Grouping.place index s groups)
      groups) := by
  induction rest generalizing index groups with
  | nil => exact ordered
  | cons s rest ih => exact ih (ordered.place earlier s) (earlier.place s)

/-- The placed groups are in order of their first measurements. -/
theorem ordered_placeAll (schemas : List MeasurementSchema) : Ordered (placeAll schemas) := by
  have none_yet : Ordered [] := ⟨nofun, .nil⟩
  exact none_yet.places nofun schemas

/-- The smallest measurement of a group comes before that of a group that it precedes. -/
theorem Precedes.min?_lt (before : Precedes g h) (nonempty : h.measurements ≠ []) :
    ∃ i j, g.measurements.min? = some i ∧ h.measurements.min? = some j ∧ i < j := by
  obtain ⟨k, hk, first⟩ := before
  obtain ⟨i, smallest⟩ := Option.isSome_iff_exists.1 (List.isSome_min?_of_mem hk)
  obtain ⟨j, smallest'⟩ := Option.isSome_iff_exists.1 (List.isSome_min?_of_ne_nil nonempty)
  refine ⟨i, j, smallest, smallest', ?_⟩
  calc
    i ≤ k := (List.min?_eq_some_iff.1 smallest).2 k hk
    _ < j := first j (List.min?_mem smallest')

/-- A measurement that touches no wire goes to the first group. -/
theorem mem_place_of_isEmpty (empty : s.isEmpty = true) (index : Nat) (groups : List OpenGroup) :
    ∃ g, (place index s groups)[0]? = some g ∧ index ∈ g.measurements := by
  cases groups with
  | nil => exact ⟨_, rfl, List.mem_singleton_self index⟩
  | cons g rest =>
    have free : g.collides s = false := by
      rw [OpenGroup.collides, List.isEmpty_iff.1 empty]
      rfl
    unfold Grouping.place
    rw [free]
    exact ⟨_, rfl, List.mem_append_right _ (List.mem_singleton_self index)⟩

/-- A measurement that touches no wire stays in the first group. -/
theorem exists_first_group {schemas : List MeasurementSchema} (listed : schemas[index]? = some s)
    (empty : s.isEmpty = true) :
    ∃ g, (placeAll schemas)[0]? = some g ∧ index ∈ g.measurements := by
  obtain ⟨g, first, member⟩ := mem_place_of_isEmpty empty index (placeAll (schemas.take index))
  rw [← placeAll_take_succ listed] at first
  have later := placeAll_continues (schemas.take_prefix (index + 1))
  obtain ⟨g', found, grown⟩ := later.getElem? first
  exact ⟨g', found, grown.measurements.subset member⟩

/-- The groups share the measurements out among themselves, in order: every index is in one group,
once, the measurements of a group ascend, and the groups stand in the order of their smallest
measurements. A measurement that touches no wire is in the first group. -/
theorem groups_partition_in_order (schemas : List MeasurementSchema) :
    ((groupMeasurements schemas).flatMap (·.measurements)).Perm (List.range schemas.length) ∧
    (∀ g ∈ groupMeasurements schemas, g.measurements ≠ [] ∧ g.measurements.Pairwise (· < ·)) ∧
    ((groupMeasurements schemas).Pairwise fun g h =>
      ∃ i j, g.measurements.min? = some i ∧ h.measurements.min? = some j ∧ i < j) ∧
    ∀ (i : Nat) (s : MeasurementSchema), schemas[i]? = some s → s.isEmpty = true →
      ∃ g, (groupMeasurements schemas)[0]? = some g ∧ i ∈ g.measurements := by
  have ordered := ordered_placeAll schemas
  rw [groupMeasurements_eq_map_placeAll]
  refine ⟨?_, ?_, ?_, ?_⟩
  · rw [List.flatMap_map]
    exact placeAll_measurements schemas
  · intro g hg
    obtain ⟨opened, placed, rfl⟩ := List.mem_map.1 hg
    exact ⟨ordered.nonempty opened placed, (serves_placeAll schemas opened placed).ascending⟩
  · rw [List.pairwise_map]
    refine ordered.pairwise.imp_of_mem fun _ placed before => ?_
    exact before.min?_lt (ordered.nonempty _ placed)
  · intro i s listed empty
    obtain ⟨g, first, member⟩ := exists_first_group listed empty
    refine ⟨g.close, ?_, member⟩
    rw [List.getElem?_map, first]
    rfl

/-- A position and a count of one qumode need two groups, and a measurement that touches no wire
goes back to the first one. -/
example :
    let asking (r : WireReadout) : MeasurementSchema :=
      MeasurementSchema.empty.push ⟨0⟩ r List.not_mem_nil
    let schemas := [asking (.rotated .position .zero ⟨0⟩), asking (.plain .discrete), .empty,
      asking (.plain .discrete)]
    (groupMeasurements schemas).map (·.measurements) = [[0, 2], [1, 3]] := by decide +kernel

end Qumode.Grouping
