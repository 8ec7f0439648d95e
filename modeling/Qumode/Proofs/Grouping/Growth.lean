import Mathlib.Data.List.Infix
import Qumode.Proofs.Grouping.Partition

/-!
# Groups only grow

Placing one more measurement changes one group, at its end, or opens one behind the others. So the
groups of some measurements are the beginning of the groups of a longer list
(`groupMeasurements_append`): each of them goes on in the group at its place, and new groups stand
behind.
-/

namespace Qumode

/-- The second group begins like the first. -/
structure OpenGroup.Extends (g h : OpenGroup) : Prop where
  measurements : g.measurements <+: h.measurements
  readouts : g.readouts <+: h.readouts

/-- The measurements, the readouts and the operations of the second group begin with those of the
first. -/
structure ExecutionGroup.Extends (g h : ExecutionGroup) : Prop where
  measurements : g.measurements <+: h.measurements
  readouts : g.readouts <+: h.readouts
  diagonalizing : g.diagonalizing <+: h.diagonalizing

namespace OpenGroup

variable {g h k : OpenGroup}

theorem Extends.refl (g : OpenGroup) : g.Extends g := ⟨List.prefix_rfl, List.prefix_rfl⟩

theorem Extends.trans (first : g.Extends h) (second : h.Extends k) : g.Extends k where
  measurements := first.measurements.trans second.measurements
  readouts := first.readouts.trans second.readouts

/-- A readout is added at the end or not at all. -/
theorem prefix_addReadout (readouts : List (WireId × WireReadout)) (w : WireId) (r : WireReadout) :
    readouts <+: addReadout readouts w r := by
  unfold addReadout
  split
  · exact List.prefix_rfl
  · exact List.prefix_append readouts [(w, r)]

/-- So readouts that are there stay in front. -/
theorem prefix_foldl_addReadout (entries readouts : List (WireId × WireReadout)) :
    readouts <+: entries.foldl (fun rs (w, r) => addReadout rs w r) readouts := by
  induction entries generalizing readouts with
  | nil => exact List.prefix_rfl
  | cons e rest ih => exact (prefix_addReadout readouts e.1 e.2).trans (ih _)

/-- A group that a measurement joins is extended. -/
theorem extends_add (g : OpenGroup) (index : Nat) (s : MeasurementSchema) :
    g.Extends (g.add index s) where
  measurements := List.prefix_append g.measurements [index]
  readouts := prefix_foldl_addReadout s.entries g.readouts

/-- What a group applies and reads out in the end follows its readouts. -/
theorem Extends.close (grown : g.Extends h) : g.close.Extends h.close where
  measurements := grown.measurements
  readouts := grown.readouts.map _
  diagonalizing := grown.readouts.flatMap _

end OpenGroup

namespace Grouping

/-- No group is lost, and the group at a place begins like the one that was there. -/
structure Grown (groups later : List ExecutionGroup) : Prop where
  length_le : groups.length ≤ later.length
  kept : ∀ (k : Nat) (g : ExecutionGroup), groups[k]? = some g →
    ∃ g', later[k]? = some g' ∧ g.Extends g'

variable {α β : Type} {R : α → α → Prop} {xs ys zs : List α}

/-- Every item of the first list goes over into the one at its place in the second list, which may
be longer. -/
inductive Continues (R : α → α → Prop) : List α → List α → Prop where
  | nil (ys : List α) : Continues R [] ys
  | cons {x y : α} {xs ys : List α} (first : R x y) (rest : Continues R xs ys) :
      Continues R (x :: xs) (y :: ys)

namespace Continues

theorem refl (reflexive : ∀ x, R x x) : (xs : List α) → Continues R xs xs
  | [] => .nil []
  | x :: xs => .cons (reflexive x) (refl reflexive xs)

/-- Continuing and continuing again is continuing, if the relation is transitive. -/
theorem trans (transitive : ∀ x y z, R x y → R y z → R x z) (first : Continues R xs ys)
    (second : Continues R ys zs) : Continues R xs zs := by
  induction first generalizing zs with
  | nil => exact .nil zs
  | cons at_head _ ih =>
    cases second with
    | cons at_head' rest => exact .cons (transitive _ _ _ at_head at_head') (ih rest)

/-- What is made of the items continues, if the relation allows it. -/
theorem map {S : β → β → Prop} {f : α → β} (h : Continues R xs ys)
    (use : ∀ x y, R x y → S (f x) (f y)) : Continues S (xs.map f) (ys.map f) := by
  induction h with
  | nil => exact .nil _
  | cons first _ ih => exact .cons (use _ _ first) ih

/-- Nothing is taken away. -/
theorem length_le (h : Continues R xs ys) : xs.length ≤ ys.length := by
  induction h with
  | nil ys => exact Nat.zero_le ys.length
  | cons _ _ ih => exact Nat.succ_le_succ ih

/-- The item at a place is related to the one that was there. -/
theorem getElem? (h : Continues R xs ys) {i : Nat} {x : α} (found : xs[i]? = some x) :
    ∃ y, ys[i]? = some y ∧ R x y := by
  induction h generalizing i with
  | nil => cases found
  | cons first _ ih =>
    cases i with
    | zero =>
      cases found
      exact ⟨_, rfl, first⟩
    | succ i => exact ih found

end Continues

variable {groups : List OpenGroup}

/-- A placement extends one group or adds one at the end. -/
theorem place_continues (index : Nat) (s : MeasurementSchema) (groups : List OpenGroup) :
    Continues OpenGroup.Extends groups (place index s groups) := by
  induction groups with
  | nil => exact .nil _
  | cons g rest ih =>
    unfold place
    split
    · exact .cons (.refl g) ih
    · exact .cons (g.extends_add index s) (.refl .refl rest)

/-- A run of placements keeps what is placed. -/
theorem places_continue (later : List (MeasurementSchema × Nat)) (groups : List OpenGroup) :
    Continues OpenGroup.Extends groups
      (later.foldl (fun groups (s, index) => place index s groups) groups) := by
  induction later generalizing groups with
  | nil => exact .refl .refl groups
  | cons p later ih =>
    have step := place_continues p.2 p.1 groups
    exact step.trans (fun _ _ _ => OpenGroup.Extends.trans) (ih _)

/-- Later measurements only extend and add groups. -/
theorem placeAll_append (schemas more : List MeasurementSchema) :
    Continues OpenGroup.Extends (placeAll schemas) (placeAll (schemas ++ more)) := by
  unfold placeAll
  rw [List.zipIdx_append, List.foldl_append]
  exact places_continue _ _

/-- The groups for a beginning of the list are continued by those for the list. -/
theorem placeAll_continues {schemas longer : List MeasurementSchema} (begins : schemas <+: longer) :
    Continues OpenGroup.Extends (placeAll schemas) (placeAll longer) := by
  obtain ⟨more, rfl⟩ := begins
  exact placeAll_append schemas more

/-- The last placement of the first measurements. -/
theorem placeAll_take_succ {schemas : List MeasurementSchema} {i : Nat} {s : MeasurementSchema}
    (listed : schemas[i]? = some s) :
    placeAll (schemas.take (i + 1)) = place i s (placeAll (schemas.take i)) := by
  have inside : i ≤ schemas.length := Nat.le_of_lt (List.getElem?_eq_some_iff.1 listed).1
  unfold placeAll
  rw [List.take_add_one, listed, Option.toList_some, List.zipIdx_append, List.foldl_append,
    List.length_take_of_le inside, Nat.zero_add]
  rfl

/-- More measurements behind the others add to the groups at their ends, and add groups at the end.
-/
theorem groupMeasurements_append (schemas more : List MeasurementSchema) :
    Grown (groupMeasurements schemas) (groupMeasurements (schemas ++ more)) := by
  rw [groupMeasurements_eq_map_placeAll, groupMeasurements_eq_map_placeAll]
  have closed := (placeAll_append schemas more).map fun _ _ => OpenGroup.Extends.close
  exact ⟨closed.length_le, fun _ _ => closed.getElem?⟩

end Grouping

end Qumode
