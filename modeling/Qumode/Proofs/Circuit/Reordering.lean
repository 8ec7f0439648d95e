import Mathlib.Data.List.Perm.Basic
import Qumode.Proofs.Circuit.Normalization
import Qumode.Proofs.Circuit.Renaming
import Qumode.Proofs.Observable.Reordering

/-!
# Descriptions in another order

A description may list its operations and its measurements in another order, and each observable may
have its terms and factors in another order. What a description needs to be a circuit has no order,
so one is a circuit when the other is. Their wires are numbered differently; up to a renaming of ids
the circuits have the same operations, and the measurements at corresponding places the same leaves
(`Circuit.Rearranged`).
-/

namespace Qumode

/-! ## Lists in another order -/

section Paired

variable {α β γ δ : Type} {R : α → β → Prop} {xs : List α} {ys : List β} {place : Equiv.Perm Nat}

/-- The items of two lists are related, the one at place `i` of the first with the one at `place i`
of the second. -/
def Paired (R : α → β → Prop) (place : Equiv.Perm Nat) (xs : List α) (ys : List β) : Prop :=
  ∀ i, Option.Rel R xs[i]? ys[place i]?

theorem rel_flip {R' : β → α → Prop} {x : Option α} {y : Option β} (h : Option.Rel R x y)
    (use : ∀ a b, R a b → R' b a) : Option.Rel R' y x := by
  cases h with
  | some related => exact .some (use _ _ related)
  | none => exact .none

/-- A pairing can be read backwards. -/
theorem Paired.symm {R' : β → α → Prop} (h : Paired R place xs ys) (use : ∀ a b, R a b → R' b a) :
    Paired R' place.symm ys xs := by
  intro i
  have at_i := rel_flip (h (place.symm i)) use
  rwa [place.apply_symm_apply] at at_i

/-- Every item of the second list has one of the first. -/
theorem Paired.exists_left (h : Paired R place xs ys) {y : β} (hy : y ∈ ys) : ∃ x ∈ xs, R x y := by
  obtain ⟨i, found⟩ := List.mem_iff_getElem?.1 hy
  have at_i := h (place.symm i)
  rw [place.apply_symm_apply, found] at at_i
  generalize there : xs[place.symm i]? = item at at_i
  cases at_i with
  | some related => exact ⟨_, List.mem_of_getElem? there, related⟩

/-- Lists that are related item by item are related at every place. -/
theorem rel_getElem?_of_forall₂ (h : List.Forall₂ R xs ys) (i : Nat) :
    Option.Rel R xs[i]? ys[i]? := by
  induction h generalizing i with
  | nil => exact .none
  | cons first _ ih =>
    cases i with
    | zero => exact .some first
    | succ i => exact ih i

/-- Relations of optional values are composed as those of values are. -/
theorem rel_combine {P : γ → α → Prop} {Q : δ → β → Prop} {S : γ → δ → Prop} {z : Option γ}
    {x : Option α} {y : Option β} {w : Option δ} (left : Option.Rel P z x) (h : Option.Rel R x y)
    (right : Option.Rel Q w y) (combine : ∀ z x y w, P z x → R x y → Q w y → S z w) :
    Option.Rel S z w := by
  cases h with
  | some related =>
    cases left with
    | some left =>
      cases right with
      | some right => exact .some (combine _ _ _ _ left related right)
  | none =>
    cases left with
    | none =>
      cases right with
      | none => exact .none

/-- What belongs to the items of two paired lists is paired in the same way. -/
theorem Paired.of_forall₂ {P : γ → α → Prop} {Q : δ → β → Prop} {S : γ → δ → Prop} {zs : List γ}
    {ws : List δ} (h : Paired R place xs ys) (left : List.Forall₂ P zs xs)
    (right : List.Forall₂ Q ws ys) (combine : ∀ z x y w, P z x → R x y → Q w y → S z w) :
    Paired S place zs ws := by
  intro i
  exact rel_combine (rel_getElem?_of_forall₂ left i) (h i)
    (rel_getElem?_of_forall₂ right (place i)) combine

/-- Lists whose items belong to those of permuted lists, one to one, are permuted. -/
theorem perm_of_forall₂ (unique : Relator.LeftUnique R) {xs' : List α} {ys' : List β}
    (left : List.Forall₂ R xs ys) (perm : ys.Perm ys') (right : List.Forall₂ R xs' ys') :
    xs.Perm xs' := by
  obtain ⟨middle, related, perm'⟩ := List.perm_comp_forall₂ perm right.flip
  exact List.left_unique_forall₂' unique left related.flip ▸ perm'

end Paired

/-- The second description has the operations of the first in some order, and for each observable of
the first a reordering of it. -/
structure Description.Reordered (d d' : Description) (place : Equiv.Perm Nat) : Prop where
  operations : d.operations.Perm d'.operations
  measurements : Paired Observable.Reordered place d.measurements d'.measurements

namespace Description.Reordered

variable {d d' : Description} {place : Equiv.Perm Nat}

/-- A reordering can be undone. -/
theorem symm (h : d.Reordered d' place) : d'.Reordered d place.symm where
  operations := h.operations.symm
  measurements := h.measurements.symm fun _ _ => Observable.Reordered.symm

/-- The order has no part in being well-formed. -/
theorem wellFormed (h : d.Reordered d' place) (good : d.WellFormed) : d'.WellFormed where
  counted r hr := good.counted r (h.operations.mem_iff.2 hr)
  distinct r hr := good.distinct r (h.operations.mem_iff.2 hr)
  accepted m' hm' n hn := by
    obtain ⟨m, hm, reordered⟩ := h.measurements.exists_left hm'
    exact good.accepted m hm n (reordered.leafList_perm.mem_iff.2 hn)
  filled m' hm' := by
    obtain ⟨m, hm, reordered⟩ := h.measurements.exists_left hm'
    exact reordered.filled (good.filled m hm)

/-- A reordering refers to the same wires. -/
theorem mem_references (h : d.Reordered d' place) {w : Wire} (referred : w ∈ d'.references) :
    w ∈ d.references := by
  rcases List.mem_append.1 referred with operation | measurement
  · exact List.mem_append_left _ ((h.operations.flatMap_right _).mem_iff.2 operation)
  · obtain ⟨m', hm', inside⟩ := List.mem_flatMap.1 measurement
    obtain ⟨m, hm, reordered⟩ := h.measurements.exists_left hm'
    refine List.mem_append_right _ (List.mem_flatMap.2 ⟨m, hm, ?_⟩)
    exact (reordered.leafList_perm.flatMap_right _).mem_iff.2 inside

/-- A description in another order is a circuit when the description is. -/
theorem isOk_iff (h : d.Reordered d' place) :
    (∃ c, Circuit.ofDescription d = .ok c) ↔ ∃ c', Circuit.ofDescription d' = .ok c' := by
  rw [Circuit.ofDescription_isOk_iff, Circuit.ofDescription_isOk_iff]
  exact ⟨h.wellFormed, h.symm.wellFormed⟩

end Description.Reordered

/-- A record declares one capability at most. -/
theorem OperationRecord.Declares.unique {r : OperationRecord} {capability capability' : Capability}
    (h : r.Declares capability) (h' : r.Declares capability') : capability = capability' := by
  cases h with
  | standard tag =>
    cases h' with
    | standard => rfl
    | continuousNative tag' => cases tag.symm.trans tag'
    | hybrid tag' => cases tag.symm.trans tag'
  | continuousNative tag =>
    cases h' with
    | standard tag' => cases tag.symm.trans tag'
    | continuousNative => rfl
    | hybrid tag' => cases tag.symm.trans tag'
  | hybrid tag given =>
    cases h' with
    | standard tag' => cases tag.symm.trans tag'
    | continuousNative tag' => cases tag.symm.trans tag'
    | hybrid _ given' =>
      cases given.symm.trans given'
      rfl

section StandsFor

variable {t u : WireTable} {f : WireId ≃ WireId}

/-- A renamed operation stands for the same record. -/
theorem Operation.StandsFor.rename (renames : t.Renames u f) {op : Operation} {r : OperationRecord}
    (h : op.StandsFor t r) : (op.rename f).StandsFor u r :=
  ⟨h.name, h.wires.rename renames, h.distinct, h.params, h.capability⟩

/-- One operation over a table stands for a record. -/
theorem Operation.standsFor_leftUnique (t : WireTable) :
    Relator.LeftUnique (Operation.StandsFor t) := by
  intro op op' r h h'
  obtain ⟨name, wires, params, capability⟩ := op
  obtain ⟨name', wires', params', capability'⟩ := op'
  cases h.name.trans h'.name.symm
  cases h.wires.unique h'.wires
  cases h.params.trans h'.params.symm
  cases h.capability.unique h'.capability
  rfl

end StandsFor

/-- The second circuit has the wires, the operations and the leaves of the first up to a renaming of
ids and an order. -/
structure Circuit.Rearranged (c c' : Circuit) (f : WireId ≃ WireId) (place : Equiv.Perm Nat) :
    Prop where
  wires : c.wires.Renames c'.wires f
  operations : (c.operations.map (Operation.rename f)).Perm c'.operations
  leaves : Paired (fun m m' : Observable Leaf => (m.leafList.map (Leaf.rename f)).Perm m'.leafList)
    place c.measurements c'.measurements

namespace Circuit

variable {c c' : Circuit} {d d' : Description} {f : WireId ≃ WireId} {place : Equiv.Perm Nat}

/-- A permutation of renamed items is undone by naming them back. -/
theorem perm_map_symm {α : Type} {rename back : α → α} {xs ys : List α}
    (inverse : ∀ x, back (rename x) = x) (perm : (xs.map rename).Perm ys) :
    (ys.map back).Perm xs := by
  have same : back ∘ rename = id := funext inverse
  have images := perm.symm.map back
  rwa [List.map_map, same, List.map_id] at images

/-- A rearrangement can be undone. -/
theorem Rearranged.symm (h : c.Rearranged c' f place) : c'.Rearranged c f.symm place.symm where
  wires := h.wires.symm
  operations := perm_map_symm (Operation.rename_symm f) h.operations
  leaves := h.leaves.symm fun _ _ => perm_map_symm (Leaf.rename_symm f)

/-- The circuits of a description and of the description in another order. -/
theorem exists_rearranged (h : d.Reordered d' place) (built : ofDescription d = .ok c)
    (built' : ofDescription d' = .ok c') : ∃ f, c.Rearranged c' f place := by
  obtain ⟨wires, operations, measurements⟩ := lists_of_ofDescription built
  obtain ⟨wires', operations', measurements'⟩ := lists_of_ofDescription built'
  rw [Description.references_entries] at wires wires'
  rw [Description.records_entries] at operations operations'
  rw [Description.observables_entries] at measurements measurements'
  have same (w : Wire) : w ∈ c.wires.names ↔ w ∈ c'.wires.names := by
    rw [wires.mem_names, wires'.mem_names]
    exact ⟨h.symm.mem_references, h.mem_references⟩
  obtain ⟨f, renames⟩ := WireTable.exists_renames same
  refine ⟨f, renames, ?_, ?_⟩
  · have renamed := operations.imp fun _ _ => Operation.StandsFor.rename renames
    exact perm_of_forall₂ (Operation.standsFor_leftUnique c'.wires)
      (List.forall₂_map_left_iff.2 renamed) h.operations operations'
  · refine h.measurements.of_forall₂ measurements measurements' ?_
    intro m raw raw' m' stands reordered stands'
    have renamed := stands.leaves.imp fun _ _ => Leaf.StandsFor.rename renames
    exact perm_of_forall₂ (Leaf.standsFor_leftUnique c'.wires)
      (List.forall₂_map_left_iff.2 renamed) reordered.leafList_perm stands'.leaves

end Circuit

end Qumode
