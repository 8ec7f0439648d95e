import Qumode.Proofs.Observable.Nodes

/-!
# Observables up to the order of terms and factors

Two observables are reorderings of each other when one comes from the other by permuting the terms
of sums and the factors of products, at any depth. A reordering has the same leaves in another
order, and it has no empty sum or product when the other has none.
-/

namespace Qumode.Observable

variable {α : Type} {t u : Observable α}

/-- The second tree is the first with the terms of some sums and the factors of some products in
another order. -/
inductive Reordered : Observable α → Observable α → Prop where
  | refl (t : Observable α) : Reordered t t
  | trans {t u v : Observable α} (first : Reordered t u) (second : Reordered u v) : Reordered t v
  | terms {terms terms' : List (Observable α)} (perm : terms.Perm terms') :
      Reordered (sum terms) (sum terms')
  | factors {factors factors' : List (Observable α)} (perm : factors.Perm factors') :
      Reordered (product factors) (product factors')
  | inTerm {t u : Observable α} (before after : List (Observable α)) (inside : Reordered t u) :
      Reordered (sum (before ++ t :: after)) (sum (before ++ u :: after))
  | inFactor {t u : Observable α} (before after : List (Observable α)) (inside : Reordered t u) :
      Reordered (product (before ++ t :: after)) (product (before ++ u :: after))
  | inAdjoint {t u : Observable α} (inside : Reordered t u) : Reordered (adjoint t) (adjoint u)
  | inPower {t u : Observable α} (exponent : Real64) (inside : Reordered t u) :
      Reordered (power t exponent) (power u exponent)

namespace Reordered

theorem symm (h : t.Reordered u) : u.Reordered t := by
  induction h with
  | refl t => exact .refl t
  | trans _ _ first second => exact second.trans first
  | terms perm => exact .terms perm.symm
  | factors perm => exact .factors perm.symm
  | inTerm before after _ inside => exact .inTerm before after inside
  | inFactor before after _ inside => exact .inFactor before after inside
  | inAdjoint _ inside => exact .inAdjoint inside
  | inPower exponent _ inside => exact .inPower exponent inside

/-- The leaves of several trees stay the same when those of one tree do. -/
theorem leafLists_perm (before after : List (Observable α)) (same : t.leafList.Perm u.leafList) :
    (leafLists (before ++ t :: after)).Perm (leafLists (before ++ u :: after)) := by
  simp only [leafLists_eq_flatMap, List.flatMap_append, List.flatMap_cons]
  exact (same.append_right _).append_left _

/-- A reordering has the same leaves, each as often. -/
theorem leafList_perm (h : t.Reordered u) : t.leafList.Perm u.leafList := by
  induction h with
  | refl t => exact .refl _
  | trans _ _ first second => exact first.trans second
  | terms perm =>
    rw [leafList, leafList, leafLists_eq_flatMap, leafLists_eq_flatMap]
    exact perm.flatMap_right leafList
  | factors perm =>
    rw [leafList, leafList, leafLists_eq_flatMap, leafLists_eq_flatMap]
    exact perm.flatMap_right leafList
  | inTerm before after _ inside => exact leafLists_perm before after inside
  | inFactor before after _ inside => exact leafLists_perm before after inside
  | inAdjoint _ inside => exact inside
  | inPower exponent _ inside => exact inside

/-- Children stay filled when one of them is replaced by a filled one. -/
theorem filled_children {before after : List (Observable α)} (inside : t.Filled → u.Filled)
    (each : ∀ child ∈ before ++ t :: after, child.Filled) :
    ∀ child ∈ before ++ u :: after, child.Filled := by
  simp only [List.forall_mem_append, List.forall_mem_cons] at each ⊢
  exact ⟨each.1, inside each.2.1, each.2.2⟩

/-- Children stay filled, and there is one, in any order. -/
theorem filled_perm {children children' : List (Observable α)} (perm : children.Perm children')
    (some : children ≠ [] ∧ ∀ child ∈ children, child.Filled) :
    children' ≠ [] ∧ ∀ child ∈ children', child.Filled := by
  refine ⟨?_, fun child mem => some.2 child (perm.mem_iff.2 mem)⟩
  rintro rfl
  exact some.1 (List.perm_nil.1 perm)

theorem filled (h : t.Reordered u) (some : t.Filled) : u.Filled := by
  induction h with
  | refl t => exact some
  | trans _ _ first second => exact second (first some)
  | terms perm => exact filled_sum.2 (filled_perm perm (filled_sum.1 some))
  | factors perm => exact filled_product.2 (filled_perm perm (filled_product.1 some))
  | inTerm before after _ inside =>
    rw [filled_sum] at some ⊢
    exact ⟨by simp, filled_children inside some.2⟩
  | inFactor before after _ inside =>
    rw [filled_product] at some ⊢
    exact ⟨by simp, filled_children inside some.2⟩
  | inAdjoint _ inside => exact filled_adjoint.2 (inside (filled_adjoint.1 some))
  | inPower exponent _ inside => exact filled_power.2 (inside (filled_power.1 some))

end Reordered

end Qumode.Observable
