import Mathlib.Logic.Function.Iterate
import Qumode.Proofs.Circuit.Registration
import Qumode.Proofs.Observable.Nodes

/-!
# The walk over an observable

The leaves of an observable are listed with a stack of the trees still to visit. A `Walk` is this
loop between two of its turns. A turn takes the top off the stack: a leaf is listed, and of any
other node the children go on the stack in its place.

What is listed and the leaves that the stack has still to give are together the same after a turn
(`Walk.turn_leaves`), and the stack has one node less, though it may have more trees
(`Walk.turn_sizes`). So a walk over a tree ends after as many turns as the tree has nodes, with the
leaves that the recursion on the tree lists.
-/

namespace Qumode

namespace Observable

variable {α : Type}

/-! ## The stack and the recursion -/

theorem eq_leaf_of_root {t : Observable α} {a : α} (root : t.root = .inr a) : t = leaf a := by
  cases t <;> cases root
  rfl

/-- A composite is one node more than its children have. -/
theorem size_eq_sizes_children {t : Observable α} {kind : Composite}
    (composite : t.root = .inl kind) : t.size = sizes t.children + 1 := by
  cases t with
  | leaf l => cases composite
  | _ => simp [size, children, sizes]

theorem leafLists_append (s t : List (Observable α)) :
    leafLists (s ++ t) = leafLists s ++ leafLists t := by
  simp only [leafLists_eq_flatMap, List.flatMap_append]

/-- A stack gives the leaves of its trees, from the top. -/
theorem visit_eq_leafLists (stack : List (Observable α)) : visit stack = leafLists stack := by
  induction stack using visit.induct with
  | case1 => rw [visit, leafLists]
  | case2 a stack ih => rw [visit, ih, leafLists, leafList, List.singleton_append]
  | case3 terms stack ih => rw [visit, ih, leafLists_append, leafLists, leafList]
  | case4 factors stack ih => rw [visit, ih, leafLists_append, leafLists, leafList]
  | case5 base stack ih => rw [visit, ih, leafLists, leafLists, leafList]
  | case6 base exponent stack ih => rw [visit, ih, leafLists, leafLists, leafList]

/-- The walk lists the leaves in the order of the recursion. -/
theorem leaves_eq_leafList (t : Observable α) : t.leaves = t.leafList := by
  rw [leaves, visit_eq_leafLists, leafLists, leafLists, List.append_nil]

/-- The leaves of a composite are those of its children, one child after another. -/
theorem leaves_eq_flatMap_children {t : Observable α} {kind : Composite}
    (composite : t.root = .inl kind) : t.leaves = t.children.flatMap leaves := by
  rw [leaves_eq_leafList, leafList_eq_flatMap_children composite, funext leaves_eq_leafList]

/-! ## The turns of the walk -/

/-- A walk on its way: the trees still to visit, the next one first, and the leaves listed so far.
-/
structure Walk (α : Type) where
  stack : List (Observable α)
  listed : List α

namespace Walk

def start (t : Observable α) : Walk α := ⟨[t], []⟩

/-- One turn of the loop. A walk with nothing left to visit stays as it is. -/
def turn (w : Walk α) : Walk α :=
  match w.stack with
  | [] => w
  | t :: rest =>
    match t.root with
    | .inr a => ⟨rest, w.listed ++ [a]⟩
    | .inl _ => ⟨t.children ++ rest, w.listed⟩

variable {w : Walk α} {listed : List α} {t : Observable α} {rest : List (Observable α)}

theorem turn_of_leaf (a : α) : turn ⟨leaf a :: rest, listed⟩ = ⟨rest, listed ++ [a]⟩ := rfl

/-- A turn puts the children of a composite in front of what is left. -/
theorem turn_of_composite {kind : Composite} (composite : t.root = .inl kind) :
    turn ⟨t :: rest, listed⟩ = ⟨t.children ++ rest, listed⟩ := by
  simp only [turn, composite]

/-- What is listed and what the stack has still to give are together the same after a turn. -/
theorem turn_leaves (w : Walk α) :
    w.turn.listed ++ leafLists w.turn.stack = w.listed ++ leafLists w.stack := by
  obtain ⟨stack, listed⟩ := w
  cases stack with
  | nil => rfl
  | cons t rest =>
    cases root : t.root with
    | inr a =>
      rw [eq_leaf_of_root root, turn_of_leaf, leafLists, leafList]
      exact List.append_assoc _ _ _
    | inl kind =>
      rw [turn_of_composite root, leafLists_append, leafLists, leafList_eq_flatMap_children root,
        leafLists_eq_flatMap t.children]

/-- A turn leaves one node less to visit. -/
theorem turn_sizes (busy : w.stack ≠ []) : sizes w.turn.stack + 1 = sizes w.stack := by
  obtain ⟨stack, listed⟩ := w
  cases stack with
  | nil => exact absurd rfl busy
  | cons t rest =>
    cases root : t.root with
    | inr a =>
      rw [eq_leaf_of_root root, turn_of_leaf, sizes, size]
      exact Nat.add_comm _ _
    | inl kind =>
      rw [turn_of_composite root, sizes_append, sizes, size_eq_sizes_children root]
      omega

/-- Trees without nodes are no trees. -/
theorem eq_nil_of_sizes {stack : List (Observable α)} (done : sizes stack = 0) : stack = [] := by
  cases stack with
  | nil => rfl
  | cons t rest =>
    have := size_pos t
    rw [sizes] at done
    omega

/-- What is listed and what is left to list are the same leaves after every turn. -/
theorem iterate_leaves (w : Walk α) (k : Nat) :
    (turn^[k] w).listed ++ leafLists (turn^[k] w).stack = w.listed ++ leafLists w.stack := by
  induction k with
  | zero => rfl
  | succ k ih => rw [Function.iterate_succ_apply', turn_leaves, ih]

/-- As long as there are nodes to visit, every turn visits one. -/
theorem iterate_sizes {k : Nat} (enough : k ≤ sizes w.stack) :
    sizes (turn^[k] w).stack + k = sizes w.stack := by
  induction k with
  | zero => rfl
  | succ k ih =>
    have before := ih (Nat.le_of_succ_le enough)
    have busy : (turn^[k] w).stack ≠ [] := by
      intro idle
      rw [idle, sizes] at before
      omega
    have visited := turn_sizes busy
    rw [Function.iterate_succ_apply']
    omega

/-- A walk is on its way for as many turns as there are nodes to visit. -/
theorem busy_of_lt {k : Nat} (before : k < sizes w.stack) : (turn^[k] w).stack ≠ [] := by
  intro idle
  have left := iterate_sizes (Nat.le_of_lt before)
  rw [idle, sizes] at left
  omega

/-- Then it has listed all leaves. -/
theorem iterate_end (w : Walk α) : turn^[sizes w.stack] w = ⟨[], w.listed ++ visit w.stack⟩ := by
  have idle : (turn^[sizes w.stack] w).stack = [] := by
    have left := iterate_sizes (w := w) (Nat.le_refl _)
    exact eq_nil_of_sizes (by omega)
  have listed := iterate_leaves w (sizes w.stack)
  rw [idle, leafLists, List.append_nil, ← visit_eq_leafLists] at listed
  cases ended : turn^[sizes w.stack] w with
  | mk stack leaves =>
    rw [ended] at idle listed
    cases idle
    cases listed
    rfl

end Walk

/-! ## The leaves of an observable -/

/-- The leaves of an observable are those of its children, one child after another. The walk that
lists them has trees to visit for exactly as many turns as the observable has nodes. For an
observable that a front end hands over and that is taken up, they stand for its named observables,
depth first: each has the name, the wires in the table afterwards, and the kind that the
classification gives. In 32 bits the ids of these wires are told apart for up to `2 ^ 32` distinct
wires in the table. -/
theorem leaves_by_recursion :
    (∀ l : Leaf, (leaf l).leaves = [l]) ∧
    (∀ (t : Observable Leaf) (kind : Composite), t.root = .inl kind →
      t.leaves = t.children.flatMap leaves) ∧
    (∀ t : Observable Leaf, (∀ k < t.size, (Walk.turn^[k] (.start t)).stack ≠ []) ∧
      Walk.turn^[t.size] (.start t) = ⟨[], t.leaves⟩) ∧
    ∀ (raw : RawObservable) (table table' : WireTable) (t : Observable Leaf),
      (Normal.observable raw).run table = .ok t table' →
        List.Forall₂ (Leaf.StandsFor table') t.leaves raw.leafList := by
  have nodes (t : Observable Leaf) : sizes (Walk.start t).stack = t.size := by
    rw [Walk.start, sizes, sizes, Nat.add_zero]
  refine ⟨fun l => ?_, fun t kind => leaves_eq_flatMap_children, fun t => ⟨fun k before => ?_, ?_⟩,
    fun raw table table' t taken => ?_⟩
  · rw [leaves_eq_leafList, leafList]
  · exact Walk.busy_of_lt (nodes t ▸ before)
  · rw [← nodes t]
    exact Walk.iterate_end (.start t)
  · obtain ⟨-, -, stands⟩ := (Normal.observable_registers raw).of_ok taken
    rwa [leaves_eq_leafList]

/-- A sum with seven nodes, taken up where its second wire is known: the walk is still on its way
after six turns, and the wires of the leaves are found under their names. -/
theorem leaves_of_nested_sum :
    let x : RawObservable := .leaf ⟨"QuadX", [.index 7], []⟩
    let z : RawObservable := .leaf ⟨"PauliZ", [.label "q"], []⟩
    let n : RawObservable := .leaf ⟨"ConditionalNumber", [.index 7, .label "q"], []⟩
    let raw : RawObservable := .sum [x, .product [z, .adjoint (.power n .zero)]]
    let table := (WireTable.empty.intern (.label "q")).2
    ∃ t table', (Normal.observable raw).run table = .ok t table' ∧
      t.leaves = t.children.flatMap leaves ∧ t.size = 7 ∧
      (Walk.turn^[6] (.start t)).stack ≠ [] ∧ Walk.turn^[7] (.start t) = ⟨[], t.leaves⟩ ∧
      List.Forall₂ (Leaf.StandsFor table') t.leaves raw.leafList ∧
      t.leaves.map (·.wires) = [[⟨1⟩], [⟨0⟩], [⟨1⟩, ⟨0⟩]] := by
  intro x z n raw table
  obtain ⟨-, inner, walk, taken⟩ := leaves_by_recursion
  let t : Observable Leaf :=
    .sum [.leaf ⟨"QuadX", [⟨1⟩], .continuous (some (.quadrature .zero))⟩,
      .product [.leaf ⟨"PauliZ", [⟨0⟩], .discrete []⟩,
        .adjoint (.power (.leaf ⟨"ConditionalNumber", [⟨1⟩, ⟨0⟩], .hybrid 1 (some .fock)⟩) .zero)]]
  have done : (Normal.observable raw).run table = .ok t (table.intern (.index 7)).2 := rfl
  obtain ⟨busy, ended⟩ := walk t
  have stands := taken raw table _ t done
  refine ⟨t, _, done, inner t .sum rfl, rfl, busy 6 (by decide), ended, stands, ?_⟩
  rw [leaves_eq_leafList]
  rfl

end Observable

end Qumode
