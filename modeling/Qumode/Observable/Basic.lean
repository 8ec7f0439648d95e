import Qumode.Real64.Basic

/-!
# Observable trees

An observable is built from leaves by sums, products, adjoints and powers. What a leaf carries is a
parameter: a name and wires as the front end wrote them, or a classified leaf over wire ids.

The leaves are listed in two ways. `leafList` is the recursion on the tree. `leaves` keeps a stack
of trees still to visit, so that it needs no call depth; each step takes one node off the stack and
puts its children there in its place.
-/

namespace Qumode

inductive Observable (α : Type) where
  | leaf (a : α)
  | sum (terms : List (Observable α))
  | product (factors : List (Observable α))
  | adjoint (base : Observable α)
  | power (base : Observable α) (exponent : Real64)
  deriving Inhabited

/-- The kinds of inner nodes. -/
inductive Composite where
  | sum
  | product
  | adjoint
  | power
  deriving DecidableEq, Repr

/-- The name that an inner node is reported under. -/
def Composite.text : Composite → String
  | sum => "Sum"
  | product => "Prod"
  | adjoint => "Adjoint"
  | power => "Pow"

namespace Observable

variable {α : Type}

/-- The kind of an inner node, or what a leaf carries. -/
def root : Observable α → Composite ⊕ α
  | leaf a => .inr a
  | sum _ => .inl .sum
  | product _ => .inl .product
  | adjoint _ => .inl .adjoint
  | power _ _ => .inl .power

/-- The trees directly below the root, left to right. -/
def children : Observable α → List (Observable α)
  | leaf _ => []
  | sum terms => terms
  | product factors => factors
  | adjoint base => [base]
  | power base _ => [base]

mutual

/-- The leaves, depth first and left to right. -/
def leafList : Observable α → List α
  | leaf a => [a]
  | sum terms => leafLists terms
  | product factors => leafLists factors
  | adjoint base => leafList base
  | power base _ => leafList base

/-- The leaves of several trees, one tree after another. -/
def leafLists : List (Observable α) → List α
  | [] => []
  | t :: rest => leafList t ++ leafLists rest

end

mutual

/-- The number of nodes. -/
def size : Observable α → Nat
  | leaf _ => 1
  | sum terms => sizes terms + 1
  | product factors => sizes factors + 1
  | adjoint base => size base + 1
  | power base _ => size base + 1

/-- The number of nodes of several trees. -/
def sizes : List (Observable α) → Nat
  | [] => 0
  | t :: rest => size t + sizes rest

end

theorem sizes_append (s t : List (Observable α)) : sizes (s ++ t) = sizes s + sizes t := by
  induction s with
  | nil => simp [sizes]
  | cons a s ih => simp [sizes, ih]; omega

theorem size_pos (t : Observable α) : 0 < size t := by cases t <;> simp [size]

/-- Visits the trees on a stack, from its top. -/
def visit : List (Observable α) → List α
  | [] => []
  | leaf a :: stack => a :: visit stack
  | sum terms :: stack => visit (terms ++ stack)
  | product factors :: stack => visit (factors ++ stack)
  | adjoint base :: stack => visit (base :: stack)
  | power base _ :: stack => visit (base :: stack)
termination_by stack => sizes stack
decreasing_by all_goals simp [sizes, size, sizes_append]

/-- The leaves, visited with a stack. -/
def leaves (t : Observable α) : List α := visit [t]

end Observable

end Qumode
