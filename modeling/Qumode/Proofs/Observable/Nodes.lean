import Qumode.Observable.Basic

/-!
# The nodes of an observable

`Observable.nodes` lists a tree and all trees inside it, every tree before those below it and the
trees below it from left to right. What is asked of an observable at every depth is asked of its
nodes: `Filled` asks that no sum and no product is empty.

`Observable.shape` forgets what the leaves carry. Trees of one shape have the same sums and
products, so one is filled when the other is (`filled_shape`).
-/

namespace Qumode.Observable

variable {α β : Type}

mutual

/-- The trees inside a tree, itself first, depth first and left to right. -/
def nodes : Observable α → List (Observable α)
  | leaf a => [leaf a]
  | sum terms => sum terms :: nodesOf terms
  | product factors => product factors :: nodesOf factors
  | adjoint base => adjoint base :: nodes base
  | power base exponent => power base exponent :: nodes base

/-- The trees inside several trees, one tree after another. -/
def nodesOf : List (Observable α) → List (Observable α)
  | [] => []
  | t :: rest => nodes t ++ nodesOf rest

end

mutual

/-- The tree with other leaves. -/
def map (f : α → β) : Observable α → Observable β
  | leaf a => leaf (f a)
  | sum terms => sum (mapAll f terms)
  | product factors => product (mapAll f factors)
  | adjoint base => adjoint (map f base)
  | power base exponent => power (map f base) exponent

/-- Several trees with other leaves. -/
def mapAll (f : α → β) : List (Observable α) → List (Observable β)
  | [] => []
  | t :: rest => map f t :: mapAll f rest

end

/-- The sums, products, adjoints and powers of a tree, with nothing at the leaves. -/
def shape (t : Observable α) : Observable Unit := t.map fun _ => ()

/-- No sum and no product is empty, at any depth. -/
def Filled (t : Observable α) : Prop := ∀ node ∈ t.nodes, node ≠ sum [] ∧ node ≠ product []

theorem nodesOf_eq_flatMap (ts : List (Observable α)) : nodesOf ts = ts.flatMap nodes := by
  induction ts with
  | nil => rfl
  | cons t rest ih => rw [nodesOf, List.flatMap_cons, ih]

theorem leafLists_eq_flatMap (ts : List (Observable α)) : leafLists ts = ts.flatMap leafList := by
  induction ts with
  | nil => rfl
  | cons t rest ih => rw [leafLists, List.flatMap_cons, ih]

/-- The leaves of an inner node are those of its children. -/
theorem leafList_eq_flatMap_children {t : Observable α} {kind : Composite}
    (composite : t.root = .inl kind) : t.leafList = t.children.flatMap leafList := by
  rw [← leafLists_eq_flatMap]
  cases t with
  | leaf l => cases composite
  | sum terms => rfl
  | product factors => rfl
  | adjoint base => exact (List.append_nil base.leafList).symm
  | power base exponent => exact (List.append_nil base.leafList).symm

theorem mapAll_eq_map (f : α → β) (ts : List (Observable α)) : mapAll f ts = ts.map (map f) := by
  induction ts with
  | nil => rfl
  | cons t rest ih => rw [mapAll, List.map_cons, ih]

mutual

/-- A leaf is a node just when the leaf list has what it carries. -/
theorem leaf_mem_nodes_iff {a : α} : (t : Observable α) → (leaf a ∈ t.nodes ↔ a ∈ t.leafList)
  | leaf b => by simp [nodes, leafList]
  | sum terms => by simp [nodes, leafList, leaf_mem_nodesOf_iff terms]
  | product factors => by simp [nodes, leafList, leaf_mem_nodesOf_iff factors]
  | adjoint base => by simp [nodes, leafList, leaf_mem_nodes_iff base]
  | power base exponent => by simp [nodes, leafList, leaf_mem_nodes_iff base]

/-- A leaf is a node of some trees when it is one of their leaves. -/
theorem leaf_mem_nodesOf_iff {a : α} :
    (ts : List (Observable α)) → (leaf a ∈ nodesOf ts ↔ a ∈ leafLists ts)
  | [] => by simp [nodesOf, leafLists]
  | t :: rest => by
    simp [nodesOf, leafLists, leaf_mem_nodes_iff t, leaf_mem_nodesOf_iff rest]

end

/-- A leaf has no empty sum or product in it. -/
theorem filled_leaf (a : α) : (leaf a).Filled := by simp [Filled, nodes]

/-- A sum is filled when it has terms and they are filled. -/
theorem filled_sum {terms : List (Observable α)} :
    (sum terms).Filled ↔ terms ≠ [] ∧ ∀ t ∈ terms, t.Filled := by
  simp only [Filled, nodes, List.forall_mem_cons, nodesOf_eq_flatMap, List.forall_mem_flatMap]
  simp

/-- A product is filled when it has factors and they are filled. -/
theorem filled_product {factors : List (Observable α)} :
    (product factors).Filled ↔ factors ≠ [] ∧ ∀ t ∈ factors, t.Filled := by
  simp only [Filled, nodes, List.forall_mem_cons, nodesOf_eq_flatMap, List.forall_mem_flatMap]
  simp

theorem filled_adjoint {base : Observable α} : (adjoint base).Filled ↔ base.Filled := by
  simp [Filled, nodes]

theorem filled_power {base : Observable α} {exponent : Real64} :
    (power base exponent).Filled ↔ base.Filled := by
  simp [Filled, nodes]

mutual

/-- What the leaves carry has no part in being filled. -/
theorem filled_map {f : α → β} : (t : Observable α) → ((t.map f).Filled ↔ t.Filled)
  | leaf a => iff_of_true (filled_leaf (f a)) (filled_leaf a)
  | sum terms => by
    rw [map, filled_sum, filled_sum, filled_mapAll terms, mapAll_eq_map, ne_eq, List.map_eq_nil_iff]
  | product factors => by
    rw [map, filled_product, filled_product, filled_mapAll factors, mapAll_eq_map, ne_eq,
      List.map_eq_nil_iff]
  | adjoint base => by rw [map, filled_adjoint, filled_adjoint, filled_map base]
  | power base exponent => by rw [map, filled_power, filled_power, filled_map base]

/-- So it is for trees in a row. -/
theorem filled_mapAll {f : α → β} : (ts : List (Observable α)) →
    ((∀ t ∈ mapAll f ts, t.Filled) ↔ ∀ t ∈ ts, t.Filled)
  | [] => by simp [mapAll]
  | t :: rest => by
    rw [mapAll, List.forall_mem_cons, List.forall_mem_cons, filled_map t, filled_mapAll rest]

end

/-- A tree is filled when its shape is. -/
theorem filled_shape {t : Observable α} : t.shape.Filled ↔ t.Filled := filled_map t

/-- Trees of one shape are filled together. -/
theorem filled_congr {t : Observable α} {u : Observable β} (same : t.shape = u.shape) :
    t.Filled ↔ u.Filled := by
  rw [← filled_shape, same, filled_shape]

end Qumode.Observable
