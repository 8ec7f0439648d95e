import Qumode.Proofs.Circuit.Calls

/-!
# What every built circuit has

The wires of an operation and of a leaf are wires of the circuit, each once; a leaf has at least one
wire, and a hybrid leaf has a basis for its qumodes. An empty circuit has nothing to check, and a
call keeps what is there, since ids stay valid when wires are added, and appends an element of the
kind.
-/

namespace Qumode

/-- Wires of a circuit with `size` wires, each once. -/
structure Registered (size : Nat) (wires : List WireId) : Prop where
  inside : ∀ w ∈ wires, w.index < size
  distinct : wires.Nodup

/-- Wires that are registered stay so when there are more. -/
theorem Registered.mono {size size' : Nat} {wires : List WireId} (h : Registered size wires)
    (grown : size ≤ size') : Registered size' wires :=
  { h with inside := fun w hw => Nat.lt_of_lt_of_le (h.inside w hw) grown }

/-- The ids of distinct wires are registered, and distinct as well. -/
theorem Normal.Labelled.registered {wires : List Wire} {ids : List WireId} {t : WireTable}
    (h : Labelled wires ids t) (distinct : wires.Nodup) : Registered t.size ids where
  inside id mem := by
    obtain ⟨w, -, found⟩ := h.exists_label mem
    exact WireTable.index_lt_size_of_label? found
  distinct := h.nodup distinct

/-- A classified name is on at least one wire, and is not a hybrid kind without a basis. -/
theorem LeafKind.of_classify {name : String} {numWires : Nat} {params : List Real64}
    {kind : LeafKind} (h : classify name numWires params = .ok kind) :
    numWires ≠ 0 ∧ ∀ count, kind ≠ .hybrid count none := by
  rw [classify] at h
  split at h
  case isTrue => cases h
  case isFalse some_wires =>
    refine ⟨some_wires, ?_⟩
    rintro count rfl
    unfold ofName? ofName?.hybrid at h
    split at h
    all_goals first | cases h | (split at h <;> cases h)

/-- A leaf that a circuit with `size` wires can have. -/
structure Leaf.WellFormed (size : Nat) (l : Leaf) : Prop where
  wires : Registered size l.wires
  nonempty : l.wires ≠ []
  hybridBasis : ∀ count, l.kind ≠ .hybrid count none

/-- A leaf stays well-formed when there are more wires. -/
theorem Leaf.WellFormed.mono {size size' : Nat} {l : Leaf} (h : l.WellFormed size)
    (grown : size ≤ size') : l.WellFormed size' :=
  { h with wires := h.wires.mono grown }

/-- A leaf that stands for an accepted observable is well-formed. -/
theorem Leaf.StandsFor.wellFormed {t : WireTable} {l : Leaf} {n : NamedObservable}
    (h : l.StandsFor t n) : l.WellFormed t.size := by
  obtain ⟨some_wires, hybridBasis⟩ := LeafKind.of_classify h.kind
  refine ⟨h.wires.registered h.distinct, ?_, hybridBasis⟩
  rw [ne_eq, ← List.length_eq_zero_iff, h.wires.length_eq]
  exact some_wires

namespace Circuit

/-- A circuit whose elements are over its own wires. -/
structure WellFormed (c : Circuit) : Prop where
  operations : ∀ op ∈ c.operations, Registered c.numWires op.wires
  leaves : ∀ m ∈ c.measurements, ∀ l ∈ m.leafList, l.WellFormed c.numWires

variable {c : Circuit} {table : WireTable}

theorem wellFormed_empty (name : String) : (empty name).WellFormed where
  operations _ mem := nomatch mem
  leaves _ mem := nomatch mem

/-- More wires leave a circuit well-formed. -/
theorem WellFormed.addWires (h : c.WellFormed) (within : c.wires.Within table) :
    WellFormed { c with wires := table } where
  operations op mem := (h.operations op mem).mono within.size_le
  leaves m mem l hl := (h.leaves m mem l hl).mono within.size_le

/-- So does an operation on registered wires. -/
theorem WellFormed.addOperation (h : c.WellFormed) {op : Operation}
    (registered : Registered c.numWires op.wires) :
    WellFormed { c with operations := c.operations ++ [op] } where
  operations := by
    rw [List.forall_mem_append, List.forall_mem_singleton]
    exact ⟨h.operations, registered⟩
  leaves := h.leaves

/-- And so does a measurement with well-formed leaves. -/
theorem WellFormed.addMeasurement (h : c.WellFormed) {m : Observable Leaf}
    (leaves : ∀ l ∈ m.leafList, l.WellFormed c.numWires) :
    WellFormed { c with measurements := c.measurements ++ [m] } where
  operations := h.operations
  leaves := by
    rw [List.forall_mem_append, List.forall_mem_singleton]
    exact ⟨h.leaves, leaves⟩

/-- A call that succeeds keeps a circuit well-formed. -/
theorem WellFormed.run (h : c.WellFormed) {call : Call} {d : Circuit}
    (done : call.run c = .ok () d) : d.WellFormed := by
  obtain ⟨table, within, ⟨op, wires, labelled, distinct, rfl⟩ | ⟨tree, named, stands, rfl⟩⟩ :=
    Call.run_cases done
  · exact (h.addWires within).addOperation (labelled.registered distinct)
  · have leaves := (List.forall₂_and_left _ _).1 (stands.imp fun l n hl => ⟨hl.wellFormed, hl⟩)
    exact (h.addWires within).addMeasurement leaves.1

/-- A call leaves a circuit well-formed, whether it succeeds or fails. -/
theorem WellFormed.after (h : c.WellFormed) (call : Call) : (call.after c).WellFormed := by
  cases done : call.succeeds c with
  | true => exact h.run (Call.run_eq_ok_of_succeeds done)
  | false =>
    rw [Call.after_eq_of_not_succeeds done]
    exact h

/-- So do calls in a row. -/
theorem WellFormed.afterCalls (h : c.WellFormed) (calls : List Call) :
    (c.afterCalls calls).WellFormed := by
  induction calls generalizing c with
  | nil => exact h
  | cons call rest ih => exact ih (h.after call)

/-- Every circuit that calls can build is well-formed. -/
theorem Reachable.wellFormed (h : c.Reachable) : c.WellFormed := by
  obtain ⟨name, calls, rfl⟩ := h
  exact (wellFormed_empty name).afterCalls calls

end Circuit

end Qumode
