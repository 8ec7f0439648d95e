import Qumode.Proofs.Circuit.Entries

/-!
# Which descriptions are circuits

`Description.WellFormed` says what a description needs to be a circuit: hybrid operations with a
count that fits, no wire twice in an operation or a leaf, leaves that can be classified, and no
empty sum or product at any depth. Every other description has a first fault in the order of its
entries, all operations before all measurements, and is refused with it.

A circuit that a description stands for has one operation and one measurement for each record, in
order, and its wires are numbered by first reference: first those of the operations, then those of
the leaves from left to right.
-/

namespace Qumode

namespace Description

variable {d : Description}

/-- The records of a description in the order in which they are taken up. -/
def entries (d : Description) : List Entry :=
  d.operations.map .operation ++ d.measurements.map .measurement

/-- The wires that the operations name, and then those that the leaves of the measurements name. -/
def references (d : Description) : List Wire :=
  d.operations.flatMap (·.wires) ++ d.measurements.flatMap fun m => m.leafList.flatMap (·.wires)

/-- What a description needs to be a circuit. -/
structure WellFormed (d : Description) : Prop where
  counted : ∀ r ∈ d.operations, r.Counted
  distinct : ∀ r ∈ d.operations, r.wires.Nodup
  accepted : ∀ m ∈ d.measurements, ∀ n ∈ m.leafList, n.Accepted
  filled : ∀ m ∈ d.measurements, m.Filled

theorem references_entries (d : Description) :
    d.entries.flatMap Entry.references = d.references := by
  simp [entries, references, Entry.references, Observable.references, List.flatMap_map]

theorem records_entries (d : Description) : d.entries.filterMap Entry.record? = d.operations := by
  simp [entries, List.filterMap_map, Function.comp_def, Entry.record?]

theorem observables_entries (d : Description) :
    d.entries.filterMap Entry.observable? = d.measurements := by
  simp [entries, List.filterMap_map, Function.comp_def, Entry.observable?]

/-- A description is well-formed when each of its entries is accepted. -/
theorem wellFormed_iff : d.WellFormed ↔ ∀ entry ∈ d.entries, entry.Accepted := by
  rw [entries, List.forall_mem_append, List.forall_mem_map, List.forall_mem_map]
  constructor
  · intro h
    exact ⟨fun r hr => ⟨h.counted r hr, h.distinct r hr⟩,
      fun m hm => ⟨h.filled m hm, h.accepted m hm⟩⟩
  · rintro ⟨operations, measurements⟩
    exact ⟨fun r hr => (operations r hr).1, fun r hr => (operations r hr).2,
      fun m hm => (measurements m hm).2, fun m hm => (measurements m hm).1⟩

/-- A description is well-formed when none of its entries is faulty. -/
theorem faultless_entries_iff : Faultless Entry.Fault d.entries ↔ d.WellFormed := by
  rw [wellFormed_iff]
  exact faultless_iff_forall Entry.not_fault_iff

end Description

namespace Circuit

variable {c : Circuit} {d : Description}

/-- A description is taken up entry by entry. -/
theorem pushDescription_eq_forM (d : Description) :
    pushDescription d = d.entries.forM Entry.run := by
  have operations : (d.operations.map Entry.operation).forM Entry.run =
      d.operations.forM pushRecord := List.forM_map
  have measurements : (d.measurements.map Entry.measurement).forM Entry.run =
      d.measurements.forM measure := List.forM_map
  have both : d.entries.forM Entry.run =
      (d.operations.map Entry.operation).forM Entry.run >>= fun _ =>
        (d.measurements.map Entry.measurement).forM Entry.run := List.forM_append
  rw [both, operations, measurements]
  rfl

/-- A description is refused with its first fault, or the circuit is made from its entries. -/
theorem ofDescription_spec (d : Description) :
    match ofDescription d with
    | .ok c => d.WellFormed ∧ c.Lists d.entries
    | .error e => FirstFault Entry.Fault d.entries e := by
  have spec := (lists_empty d.name).forM d.entries
  rw [ofDescription, pushDescription_eq_forM]
  cases run : (d.entries.forM Entry.run).run (empty d.name) with
  | ok u c =>
    rw [run] at spec
    exact ⟨Description.faultless_entries_iff.1 spec.1, spec.2⟩
  | error e c =>
    rw [run] at spec
    exact spec

/-- A circuit that is made of a description is made from its entries. -/
theorem lists_of_ofDescription (h : ofDescription d = .ok c) : c.Lists d.entries := by
  have spec := ofDescription_spec d
  rw [h] at spec
  exact spec.2

/-- A description is a circuit when it is well-formed, and only then. -/
theorem ofDescription_isOk_iff : (∃ c, ofDescription d = .ok c) ↔ d.WellFormed := by
  have spec := ofDescription_spec d
  cases outcome : ofDescription d with
  | ok c =>
    rw [outcome] at spec
    exact iff_of_true ⟨c, rfl⟩ spec.1
  | error e =>
    rw [outcome] at spec
    rw [← Description.faultless_entries_iff]
    exact iff_of_false nofun spec.not_faultless

/-- A description is refused with the fault of its first faulty entry. -/
theorem ofDescription_eq_error_iff {e : CircuitError} :
    ofDescription d = .error e ↔ FirstFault Entry.Fault d.entries e := by
  have spec := ofDescription_spec d
  cases outcome : ofDescription d with
  | ok c =>
    rw [outcome] at spec
    have clean := Description.faultless_entries_iff.2 spec.1
    exact iff_of_false nofun fun wrong => wrong.not_faultless clean
  | error e' =>
    rw [outcome] at spec
    rw [Except.error.injEq]
    constructor
    · rintro rfl
      exact spec
    · exact spec.unique Entry.fault_unique

/-- A description is a circuit just when it is well-formed, and otherwise it is refused with its
first fault. The circuit has the distinct wires of the description in order of first reference, and
one operation and one measurement for each record. -/
theorem ofDescription_normalizes (d : Description) :
    ((∃ c, ofDescription d = .ok c) ↔ d.WellFormed) ∧
      (∀ e, ofDescription d = .error e ↔ FirstFault Entry.Fault d.entries e) ∧
      ∀ c, ofDescription d = .ok c →
        (∀ id, c.wires.label? id = d.references.eraseDups[id.index]?) ∧
        (∀ w id, c.wires.get? w = some id ↔ d.references.eraseDups[id.index]? = some w) ∧
        List.Forall₂ (Operation.StandsFor c.wires) c.operations d.operations ∧
        List.Forall₂ (Observable.StandsFor c.wires) c.measurements d.measurements := by
  refine ⟨ofDescription_isOk_iff, fun e => ofDescription_eq_error_iff, fun c built => ?_⟩
  obtain ⟨wires, operations, measurements⟩ := lists_of_ofDescription built
  rw [Description.references_entries] at wires
  rw [Description.records_entries] at operations
  rw [Description.observables_entries] at measurements
  have label (id : WireId) : c.wires.label? id = d.references.eraseDups[id.index]? :=
    congrArg (·[id.index]?) wires
  refine ⟨label, fun w id => ?_, operations, measurements⟩
  rw [WireTable.get?_eq_some_iff, label]

/-- The wires of a nested observable follow those of the operation, from left to right. -/
theorem ofDescription_numbers_nested_product :
    let d : Description := {
      operations := [.hybrid "ConditionalDisplacement" [.index 5, .label "q"] 1 []]
      measurements := [.sum [.leaf ⟨"PauliZ", [.label "q"], []⟩,
        .adjoint (.product
          [.leaf ⟨"QuadX", [.index 9], []⟩, .leaf ⟨"Identity", [.index 5], []⟩])]] }
    ∃ c, ofDescription d = .ok c ∧ c.wires.get? (.index 9) = some ⟨2⟩ ∧
      c.wires.label? ⟨3⟩ = none := by
  intro d
  obtain ⟨c, built⟩ : ∃ c, ofDescription d = .ok c := ⟨_, rfl⟩
  obtain ⟨-, -, numbered⟩ := ofDescription_normalizes d
  obtain ⟨label, get, -, -⟩ := numbered c built
  exact ⟨c, built, (get _ _).2 (by decide), (label _).trans (by decide)⟩

end Circuit

end Qumode
