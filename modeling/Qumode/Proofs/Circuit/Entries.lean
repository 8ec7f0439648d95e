import Qumode.Proofs.Circuit.Calls
import Qumode.Proofs.Circuit.Faults
import Qumode.Proofs.Circuit.Numbering
import Qumode.Proofs.Circuit.WellFormed

/-!
# What a circuit is made from

An `Entry` is a record that a circuit takes up: an operation or an observable to measure.
`Circuit.Lists` says that a circuit is made from some entries: its operations stand for the
operation records and its measurements for the observables, one for each and in order, and its wires
are numbered by first reference over all entries.

`Lists.run` says all that one entry does to such a circuit: it has a fault, with which it is
refused, or it is taken up behind the others. A run over entries is then refused with the first
fault (`Lists.forM`), and every circuit that is built by calls is made from entries
(`Reachable.lists`).
-/

namespace Qumode

/-- An operation over a table stands for a record. -/
structure Operation.StandsFor (t : WireTable) (op : Operation) (r : OperationRecord) : Prop where
  name : op.name = r.name
  wires : Normal.Labelled r.wires op.wires t
  distinct : r.wires.Nodup
  params : op.params = r.params
  capability : r.Declares op.capability

/-- An operation stands for its record over a larger table as well. -/
theorem Operation.StandsFor.lasts {t u : WireTable} (within : t.Within u) {op : Operation}
    {r : OperationRecord} (h : op.StandsFor t r) : op.StandsFor u r :=
  { h with wires := h.wires.lasts within }

/-- A tree over a table stands for an observable: it has the sums, products, adjoints and powers of
the observable, none of them empty, and its leaves stand for the leaves. -/
structure Observable.StandsFor (t : WireTable) (tree : Observable Leaf) (raw : RawObservable) :
    Prop where
  shape : tree.shape = raw.shape
  filled : raw.Filled
  leaves : List.Forall₂ (Leaf.StandsFor t) tree.leafList raw.leafList

/-- A tree stands for its observable over a larger table as well. -/
theorem Observable.StandsFor.lasts {t u : WireTable} (within : t.Within u) {tree : Observable Leaf}
    {raw : RawObservable} (h : tree.StandsFor t raw) : tree.StandsFor u raw :=
  { h with leaves := h.leaves.imp fun _ _ => Leaf.StandsFor.lasts within }

/-- A record that a circuit takes up. -/
inductive Entry where
  | operation (r : OperationRecord)
  | measurement (raw : RawObservable)

namespace Entry

def run : Entry → Builder Unit
  | operation r => Circuit.pushRecord r
  | measurement raw => Circuit.measure raw

/-- The wires that an entry names, in order. -/
def references : Entry → List Wire
  | operation r => r.wires
  | measurement raw => raw.references

def record? : Entry → Option OperationRecord
  | operation r => some r
  | measurement _ => none

def observable? : Entry → Option RawObservable
  | operation _ => none
  | measurement raw => some raw

section Behind

variable (entries : List Entry) (r : OperationRecord) (raw : RawObservable)

@[simp]
theorem records_append_operation :
    (entries ++ [operation r]).filterMap record? = entries.filterMap record? ++ [r] :=
  List.filterMap_append

@[simp]
theorem observables_append_operation :
    (entries ++ [operation r]).filterMap observable? = entries.filterMap observable? :=
  List.filterMap_append.trans (List.append_nil _)

@[simp]
theorem records_append_measurement :
    (entries ++ [measurement raw]).filterMap record? = entries.filterMap record? :=
  List.filterMap_append.trans (List.append_nil _)

@[simp]
theorem observables_append_measurement :
    (entries ++ [measurement raw]).filterMap observable? = entries.filterMap observable? ++ [raw] :=
  List.filterMap_append

end Behind

/-- What is wrong with an entry that stands behind some others. An operation is reported with its
place among the operations, an observable with the fault of its first faulty node. -/
inductive Fault (before : List Entry) : Entry → CircuitError → Prop where
  | operation {r : OperationRecord} {e : CircuitError}
      (wrong : r.Fault (before.filterMap record?).length e) : Fault before (operation r) e
  | measurement {raw : RawObservable} {e : CircuitError}
      (wrong : FirstFault Observable.nodeFaults raw.nodes e) : Fault before (measurement raw) e

/-- The fault of an operation is that of its record, at its place among the operations. -/
theorem fault_operation_iff {before : List Entry} {r : OperationRecord} {e : CircuitError} :
    Fault before (operation r) e ↔ r.Fault (before.filterMap record?).length e := by
  constructor
  · rintro ⟨wrong⟩
    assumption
  · exact .operation

/-- The fault of a measurement is the first one among its nodes, whatever stands before. -/
theorem fault_measurement_iff {before : List Entry} {raw : RawObservable} {e : CircuitError} :
    Fault before (measurement raw) e ↔ FirstFault Observable.nodeFaults raw.nodes e := by
  constructor
  · rintro ⟨wrong⟩
    assumption
  · exact .measurement

/-- An entry is wrong in one way at most. -/
theorem fault_unique (before : List Entry) (entry : Entry) (e e' : CircuitError)
    (h : Fault before entry e) (h' : Fault before entry e') : e = e' := by
  cases entry with
  | operation r =>
    rw [fault_operation_iff, ← OperationRecord.check_eq_error_iff] at h h'
    exact Except.error.inj (h.symm.trans h')
  | measurement raw =>
    rw [fault_measurement_iff] at h h'
    exact FirstFault.unique Observable.nodeFaults_unique h h'

/-- An entry without a fault. -/
def Accepted : Entry → Prop
  | operation r => r.Counted ∧ r.wires.Nodup
  | measurement raw => raw.Filled ∧ ∀ n ∈ raw.leafList, n.Accepted

/-- Whether an entry has a fault does not depend on where it stands. -/
theorem not_fault_iff (before : List Entry) (entry : Entry) :
    (∀ e, ¬ Fault before entry e) ↔ entry.Accepted := by
  cases entry with
  | operation r => simp only [fault_operation_iff, OperationRecord.not_fault_iff, Accepted]
  | measurement raw =>
    rw [Accepted, ← Observable.fault?_eq_none_iff]
    have reports := Observable.fault?_reports raw
    simp only [fault_measurement_iff]
    cases found : raw.fault? with
    | none =>
      rw [found] at reports
      exact iff_of_true (fun e wrong => wrong.not_faultless reports) rfl
    | some e =>
      rw [found] at reports
      exact iff_of_false (fun faultless => faultless e reports) nofun

end Entry

namespace Circuit

open Qumode.Normal

/-- The circuit is made from the entries. -/
structure Lists (c : Circuit) (entries : List Entry) : Prop where
  wires : c.wires.Numbers (entries.flatMap Entry.references)
  operations : List.Forall₂ (Operation.StandsFor c.wires) c.operations
    (entries.filterMap Entry.record?)
  measurements : List.Forall₂ (Observable.StandsFor c.wires) c.measurements
    (entries.filterMap Entry.observable?)

variable {c d : Circuit} {entries : List Entry} {table : WireTable}

/-- A new circuit is made from no entries. -/
theorem lists_empty (name : String) : (empty name).Lists [] where
  wires := WireTable.numbers_empty
  operations := .nil
  measurements := .nil

/-- What stands for a record is over the wires of the circuit. -/
theorem Lists.wellFormed (h : c.Lists entries) : c.WellFormed where
  operations op hop := by
    obtain ⟨r, -, stands⟩ := Steps.exists_left_of_mem h.operations.flip hop
    exact stands.wires.registered stands.distinct
  leaves m hm l hl := by
    obtain ⟨raw, -, stands⟩ := Steps.exists_left_of_mem h.measurements.flip hm
    obtain ⟨n, -, leaf⟩ := Steps.exists_left_of_mem stands.leaves.flip hl
    exact leaf.wellFormed

/-- The wires of an operation record are registered, and the operation stands for the record. -/
theorem Lists.addOperation (h : c.Lists entries) {r : OperationRecord} {op : Operation}
    (within : c.wires.Within table)
    (numbers : table.Numbers (entries.flatMap Entry.references ++ r.wires))
    (stands : op.StandsFor table r) :
    Lists { c with wires := table, operations := c.operations ++ [op] }
      (entries ++ [.operation r]) where
  wires := by simpa [Entry.references] using numbers
  operations := by
    have before := h.operations.imp fun _ _ => Operation.StandsFor.lasts within
    rw [Entry.records_append_operation]
    exact List.rel_append before (.cons stands .nil)
  measurements := by
    rw [Entry.observables_append_operation]
    exact h.measurements.imp fun _ _ => Observable.StandsFor.lasts within

/-- The wires of an observable are registered, and the tree stands for the observable. -/
theorem Lists.addMeasurement (h : c.Lists entries) {raw : RawObservable} {tree : Observable Leaf}
    (within : c.wires.Within table)
    (numbers : table.Numbers (entries.flatMap Entry.references ++ raw.references))
    (stands : tree.StandsFor table raw) :
    Lists { c with wires := table, measurements := c.measurements ++ [tree] }
      (entries ++ [.measurement raw]) where
  wires := by simpa [Entry.references] using numbers
  operations := by
    rw [Entry.records_append_measurement]
    exact h.operations.imp fun _ _ => Operation.StandsFor.lasts within
  measurements := by
    have before := h.measurements.imp fun _ _ => Observable.StandsFor.lasts within
    rw [Entry.observables_append_measurement]
    exact List.rel_append before (.cons stands .nil)

/-- A record is refused with its fault, or the circuit takes it up. -/
theorem Lists.pushRecord (h : c.Lists entries) (r : OperationRecord) :
    match (pushRecord r).run c with
    | .ok _ d => (∀ e, ¬ r.Fault c.operations.length e) ∧ d.Lists (entries ++ [.operation r])
    | .error e d => r.Fault c.operations.length e ∧ d = c := by
  cases checked : r.check c.operations.length with
  | error e =>
    simp only [Circuit.pushRecord, EStateM.run, checked]
    exact ⟨OperationRecord.check_eq_error_iff.1 checked, trivial⟩
  | ok capability =>
    cases registered : (internAll r.wires).run c.wires with
    | error e table =>
      obtain ⟨-, fault⟩ := (internAll_registers r.wires).of_error registered
      cases fault
    | ok ids table =>
      obtain ⟨within, -, labelled⟩ := (internAll_registers r.wires).of_ok registered
      obtain ⟨-, numbers⟩ := internAll_refers r.wires registered
      obtain ⟨declared, distinct⟩ := OperationRecord.check_eq_ok_iff.1 checked
      have declares := OperationRecord.declares_of_capability? declared
      rw [EStateM.run] at registered
      simp only [Circuit.pushRecord, EStateM.run, checked, registered]
      refine ⟨fun e wrong => ?_, ?_⟩
      · cases checked.symm.trans (OperationRecord.check_eq_error_iff.2 wrong)
      · exact h.addOperation within (numbers _ h.wires) ⟨rfl, labelled, distinct, rfl, declares⟩

/-- An observable is refused with the fault of its first faulty node, or the circuit takes it up. -/
theorem Lists.measure (h : c.Lists entries) (raw : RawObservable) :
    match (measure raw).run c with
    | .ok _ d => Faultless Observable.nodeFaults raw.nodes ∧
        d.Lists (entries ++ [.measurement raw])
    | .error e d => FirstFault Observable.nodeFaults raw.nodes e ∧ d = c := by
  have reports := Observable.fault?_reports raw
  cases registered : (observable raw).run c.wires with
  | error e table =>
    obtain ⟨within, fault⟩ := (observable_registers raw).of_error registered
    rw [fault] at reports
    simp only [EStateM.run] at registered
    simp only [Circuit.measure, EStateM.run, registered, within.truncate]
    exact ⟨reports, trivial⟩
  | ok tree table =>
    obtain ⟨within, faultless, stands⟩ := (observable_registers raw).of_ok registered
    obtain ⟨shape, numbers⟩ := observable_refers raw registered
    obtain ⟨filled, -⟩ := Observable.fault?_eq_none_iff.1 faultless
    rw [faultless] at reports
    simp only [EStateM.run] at registered
    simp only [Circuit.measure, EStateM.run, registered]
    exact ⟨reports, h.addMeasurement within (numbers _ h.wires) ⟨shape, filled, stands⟩⟩

/-- An entry has a fault, with which it is refused, or the circuit takes it up. -/
theorem Lists.run (h : c.Lists entries) (entry : Entry) :
    match entry.run.run c with
    | .ok _ d => (∀ e, ¬ entry.Fault entries e) ∧ d.Lists (entries ++ [entry])
    | .error e d => entry.Fault entries e ∧ d = c := by
  cases entry with
  | operation r =>
    simp only [Entry.fault_operation_iff, ← h.operations.length_eq]
    exact h.pushRecord r
  | measurement raw =>
    have spec := h.measure raw
    simp only [Entry.fault_measurement_iff]
    rw [Entry.run]
    cases done : (Circuit.measure raw).run c with
    | ok u d =>
      rw [done] at spec
      exact ⟨fun e wrong => wrong.not_faultless spec.1, spec.2⟩
    | error e d =>
      rw [done] at spec
      exact spec

/-- A run over entries is refused with the first fault, or the circuit takes all of them up. -/
theorem Lists.forM {taken : List Entry} (h : c.Lists taken) (entries : List Entry) :
    match (entries.forM Entry.run).run c with
    | .ok _ d => Faultless (Faults.Behind Entry.Fault taken) entries ∧ d.Lists (taken ++ entries)
    | .error e _ => FirstFault (Faults.Behind Entry.Fault taken) entries e := by
  induction entries generalizing c taken with
  | nil => exact ⟨faultless_nil, by rwa [List.append_nil]⟩
  | cons entry rest ih =>
    have unroll : (entry :: rest).forM Entry.run = entry.run >>= fun _ => rest.forM Entry.run := rfl
    rw [unroll, EStateM.run_bind]
    have spec := h.run entry
    cases first : entry.run.run c with
    | error e d =>
      rw [first] at spec
      exact (FirstFault.behind_singleton spec.1).left
    | ok u d =>
      rw [first] at spec
      obtain ⟨sound, lists⟩ := spec
      have clean : Faultless (Faults.Behind Entry.Fault taken) [entry] :=
        faultless_behind_singleton.2 sound
      have others := ih lists
      dsimp only
      cases second : (rest.forM Entry.run).run d with
      | error e d' =>
        rw [second, ← Faults.behind_behind] at others
        exact FirstFault.right clean others
      | ok u d' =>
        rw [second, ← Faults.behind_behind, List.append_assoc] at others
        exact ⟨faultless_append.2 ⟨clean, others.1⟩, others.2⟩

end Circuit

/-! ## Circuits that are built by calls -/

/-- What a call appends. -/
def Call.entry : Call → Entry
  | record r => .operation r
  | standard name wires params => .operation (.standard name wires params)
  | continuous name wires params => .operation (.continuous name wires params)
  | hybrid name wires numContinuous params => .operation (.hybrid name wires numContinuous params)
  | measure raw => .measurement raw

/-- A call does what the entry that it makes does. -/
theorem Call.run_eq_run_entry (call : Call) : call.run = call.entry.run := by
  cases call <;> rfl

namespace Circuit

variable {c : Circuit} {entries : List Entry}

/-- After a call the circuit is made from the entries so far, and perhaps one more. -/
theorem Lists.after (h : c.Lists entries) (call : Call) :
    ∃ entries', (call.after c).Lists entries' := by
  have spec := h.run call.entry
  rw [← call.run_eq_run_entry] at spec
  rw [Call.after]
  rw [EStateM.run] at spec
  cases done : call.run c with
  | ok u d =>
    rw [done] at spec
    exact ⟨_, spec.2⟩
  | error e d =>
    rw [done] at spec
    exact ⟨entries, spec.2 ▸ h⟩

/-- A circuit that calls have built is made from entries. -/
theorem Lists.afterCalls (h : c.Lists entries) (calls : List Call) :
    ∃ entries', (c.afterCalls calls).Lists entries' := by
  induction calls generalizing c entries with
  | nil => exact ⟨entries, h⟩
  | cons call rest ih =>
    obtain ⟨entries', lists⟩ := h.after call
    exact ih lists

/-- A circuit that is built by calls is made from entries. -/
theorem Reachable.lists (h : c.Reachable) : ∃ entries, c.Lists entries := by
  obtain ⟨name, calls, rfl⟩ := h
  exact (lists_empty name).afterCalls calls

end Circuit

end Qumode
