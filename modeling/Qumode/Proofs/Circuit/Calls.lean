import Qumode.Proofs.Circuit.Registration
import Qumode.Proofs.Steps

/-!
# Runs of builder calls

A front end builds a circuit by calls, any of which may fail without ending the run.
`pushRecord_run` and `measure_run` say all that one call does: it fails with an error that the wires
of the circuit have no part in and leaves the circuit as it was, or it appends one element whose
wire ids are those of the wires it names.

A failed measurement registers wires first and forgets them again. That this brings the circuit back
is `WireTable.Within.truncate`: nothing that was in the table before has moved.
-/

namespace Qumode

namespace OperationRecord

variable {r : OperationRecord} {index : Nat} {capability : Capability}

theorem check_eq_ok_iff :
    r.check index = .ok capability ↔ r.capability? = .ok capability ∧ r.wires.Nodup := by
  rw [check]
  cases declared : r.capability? with
  | error fault => simp
  | ok declaredCapability =>
    have distinct_iff := @firstRepeated?_eq_none_iff [] r.wires
    cases repeated : firstRepeated? [] r.wires with
    | some w => simp_all
    | none => simp_all

end OperationRecord

namespace Circuit

open Qumode.Normal

/-- A record that does not pass its check leaves the circuit alone; the others become the last
operation. -/
theorem pushRecord_run (r : OperationRecord) (c : Circuit) :
    match r.check c.operations.length with
    | .error e => (pushRecord r).run c = .error e c
    | .ok capability => ∃ ids table, c.wires.Within table ∧ Labelled r.wires ids table ∧
        (pushRecord r).run c = .ok () { c with
          wires := table
          operations := c.operations ++ [⟨r.name, ids, r.params, capability⟩] } := by
  cases checked : r.check c.operations.length with
  | error e => simp [pushRecord, EStateM.run, checked]
  | ok capability =>
    cases registered : (internAll r.wires).run c.wires with
    | error e table => exact nomatch ((internAll_registers r.wires).of_error registered).2
    | ok ids table =>
      obtain ⟨within, -, labelled⟩ := (internAll_registers r.wires).of_ok registered
      refine ⟨ids, table, within, labelled, ?_⟩
      simp only [pushRecord, EStateM.run, checked]
      rw [EStateM.run] at registered
      rw [registered]

/-- A faulty observable leaves the circuit alone; the others become the last measurement. -/
theorem measure_run (raw : RawObservable) (c : Circuit) :
    match raw.fault? with
    | some e => (measure raw).run c = .error e c
    | none => ∃ tree table, c.wires.Within table ∧
        List.Forall₂ (Leaf.StandsFor table) tree.leafList raw.leafList ∧
        (measure raw).run c = .ok () { c with
          wires := table
          measurements := c.measurements ++ [tree] } := by
  cases registered : (observable raw).run c.wires with
  | error e table =>
    obtain ⟨within, fault⟩ := (observable_registers raw).of_error registered
    rw [fault]
    simp only [measure, EStateM.run] at registered ⊢
    simp only [registered, within.truncate]
  | ok tree table =>
    obtain ⟨within, faultless, stands⟩ := (observable_registers raw).of_ok registered
    rw [faultless]
    refine ⟨tree, table, within, stands, ?_⟩
    simp only [measure, EStateM.run] at registered ⊢
    rw [registered]

end Circuit

/-- A call that extends a circuit. -/
inductive Call where
  | record (r : OperationRecord)
  | standard (name : String) (wires : List Wire) (params : List Param)
  | continuous (name : String) (wires : List Wire) (params : List Param)
  | hybrid (name : String) (wires : List Wire) (numContinuous : UInt64) (params : List Param)
  | measure (raw : RawObservable)

namespace Call

open Qumode.Normal

def run : Call → Builder Unit
  | record r => Circuit.pushRecord r
  | standard name wires params => Circuit.standard name wires params
  | continuous name wires params => Circuit.continuous name wires params
  | hybrid name wires numContinuous params => Circuit.hybrid name wires numContinuous params
  | measure raw => Circuit.measure raw

/-- The circuit after a call, which may have failed. -/
def after (call : Call) (c : Circuit) : Circuit :=
  match call.run c with
  | .ok _ d => d
  | .error _ d => d

def succeeds (call : Call) (c : Circuit) : Bool :=
  match call.run c with
  | .ok _ _ => true
  | .error _ _ => false

/-- The convenience calls append records. -/
theorem run_eq (call : Call) :
    (∃ r, call.run = Circuit.pushRecord r) ∨ ∃ raw, call.run = Circuit.measure raw := by
  cases call with
  | record r => exact .inl ⟨r, rfl⟩
  | standard name wires params => exact .inl ⟨.standard name wires params, rfl⟩
  | continuous name wires params => exact .inl ⟨.continuous name wires params, rfl⟩
  | hybrid name wires count params => exact .inl ⟨.hybrid name wires count params, rfl⟩
  | measure raw => exact .inr ⟨raw, rfl⟩

/-- What a call that succeeds does: it adds wires behind those of the circuit, and then one
operation on registered wires or one observable over them. -/
theorem run_cases {call : Call} {c d : Circuit} (done : call.run c = .ok () d) :
    ∃ table, c.wires.Within table ∧
      ((∃ op wires, Labelled wires op.wires table ∧ wires.Nodup ∧
          d = { c with wires := table, operations := c.operations ++ [op] }) ∨
        ∃ tree named, List.Forall₂ (Leaf.StandsFor table) tree.leafList named ∧
          d = { c with wires := table, measurements := c.measurements ++ [tree] }) := by
  rcases call.run_eq with ⟨r, record⟩ | ⟨raw, measurement⟩
  · rw [record] at done
    have spec := Circuit.pushRecord_run r c
    cases checked : r.check c.operations.length with
    | error e =>
      rw [checked] at spec
      exact nomatch spec.symm.trans done
    | ok capability =>
      rw [checked] at spec
      obtain ⟨ids, table, within, labelled, result⟩ := spec
      have distinct := (OperationRecord.check_eq_ok_iff.1 checked).2
      cases result.symm.trans done
      exact ⟨table, within, .inl ⟨_, r.wires, labelled, distinct, rfl⟩⟩
  · rw [measurement] at done
    have spec := Circuit.measure_run raw c
    cases fault : raw.fault? with
    | some e =>
      rw [fault] at spec
      exact nomatch spec.symm.trans done
    | none =>
      rw [fault] at spec
      obtain ⟨tree, table, within, stands, result⟩ := spec
      cases result.symm.trans done
      exact ⟨table, within, .inr ⟨tree, raw.leafList, stands, rfl⟩⟩

/-- A call either fails on every circuit and leaves it as it was, or succeeds on every circuit. -/
theorem uniform (call : Call) :
    (∀ c, ∃ e, call.run c = .error e c) ∨ ∀ c, ∃ d, call.run c = .ok () d := by
  rcases call.run_eq with ⟨r, record⟩ | ⟨raw, measurement⟩
  · rw [record]
    by_cases passes : ∃ capability, r.capability? = .ok capability ∧ r.wires.Nodup
    · obtain ⟨capability, passes⟩ := passes
      refine .inr fun c => ?_
      have spec := Circuit.pushRecord_run r c
      rw [OperationRecord.check_eq_ok_iff.2 passes] at spec
      obtain ⟨ids, table, -, -, done⟩ := spec
      exact ⟨_, done⟩
    · refine .inl fun c => ?_
      have spec := Circuit.pushRecord_run r c
      cases checked : r.check c.operations.length with
      | error e => exact ⟨e, by rwa [checked] at spec⟩
      | ok capability => exact absurd ⟨capability, OperationRecord.check_eq_ok_iff.1 checked⟩ passes
  · rw [measurement]
    cases fault : raw.fault? with
    | some e =>
      refine .inl fun c => ⟨e, ?_⟩
      have spec := Circuit.measure_run raw c
      rwa [fault] at spec
    | none =>
      refine .inr fun c => ?_
      have spec := Circuit.measure_run raw c
      rw [fault] at spec
      obtain ⟨tree, table, -, -, done⟩ := spec
      exact ⟨_, done⟩

/-- A call that fails leaves the circuit as it was. -/
theorem eq_of_run_eq_error {call : Call} {c d : Circuit} {e : CircuitError}
    (failed : call.run c = .error e d) : d = c := by
  rcases call.uniform with refused | accepted
  · obtain ⟨e', unchanged⟩ := refused c
    cases failed.symm.trans unchanged
    rfl
  · obtain ⟨d', done⟩ := accepted c
    exact nomatch failed.symm.trans done

/-- Whether a call succeeds is settled by the call. -/
theorem succeeds_eq (call : Call) (c d : Circuit) : call.succeeds c = call.succeeds d := by
  rcases call.uniform with refused | accepted
  · obtain ⟨e, at_c⟩ := refused c
    obtain ⟨e', at_d⟩ := refused d
    rw [succeeds, succeeds, at_c, at_d]
  · obtain ⟨c', at_c⟩ := accepted c
    obtain ⟨d', at_d⟩ := accepted d
    rw [succeeds, succeeds, at_c, at_d]

theorem after_eq_of_not_succeeds {call : Call} {c : Circuit} (failed : call.succeeds c = false) :
    call.after c = c := by
  rw [succeeds] at failed
  cases run : call.run c with
  | ok u d => simp [run] at failed
  | error e d =>
    rw [after, run]
    exact eq_of_run_eq_error run

/-- A call that succeeds makes the circuit what it is afterwards. -/
theorem run_eq_ok_of_succeeds {call : Call} {c : Circuit} (done : call.succeeds c = true) :
    call.run c = .ok () (call.after c) := by
  rw [succeeds] at done
  cases run : call.run c with
  | ok u d => rw [after, run]
  | error e d => simp [run] at done

end Call

namespace Circuit

/-- The circuit after several calls. A call that fails does not end the run. -/
def afterCalls (c : Circuit) (calls : List Call) : Circuit :=
  calls.foldl (fun c call => call.after c) c

/-- The calls of a run that succeed, in order. -/
def successes (c : Circuit) : List Call → List Call
  | [] => []
  | call :: rest =>
    if call.succeeds c then call :: successes (call.after c) rest
    else successes (call.after c) rest

/-- A circuit that some calls build from an empty one. -/
def Reachable (c : Circuit) : Prop :=
  ∃ (name : String) (calls : List Call), c = (empty name).afterCalls calls

/-- The calls that succeed build, one after another and without a failure, the circuit that all
calls build. -/
theorem forM_successes (c : Circuit) (calls : List Call) :
    ((c.successes calls).forM Call.run).run c = .ok () (c.afterCalls calls) := by
  induction calls generalizing c with
  | nil => rfl
  | cons call rest ih =>
    have unroll : c.afterCalls (call :: rest) = (call.after c).afterCalls rest := rfl
    rw [unroll, successes]
    cases done : call.succeeds c with
    | true =>
      exact Steps.run_bind_eq_ok.2 ⟨(), _, Call.run_eq_ok_of_succeeds done, ih _⟩
    | false =>
      have same := Call.after_eq_of_not_succeeds done
      rw [same]
      exact ih c

/-- A call that fails in a run changes nothing: the circuit, its wire table in both directions
included, is the one before the call. So a run builds what its successful calls build alone, and no
call depends on the calls before it for its success. -/
theorem failed_calls_change_nothing (c : Circuit) (calls : List Call) :
    (∀ before call rest e d, calls = before ++ call :: rest →
      call.run (c.afterCalls before) = .error e d → d = c.afterCalls before) ∧
    ((c.successes calls).forM Call.run).run c = .ok () (c.afterCalls calls) ∧
    ∀ call ∈ calls, ∀ d d' : Circuit, call.succeeds d = call.succeeds d' := by
  refine ⟨?_, forM_successes c calls, ?_⟩
  · intro before call rest e d _ failed
    exact Call.eq_of_run_eq_error failed
  · intro call _ d d'
    exact call.succeeds_eq d d'

/-- A product whose second factor has an unknown name: the wire of the first is forgotten again. -/
theorem failed_product_changes_nothing :
    let before := (empty "c").afterCalls [.standard "Hadamard" [.index 7] []]
    let call : Call := .measure (.product [.leaf ⟨"PauliZ", [.index 3], []⟩,
      .leaf ⟨"Banana", [.index 7], []⟩])
    ∃ d, call.run before = .error (.unknownObservable "Banana") d ∧ d = before := by
  intro before call
  let hadamard : Call := .standard "Hadamard" [.index 7] []
  obtain ⟨unchanged, -, -⟩ := failed_calls_change_nothing (empty "c") [hadamard, call]
  exact ⟨_, rfl, unchanged [hadamard] call [] _ _ rfl rfl⟩

end Circuit

end Qumode
