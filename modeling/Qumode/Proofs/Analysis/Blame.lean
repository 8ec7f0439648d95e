import Qumode.Proofs.Analysis.Consistency
import Qumode.Proofs.Typing.Events

/-!
# Which fault an analysis reports

An analysis that fails reports the earliest faulty event of the circuit, and reports a wire without
a type only if no event is faulty: the wire with the lowest id on which there is no event.
-/

namespace Qumode

/-- What an event says about types. -/
def Event.typed (e : Event) : WireId × WireType := (e.wire, e.type)

namespace Circuit

variable {c : Circuit} {w : WireId} {t : WireType}

theorem typed_ofOperation (op : Operation) (index : Nat) :
    (Event.ofOperation op index).map Event.typed = op.requirements := by
  rw [Event.ofOperation, List.map_map]
  exact List.map_id _

theorem typed_ofMeasurement (m : Observable Leaf) (index : Nat) :
    (Event.ofMeasurement m index).map Event.typed = m.demands.map Demand.typed := by
  simp only [Event.ofMeasurement, Observable.demands, List.map_flatMap, List.map_map]
  rfl

/-- The events are the demands on types, with the elements that make them. -/
theorem typed_events (c : Circuit) : c.events.map Event.typed = c.demanded := by
  rw [events, List.map_append, List.map_flatMap, List.map_flatMap]
  simp only [typed_ofOperation, typed_ofMeasurement]
  have unnumbered {α β : Type} (f : α → List β) (items : List α) :
      items.zipIdx.flatMap (fun entry => f entry.1) = items.flatMap f := by
    rw [← List.flatMap_map Prod.fst f, List.zipIdx_map_fst]
  rw [unnumbered, unnumbered fun m : Observable Leaf => m.demands.map Demand.typed, demanded]

/-- What a circuit requires of a wire is the type of some event on it. -/
theorem requires_iff_event : c.Requires w t ↔ ∃ e ∈ c.events, e.wire = w ∧ e.type = t := by
  rw [← mem_demanded, ← typed_events, List.mem_map]
  simp only [Event.typed, Prod.mk.injEq]

/-- A wire is not required at any type when there is no event on it. -/
theorem earliest?_events_eq_none_iff :
    Event.earliest? c.events w = none ↔ ¬ ∃ t, c.Requires w t := by
  simp only [Event.earliest?, List.find?_eq_none, requires_iff_event, decide_eq_true_eq, not_exists,
    not_and]
  exact ⟨fun none t e mem on _ => none e mem on, fun none e mem on => none e.type e mem on rfl⟩

/-- Every event of a well-formed circuit is one of its elements, on one of its wires. -/
theorem WellFormed.belongs (h : c.WellFormed) : ∀ e ∈ c.events, e.Belongs c := by
  intro e mem
  refine ⟨?_, h.index_lt (requires_iff_event.2 ⟨e, mem, rfl, rfl⟩)⟩
  rcases List.mem_append.1 mem with operation | measurement
  · obtain ⟨⟨op, index⟩, listed, mem⟩ := List.mem_flatMap.1 operation
    obtain ⟨demand, -, rfl⟩ := List.mem_map.1 mem
    have there : c.operations[index]? = some op := List.mk_mem_zipIdx_iff_getElem?.1 listed
    simp [Event.origin, Site.describe, there]
  · obtain ⟨⟨m, index⟩, listed, mem⟩ := List.mem_flatMap.1 measurement
    obtain ⟨l, -, mem⟩ := List.mem_flatMap.1 mem
    obtain ⟨d, -, rfl⟩ := List.mem_map.1 mem
    have there : c.measurements[index]? = some m := List.mk_mem_zipIdx_iff_getElem?.1 listed
    simp [Event.origin, Site.describe, there]

/-- The error names the wire with the lowest id of those that no operation and no leaf requires to
have a type. -/
inductive FirstUnresolved (c : Circuit) : AnalysisError → Prop where
  | intro {w : WireId} {label : Wire} (named : c.wires.label? w = some label)
      (unresolved : ¬ ∃ t, c.Requires w t)
      (lower : ∀ v : WireId, v.index < w.index → ∃ t, c.Requires v t) :
      FirstUnresolved c (.unresolvedWire label)

theorem firstUnresolved_unique {e e' : AnalysisError} (h : c.FirstUnresolved e)
    (h' : c.FirstUnresolved e') : e = e' := by
  cases h with
  | @intro w label named unresolved lower =>
    cases h' with
    | @intro w' label' named' unresolved' lower' =>
      rcases Nat.lt_trichotomy w.index w'.index with before | same | behind
      · exact absurd (lower' w before) unresolved
      · cases WireId.ext same
        cases named.symm.trans named'
        rfl
      · exact absurd (lower w' behind) unresolved'

end Circuit

namespace TypeContext

variable {c : Circuit}

/-- The first wire without a type is reported. -/
theorem finishFrom_eq_error {index : Nat} {slots : List (Option Settled)} {e : AnalysisError}
    (h : finishFrom c index slots = .error e) :
    ∃ k, slots[k]? = some none ∧ (∀ j < k, slots[j]? ≠ some none) ∧
      e = .unresolvedWire (c.wireLabel ⟨index + k⟩) := by
  induction slots generalizing index with
  | nil => cases h
  | cons slot rest ih =>
    cases slot with
    | none =>
      cases h
      exact ⟨0, rfl, fun j before => absurd before (Nat.not_lt_zero j), rfl⟩
    | some settled =>
      have later : finishFrom c (index + 1) rest = .error e := by
        cases finished : finishFrom c (index + 1) rest with
        | ok types =>
          rw [finishFrom, finished] at h
          cases h
        | error e' =>
          rw [finishFrom, finished] at h
          exact h
      obtain ⟨k, empty, lower, rfl⟩ := ih later
      refine ⟨k + 1, empty, fun j before => ?_, ?_⟩
      · cases j with
        | zero => exact nofun
        | succ j => exact lower j (Nat.lt_of_succ_lt_succ before)
      · rw [Nat.add_assoc, Nat.add_comm 1 k]

end TypeContext

namespace Analysis

open Event Typing

variable {c : Circuit}

/-- The operations ask for no readouts. -/
theorem unmeasured_operations (c : Circuit) :
    Unmeasured (c.operations.zipIdx.flatMap fun (op, index) => ofOperation op index) 0 := by
  intro i _ w
  rw [earliestReadout?, List.findSome?_eq_none_iff]
  intro e mem
  obtain ⟨entry, -, mem⟩ := List.mem_flatMap.1 mem
  obtain ⟨demand, -, rfl⟩ := List.mem_map.1 mem
  rfl

/-- An analysis meets the demands of the events in order and reports the fault of the earliest
faulty one. -/
theorem resolved_follows (belongs : ∀ e ∈ c.events, e.Belongs c) :
    Follows c [] (resolved c) c.events fun _ => True := by
  rw [Circuit.events, List.forall_mem_append, List.forall_mem_flatMap, List.forall_mem_flatMap]
    at belongs
  exact (operations_follows belongs.1).bind fun _ _ =>
    measurementsFrom_follows belongs.2 (unmeasured_operations c)

/-- When all events are met, the wire that is reported is the first without an event. -/
theorem firstUnresolved_of_finish {ctx : TypeContext} {e : AnalysisError}
    (recalls : Recalls ctx c c.events) (h : ctx.finish c = .error e) : c.FirstUnresolved e := by
  obtain ⟨k, empty, lower, rfl⟩ := TypeContext.finishFrom_eq_error h
  rw [Nat.zero_add]
  have inside : k < c.numWires := recalls.length ▸ (List.getElem?_eq_some_iff.1 empty).1
  have slot (j : Nat) (inside : j < c.numWires) :
      ctx.slots[j]? = some none ↔ ¬ ∃ t, c.Requires ⟨j⟩ t := by
    rw [recalls.slot ⟨j⟩ inside, Option.some.injEq, Option.map_eq_none_iff,
      Circuit.earliest?_events_eq_none_iff]
  refine .intro (c.label?_wireLabel inside) ((slot k inside).1 empty) fun v before => ?_
  have filled := lower v.index before
  rwa [ne_eq, slot v.index (Nat.lt_trans before inside), not_not] at filled

/-- An analysis of a well-formed circuit succeeds only if no event is faulty and every wire has to
be a qubit or a qumode. It fails with the first fault, or with the first wire without an event. -/
theorem ofCircuit_blames (h : c.WellFormed) :
    match ofCircuit c with
    | .ok _ => Faultless (Event.Fault c) c.events ∧ ∀ w ∈ c.wires.ids, ∃ t, c.Requires w t
    | .error e => FirstFault (Event.Fault c) c.events e ∨
        Faultless (Event.Fault c) c.events ∧ c.FirstUnresolved e := by
  have follows := resolved_follows h.belongs (.start c) (recalls_start c)
  have spec := ofCircuit_spec h
  rw [ofCircuit] at spec ⊢
  cases run : (resolved c).run (.start c) with
  | error e ctx =>
    rw [run] at follows
    exact .inl follows
  | ok schemas ctx =>
    rw [run] at follows spec
    obtain ⟨clean, recalls, -⟩ := follows
    dsimp only at spec ⊢
    cases finished : ctx.finish c with
    | error e => exact .inr ⟨clean, firstUnresolved_of_finish recalls finished⟩
    | ok types =>
      rw [finished] at spec
      exact ⟨clean, spec.1.covered⟩

/-- A built circuit is refused with the fault of the earliest faulty event. Only if no event is
faulty it is refused for a wire without a type, which is the one with the lowest id. Ids are told
apart here however many wires there are; in 32 bits they are for up to `2 ^ 32` distinct wires. -/
theorem ofCircuit_eq_error_iff_first_fault (built : c.Reachable) (e : AnalysisError) :
    ofCircuit c = .error e ↔ FirstFault (Event.Fault c) c.events e ∨
      Faultless (Event.Fault c) c.events ∧ c.FirstUnresolved e := by
  have blames := ofCircuit_blames built.wellFormed
  cases analysed : ofCircuit c with
  | ok r =>
    rw [analysed] at blames
    obtain ⟨clean, covered⟩ := blames
    refine iff_of_false nofun ?_
    rintro (fault | ⟨-, named, unresolved, lower⟩)
    · exact fault.not_faultless clean
    · exact unresolved (covered _ (Circuit.mem_ids.2 (WireTable.index_lt_size_of_label? named)))
  | error e' =>
    rw [analysed] at blames
    constructor
    · rintro ⟨⟩
      exact blames
    · intro found
      refine congrArg Except.error ?_
      obtain fault' | ⟨clean', unresolved'⟩ := blames
      · obtain fault | ⟨clean, -⟩ := found
        · exact fault'.unique Event.fault_unique fault
        · exact absurd clean fault'.not_faultless
      · obtain fault | ⟨-, unresolved⟩ := found
        · exact absurd clean' fault.not_faultless
        · exact Circuit.firstUnresolved_unique unresolved' unresolved

/-- The second quadrature of the qumode is met before the qubit observable on it. -/
theorem first_fault_of_two_quadratures :
    let c := (Circuit.empty "c").afterCalls [
      .hybrid "ConditionalDisplacement" [.index 4, .index 9] 1 [],
      .measure (.sum [.leaf ⟨"QuadX", [.index 4], []⟩,
        .product [.leaf ⟨"QuadP", [.index 4], []⟩, .leaf ⟨"PauliZ", [.index 4], []⟩]])]
    FirstFault (Event.Fault c) c.events
      (.schemaConflict (.index 4) ⟨.measurement 0, "Sum"⟩ .position .position) := by
  intro c
  have built : c.Reachable := ⟨_, _, rfl⟩
  rcases (ofCircuit_eq_error_iff_first_fault built _).1 rfl with fault | ⟨-, unresolved⟩
  · exact fault
  · cases unresolved

end Analysis

end Qumode
