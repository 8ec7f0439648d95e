import Qumode.Proofs.Circuit.Registration
import Qumode.Proofs.FirstFault
import Qumode.Proofs.Observable.Nodes

/-!
# What is wrong with a record

`OperationRecord.Fault` and `Observable.NodeFault` are the rules for one operation and for one node
of an observable: which error it is refused with. An operation says how many of its wires are
qumodes and has no wire twice; a leaf has a name that can be classified and no wire twice; a sum or
a product is not empty. A record breaks at most one rule, since a rule about wires is for records
that keep the others.

The check of an operation follows these rules (`check_eq_error_iff`), and the fault of an observable
is that of the first faulty node (`fault?_reports`).
-/

namespace Qumode

/-- The wire stands in the list a second time, behind wires that are all different. -/
def FirstRepeated (wires : List Wire) (w : Wire) : Prop :=
  ∃ before after, wires = before ++ w :: after ∧ before.Nodup ∧ w ∈ before

/-- The first repeated wire is the first that was seen before or stands twice. -/
theorem firstRepeated?_eq_some_iff_of_seen {seen wires : List Wire} {w : Wire} :
    firstRepeated? seen wires = some w ↔ ∃ before after, wires = before ++ w :: after ∧
      before.Nodup ∧ (∀ v ∈ before, v ∉ seen) ∧ (w ∈ seen ∨ w ∈ before) := by
  induction wires generalizing seen with
  | nil => simp [firstRepeated?]
  | cons v rest ih =>
    rw [firstRepeated?]
    by_cases repeated : v ∈ seen
    · rw [if_pos repeated, Option.some.injEq]
      constructor
      · rintro rfl
        exact ⟨[], rest, rfl, .nil, by simp, .inl repeated⟩
      · rintro ⟨before, after, split, -, apart, -⟩
        cases before with
        | nil => exact (List.cons.inj split).1
        | cons head before =>
          cases split
          exact absurd repeated (apart v List.mem_cons_self)
    · rw [if_neg repeated, ih]
      constructor
      · rintro ⟨before, after, rfl, distinct, apart, again⟩
        have fresh : v ∉ before := fun mem => apart v mem List.mem_cons_self
        refine ⟨v :: before, after, rfl, List.nodup_cons.2 ⟨fresh, distinct⟩, ?_, ?_⟩
        · refine List.forall_mem_cons.2 ⟨repeated, fun u mem seenBefore => ?_⟩
          exact apart u mem (List.mem_cons_of_mem v seenBefore)
        · simp only [List.mem_cons] at again ⊢
          tauto
      · rintro ⟨before, after, split, distinct, apart, again⟩
        cases before with
        | nil =>
          cases split
          exact absurd (again.resolve_right List.not_mem_nil) repeated
        | cons head before =>
          cases split
          rw [List.nodup_cons] at distinct
          rw [List.forall_mem_cons] at apart
          refine ⟨before, after, rfl, distinct.2, fun u mem => ?_, ?_⟩
          · rw [List.mem_cons, not_or]
            exact ⟨fun same => distinct.1 (same ▸ mem), apart.2 u mem⟩
          · simp only [List.mem_cons] at again ⊢
            tauto

theorem firstRepeated?_eq_some_iff {wires : List Wire} {w : Wire} :
    firstRepeated? [] wires = some w ↔ FirstRepeated wires w := by
  rw [firstRepeated?_eq_some_iff_of_seen]
  simp [FirstRepeated]

/-- A list without a repeated wire has every wire once. -/
theorem not_firstRepeated_iff {wires : List Wire} :
    (∀ w, ¬ FirstRepeated wires w) ↔ wires.Nodup := by
  simp only [← firstRepeated?_eq_some_iff, ← Option.eq_none_iff_forall_ne_some,
    firstRepeated?_eq_none_iff]
  simp

namespace OperationRecord

variable {r : OperationRecord} {index : Nat} {e : CircuitError}

/-- A hybrid operation has the number of its qumodes, and at most all of its wires are. -/
def Counted (r : OperationRecord) : Prop :=
  r.capability = .hybrid → ∃ count, r.numContinuous = some count ∧ count.toNat ≤ r.wires.length

/-- What is wrong with a record as the operation with the given index. -/
inductive Fault (r : OperationRecord) (index : Nat) : CircuitError → Prop where
  | missingCount (hybrid : r.capability = .hybrid) (missing : r.numContinuous = none) :
      r.Fault index (.malformedOperation index r.name .missingCount)
  | countExceedsWires {count : UInt64} (hybrid : r.capability = .hybrid)
      (given : r.numContinuous = some count) (exceeds : r.wires.length < count.toNat) :
      r.Fault index
        (.malformedOperation index r.name (.countExceedsWires count.toNat r.wires.length))
  | duplicateWire {w : Wire} (counted : r.Counted) (repeated : FirstRepeated r.wires w) :
      r.Fault index (.duplicateWire w r.name)

/-- The capability that a record declares. -/
inductive Declares (r : OperationRecord) : Capability → Prop where
  | standard (tag : r.capability = .standard) : r.Declares .standard
  | continuousNative (tag : r.capability = .continuousNative) : r.Declares .continuousNative
  | hybrid {count : UInt64} (tag : r.capability = .hybrid) (given : r.numContinuous = some count)
      (fits : count.toNat ≤ r.wires.length) : r.Declares (.hybrid count.toNat)

/-- The capability that is found is the one the record declares. -/
theorem declares_of_capability? {capability : Capability} (h : r.capability? = .ok capability) :
    r.Declares capability := by
  rw [capability?] at h
  cases tag : r.capability with
  | standard =>
    simp only [tag, Except.ok.injEq] at h
    exact h ▸ .standard tag
  | continuousNative =>
    simp only [tag, Except.ok.injEq] at h
    exact h ▸ .continuousNative tag
  | hybrid =>
    simp only [tag] at h
    cases given : r.numContinuous with
    | none => simp [given] at h
    | some count =>
      simp only [given] at h
      split at h
      case isTrue => cases h
      case isFalse fits => exact Except.ok.inj h ▸ .hybrid tag given (Nat.le_of_not_lt fits)

/-- A record has a capability when it counts its qumodes. -/
theorem capability?_isOk_iff : (∃ capability, r.capability? = .ok capability) ↔ r.Counted := by
  rw [capability?, Counted]
  cases r.capability with
  | standard => simp
  | continuousNative => simp
  | hybrid =>
    cases r.numContinuous with
    | none => simp
    | some count =>
      by_cases exceeds : r.wires.length < count.toNat
      · simp [exceeds]
      · simp [exceeds, Nat.le_of_not_lt exceeds]

/-- A count that is missing or too large. -/
theorem capability?_eq_error_iff {fault : OperationFault} :
    r.capability? = .error fault ↔ r.capability = .hybrid ∧
      (r.numContinuous = none ∧ fault = .missingCount ∨
        ∃ count, r.numContinuous = some count ∧ r.wires.length < count.toNat ∧
          fault = .countExceedsWires count.toNat r.wires.length) := by
  rw [capability?]
  cases r.capability with
  | standard => simp
  | continuousNative => simp
  | hybrid =>
    cases r.numContinuous with
    | none => simp [eq_comm]
    | some count =>
      by_cases exceeds : r.wires.length < count.toNat
      · simp [exceeds, eq_comm]
      · simp [exceeds]

/-- A counted record can only have a wire twice. -/
theorem fault_iff_of_counted (counted : r.Counted) :
    r.Fault index e ↔ ∃ w, FirstRepeated r.wires w ∧ e = .duplicateWire w r.name := by
  constructor
  · intro wrong
    cases wrong with
    | missingCount hybrid missing =>
      obtain ⟨count, given, -⟩ := counted hybrid
      cases missing.symm.trans given
    | countExceedsWires hybrid given exceeds =>
      obtain ⟨count, given', fits⟩ := counted hybrid
      cases given.symm.trans given'
      exact absurd fits (Nat.not_le.2 exceeds)
    | duplicateWire _ repeated => exact ⟨_, repeated, rfl⟩
  · rintro ⟨w, repeated, rfl⟩
    exact .duplicateWire counted repeated

/-- A check fails with the fault of the record. -/
theorem check_eq_error_iff : r.check index = .error e ↔ r.Fault index e := by
  rw [check]
  cases declared : r.capability? with
  | error fault =>
    have not_counted : ¬ r.Counted := by
      rw [← capability?_isOk_iff, declared]
      simp
    obtain ⟨hybrid, why⟩ := capability?_eq_error_iff.1 declared
    dsimp only
    rw [Except.error.injEq]
    constructor
    · rintro rfl
      rcases why with ⟨missing, rfl⟩ | ⟨count, given, exceeds, rfl⟩
      · exact .missingCount hybrid missing
      · exact .countExceedsWires hybrid given exceeds
    · intro wrong
      cases wrong with
      | missingCount _ missing =>
        rcases why with ⟨-, rfl⟩ | ⟨count, given, -, -⟩
        · rfl
        · cases missing.symm.trans given
      | countExceedsWires _ given _ =>
        rcases why with ⟨missing, -⟩ | ⟨count, given', -, rfl⟩
        · cases missing.symm.trans given
        · cases given.symm.trans given'
          rfl
      | duplicateWire counted _ => exact absurd counted not_counted
  | ok capability =>
    rw [fault_iff_of_counted (capability?_isOk_iff.1 ⟨capability, declared⟩)]
    simp only [← firstRepeated?_eq_some_iff]
    cases firstRepeated? [] r.wires with
    | none => simp
    | some w => simp [eq_comm]

/-- A record without a fault is counted and has every wire once. -/
theorem not_fault_iff : (∀ e, ¬ r.Fault index e) ↔ r.Counted ∧ r.wires.Nodup := by
  rw [← not_firstRepeated_iff]
  constructor
  · intro faultless
    have counted : r.Counted := by
      intro hybrid
      cases given : r.numContinuous with
      | none => exact absurd (Fault.missingCount hybrid given) (faultless _)
      | some count =>
        refine ⟨count, rfl, Nat.le_of_not_lt fun exceeds => ?_⟩
        exact faultless _ (.countExceedsWires hybrid given exceeds)
    exact ⟨counted, fun w repeated => faultless _ (.duplicateWire counted repeated)⟩
  · rintro ⟨counted, distinct⟩ e wrong
    obtain ⟨w, repeated, -⟩ := (fault_iff_of_counted counted).1 wrong
    exact distinct w repeated

end OperationRecord

/-- The name can be classified for that many wires and these parameters, and no wire stands twice.
-/
structure NamedObservable.Accepted (n : NamedObservable) : Prop where
  classified : ∃ kind, LeafKind.classify n.name n.wires.length n.params = .ok kind
  distinct : n.wires.Nodup

namespace Observable

/-- What is wrong with a node of an observable by itself. -/
inductive NodeFault : RawObservable → CircuitError → Prop where
  | unclassified {n : NamedObservable} {e : CircuitError}
      (refused : LeafKind.classify n.name n.wires.length n.params = .error e) :
      NodeFault (.leaf n) e
  | duplicateWire {n : NamedObservable} {kind : LeafKind} {w : Wire}
      (classified : LeafKind.classify n.name n.wires.length n.params = .ok kind)
      (repeated : FirstRepeated n.wires w) : NodeFault (.leaf n) (.duplicateWire w n.name)
  | emptySum : NodeFault (.sum []) (.emptyComposite .sum)
  | emptyProduct : NodeFault (.product []) (.emptyComposite .product)

/-- A fault of a node, wherever the node stands. -/
abbrev nodeFaults : Faults RawObservable CircuitError := fun _ => NodeFault

/-- The fault of a leaf is that of its named observable. -/
theorem nodeFault_leaf_iff {n : NamedObservable} {e : CircuitError} :
    NodeFault (.leaf n) e ↔ n.fault? = some e := by
  rw [NamedObservable.fault?]
  cases classified : LeafKind.classify n.name n.wires.length n.params with
  | error e' =>
    dsimp only
    rw [Option.some.injEq]
    constructor
    · intro wrong
      cases wrong with
      | unclassified refused => exact Except.error.inj (classified.symm.trans refused)
      | duplicateWire accepted _ => cases classified.symm.trans accepted
    · rintro rfl
      exact .unclassified classified
  | ok kind =>
    dsimp only
    rw [Option.map_eq_some_iff]
    simp only [firstRepeated?_eq_some_iff]
    constructor
    · intro wrong
      cases wrong with
      | unclassified refused => cases classified.symm.trans refused
      | duplicateWire _ repeated => exact ⟨_, repeated, rfl⟩
    · rintro ⟨w, repeated, rfl⟩
      exact .duplicateWire classified repeated

/-- A leaf has no fault when its observable is accepted. -/
theorem not_nodeFault_leaf_iff {n : NamedObservable} :
    (∀ e, ¬ NodeFault (.leaf n) e) ↔ n.Accepted := by
  constructor
  · intro faultless
    cases classified : LeafKind.classify n.name n.wires.length n.params with
    | error e => exact absurd (.unclassified classified) (faultless e)
    | ok kind =>
      refine ⟨⟨kind, classified⟩, not_firstRepeated_iff.1 fun w repeated => ?_⟩
      exact faultless _ (.duplicateWire classified repeated)
  · rintro ⟨⟨kind, classified⟩, distinct⟩ e wrong
    cases wrong with
    | unclassified refused => cases classified.symm.trans refused
    | duplicateWire _ repeated => exact not_firstRepeated_iff.2 distinct _ repeated

/-- The one fault of a sum is to be empty. -/
theorem nodeFault_sum_iff {terms : List RawObservable} {e : CircuitError} :
    NodeFault (.sum terms) e ↔ terms = [] ∧ e = .emptyComposite .sum := by
  constructor
  · rintro ⟨⟩
    exact ⟨rfl, rfl⟩
  · rintro ⟨rfl, rfl⟩
    exact .emptySum

/-- The one fault of a product is to be empty. -/
theorem nodeFault_product_iff {factors : List RawObservable} {e : CircuitError} :
    NodeFault (.product factors) e ↔ factors = [] ∧ e = .emptyComposite .product := by
  constructor
  · rintro ⟨⟩
    exact ⟨rfl, rfl⟩
  · rintro ⟨rfl, rfl⟩
    exact .emptyProduct

/-- A node is wrong in one way at most. -/
theorem nodeFaults_unique (before : List RawObservable) (node : RawObservable)
    (e e' : CircuitError) (h : nodeFaults before node e) (h' : nodeFaults before node e') :
    e = e' := by
  cases node with
  | leaf n =>
    have found := nodeFault_leaf_iff.1 h
    exact Option.some.inj (found.symm.trans (nodeFault_leaf_iff.1 h'))
  | sum terms => exact (nodeFault_sum_iff.1 h).2.trans (nodeFault_sum_iff.1 h').2.symm
  | product factors => exact (nodeFault_product_iff.1 h).2.trans (nodeFault_product_iff.1 h').2.symm
  | adjoint base => cases h
  | power base exponent => cases h

/-- A node that is not faulty itself stands before the nodes below it. -/
theorem Reports.below {found : Option CircuitError} {node : RawObservable}
    {below : List RawObservable} (sound : ∀ e, ¬ NodeFault node e)
    (h : Reports found nodeFaults below) : Reports found nodeFaults (node :: below) := by
  have top : Reports none nodeFaults [node] := faultless_singleton.2 sound
  exact Reports.append top h

mutual

/-- The fault of an observable is that of its first faulty node. -/
theorem fault?_reports : (raw : RawObservable) → Reports raw.fault? nodeFaults raw.nodes
  | .leaf n => by
    rw [fault?, nodes]
    exact .singleton fun e => nodeFault_leaf_iff
  | .sum terms => by
    rw [fault?, nodes]
    cases terms with
    | nil => exact .singleton fun e => by simp [nodeFault_sum_iff, eq_comm]
    | cons t rest =>
      refine Reports.below (fun e => ?_) (faults?_reports (t :: rest))
      simp [nodeFault_sum_iff]
  | .product factors => by
    rw [fault?, nodes]
    cases factors with
    | nil => exact .singleton fun e => by simp [nodeFault_product_iff, eq_comm]
    | cons t rest =>
      refine Reports.below (fun e => ?_) (faults?_reports (t :: rest))
      simp [nodeFault_product_iff]
  | .adjoint base => by
    rw [fault?, nodes]
    exact Reports.below (fun _ => nofun) (fault?_reports base)
  | .power base exponent => by
    rw [fault?, nodes]
    exact Reports.below (fun _ => nofun) (fault?_reports base)

/-- Observables in a row report the first fault among their nodes. -/
theorem faults?_reports : (raws : List RawObservable) →
    Reports (faults? raws) nodeFaults (nodesOf raws)
  | [] => faultless_nil
  | raw :: rest => by
    rw [faults?, nodesOf]
    exact (fault?_reports raw).append (faults?_reports rest)

end

/-- An observable has no fault when it is filled and its leaves are accepted. -/
theorem fault?_eq_none_iff {raw : RawObservable} :
    raw.fault? = none ↔ raw.Filled ∧ ∀ n ∈ raw.leafList, n.Accepted := by
  have each : Faultless nodeFaults raw.nodes ↔ ∀ node ∈ raw.nodes, ∀ e, ¬ NodeFault node e :=
    faultless_iff_forall fun _ _ => Iff.rfl
  rw [← (fault?_reports raw).faultless_iff, each]
  constructor
  · intro faultless
    refine ⟨fun node mem => ⟨?_, ?_⟩, fun n mem => ?_⟩
    · rintro rfl
      exact faultless _ mem _ .emptySum
    · rintro rfl
      exact faultless _ mem _ .emptyProduct
    · exact not_nodeFault_leaf_iff.1 (faultless _ ((leaf_mem_nodes_iff raw).2 mem))
  · rintro ⟨filled, accepted⟩ node mem e wrong
    cases node with
    | leaf n => exact not_nodeFault_leaf_iff.2 (accepted n ((leaf_mem_nodes_iff raw).1 mem)) e wrong
    | sum terms => exact (filled _ mem).1 (congrArg _ (nodeFault_sum_iff.1 wrong).1)
    | product factors => exact (filled _ mem).2 (congrArg _ (nodeFault_product_iff.1 wrong).1)
    | adjoint base => cases wrong
    | power base exponent => cases wrong

end Observable

end Qumode
