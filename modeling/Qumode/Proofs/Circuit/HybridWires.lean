import Mathlib.Data.List.Intervals
import Qumode.Proofs.Circuit.Normalization
import Qumode.Proofs.Circuit.Representation

/-!
# The qumodes of a hybrid item

The two conventions put the same number of qumodes at opposite ends of an item: one counted from the
front is the other counted from the back (`typeAt_mirror`). `HybridOrder.qumodes` lists the
positions that a convention makes qumodes. Under either convention they are an interval at one end
of the item, and a count above the arity fills the item and no more.

An operation demands by position, so over distinct wires it demands a type of as many wires as there
are positions of that type (`Operation.countP_requirements`). A hybrid operation of a circuit has
distinct wires and a count that they can hold, so exactly that many of its wires are to be qumodes.
Nothing about operations here depends on which convention is in force.
-/

namespace Qumode

namespace HybridOrder

variable {position arity numContinuous : Nat}

/-- With qumodes first, the positions below their number are qumodes. -/
theorem typeAt_continuousFirst :
    continuousFirst.typeAt position arity numContinuous = .continuous ↔
      position < numContinuous := by
  rw [typeAt, ite_eq_left_iff]
  simp

/-- With qumodes last, the positions from the end are. -/
theorem typeAt_discreteFirst :
    discreteFirst.typeAt position arity numContinuous = .continuous ↔
      arity - numContinuous ≤ position := by
  rw [typeAt, ite_eq_left_iff]
  simp

/-- A position under one convention has the type of the opposite position under the other. -/
theorem typeAt_mirror (inside : position < arity) :
    discreteFirst.typeAt position arity numContinuous =
      continuousFirst.typeAt (arity - 1 - position) arity numContinuous := by
  -- The difference on the left is truncated: a count above the arity leaves no position out.
  have sides : arity - numContinuous ≤ position ↔ arity - 1 - position < numContinuous := by omega
  simp only [typeAt, sides]

/-- The positions of the qumodes of an item, in ascending order. -/
def qumodes (order : HybridOrder) (arity numContinuous : Nat) : List Nat :=
  (List.range arity).filter fun position =>
    order.typeAt position arity numContinuous = .continuous

theorem qumodes_continuousFirst (arity numContinuous : Nat) :
    continuousFirst.qumodes arity numContinuous = List.Ico 0 (min numContinuous arity) := by
  simp only [qumodes, typeAt_continuousFirst]
  rw [← List.Ico.zero_bot, List.Ico.filter_lt, min_comm]

theorem qumodes_discreteFirst (arity numContinuous : Nat) :
    discreteFirst.qumodes arity numContinuous = List.Ico (arity - numContinuous) arity := by
  simp only [qumodes, typeAt_discreteFirst]
  rw [← List.Ico.zero_bot, List.Ico.filter_le, Nat.zero_max]

/-- Either order makes as many qumodes as are counted, if there are wires enough. -/
theorem length_qumodes (order : HybridOrder) (arity numContinuous : Nat) :
    (order.qumodes arity numContinuous).length = min numContinuous arity := by
  cases order with
  | continuousFirst => rw [qumodes_continuousFirst, List.Ico.length, Nat.sub_zero]
  | discreteFirst =>
    rw [qumodes_discreteFirst, List.Ico.length]
    omega

end HybridOrder

namespace Operation

variable {op : Operation} {w : WireId} {t : WireType}

theorem mem_requirements_iff :
    (w, t) ∈ op.requirements ↔ ∃ position, op.wires[position]? = some w ∧
      op.capability.requiredType position op.wires.length = t := by
  rw [requirements, List.mem_map]
  constructor
  · rintro ⟨⟨v, position⟩, mem, equal⟩
    cases equal
    exact ⟨position, List.mk_mem_zipIdx_iff_getElem?.1 mem, rfl⟩
  · rintro ⟨position, found, rfl⟩
    exact ⟨(w, position), List.mk_mem_zipIdx_iff_getElem?.2 found, rfl⟩

/-- Over distinct wires the demand on a wire is the one at its only position. -/
theorem mem_requirements_iff_of_nodup (distinct : op.wires.Nodup) {position : Nat}
    (found : op.wires[position]? = some w) :
    (w, t) ∈ op.requirements ↔
      op.capability.requiredType position op.wires.length = t := by
  rw [mem_requirements_iff]
  constructor
  · rintro ⟨other, foundThere, required⟩
    obtain ⟨inside, -⟩ := List.getElem?_eq_some_iff.1 foundThere
    have same : other = position :=
      (List.getElem?_inj inside distinct).1 (foundThere.trans found.symm)
    exact same ▸ required
  · intro required
    exact ⟨position, found, required⟩

/-- As many wires are demanded to be of a type as there are positions of that type. -/
theorem countP_requirements (distinct : op.wires.Nodup) (t : WireType) :
    op.wires.countP (fun w => (w, t) ∈ op.requirements) =
      (List.range op.wires.length).countP fun position =>
        op.capability.requiredType position op.wires.length = t := by
  have byPosition : ∀ entry ∈ op.wires.zipIdx,
      (entry.1, t) ∈ op.requirements ↔
        op.capability.requiredType entry.2 op.wires.length = t := by
    rintro ⟨w, position⟩ mem
    exact mem_requirements_iff_of_nodup distinct (List.mk_mem_zipIdx_iff_getElem?.1 mem)
  calc
    _ = (op.wires.zipIdx.map (·.1)).countP fun w => (w, t) ∈ op.requirements := by
      rw [List.zipIdx_map_fst]
    _ = op.wires.zipIdx.countP fun entry =>
        op.capability.requiredType entry.2 op.wires.length = t := by
      rw [List.countP_map]
      exact List.countP_congr fun entry mem => by simpa using byPosition entry mem
    _ = (op.wires.zipIdx.map (·.2)).countP fun position =>
        op.capability.requiredType position op.wires.length = t := by
      rw [List.countP_map]
      rfl
    _ = _ := by rw [List.zipIdx_map_snd, ← List.range_eq_range']

/-- A hybrid operation demands as many qumodes as it says, up to the number of its wires. -/
theorem countP_qumodes (distinct : op.wires.Nodup) {count : Nat}
    (hybrid : op.capability = .hybrid count) :
    op.wires.countP (fun w => (w, .continuous) ∈ op.requirements) =
      min count op.wires.length := by
  rw [countP_requirements distinct, hybrid, List.countP_eq_length_filter]
  exact hybridWireOrder.length_qumodes op.wires.length count

end Operation

/-- The operations of a circuit that is made from entries are sound. -/
theorem Circuit.Lists.sound_operation {c : Circuit} {entries : List Entry} (h : c.Lists entries)
    {op : Operation} (mem : op ∈ c.operations) : op.Sound c.numWires := by
  obtain ⟨r, -, stands⟩ := Steps.exists_left_of_mem h.operations.flip mem
  exact stands.sound

namespace HybridOrder

/-- The two conventions mirror each other. Either makes as many positions qumodes as the count says,
or all of them if the count is too large, in one block at its end of the item. A hybrid operation of
a circuit demands exactly its count of its wires, which are distinct, to be qumodes. -/
theorem conventions_mirror :
    (∀ arity numContinuous position, position < arity →
      discreteFirst.typeAt position arity numContinuous =
        continuousFirst.typeAt (arity - 1 - position) arity numContinuous) ∧
    (∀ (order : HybridOrder) (arity numContinuous : Nat),
      (order.qumodes arity numContinuous).length = min numContinuous arity) ∧
    (∀ arity numContinuous,
      continuousFirst.qumodes arity numContinuous = List.Ico 0 (min numContinuous arity) ∧
      discreteFirst.qumodes arity numContinuous = List.Ico (arity - numContinuous) arity) ∧
    ∀ c : Circuit, (c.Reachable ∨ ∃ d, Circuit.ofDescription d = .ok c) →
      ∀ op ∈ c.operations, ∀ count, op.capability = .hybrid count →
        op.wires.Nodup ∧
        op.wires.countP (fun w => (w, .continuous) ∈ op.requirements) = count := by
  refine ⟨fun arity numContinuous position => typeAt_mirror, length_qumodes,
    fun arity numContinuous => ⟨qumodes_continuousFirst arity numContinuous,
      qumodes_discreteFirst arity numContinuous⟩,
    fun c built op mem count hybrid => ?_⟩
  obtain ⟨entries, lists⟩ : ∃ entries, c.Lists entries := by
    obtain reachable | ⟨d, described⟩ := built
    · exact reachable.lists
    · exact ⟨_, Circuit.lists_of_ofDescription described⟩
  have sound := lists.sound_operation mem
  refine ⟨sound.wires.distinct, ?_⟩
  rw [Operation.countP_qumodes sound.wires.distinct hybrid]
  exact Nat.min_eq_left (sound.counted count hybrid)

/-- A count above the arity reaches the last position under either convention, and two of the three
wires of an operation are qumodes after a call with too large a count has failed. -/
theorem conventions_mirror_after_failed_call :
    let op : Operation := ⟨"ConditionalBeamsplitter", [⟨0⟩, ⟨1⟩, ⟨2⟩], [], .hybrid 2⟩
    let c := (Circuit.empty "c").afterCalls [.hybrid "ConditionalParity" [.label "m"] 2 [],
      .hybrid "ConditionalBeamsplitter" [.index 4, .label "m", .label "q"] 2 []]
    discreteFirst.typeAt 0 3 5 = continuousFirst.typeAt 2 3 5 ∧ op ∈ c.operations ∧
      op.wires.countP (fun w => (w, .continuous) ∈ op.requirements) = 2 := by
  intro op c
  obtain ⟨mirror, -, -, demanded⟩ := conventions_mirror
  have mem : op ∈ c.operations := by decide
  exact ⟨mirror 3 5 0 (by decide), mem, (demanded c (.inl ⟨_, _, rfl⟩) op mem 2 rfl).2⟩

end HybridOrder

end Qumode
