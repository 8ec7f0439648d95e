import Qumode.Proofs.Circuit.Entries

/-!
# The representation invariant of a circuit

`Circuit.Sound` says what holds of every circuit that is built by calls, failing ones included.
Names and ids of its wires are inverse to each other and the ids have no gap; operations and leaves
are over its own wires, each at most once; inner nodes have children, an adjoint and a power exactly
one; a leaf has the kind that its name and its number of wires allow; and there are no orphans:
every wire stands in an operation or in a leaf (`Lists.occurs`).

All of it is read off the entries that the circuit is made from, so nothing has to be followed
through the calls again.
-/

namespace Qumode

/-- The names and the ids of a table are inverse to each other, and the ids are those below the
number of wires. -/
structure WireTable.Bijective (t : WireTable) : Prop where
  get?_label? : ∀ id : WireId, id.index < t.size → ∃ w, t.label? id = some w ∧ t.get? w = some id
  label?_get? : ∀ w id, t.get? w = some id → t.label? id = some w
  distinct : ∀ id id' w, t.label? id = some w → t.label? id' = some w → id = id'
  dense : ∀ id : WireId, (∃ w, t.get? w = some id) ↔ id.index < t.size
  ids : t.ids = (List.range t.size).map WireId.mk

/-- Names and ids of a table are inverse to each other. -/
theorem WireTable.bijective (t : WireTable) : t.Bijective := by
  have labelled (id : WireId) (inside : id.index < t.size) : ∃ w, t.label? id = some w :=
    ⟨_, List.getElem?_eq_getElem inside⟩
  refine ⟨fun id inside => ?_, fun w id => get?_eq_some_iff.1, fun id id' w found found' => ?_,
    fun id => ⟨?_, fun inside => ?_⟩, rfl⟩
  · obtain ⟨w, found⟩ := labelled id inside
    exact ⟨w, found, get?_eq_some_iff.2 found⟩
  · rw [← get?_eq_some_iff] at found found'
    exact Option.some.inj (found.symm.trans found')
  · rintro ⟨w, found⟩
    exact index_lt_size_of_label? (get?_eq_some_iff.1 found)
  · obtain ⟨w, found⟩ := labelled id inside
    exact ⟨w, get?_eq_some_iff.2 found⟩

/-- An operation that a circuit with `size` wires can have. -/
structure Operation.Sound (size : Nat) (op : Operation) : Prop where
  wires : Registered size op.wires
  counted : ∀ count, op.capability = .hybrid count → count ≤ op.wires.length

/-- An operation that stands for a record keeps its part of the invariant. -/
theorem Operation.StandsFor.sound {t : WireTable} {op : Operation} {r : OperationRecord}
    (h : op.StandsFor t r) : op.Sound t.size where
  wires := h.wires.registered h.distinct
  counted count hybrid := by
    have declares := h.capability
    rw [hybrid] at declares
    cases declares with
    | hybrid tag given fits => exact h.wires.length_eq ▸ fits

/-- A hybrid name is classified on at least two wires. -/
theorem LeafKind.two_le_of_hybrid {name : String} {numWires : Nat} {params : List Real64}
    {count : Nat} {basis : Option NaturalBasis}
    (h : classify name numWires params = .ok (.hybrid count basis)) : 2 ≤ numWires := by
  rw [classify] at h
  split at h
  case isTrue => cases h
  case isFalse =>
    unfold ofName? ofName?.hybrid at h
    repeat' split at h
    all_goals cases h
    all_goals omega

/-- A leaf that a circuit with `size` wires can have. -/
structure Leaf.Sound (size : Nat) (l : Leaf) : Prop where
  nonempty : l.wires ≠ []
  wires : Registered size l.wires
  hybrid : ∀ count basis, l.kind = .hybrid count basis → 2 ≤ l.wires.length
  classified : ∃ params, LeafKind.classify l.name l.wires.length params = .ok l.kind

/-- So does a leaf that stands for a named observable. -/
theorem Leaf.StandsFor.sound {t : WireTable} {l : Leaf} {n : NamedObservable}
    (h : l.StandsFor t n) : l.Sound t.size := by
  have classified := h.kind
  rw [← h.name, ← h.wires.length_eq] at classified
  refine ⟨h.wellFormed.nonempty, h.wellFormed.wires, fun count basis kind => ?_, _, classified⟩
  rw [kind] at classified
  exact LeafKind.two_le_of_hybrid classified

/-- An inner node has children, and an adjoint and a power have one. -/
def Observable.HasChildren {α : Type} (node : Observable α) : Prop :=
  ∀ kind, node.root = .inl kind → node.children ≠ [] ∧
    (kind = .adjoint ∨ kind = .power → node.children.length = 1)

theorem Observable.Filled.hasChildren {α : Type} {t node : Observable α} (h : t.Filled)
    (mem : node ∈ t.nodes) : node.HasChildren := by
  intro kind root
  cases node with
  | leaf a => cases root
  | sum terms =>
    cases root
    exact ⟨fun none => (h _ mem).1 (congrArg Observable.sum none), by simp⟩
  | product factors =>
    cases root
    exact ⟨fun none => (h _ mem).2 (congrArg Observable.product none), by simp⟩
  | adjoint base => simp [children]
  | power base exponent => simp [children]

theorem Normal.Labelled.exists_id {wires : List Wire} {ids : List WireId} {t : WireTable}
    (h : Labelled wires ids t) {w : Wire} (mem : w ∈ wires) : ∃ id ∈ ids, t.label? id = some w := by
  have labelled : some w ∈ ids.map t.label? := h ▸ List.mem_map_of_mem mem
  exact List.mem_map.1 labelled

namespace Circuit

variable {c : Circuit} {entries : List Entry}

/-- The wire stands in an operation or in a leaf of a measurement. -/
def Occurs (c : Circuit) (id : WireId) : Prop :=
  (∃ op ∈ c.operations, id ∈ op.wires) ∨ ∃ m ∈ c.measurements, ∃ l ∈ m.leafList, id ∈ l.wires

/-- What holds of every circuit that is built by calls. -/
structure Sound (c : Circuit) : Prop where
  wires : c.wires.Bijective
  operations : ∀ op ∈ c.operations, op.Sound c.numWires
  nodes : ∀ m ∈ c.measurements, ∀ node ∈ m.nodes, node.HasChildren
  leaves : ∀ m ∈ c.measurements, ∀ l ∈ m.leafList, l.Sound c.numWires
  occurs : ∀ id : WireId, id.index < c.numWires → c.Occurs id

/-- Every wire of a circuit is a wire of an entry, and stands where the entry is taken up. -/
theorem Lists.occurs (h : c.Lists entries) {id : WireId} (inside : id.index < c.numWires) :
    c.Occurs id := by
  obtain ⟨w, found, known⟩ := c.wires.bijective.get?_label? id inside
  have there {id' : WireId} (found' : c.wires.label? id' = some w) : id' = id :=
    c.wires.bijective.distinct id' id w found' found
  have referred := h.wires.mem_names.1 (List.mem_of_getElem? found)
  obtain ⟨entry, mem, named⟩ := List.mem_flatMap.1 referred
  cases entry with
  | operation r =>
    have listed : r ∈ entries.filterMap Entry.record? := List.mem_filterMap.2 ⟨_, mem, rfl⟩
    obtain ⟨op, hop, stands⟩ := Steps.exists_left_of_mem h.operations listed
    obtain ⟨id', on, found'⟩ := stands.wires.exists_id named
    exact .inl ⟨op, hop, there found' ▸ on⟩
  | measurement raw =>
    have listed : raw ∈ entries.filterMap Entry.observable? := List.mem_filterMap.2 ⟨_, mem, rfl⟩
    obtain ⟨m, hm, stands⟩ := Steps.exists_left_of_mem h.measurements listed
    obtain ⟨n, hn, named⟩ := List.mem_flatMap.1 named
    obtain ⟨l, hl, leaf⟩ := Steps.exists_left_of_mem stands.leaves hn
    obtain ⟨id', on, found'⟩ := leaf.wires.exists_id named
    exact .inr ⟨m, hm, l, hl, there found' ▸ on⟩

/-- The representation invariant: whatever calls have been made, and however many of them failed,
the circuit is sound. -/
theorem sound_of_reachable (built : c.Reachable) : c.Sound := by
  obtain ⟨entries, lists⟩ := built.lists
  have record : ∀ op ∈ c.operations, ∃ r, op.StandsFor c.wires r := by
    intro op hop
    obtain ⟨r, -, stands⟩ := Steps.exists_left_of_mem lists.operations.flip hop
    exact ⟨r, stands⟩
  have observable : ∀ m ∈ c.measurements, ∃ raw, m.StandsFor c.wires raw := by
    intro m hm
    obtain ⟨raw, -, stands⟩ := Steps.exists_left_of_mem lists.measurements.flip hm
    exact ⟨raw, stands⟩
  refine ⟨c.wires.bijective, fun op hop => ?_, fun m hm node mem => ?_, fun m hm l hl => ?_,
    fun id => lists.occurs⟩
  · obtain ⟨r, stands⟩ := record op hop
    exact stands.sound
  · obtain ⟨raw, stands⟩ := observable m hm
    exact ((Observable.filled_congr stands.shape).2 stands.filled).hasChildren mem
  · obtain ⟨raw, stands⟩ := observable m hm
    obtain ⟨n, -, leaf⟩ := Steps.exists_left_of_mem stands.leaves.flip hl
    exact leaf.sound

/-- A product that fails at its second factor leaves no orphan behind, and the wire after it gets
the next id. -/
theorem sound_after_failed_product :
    let c := (empty "c").afterCalls [.standard "Hadamard" [.index 7] [],
      .measure (.product [.leaf ⟨"PauliZ", [.index 3], []⟩, .leaf ⟨"Banana", [.index 7], []⟩]),
      .measure (.leaf ⟨"ConditionalNumber", [.label "m", .index 7], []⟩)]
    c.numWires = 2 ∧ c.Occurs ⟨1⟩ ∧ c.wires.get? (.index 3) = none := by
  intro c
  have sound := sound_of_reachable (c := c) ⟨_, _, rfl⟩
  exact ⟨rfl, sound.occurs ⟨1⟩ (by decide), rfl⟩

end Circuit

end Qumode
