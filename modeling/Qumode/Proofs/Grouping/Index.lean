import Qumode.Grouping.Indexed
import Std.Data.TreeMap.Lemmas
import Std.Data.TreeSet.Lemmas

/-!
# The index by wire is first fit

The board of `Grouping.Indexed` keeps every readout twice and beside the groups a list of the groups
that hold each wire. `Board.InStep` says that the three agree. It is kept by every step of a
placement, and it makes the groups that a placement finds blocked the groups that the measurement
collides with (`InStep.mem_blocked`). So the target of a placement is the first group without a
collision (`InStep.target_eq`), one placement on the board is one placement of first fit on its
groups (`InStep.place`), and a run of placements is a run of first fit.
-/

namespace Qumode.Grouping

namespace IndexedGroup

variable {g : IndexedGroup} {w : WireId} {r : WireReadout}

/-- For look-up the group has the readouts that it has in order. -/
def InStep (g : IndexedGroup) : Prop := ∀ w : WireId, g.byWire[w.index]? = g.readouts.lookup w

theorem inStep_empty : empty.InStep := fun w => by simp [empty]

/-- Looking the wire up decides the same as walking over the readouts. -/
theorem InStep.differs_eq (h : g.InStep) (w : WireId) (r : WireReadout) :
    g.differs w r = g.toOpenGroup.differs w r := by
  rw [differs, h w]
  rfl

/-- A group stays in step when a wire that it does not have gets a readout. -/
theorem InStep.addReadout (h : g.InStep) (fresh : g.readouts.lookup w = none) :
    (g.addReadout w r).InStep := by
  intro v
  simp only [IndexedGroup.addReadout, Std.TreeMap.getElem?_insert, List.lookup_append, h v]
  by_cases same : w = v
  · subst same
    simp [fresh]
  · have apart : w.index ≠ v.index := fun h => same (WireId.ext h)
    have other : (v == w) = false := by simpa using Ne.symm same
    simp [apart, List.lookup_cons, other]

end IndexedGroup

namespace Board

variable {b : Board} {position : Nat} {w : WireId} {r : WireReadout} {s : MeasurementSchema}

/-- The groups without their index. -/
def openGroups (b : Board) : List OpenGroup := b.groups.toList.map IndexedGroup.toOpenGroup

/-- The group at `position` has a readout for the wire `w`. -/
def Holds (b : Board) (position : Nat) (w : WireId) : Prop :=
  ∃ g, b.groups[position]? = some g ∧ (g.readouts.lookup w).isSome

/-- Every group is in step with its index, and the holders of a wire are the groups that have a
readout for it. -/
structure InStep (b : Board) : Prop where
  groups : ∀ (position : Nat) (g : IndexedGroup), b.groups[position]? = some g → g.InStep
  holders : ∀ (w : WireId) (position : Nat),
    position ∈ b.holders.getD w.index [] ↔ b.Holds position w

/-- A board without groups is in step. -/
theorem inStep_empty : empty.InStep where
  groups position g found := by simp [empty] at found
  holders w position := by simp [empty, Holds]

/-- The group at a position is the indexed one without its index. -/
theorem getElem?_openGroups :
    b.openGroups[position]? = b.groups[position]?.map IndexedGroup.toOpenGroup := by
  rw [openGroups, List.getElem?_map, Array.getElem?_toList]

theorem length_openGroups : b.openGroups.length = b.groups.size := by
  rw [openGroups, List.length_map, Array.length_toList]

/-! ## Which groups are blocked -/

/-- A readout blocks the groups that have a different one on its wire. -/
theorem InStep.mem_blockedOn (h : b.InStep) :
    position ∈ b.blockedOn w r ↔
      ∃ g, b.openGroups[position]? = some g ∧ g.differs w r = true := by
  rw [blockedOn, List.mem_filter, h.holders, getElem?_openGroups]
  cases found : b.groups[position]? with
  | none => simp
  | some g =>
    simp only [Option.map_some, Option.some.injEq, exists_eq_left', (h.groups _ _ found).differs_eq,
      and_iff_right_iff_imp]
    intro differ
    refine ⟨g, found, ?_⟩
    rw [OpenGroup.differs] at differ
    split at differ
    case h_1 placed there => exact Option.isSome_of_mem there
    case h_2 => cases differ

/-- A measurement is blocked from the groups that it collides with. -/
theorem InStep.mem_blocked (h : b.InStep) :
    position ∈ b.blocked s ↔ ∃ g, b.openGroups[position]? = some g ∧ g.collides s = true := by
  rw [blocked, Std.TreeSet.mem_ofList, List.contains_iff_mem, List.mem_flatMap]
  simp only [h.mem_blockedOn, OpenGroup.collides, List.any_eq_true]
  constructor
  · rintro ⟨entry, listed, g, found, differ⟩
    exact ⟨g, found, entry, listed, differ⟩
  · rintro ⟨g, found, entry, listed, differ⟩
    exact ⟨entry, listed, g, found, differ⟩

/-- The first position that is not blocked is that of the first group without a collision. -/
theorem InStep.target_eq (h : b.InStep) (s : MeasurementSchema) :
    b.target s = b.openGroups.findIdx fun g => !g.collides s := by
  have blocked_iff : ∀ i, (inside : i < b.openGroups.length) →
      ((b.blocked s).contains i = b.openGroups[i].collides s) := by
    intro i inside
    rw [Bool.eq_iff_iff, Std.TreeSet.contains_iff_mem, h.mem_blocked,
      List.getElem?_eq_getElem inside]
    simp
  rw [target, ← length_openGroups]
  cases found : (List.range b.openGroups.length).find? fun i => !(b.blocked s).contains i with
  | none =>
    rw [List.find?_range_eq_none] at found
    symm
    refine List.findIdx_eq_length_of_false fun g listed => ?_
    obtain ⟨i, inside, rfl⟩ := List.getElem_of_mem listed
    simpa [blocked_iff i inside] using found i inside
  | some i =>
    rw [List.find?_range_eq_some] at found
    obtain ⟨free, inside, taken⟩ := found
    rw [List.mem_range] at inside
    symm
    rw [Option.getD_some, List.findIdx_eq inside]
    refine ⟨by simpa [blocked_iff i inside] using free, fun j before => ?_⟩
    simpa [blocked_iff j (Nat.lt_trans before inside)] using taken j before

/-! ## What a placement changes -/

/-- The first step of a placement: a new group, if the target is behind the last one. -/
theorem InStep.openAt (h : b.InStep) (position : Nat) :
    (b.openAt position).InStep ∧ (b.openAt position).openGroups =
      if position = b.openGroups.length then b.openGroups ++ [.empty] else b.openGroups := by
  rw [Board.openAt, length_openGroups]
  split
  case isFalse => exact ⟨h, rfl⟩
  case isTrue =>
    refine ⟨⟨fun i g found => ?_, fun w i => ?_⟩, ?_⟩
    · rw [Array.getElem?_push] at found
      split at found
      · cases found
        exact IndexedGroup.inStep_empty
      · exact h.groups i g found
    · -- the new group holds no wire
      rw [h.holders w i, Holds, Holds]
      simp only [Array.getElem?_push]
      split
      case isTrue atEnd => simp [atEnd, IndexedGroup.empty]
      case isFalse => rfl
    · simp [openGroups, IndexedGroup.toOpenGroup, IndexedGroup.empty, OpenGroup.empty]

/-- The second step: the index of the measurement. -/
theorem InStep.addMeasurement (h : b.InStep) (position index : Nat) :
    (b.addMeasurement position index).InStep ∧ (b.addMeasurement position index).openGroups =
      b.openGroups.modify position fun g => ⟨g.measurements ++ [index], g.readouts⟩ := by
  refine ⟨⟨fun i g found => ?_, fun w i => ?_⟩, List.ext_getElem? fun i => ?_⟩
  · rw [Board.addMeasurement, Array.getElem?_modify] at found
    split at found
    · obtain ⟨before, there, rfl⟩ := Option.map_eq_some_iff.1 found
      exact h.groups i before there
    · exact h.groups i g found
  · rw [Board.addMeasurement, h.holders w i, Holds, Holds, Array.getElem?_modify]
    cases b.groups[i]? <;> split <;> simp
  · rw [List.getElem?_modify, getElem?_openGroups, getElem?_openGroups, Board.addMeasurement,
      Array.getElem?_modify]
    split <;> simp [Function.comp_def, IndexedGroup.toOpenGroup]

/-- A readout for a wire that the group does not hold yet goes into the group, its index and the
holders of the wire. -/
theorem InStep.insertReadout (h : b.InStep) {g : IndexedGroup}
    (there : b.groups[position]? = some g) (fresh : g.readouts.lookup w = none) :
    InStep
      { groups := b.groups.setIfInBounds position (g.addReadout w r)
        holders := b.holders.insert w.index (b.holders.getD w.index [] ++ [position]) } := by
  have inside : position < b.groups.size := (Array.getElem?_eq_some_iff.1 there).1
  refine ⟨fun i g' found => ?_, fun v i => ?_⟩
  · simp only [Array.getElem?_setIfInBounds, inside, ↓reduceIte] at found
    split at found
    · cases found
      exact (h.groups position g there).addReadout fresh
    · exact h.groups i g' found
  · simp only [Holds, Array.getElem?_setIfInBounds, inside, ↓reduceIte, Std.TreeMap.getD_insert]
    by_cases same : w = v
    · subst same
      simp only [Std.ReflCmp.compare_self, ↓reduceIte, List.mem_append, h.holders w i, Holds,
        List.mem_singleton]
      by_cases atTarget : position = i
      · subst atTarget
        simp [IndexedGroup.addReadout]
      · simp [atTarget, Ne.symm atTarget]
    · have apart : w.index ≠ v.index := fun h => same (WireId.ext h)
      rw [if_neg (by simpa using apart), h.holders v i, Holds]
      by_cases atTarget : position = i
      · subst atTarget
        simp [there, IndexedGroup.addReadout, Ne.symm same]
      · simp [atTarget]

/-- The last step, for one readout. -/
theorem InStep.addReadout (h : b.InStep) (position : Nat) (w : WireId) (r : WireReadout) :
    (addReadout position b w r).InStep ∧ (addReadout position b w r).openGroups =
      b.openGroups.modify position fun g =>
        ⟨g.measurements, OpenGroup.addReadout g.readouts w r⟩ := by
  rw [Board.addReadout]
  cases there : b.groups[position]? with
  | none =>
    refine ⟨h, (List.modify_eq_self ?_).symm⟩
    rw [length_openGroups]
    exact Array.getElem?_eq_none_iff.1 there
  | some g =>
    have inside : position < b.groups.size := (Array.getElem?_eq_some_iff.1 there).1
    simp only [Std.TreeMap.contains_eq_isSome_getElem?, h.groups position g there w]
    split
    case isTrue held =>
      refine ⟨h, List.ext_getElem? fun i => ?_⟩
      rw [List.getElem?_modify, getElem?_openGroups]
      split
      case isFalse => simp
      case isTrue same =>
        subst same
        simp [there, OpenGroup.addReadout, IndexedGroup.toOpenGroup, held]
    case isFalse free =>
      have fresh := Option.not_isSome_iff_eq_none.1 free
      refine ⟨h.insertReadout there fresh, List.ext_getElem? fun i => ?_⟩
      rw [List.getElem?_modify, getElem?_openGroups, getElem?_openGroups,
        Array.getElem?_setIfInBounds]
      split
      case isFalse => simp
      case isTrue same =>
        subst same
        simp only [there, ↓reduceIte, Option.map_eq_map, Option.map_some, OpenGroup.addReadout,
          IndexedGroup.addReadout, IndexedGroup.toOpenGroup, fresh,
          Option.isSome_none, Bool.false_eq_true]

/-- The last step, for all readouts. -/
theorem InStep.addReadouts (h : b.InStep) (position : Nat) (entries : List (WireId × WireReadout)) :
    let after := entries.foldl (fun b (w, r) => Board.addReadout position b w r) b
    after.InStep ∧ after.openGroups = b.openGroups.modify position fun g =>
      ⟨g.measurements,
        entries.foldl (fun rs (w, r) => OpenGroup.addReadout rs w r) g.readouts⟩ := by
  induction entries generalizing b with
  | nil =>
    refine ⟨h, ?_⟩
    exact (List.modify_id position b.openGroups).symm
  | cons entry entries ih =>
    obtain ⟨step, grown⟩ := h.addReadout position entry.1 entry.2
    obtain ⟨run, result⟩ := ih step
    refine ⟨run, ?_⟩
    rw [List.foldl_cons, result, grown, List.modify_modify_eq]
    rfl

end Board

/-- First fit, in one step: at the first group without a collision, which may have to be opened. -/
theorem place_eq_modify (index : Nat) (s : MeasurementSchema) (groups : List OpenGroup) :
    let position := groups.findIdx fun g => !g.collides s
    place index s groups =
      (if position = groups.length then groups ++ [OpenGroup.empty] else groups).modify position
        fun g => g.add index s := by
  induction groups with
  | nil => rfl
  | cons g rest ih =>
    dsimp only at ih ⊢
    rw [place, List.findIdx_cons]
    cases collides : g.collides s with
    | false => simp
    | true =>
      simp only [↓reduceIte, Bool.not_true, cond_false, List.length_cons, Nat.add_right_cancel_iff]
      rw [ih]
      split <;> simp

namespace Board

/-- One placement keeps the board in step and does what the plain placement does. -/
theorem InStep.place {b : Board} (h : b.InStep) (index : Nat) (s : MeasurementSchema) :
    (b.place index s).InStep ∧
      (b.place index s).openGroups = Grouping.place index s b.openGroups := by
  obtain ⟨opened, withGroup⟩ := h.openAt (b.target s)
  obtain ⟨counted, withIndex⟩ := opened.addMeasurement (b.target s) index
  obtain ⟨filled, result⟩ := counted.addReadouts (b.target s) s.entries
  refine ⟨filled, ?_⟩
  rw [Board.place, result, withIndex, withGroup, List.modify_modify_eq, place_eq_modify,
    h.target_eq]
  rfl

/-- A run of placements on a board is the run on its groups. -/
theorem InStep.run {b : Board} (h : b.InStep) (rest : List (MeasurementSchema × Nat)) :
    (rest.foldl (fun b (s, index) => b.place index s) b).openGroups =
      rest.foldl (fun groups (s, index) => Grouping.place index s groups) b.openGroups := by
  induction rest generalizing b with
  | nil => rfl
  | cons entry rest ih =>
    obtain ⟨step, placed⟩ := h.place entry.2 entry.1
    rw [List.foldl_cons, List.foldl_cons, ih step, placed]

end Board

/-- The board of a list of measurements has the groups of first fit. -/
theorem board_openGroups (schemas : List MeasurementSchema) :
    (board schemas).openGroups = placeAll schemas :=
  Board.inStep_empty.run schemas.zipIdx

theorem groupMeasurements_eq_map_close (schemas : List MeasurementSchema) :
    groupMeasurements schemas = (board schemas).openGroups.map OpenGroup.close := by
  rw [groupMeasurements, Board.openGroups, List.map_map]
  rfl

/-- Grouping with the index gives the groups of first fit: as many groups in the same order, and in
every group the same measurements, readouts and diagonalizing operations. -/
theorem groupMeasurements_eq_firstFit (schemas : List MeasurementSchema) :
    groupMeasurements schemas = firstFit schemas := by
  rw [groupMeasurements_eq_map_close, board_openGroups, firstFit]

end Qumode.Grouping
