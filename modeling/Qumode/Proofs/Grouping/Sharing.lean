import Qumode.Proofs.Grouping.Growth
import Qumode.Proofs.Grouping.Service
import Qumode.Proofs.Readout.Sameness
import Qumode.Proofs.Typing.Resolution

/-!
# Measurements that ask alike share an execution

Two measurements ask alike when they touch the same wires and need the same readout on each. They
collide with the same groups (`OpenGroup.collides_eq`), and a group that the first collides with is
never cleared (`OpenGroup.collides_of_extends`). The group that takes the first one has its readouts
from then on (`OpenGroup.Has`), so it is free for the second, and it needs no readout more for it.
Nothing here assumes that a readout is the same as itself: an angle that is not a number is not, but
then no measurement asks alike.
-/

namespace Qumode

namespace MeasurementSchema

/-- The measurements touch the same wires, and need the same readout on each. -/
def AsksAlike (s t : MeasurementSchema) : Prop :=
  ∀ w, Option.Rel (fun r r' => r.numEq r' = true) (s.get? w) (t.get? w)

theorem AsksAlike.symm {s t : MeasurementSchema} (alike : s.AsksAlike t) : t.AsksAlike s := by
  intro w
  have both := alike w
  generalize s.get? w = r at both ⊢
  generalize t.get? w = r' at both ⊢
  cases both with
  | none => exact .none
  | some same => exact .some (WireReadout.sameness.symm same)

/-- What the second measurement needs on a wire, the first needs. -/
theorem AsksAlike.exists_get? {s t : MeasurementSchema} (alike : s.AsksAlike t) {w : WireId}
    {r : WireReadout} (touched : t.get? w = some r) :
    ∃ r', s.get? w = some r' ∧ r'.numEq r = true := by
  have both := alike w
  rw [touched] at both
  cases asked : s.get? w with
  | none =>
    rw [asked] at both
    cases both
  | some r' =>
    rw [asked] at both
    cases both with
    | some same => exact ⟨r', rfl, same⟩

end MeasurementSchema

namespace OpenGroup

variable {g h : OpenGroup} {s t : MeasurementSchema} {w : WireId} {index : Nat}

/-- A measurement collides with a group that reads one of its wires out differently. -/
theorem collides_iff : g.collides s = true ↔
    ∃ w r placed, s.get? w = some r ∧ g.readouts.lookup w = some placed ∧
      placed.numEq r = false := by
  unfold collides
  rw [List.any_eq_true]
  constructor
  · rintro ⟨⟨w, r⟩, listed, differ⟩
    dsimp only [differs, readout?] at differ
    split at differ
    case h_1 placed held =>
      refine ⟨w, r, placed, MeasurementSchema.get?_eq_some_iff.2 listed, held, ?_⟩
      simpa using differ
    case h_2 => cases differ
  · rintro ⟨w, r, placed, touched, held, differ⟩
    refine ⟨(w, r), MeasurementSchema.get?_eq_some_iff.1 touched, ?_⟩
    simp [differs, readout?, held, differ]

/-- Where a measurement collides, one that asks alike does too. -/
theorem collides_of_alike (alike : s.AsksAlike t) (collides : g.collides t = true) :
    g.collides s = true := by
  obtain ⟨w, r, placed, touched, held, differ⟩ := collides_iff.1 collides
  obtain ⟨r', touched', same⟩ := alike.exists_get? touched
  refine collides_iff.2 ⟨w, r', placed, touched', held, ?_⟩
  -- were the placed readout the one of `s`, it would be the one of `t` as well
  by_contra agrees
  rw [Bool.not_eq_false] at agrees
  rw [WireReadout.sameness.trans agrees same] at differ
  cases differ

/-- Measurements that ask alike collide with the same groups. -/
theorem collides_eq (alike : s.AsksAlike t) (g : OpenGroup) : g.collides s = g.collides t :=
  Bool.eq_iff_iff.2 ⟨collides_of_alike alike.symm, collides_of_alike alike⟩

/-- A group keeps its readouts when it grows. -/
theorem Extends.lookup (grown : g.Extends h) {placed : WireReadout}
    (held : g.readouts.lookup w = some placed) : h.readouts.lookup w = some placed := by
  obtain ⟨more, later⟩ := grown.readouts
  rw [← later, List.lookup_append, held]
  rfl

/-- A measurement that collides with a group collides with what the group grows to. -/
theorem collides_of_extends (grown : g.Extends h) (collides : g.collides s = true) :
    h.collides s = true := by
  obtain ⟨w, r, placed, touched, held, differ⟩ := collides_iff.1 collides
  exact collides_iff.2 ⟨w, r, placed, touched, grown.lookup held, differ⟩

/-- The group has all readouts that a measurement needs. -/
def Has (g : OpenGroup) (s : MeasurementSchema) : Prop :=
  ∀ w r, s.get? w = some r → ∃ placed, g.readouts.lookup w = some placed ∧ placed.numEq r = true

theorem Has.of_extends (has : g.Has s) (grown : g.Extends h) : h.Has s := by
  intro w r touched
  obtain ⟨placed, held, same⟩ := has w r touched
  exact ⟨placed, grown.lookup held, same⟩

/-- A group that takes a measurement has the readouts for those that ask alike. -/
theorem has_add (free : g.collides s = false) (alike : s.AsksAlike t) (index : Nat) :
    (g.add index s).Has t := by
  intro w r touched
  obtain ⟨r', touched', same⟩ := alike.exists_get? touched
  rw [lookup_add]
  cases held : g.readouts.lookup w with
  | none => exact ⟨r', touched', same⟩
  | some placed =>
    have agrees : placed.numEq r' = true := numEq_of_not_collides free touched' held
    exact ⟨placed, rfl, WireReadout.sameness.trans agrees same⟩

/-- A measurement whose readouts are placed in a group does not collide with it. -/
theorem Has.free (has : g.Has s) : g.collides s = false := by
  by_contra collides
  rw [Bool.not_eq_false] at collides
  obtain ⟨w, r, placed, touched, held, differ⟩ := collides_iff.1 collides
  obtain ⟨_, held', same⟩ := has w r touched
  cases held.symm.trans held'
  cases differ.symm.trans same

/-- Readouts of wires that have one are not added. -/
theorem foldl_addReadout_of_held {entries readouts : List (WireId × WireReadout)}
    (held : ∀ e ∈ entries, (readouts.lookup e.1).isSome) :
    entries.foldl (fun rs (w, r) => addReadout rs w r) readouts = readouts := by
  induction entries with
  | nil => rfl
  | cons e rest ih =>
    obtain ⟨first, others⟩ := List.forall_mem_cons.1 held
    obtain ⟨w, r⟩ := e
    have kept : addReadout readouts w r = readouts := by rw [addReadout, if_pos first]
    dsimp only [List.foldl_cons]
    rw [kept]
    exact ih others

/-- A group that has the readouts of a measurement takes nothing but its index. -/
theorem Has.add (has : g.Has s) (index : Nat) :
    g.add index s = ⟨g.measurements ++ [index], g.readouts⟩ := by
  unfold OpenGroup.add
  rw [foldl_addReadout_of_held]
  intro e he
  obtain ⟨placed, held, -⟩ := has e.1 e.2 (MeasurementSchema.get?_eq_some_iff.2 he)
  rw [held]
  rfl

end OpenGroup

namespace Grouping

variable {groups : List OpenGroup} {s t : MeasurementSchema} {index k : Nat} {g : OpenGroup}

/-- The groups before a position are there, and the measurement collides with each. -/
def BlockedBefore (k : Nat) (s : MeasurementSchema) (groups : List OpenGroup) : Prop :=
  ∀ i < k, ∃ g, groups[i]? = some g ∧ g.collides s = true

theorem blockedBefore_succ {g : OpenGroup} : BlockedBefore (k + 1) s (g :: groups) ↔
    g.collides s = true ∧ BlockedBefore k s groups := by
  constructor
  · intro blocked
    obtain ⟨_, ⟨⟩, collides⟩ := blocked 0 (Nat.succ_pos k)
    exact ⟨collides, fun i before => blocked (i + 1) (Nat.succ_lt_succ before)⟩
  · rintro ⟨collides, blocked⟩ (_ | i) before
    · exact ⟨g, rfl, collides⟩
    · exact blocked i (Nat.lt_of_succ_lt_succ before)

/-- A placement goes to a group without a collision, which may be new, behind groups that the
measurement collides with. -/
theorem exists_target (index : Nat) (s : MeasurementSchema) (groups : List OpenGroup) :
    ∃ (k : Nat) (g : OpenGroup), BlockedBefore k s groups ∧ g.collides s = false ∧
      (place index s groups)[k]? = some (g.add index s) := by
  induction groups with
  | nil => exact ⟨0, .empty, nofun, OpenGroup.empty_free s, rfl⟩
  | cons g rest ih =>
    unfold place
    cases collides : g.collides s with
    | false => exact ⟨0, g, nofun, collides, rfl⟩
    | true =>
      obtain ⟨k, g', blocked, free, placed⟩ := ih
      exact ⟨k + 1, g', blockedBefore_succ.2 ⟨collides, blocked⟩, free, placed⟩

/-- A placement in a group that is there changes no other group. -/
theorem place_eq_set (blocked : BlockedBefore k s groups) (found : groups[k]? = some g)
    (free : g.collides s = false) : place index s groups = groups.set k (g.add index s) := by
  induction groups generalizing k with
  | nil => cases found
  | cons first rest ih =>
    unfold place
    cases k with
    | zero =>
      cases found
      rw [free]
      rfl
    | succ k =>
      obtain ⟨collides, behind⟩ := blockedBefore_succ.1 blocked
      rw [if_pos collides, ih behind found]
      rfl

/-- Groups that only grow stay closed to a measurement, and to those that ask alike. -/
theorem BlockedBefore.of_continues {later : List OpenGroup} (blocked : BlockedBefore k s groups)
    (grows : Continues OpenGroup.Extends groups later) (alike : s.AsksAlike t) :
    BlockedBefore k t later := by
  intro i before
  obtain ⟨g, found, collides⟩ := blocked i before
  obtain ⟨g', found', grown⟩ := grows.getElem? found
  refine ⟨g', found', ?_⟩
  rw [← OpenGroup.collides_eq alike]
  exact OpenGroup.collides_of_extends grown collides

/-- Of two measurements that ask alike, the second goes to the group of the first, whatever is
placed before, between and behind them. Its placement adds its index to that group and nothing
else to any. -/
theorem alike_share_group {schemas : List MeasurementSchema} {i j : Nat} (before : i < j)
    (first : schemas[i]? = some s) (second : schemas[j]? = some t) (alike : s.AsksAlike t) :
    ∃ (k : Nat) (g g' : ExecutionGroup),
      (groupMeasurements (schemas.take j))[k]? = some g ∧ i ∈ g.measurements ∧
      groupMeasurements (schemas.take (j + 1)) = (groupMeasurements (schemas.take j)).set k
        { g with measurements := g.measurements ++ [j] } ∧
      (groupMeasurements schemas)[k]? = some g' ∧ i ∈ g'.measurements ∧ j ∈ g'.measurements := by
  obtain ⟨k, g, blocked, free, placed⟩ := exists_target i s (placeAll (schemas.take i))
  rw [← placeAll_take_succ first] at placed
  -- up to the placement of `j` the group of `i` grows, and so do those before it
  have begins : schemas.take (i + 1) <+: schemas.take j := List.take_prefix_take_left before
  have begins_before : schemas.take i <+: schemas.take j :=
    List.take_prefix_take_left (Nat.le_of_lt before)
  have since := placeAll_continues begins
  obtain ⟨h, found, grown⟩ := since.getElem? placed
  have has : h.Has t := (OpenGroup.has_add free alike i).of_extends grown
  have blocked_later := blocked.of_continues (placeAll_continues begins_before) alike
  have step : place j t (placeAll (schemas.take j)) =
      (placeAll (schemas.take j)).set k (h.add j t) := place_eq_set blocked_later found has.free
  rw [← placeAll_take_succ second, has.add] at step
  have member : i ∈ h.measurements :=
    grown.measurements.subset (List.mem_append_right _ (List.mem_singleton_self i))
  -- and behind it the group keeps both
  have inside : k < (placeAll (schemas.take j)).length := (List.getElem?_eq_some_iff.1 found).1
  have there :
      (placeAll (schemas.take (j + 1)))[k]? = some ⟨h.measurements ++ [j], h.readouts⟩ := by
    rw [step, List.getElem?_set_self inside]
  obtain ⟨h', found', grown'⟩ :=
    (placeAll_continues (schemas.take_prefix (j + 1))).getElem? there
  simp only [groupMeasurements_eq_map_placeAll, List.getElem?_map]
  refine ⟨k, h.close, h'.close, ?_, member, ?_, ?_, ?_, ?_⟩
  · rw [found]
    rfl
  · rw [step, List.map_set]
    rfl
  · rw [found']
    rfl
  · exact grown'.measurements.subset (List.mem_append_left _ member)
  · exact grown'.measurements.subset (List.mem_append_right _ (List.mem_singleton_self j))

/-- A position, and the quadrature at the angle minus zero on the same qumode, with a count of it
and a count of another qumode between: the first and the last share an execution, with the other
qumode.
-/
theorem zeros_share_group :
    let minusZero : Real64 := ⟨0x8000000000000000⟩
    let asking (w : WireId) (r : WireReadout) : MeasurementSchema :=
      MeasurementSchema.empty.push w r List.not_mem_nil
    let s := asking ⟨0⟩ (.rotated .position .zero ⟨0⟩)
    let t := asking ⟨0⟩ (.rotated .position minusZero ⟨0⟩)
    let schemas := [s, asking ⟨0⟩ (.plain .discrete), asking ⟨1⟩ (.plain .discrete), t]
    s.AsksAlike t ∧ ∃ (k : Nat) (g g' : ExecutionGroup),
      (groupMeasurements (schemas.take 3))[k]? = some g ∧ 0 ∈ g.measurements ∧
      groupMeasurements (schemas.take 4) = (groupMeasurements (schemas.take 3)).set k
        { g with measurements := g.measurements ++ [3] } ∧
      (groupMeasurements schemas)[k]? = some g' ∧ 0 ∈ g'.measurements ∧ 3 ∈ g'.measurements := by
  intro minusZero asking s t schemas
  have asks (r : WireReadout) (w : WireId) :
      (asking ⟨0⟩ r).get? w = if w = ⟨0⟩ then some r else none := MeasurementSchema.get?_push _
  have alike : s.AsksAlike t := by
    intro w
    rw [show s.get? w = _ from asks _ w, show t.get? w = _ from asks _ w]
    split
    · exact .some (by decide)
    · exact .none
  exact ⟨alike, alike_share_group (by decide) rfl rfl alike⟩

end Grouping

end Qumode
