import Mathlib.Order.Bounds.Basic
import Qumode.Proofs.FirstOccurrences
import Qumode.Proofs.Grouping.Service
import Qumode.Proofs.Readout.Sameness

/-!
# As few groups as possible

Measurements that need different readouts on one wire cannot share an execution, however the
measurements are shared out (`Shares.different_length_le`). First fit needs no more groups than that
if no measurement touches two wires: each wire is then read out in its different ways by the first
groups, one way in each, whatever is placed on other wires between (`Fills`).
-/

namespace Qumode

/-- A schema of one wire at most is empty or has one entry. -/
theorem MeasurementSchema.entries_of_size_le_one {s : MeasurementSchema} (single : s.size ≤ 1) :
    s.entries = [] ∨ ∃ w r, s.entries = [(w, r)] := by
  unfold size at single
  match entries : s.entries with
  | [] => exact .inl rfl
  | [(w, r)] => exact .inr ⟨w, r, rfl⟩
  | e :: e' :: rest =>
    rw [entries] at single
    simp at single

/-- Measurements of one group ask for equal readouts where they meet. -/
theorem OpenGroup.Serves.numEq_of_mem {schemas : List MeasurementSchema} {g : OpenGroup}
    (h : g.Serves schemas) {i j : Nat} (hi : i ∈ g.measurements) (hj : j ∈ g.measurements)
    (before : i < j) {w : WireId} {r r' : WireReadout} (asks : asked schemas w i = some r)
    (asks' : asked schemas w j = some r') : r.numEq r' = true := by
  obtain ⟨placed, found, own, same⟩ := h.readout hi asks
  obtain ⟨placed', found', -, same'⟩ := h.readout hj asks'
  cases found.symm.trans found'
  have touched : asked schemas w i ≠ none := by
    rw [asks]
    exact nofun
  have later : placed.numEq r' = true := same' ⟨i, hi, before, touched⟩
  by_cases first : ∃ k ∈ g.measurements, k < i ∧ asked schemas w k ≠ none
  · exact WireReadout.sameness.trans (WireReadout.sameness.symm (same first)) later
  · rwa [own first] at later

namespace Grouping

open OpenGroup (asked asked_eq_get?)

/-! ## Different readouts need different parts -/

/-- The readouts that measurements need on a wire, in declaration order. -/
def needed (schemas : List MeasurementSchema) (w : WireId) : List WireReadout :=
  schemas.filterMap (·.get? w)

/-- The needed readouts that are not the same as one before. A readout at an angle that is not a
number is the same as none, so each of them is listed. -/
def different (schemas : List MeasurementSchema) (w : WireId) : List WireReadout :=
  (needed schemas w).eraseDupsBy WireReadout.numEq

/-- Every measurement is in one part, once, and no two measurements of a part need different
readouts on a wire. -/
structure Shares (schemas : List MeasurementSchema) (parts : List (List Nat)) : Prop where
  once : parts.flatten.Perm (List.range schemas.length)
  alike : ∀ part ∈ parts, ∀ i ∈ part, ∀ j ∈ part, i ≠ j → ∀ w r r',
    asked schemas w i = some r → asked schemas w j = some r' → r.numEq r' = true

variable {schemas : List MeasurementSchema} {parts : List (List Nat)} {w : WireId}

/-- Of items that differ from each other, blocks of items that are the same give one each. -/
theorem length_le_of_sublist_flatten {α : Type} {same : α → α → Bool} {blocks : List (List α)}
    (alike : ∀ block ∈ blocks, block.Pairwise fun a b => same a b = true) {l : List α}
    (apart : l.Pairwise fun a b => same a b = false) (taken : l.Sublist blocks.flatten) :
    l.length ≤ blocks.length := by
  induction blocks generalizing l with
  | nil =>
    rw [List.sublist_nil.1 taken]
    exact Nat.le_refl 0
  | cons block blocks ih =>
    rw [List.forall_mem_cons] at alike
    rw [List.flatten_cons, List.sublist_append_iff] at taken
    obtain ⟨here, behind, rfl, from_block, from_blocks⟩ := taken
    rw [List.pairwise_append] at apart
    have one : here.length ≤ 1 := by
      match here with
      | [] | [a] => simp
      | a :: b :: rest =>
        have equal := List.rel_of_pairwise_cons (alike.1.sublist from_block) List.mem_cons_self
        have unequal := List.rel_of_pairwise_cons apart.1 List.mem_cons_self
        cases equal.symm.trans unequal
    have others := ih alike.2 apart.2.1 from_blocks
    rw [List.length_append, List.length_cons]
    omega

/-- The readouts needed on a wire are those the measurements ask for, in order. -/
theorem needed_eq_filterMap_range (schemas : List MeasurementSchema) (w : WireId) :
    needed schemas w = (List.range schemas.length).filterMap (asked schemas w) := by
  have listed : (List.range schemas.length).map (schemas[·]?) = schemas.map some := by
    refine List.ext_getElem (by simp) fun i _ _ => ?_
    simp
  have each : asked schemas w = (fun s? => s?.bind (·.get? w)) ∘ (schemas[·]?) := rfl
  rw [each, ← List.filterMap_map, listed, List.filterMap_map]
  rfl

/-- However measurements are shared out, it takes a part for each different readout of a wire. -/
theorem Shares.different_length_le (shares : Shares schemas parts) (w : WireId) :
    (different schemas w).length ≤ parts.length := by
  -- the parts list the measurements in an order of their own
  have perm : (needed schemas w).Perm (parts.map (·.filterMap (asked schemas w))).flatten := by
    rw [needed_eq_filterMap_range, ← List.filterMap_flatten]
    exact (shares.once.filterMap _).symm
  obtain ⟨l, reordered, taken⟩ := List.exists_perm_sublist (eraseDupsBy_sublist _) perm
  have apart : l.Pairwise fun r r' => r.numEq r' = false :=
    ((pairwise_eraseDupsBy _).perm reordered.symm WireReadout.sameness.symm_false).imp
      WireReadout.sameness.symm_false
  have alike : ∀ block ∈ parts.map (·.filterMap (asked schemas w)),
      block.Pairwise fun r r' => r.numEq r' = true := by
    intro block mem
    obtain ⟨part, hpart, rfl⟩ := List.mem_map.1 mem
    have nodup : part.Nodup :=
      (List.nodup_flatten.1 (shares.once.nodup_iff.2 List.nodup_range)).1 part hpart
    rw [List.pairwise_filterMap]
    refine nodup.pairwise_of_forall_ne fun i hi j hj apart r asks r' asks' => ?_
    exact shares.alike part hpart i hi j hj apart w r r' asks asks'
  have few := length_le_of_sublist_flatten alike apart taken
  rwa [reordered.length_eq, List.length_map] at few

/-- Where there is a measurement there is a part. -/
theorem Shares.one_le_length (shares : Shares schemas parts) (nonempty : schemas ≠ []) :
    1 ≤ parts.length := by
  have counted := shares.once.length_eq
  rw [List.length_range] at counted
  match parts with
  | [] => exact absurd (List.length_eq_zero_iff.1 counted.symm) nonempty
  | _ :: rest => exact Nat.le_add_left 1 rest.length

/-- The groups share the measurements out. -/
theorem shares_groupMeasurements (schemas : List MeasurementSchema) :
    Shares schemas ((groupMeasurements schemas).map (·.measurements)) := by
  rw [groupMeasurements_eq_map_placeAll, List.map_map]
  refine ⟨placeAll_measurements schemas, ?_⟩
  intro part mem i hi j hj apart w r r' asks asks'
  obtain ⟨g, placed, rfl⟩ := List.mem_map.1 mem
  have serves := serves_placeAll schemas g placed
  rcases Nat.lt_or_gt_of_ne apart with before | after
  · exact serves.numEq_of_mem hi hj before asks asks'
  · exact WireReadout.sameness.symm (serves.numEq_of_mem hj hi after asks' asks)

/-! ## Single wires fill the groups from the first -/

/-- The first groups read a wire out in the ways that are listed, one group in each way, and the
groups behind do not read it out. -/
inductive Fills (w : WireId) : List OpenGroup → List WireReadout → Prop where
  | behind {groups : List OpenGroup} (free : ∀ g ∈ groups, g.readout? w = none) :
      Fills w groups []
  | cons {g : OpenGroup} {groups : List OpenGroup} {r : WireReadout} {rs : List WireReadout}
      (held : g.readout? w = some r) (rest : Fills w groups rs) : Fills w (g :: groups) (r :: rs)

variable {groups : List OpenGroup} {rs : List WireReadout} {index : Nat} {s : MeasurementSchema}

theorem readout?_add (g : OpenGroup) (index : Nat) (s : MeasurementSchema) (w : WireId) :
    (g.add index s).readout? w = (g.readout? w).or (s.get? w) := g.lookup_add index s w

/-- A measurement that does not touch the wire changes nothing there. -/
theorem Fills.place_untouched (fills : Fills w groups rs) (untouched : s.get? w = none) :
    Fills w (place index s groups) rs := by
  induction fills with
  | behind free =>
    refine .behind fun g mem => ?_
    rcases mem_place mem with kept | ⟨old, known | rfl, -, rfl⟩
    · exact free g kept
    · rw [readout?_add, free old known, untouched]
      rfl
    · rw [readout?_add, untouched]
      rfl
  | @cons g groups r rs held rest ih =>
    unfold place
    split
    · exact .cons held ih
    · refine .cons ?_ rest
      rw [readout?_add, held, Option.some_or]

/-- A measurement of one wire collides where its readout differs. -/
theorem collides_of_single (g : OpenGroup) {r : WireReadout} (only : s.entries = [(w, r)]) :
    g.collides s = g.differs w r := by
  rw [OpenGroup.collides, only, List.any_cons, List.any_nil, Bool.or_false]

/-- A measurement of the wire alone goes to the group that reads it out in the same way. If there is
none, it goes to the first group that does not read it out. -/
theorem Fills.place_single (fills : Fills w groups rs) {r : WireReadout}
    (only : s.entries = [(w, r)]) :
    Fills w (place index s groups) (if rs.any r.numEq then rs else rs ++ [r]) := by
  have touched : s.get? w = some r := by
    rw [MeasurementSchema.get?_eq_some_iff, only]
    exact List.mem_singleton_self (w, r)
  induction fills with
  | @behind groups free =>
    cases groups with
    | nil =>
      refine .cons ?_ (.behind nofun)
      rw [readout?_add, touched]
      rfl
    | cons g rest =>
      rw [List.forall_mem_cons] at free
      have fits : g.collides s = false := by
        rw [collides_of_single g only, OpenGroup.differs, free.1]
      unfold place
      rw [fits]
      refine .cons ?_ (.behind free.2)
      rw [readout?_add, free.1, touched]
      rfl
  | @cons g groups placed rs held rest ih =>
    have collides : g.collides s = !placed.numEq r := by
      rw [collides_of_single g only, OpenGroup.differs, held]
    unfold place
    cases same : placed.numEq r with
    | true =>
      have listed : (placed :: rs).any r.numEq = true := by
        rw [List.any_cons, WireReadout.sameness.symm same, Bool.true_or]
      rw [collides, same, if_pos listed]
      refine .cons ?_ rest
      rw [readout?_add, held, Option.some_or]
    | false =>
      rw [collides, same, List.any_cons, WireReadout.sameness.symm_false same, Bool.false_or]
      have further : (if rs.any r.numEq then placed :: rs else placed :: rs ++ [r]) =
          placed :: (if rs.any r.numEq then rs else rs ++ [r]) := by
        split <;> rfl
      rw [further]
      exact .cons held ih

/-- The last measurement is placed after the others. -/
theorem placeAll_concat (schemas : List MeasurementSchema) (s : MeasurementSchema) :
    placeAll (schemas ++ [s]) = place schemas.length s (placeAll schemas) := by
  unfold placeAll
  rw [List.zipIdx_append, List.foldl_append, Nat.zero_add]
  rfl

/-- Measurements of one wire each, in the end: the first groups read a wire out in its different
ways. -/
theorem fills_placeAll (single : ∀ s ∈ schemas, s.size ≤ 1) (w : WireId) :
    Fills w (placeAll schemas) (different schemas w) := by
  induction schemas using List.reverseRecOn with
  | nil => exact .behind nofun
  | append_singleton schemas s ih =>
    rw [List.forall_mem_append, List.forall_mem_singleton] at single
    have fills := ih single.1
    have more : needed (schemas ++ [s]) w = needed schemas w ++ (s.get? w).toList := by
      unfold needed
      rw [List.filterMap_append]
      cases touched : s.get? w <;> simp [touched]
    rw [placeAll_concat, different, more]
    cases touched : s.get? w with
    | none =>
      rw [Option.toList_none, List.append_nil]
      exact fills.place_untouched touched
    | some r =>
      have only : s.entries = [(w, r)] := by
        have mem := MeasurementSchema.get?_eq_some_iff.1 touched
        rcases MeasurementSchema.entries_of_size_le_one single.2 with none | ⟨v, r', one⟩
        · rw [none] at mem
          cases mem
        · rw [one, List.mem_singleton] at mem
          rw [one, mem]
      rw [Option.toList_some, eraseDupsBy_concat]
      exact fills.place_single only

/-- If the last group reads a wire out, every group does. -/
theorem Fills.length_eq (fills : Fills w groups rs) (nonempty : groups ≠ []) {r : WireReadout}
    (last : (groups.getLast nonempty).readout? w = some r) : rs.length = groups.length := by
  induction fills with
  | behind free => cases (free _ (List.getLast_mem nonempty)).symm.trans last
  | @cons g groups r rs held rest ih =>
    cases groups with
    | nil =>
      cases rest
      rfl
    | cons g' groups =>
      rw [List.getLast_cons (List.cons_ne_nil g' groups)] at last
      rw [List.length_cons, ih (List.cons_ne_nil g' groups) last]
      rfl

/-- A group behind the first one is opened for a measurement that needs a readout different from one
that is placed, so it reads something out. -/
def Used (groups : List OpenGroup) : Prop := ∀ g ∈ groups.tail, ∃ w r, g.readout? w = some r

/-- A placement leaves the groups behind the first one used. -/
theorem Used.place (used : Used groups) (index : Nat) (s : MeasurementSchema) :
    Used (place index s groups) := by
  cases groups with
  | nil => exact nofun
  | cons first rest =>
    unfold Grouping.place
    split
    case isFalse => exact used
    case isTrue collides =>
      intro g mem
      rcases mem_place mem with kept | ⟨old, known | rfl, -, rfl⟩
      · exact used g kept
      · obtain ⟨w, r, held⟩ := used old known
        exact ⟨w, r, by rw [readout?_add, held, Option.some_or]⟩
      · obtain ⟨⟨w, r⟩, listed, -⟩ := List.any_eq_true.1 collides
        refine ⟨w, r, ?_⟩
        rw [readout?_add, MeasurementSchema.get?_eq_some_iff.2 listed]
        rfl

/-- Every group behind the first one reads something out. -/
theorem used_placeAll (schemas : List MeasurementSchema) : Used (placeAll schemas) := by
  induction schemas using List.reverseRecOn with
  | nil => exact nofun
  | append_singleton schemas s ih =>
    rw [placeAll_concat]
    exact ih.place schemas.length s

/-- There is one group, or some wire has a different readout for each. -/
theorem length_eq_one_or (single : ∀ s ∈ schemas, s.size ≤ 1) (nonempty : schemas ≠ []) :
    (groupMeasurements schemas).length = 1 ∨
      ∃ w, (different schemas w).length = (groupMeasurements schemas).length := by
  have some_group := (shares_groupMeasurements schemas).one_le_length nonempty
  rw [List.length_map] at some_group
  rw [groupMeasurements_eq_map_placeAll, List.length_map] at *
  have used := used_placeAll schemas
  have fills := fills_placeAll single
  match groups : placeAll schemas with
  | [] =>
    rw [groups] at some_group
    cases some_group
  | [g] => exact .inl rfl
  | g :: g' :: rest =>
    rw [groups] at used fills
    -- the last group reads some wire out, so all groups before it do
    obtain ⟨w, r, held⟩ := used _ (List.getLast_mem (List.cons_ne_nil g' rest))
    have last : ((g :: g' :: rest).getLast (List.cons_ne_nil g _)).readout? w = some r := by
      rwa [List.getLast_cons (List.cons_ne_nil g' rest)]
    exact .inr ⟨w, (fills w).length_eq _ last⟩

/-- The groups share the measurements out, and if no measurement touches two wires, no way of
sharing them out needs fewer parts. As soon as there is a measurement, the number of groups is the
greatest number of different readouts of a wire, and at least one. -/
theorem single_wire_groups_are_fewest (single : ∀ s ∈ schemas, s.size ≤ 1) :
    Shares schemas ((groupMeasurements schemas).map (·.measurements)) ∧
    (∀ parts, Shares schemas parts → (groupMeasurements schemas).length ≤ parts.length) ∧
    (schemas ≠ [] → IsGreatest {n | n = 1 ∨ ∃ w, (different schemas w).length = n}
      (groupMeasurements schemas).length) := by
  have groups := shares_groupMeasurements schemas
  have counted : ((groupMeasurements schemas).map (·.measurements)).length =
      (groupMeasurements schemas).length := List.length_map _
  refine ⟨groups, fun parts shares => ?_, fun nonempty => ⟨length_eq_one_or single nonempty, ?_⟩⟩
  · by_cases nonempty : schemas = []
    · subst nonempty
      exact Nat.zero_le parts.length
    · rcases length_eq_one_or single nonempty with one | ⟨w, all⟩
      · rw [one]
        exact shares.one_le_length nonempty
      · rw [← all]
        exact shares.different_length_le w
  · rintro _ (rfl | ⟨w, rfl⟩)
    · exact counted ▸ groups.one_le_length nonempty
    · exact counted ▸ groups.different_length_le w

/-- A position and the quadrature at the angle minus zero share a group, and each of two quadratures
at an angle that is not a number needs its own. A count of another qumode, and a measurement that
touches nothing, fit in anywhere. -/
theorem three_groups_are_fewest :
    let asking (w : WireId) (r : WireReadout) : MeasurementSchema :=
      MeasurementSchema.empty.push w r List.not_mem_nil
    let at_angle (angle : Real64) := asking ⟨0⟩ (.rotated .position angle ⟨0⟩)
    let schemas := [at_angle .zero, asking ⟨1⟩ (.plain .discrete), at_angle ⟨0x8000000000000000⟩,
      at_angle .nan, at_angle .nan, .empty]
    (∀ s ∈ schemas, s.size ≤ 1) ∧ schemas ≠ [] ∧ Shares schemas [[0, 1, 2, 5], [3], [4]] ∧
      (∀ parts, Shares schemas parts → 3 ≤ parts.length) ∧
      IsGreatest {n | n = 1 ∨ ∃ w, (different schemas w).length = n} 3 := by
  intro asking at_angle schemas
  have single : ∀ s ∈ schemas, s.size ≤ 1 := by decide
  have nonempty : schemas ≠ [] := List.cons_ne_nil _ _
  have groups : (groupMeasurements schemas).map (·.measurements) = [[0, 1, 2, 5], [3], [4]] := by
    rw [groupMeasurements_eq_map_placeAll]
    decide +kernel
  have three : (groupMeasurements schemas).length = 3 := by
    rw [← List.length_map (·.measurements), groups]
    rfl
  obtain ⟨shares, fewest, greatest⟩ := single_wire_groups_are_fewest single
  rw [groups] at shares
  rw [three] at fewest greatest
  exact ⟨single, nonempty, shares, fewest, greatest nonempty⟩

end Grouping

end Qumode
