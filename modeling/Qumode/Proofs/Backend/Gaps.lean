import Qumode.Backend.Basic
import Qumode.Proofs.Circuit.Calls
import Qumode.Proofs.Grouping.Service
import Qumode.Proofs.Program.Operands
import Qumode.Proofs.Readout.Collection

/-!
# What a backend lacks for a circuit

A backend can run a circuit if it has qumodes or the circuit has none, if it has the readouts that
the measurements need on qumodes, and if it allows as many executions as there are groups. `check`
looks at the readouts of the groups and not at those of the measurements. That is the same because
the groups pack the measurements (`Grouping.Packs`): they read out what some measurement asks for,
and every measurement is read out as it asks. So only the number of the groups matters, however the
measurements are packed.
-/

namespace Qumode

/-! ## Groups that pack measurements -/

/-- The groups pack the measurements: each measurement is in a group that reads out every wire as
the measurement needs it, and a group reads a wire out because one of its measurements needs it so.
-/
structure Grouping.Packs (schemas : List MeasurementSchema) (groups : List ExecutionGroup) :
    Prop where
  served : ∀ i s, schemas[i]? = some s → ∃ g ∈ groups, i ∈ g.measurements ∧
    ∀ w schema, s.basis? w = some schema → (w, schema) ∈ g.readouts
  needed : ∀ g ∈ groups, ∀ w schema, (w, schema) ∈ g.readouts →
    ∃ i ∈ g.measurements, ∃ s, schemas[i]? = some s ∧ s.basis? w = some schema

namespace OpenGroup

variable {schemas : List MeasurementSchema} {g : OpenGroup} {w : WireId} {schema : BasisSchema}

/-- A closed group reads a wire out as its open one does. -/
theorem mem_close_readouts (distinct : (g.readouts.map (·.1)).Nodup) :
    (w, schema) ∈ g.close.readouts ↔ (g.readouts.lookup w).map (·.schema) = some schema := by
  unfold close
  rw [List.mem_map, Option.map_eq_some_iff]
  constructor
  · rintro ⟨⟨v, r⟩, listed, equal⟩
    cases equal
    exact ⟨r, (lookup_eq_some_iff_mem distinct).2 listed, rfl⟩
  · rintro ⟨r, found, rfl⟩
    exact ⟨(w, r), (lookup_eq_some_iff_mem distinct).1 found, rfl⟩

/-- A group reads a wire out for one of its measurements. -/
theorem Serves.needed (h : g.Serves schemas) (listed : (w, schema) ∈ g.close.readouts) :
    ∃ i ∈ g.measurements, ∃ s, schemas[i]? = some s ∧ s.basis? w = some schema := by
  obtain ⟨r, found, rfl⟩ := Option.map_eq_some_iff.1 ((mem_close_readouts h.distinct).1 listed)
  rw [h.placed] at found
  obtain ⟨i, hi, asks⟩ := List.exists_of_findSome?_eq_some found
  obtain ⟨s, there, touched⟩ := Option.bind_eq_some_iff.1 asks
  exact ⟨i, hi, s, there, Option.map_eq_some_iff.2 ⟨r, touched, rfl⟩⟩

/-- A group reads out every wire that one of its measurements touches, as the measurement needs it.
-/
theorem Serves.served (h : g.Serves schemas) {i : Nat} (hi : i ∈ g.measurements)
    {s : MeasurementSchema} (there : schemas[i]? = some s) (needs : s.basis? w = some schema) :
    (w, schema) ∈ g.close.readouts := by
  obtain ⟨r, touched, rfl⟩ := Option.map_eq_some_iff.1 needs
  obtain ⟨placed, found, same⟩ := h.exists_schema hi ((asked_eq_get? there w).trans touched)
  rw [mem_close_readouts h.distinct, found, Option.map_some, same]

end OpenGroup

/-- Grouping packs measurements. -/
theorem Grouping.packs_groupMeasurements (schemas : List MeasurementSchema) :
    Packs schemas (groupMeasurements schemas) := by
  have placed := groupMeasurements_eq_map_placeAll schemas
  constructor
  · intro i s there
    obtain ⟨k, g, grouped, member, -⟩ := existsUnique_group (List.getElem?_eq_some_iff.1 there).1
    have hg : g ∈ groupMeasurements schemas := List.mem_of_getElem? grouped
    refine ⟨g, hg, member, ?_⟩
    rw [placed] at hg
    obtain ⟨opened, in_place, rfl⟩ := List.mem_map.1 hg
    intro w schema needs
    exact (serves_placeAll schemas opened in_place).served member there needs
  · intro g hg w schema listed
    rw [placed] at hg
    obtain ⟨opened, in_place, rfl⟩ := List.mem_map.1 hg
    exact (serves_placeAll schemas opened in_place).needed listed

/-! ## The three needs of a circuit -/

namespace Backend

variable {b : Backend} {r : Analysis} {g : ExecutionGroup} {e : WireId × BasisSchema}
  {gap : BackendGap}

/-- The backend has qumodes, or no wire is one. -/
def HasQumodes (b : Backend) (r : Analysis) : Prop :=
  b.supportsContinuous = true ∨ .continuous ∉ r.wireTypes

/-- The backend has the readouts that the measurements need on qumodes. -/
def HasReadouts (b : Backend) (r : Analysis) : Prop :=
  ∀ s ∈ r.schemas, ∀ w schema, s.basis? w = some schema →
    r.wireType? w = some .continuous → schema ∈ b.readouts

/-- The backend allows so many executions. -/
def HasExecutions (b : Backend) (count : Nat) : Prop :=
  ∀ limit, b.maxExecutions = some limit → count ≤ limit.toNat

/-- The readout is on a qumode, and the backend does not have it. -/
def Lacks (b : Backend) (r : Analysis) (e : WireId × BasisSchema) : Prop :=
  r.wireType? e.1 = some .continuous ∧ e.2 ∉ b.readouts

/-- Of all readouts in the order of the groups this one, in the group with the index, is the first
that the backend lacks. -/
def FirstLacking (b : Backend) (r : Analysis) (index : Nat) (e : WireId × BasisSchema) : Prop :=
  ∃ earlier g later before after, r.groups = earlier ++ g :: later ∧ earlier.length = index ∧
    g.readouts = before ++ e :: after ∧ b.Lacks r e ∧
    ∀ e' ∈ earlier.flatMap ExecutionGroup.readouts ++ before, ¬ b.Lacks r e'

/-- The first of the needs of a circuit that the backend does not meet: qumodes, readouts,
executions. -/
inductive FirstGap (b : Backend) (r : Analysis) : BackendGap → Prop where
  | qumodes (lacking : ¬ b.HasQumodes r) : FirstGap b r (.qumodes (r.wireTypes.count .continuous))
  | readout {index : Nat} {w : WireId} {schema : BasisSchema} (qumodes : b.HasQumodes r)
      (first : b.FirstLacking r index (w, schema)) : FirstGap b r (.readout index schema w)
  | executions {limit : UInt64} (qumodes : b.HasQumodes r) (readouts : b.HasReadouts r)
      (limited : b.maxExecutions = some limit) (exceeded : limit.toNat < r.groups.length) :
      FirstGap b r (.executions r.groups.length limit.toNat)

theorem hasQumodes_iff :
    (!b.supportsContinuous && !r.isDiscreteOnly) = false ↔ b.HasQumodes r := by
  have discreteOnly_iff : r.isDiscreteOnly = true ↔ .continuous ∉ r.wireTypes := by
    unfold Analysis.isDiscreteOnly
    rw [List.all_eq_true]
    constructor
    · intro all mem
      cases of_decide_eq_true (all _ mem)
    · intro absent t mem
      cases t with
      | discrete => rfl
      | continuous => exact absurd mem absent
  unfold HasQumodes
  rw [← discreteOnly_iff]
  cases b.supportsContinuous <;> cases r.isDiscreteOnly <;> decide

/-- The check on one readout decides whether it is missing. -/
theorem lacks_iff (w : WireId) (schema : BasisSchema) :
    (r.wireType? w = some .continuous && !b.readouts.contains schema) = true ↔
      b.Lacks r (w, schema) := by
  simp [Lacks]

/-! ## Looking through the groups -/

/-- The missing readout of a group is the first one that is missing. -/
theorem missingReadout?_eq_some_iff : b.missingReadout? r g = some e ↔
    b.Lacks r e ∧ ∃ before after, g.readouts = before ++ e :: after ∧
      ∀ e' ∈ before, ¬ b.Lacks r e' := by
  unfold missingReadout?
  rw [List.find?_eq_some_iff_append]
  simp only [Bool.not_eq_true', ← Bool.not_eq_true, lacks_iff]

/-- A group misses no readout when each is there. -/
theorem missingReadout?_eq_none_iff :
    b.missingReadout? r g = none ↔ ∀ e ∈ g.readouts, ¬ b.Lacks r e := by
  unfold missingReadout?
  rw [List.find?_eq_none]
  simp only [lacks_iff]

/-- The search through the groups, each with its index. -/
def gapOfGroup? (b : Backend) (r : Analysis) (p : ExecutionGroup × Nat) : Option BackendGap :=
  (b.missingReadout? r p.1).map fun (w, schema) => .readout p.2 schema w

theorem gapOfGroup?_eq_none_iff {p : ExecutionGroup × Nat} :
    b.gapOfGroup? r p = none ↔ ∀ e ∈ p.1.readouts, ¬ b.Lacks r e := by
  unfold gapOfGroup?
  rw [Option.map_eq_none_iff, missingReadout?_eq_none_iff]

/-- No group has a gap when every readout of every group is there. -/
theorem findSome?_gapOfGroup?_eq_none_iff :
    r.groups.zipIdx.findSome? (b.gapOfGroup? r) = none ↔
      ∀ g ∈ r.groups, ∀ e ∈ g.readouts, ¬ b.Lacks r e := by
  simp only [List.findSome?_eq_none_iff, gapOfGroup?_eq_none_iff]
  constructor
  · intro none_lacking g hg
    obtain ⟨i, found⟩ := List.mem_iff_getElem?.1 hg
    exact none_lacking (g, i) (List.mk_mem_zipIdx_iff_getElem?.2 found)
  · intro none_lacking p hp
    exact none_lacking p.1 (List.fst_mem_of_mem_zipIdx hp)

/-- The gap that is found is the first missing readout of the first group that misses one. -/
theorem findSome?_gapOfGroup?_eq_some_iff :
    r.groups.zipIdx.findSome? (b.gapOfGroup? r) = some gap ↔
      ∃ index w schema, gap = .readout index schema w ∧ b.FirstLacking r index (w, schema) := by
  rw [List.findSome?_eq_some_iff]
  constructor
  · rintro ⟨searched, p, rest, split, found, clean⟩
    obtain ⟨earlier, others, groups, rfl, remaining⟩ := List.zipIdx_eq_append_iff.1 split
    cases others with
    | nil => cases remaining
    | cons g later =>
      cases remaining
      obtain ⟨⟨w, schema⟩, missing, rfl⟩ := Option.map_eq_some_iff.1 found
      obtain ⟨lacking, before, after, readouts, first⟩ := missingReadout?_eq_some_iff.1 missing
      refine ⟨0 + earlier.length, w, schema, rfl, earlier, g, later, before, after, groups,
        (Nat.zero_add _).symm, readouts, lacking, ?_⟩
      intro e mem
      rcases List.mem_append.1 mem with in_earlier | in_group
      · obtain ⟨g', hg', he⟩ := List.mem_flatMap.1 in_earlier
        obtain ⟨i, there⟩ := List.mem_iff_getElem?.1 hg'
        have free := clean (g', i) (List.mk_mem_zipIdx_iff_getElem?.2 there)
        exact gapOfGroup?_eq_none_iff.1 free e he
      · exact first e in_group
  · rintro ⟨index, w, schema, rfl, earlier, g, later, before, after, groups, rfl, readouts,
      lacking, first⟩
    refine ⟨earlier.zipIdx, (g, earlier.length), later.zipIdx (earlier.length + 1), ?_, ?_, ?_⟩
    · rw [groups, List.zipIdx_append, List.zipIdx_cons, Nat.zero_add]
    · have missing : b.missingReadout? r g = some (w, schema) := by
        refine missingReadout?_eq_some_iff.2 ⟨lacking, before, after, readouts, ?_⟩
        intro e mem
        exact first e (List.mem_append_right _ mem)
      unfold gapOfGroup?
      rw [missing]
      rfl
    · intro p hp
      refine gapOfGroup?_eq_none_iff.2 fun e he => first e (List.mem_append_left _ ?_)
      exact List.mem_flatMap.2 ⟨p.1, List.fst_mem_of_mem_zipIdx hp, he⟩

/-- The groups need what the measurements need. -/
theorem hasReadouts_iff (packs : Grouping.Packs r.schemas r.groups) :
    b.HasReadouts r ↔ ∀ g ∈ r.groups, ∀ e ∈ g.readouts, ¬ b.Lacks r e := by
  constructor
  · rintro has g hg ⟨w, schema⟩ he ⟨continuous, missing⟩
    obtain ⟨i, -, s, there, needs⟩ := packs.needed g hg w schema he
    exact missing (has s (List.mem_of_getElem? there) w schema needs continuous)
  · intro none_lacking s hs w schema needs continuous
    obtain ⟨i, there⟩ := List.mem_iff_getElem?.1 hs
    obtain ⟨g, hg, -, served⟩ := packs.served i s there
    by_contra missing
    exact none_lacking g hg (w, schema) (served w schema needs) ⟨continuous, missing⟩

/-! ## The check -/

/-- The three conditions are looked at one after another. -/
theorem gap?_eq (b : Backend) (r : Analysis) :
    b.gap? r =
      if !b.supportsContinuous && !r.isDiscreteOnly then
        some (.qumodes (r.wireTypes.count .continuous))
      else (r.groups.zipIdx.findSome? (b.gapOfGroup? r)).or
        ((b.maxExecutions.filter fun limit => limit.toNat < r.groups.length).map fun limit =>
          .executions r.groups.length limit.toNat) := by
  unfold gap?
  rw [Analysis.continuousWires, Analysis.length_wiresOf]
  refine if_congr Iff.rfl rfl ?_
  split
  next gap found =>
    have found' : r.groups.zipIdx.findSome? (b.gapOfGroup? r) = some gap := found
    rw [found', Option.some_or]
  next found =>
    have found' : r.groups.zipIdx.findSome? (b.gapOfGroup? r) = none := found
    rw [found', Option.none_or]
    cases b.maxExecutions with
    | none => rfl
    | some limit =>
      rw [Option.filter_some]
      dsimp only
      split <;> simp [*]

/-- The limit is not exceeded when there are executions enough. -/
theorem filter_exceeded_eq_none_iff {count : Nat} :
    b.maxExecutions.filter (fun limit => limit.toNat < count) = none ↔ b.HasExecutions count := by
  unfold HasExecutions
  rw [Option.filter_eq_none_iff]
  simp only [decide_eq_true_eq, Nat.not_lt]

/-- There is no gap when all three conditions are met. -/
theorem gap?_eq_none_iff (packs : Grouping.Packs r.schemas r.groups) :
    b.gap? r = none ↔ b.HasQumodes r ∧ b.HasReadouts r ∧ b.HasExecutions r.groups.length := by
  rw [gap?_eq, hasReadouts_iff packs, ← findSome?_gapOfGroup?_eq_none_iff, ← hasQumodes_iff,
    ← filter_exceeded_eq_none_iff]
  split
  · simp [*]
  · simp [*, Option.or_eq_none_iff]

/-- The gap that is reported is the first one. -/
theorem gap?_eq_some_iff (packs : Grouping.Packs r.schemas r.groups) :
    b.gap? r = some gap ↔ b.FirstGap r gap := by
  rw [gap?_eq]
  constructor
  · intro found
    split at found
    next lacking =>
      cases found
      exact .qumodes fun has => by simp [hasQumodes_iff.2 has] at lacking
    next enough =>
      have has := hasQumodes_iff.1 (eq_false_of_ne_true enough)
      rcases Option.or_eq_some_iff.1 found with in_group | ⟨no_group, too_many⟩
      · obtain ⟨index, w, schema, rfl, first⟩ := findSome?_gapOfGroup?_eq_some_iff.1 in_group
        exact .readout has first
      · obtain ⟨limit, limited, rfl⟩ := Option.map_eq_some_iff.1 too_many
        obtain ⟨limited, exceeded⟩ := Option.filter_eq_some_iff.1 limited
        have readouts := (hasReadouts_iff packs).2 (findSome?_gapOfGroup?_eq_none_iff.1 no_group)
        exact .executions has readouts limited (of_decide_eq_true exceeded)
  · intro first
    cases first with
    | qumodes lacking =>
      rw [if_pos (eq_true_of_ne_false fun none => lacking (hasQumodes_iff.1 none))]
    | readout has first =>
      rw [if_neg (by simp [hasQumodes_iff.2 has]),
        findSome?_gapOfGroup?_eq_some_iff.2 ⟨_, _, _, rfl, first⟩, Option.some_or]
    | executions has readouts limited exceeded =>
      have no_group := findSome?_gapOfGroup?_eq_none_iff.2 ((hasReadouts_iff packs).1 readouts)
      rw [if_neg (by simp [hasQumodes_iff.2 has]), no_group, Option.none_or, limited,
        Option.filter_some, if_pos (decide_eq_true exceeded), Option.map_some]

theorem check_eq_ok_iff : b.check r = .ok () ↔ b.gap? r = none := by
  unfold check
  cases b.gap? r with
  | none => exact ⟨fun _ => rfl, fun _ => rfl⟩
  | some gap => exact ⟨fun h => (nomatch h), fun h => (nomatch h)⟩

/-- A check fails with the gap and the name of the backend. -/
theorem check_eq_error_iff {error : AnalysisError} : b.check r = .error error ↔
    ∃ gap, error = .unsupportedByBackend b.name gap ∧ b.gap? r = some gap := by
  unfold check
  cases b.gap? r with
  | none => exact ⟨fun h => (nomatch h), fun ⟨_, _, h⟩ => (nomatch h)⟩
  | some gap =>
    constructor
    · intro failed
      cases failed
      exact ⟨gap, rfl, rfl⟩
    · rintro ⟨_, rfl, found⟩
      cases found
      rfl

/-- A backend passes the check if it meets the three needs of the circuit, and else the check
reports the first that it does not meet. Other groups that pack the measurements would change
nothing but the number of executions. -/
theorem check_decides_measurements {c : Circuit} (analysed : Analysis.ofCircuit c = .ok r)
    (b : Backend) :
    (b.check r = .ok () ↔ b.HasQumodes r ∧ b.HasReadouts r ∧ b.HasExecutions r.groups.length) ∧
    (∀ error, b.check r = .error error ↔
      ∃ gap, error = .unsupportedByBackend b.name gap ∧ b.FirstGap r gap) ∧
    Grouping.Packs r.schemas r.groups ∧
    ∀ groups, Grouping.Packs r.schemas groups →
      (b.check { r with groups } = .ok () ↔
        b.HasQumodes r ∧ b.HasReadouts r ∧ b.HasExecutions groups.length) := by
  have packs : Grouping.Packs r.schemas r.groups :=
    Analysis.groups_of_ofCircuit analysed ▸ Grouping.packs_groupMeasurements r.schemas
  refine ⟨check_eq_ok_iff.trans (gap?_eq_none_iff packs), ?_, packs, ?_⟩
  · intro error
    simp only [check_eq_error_iff, gap?_eq_some_iff packs]
  · intro groups packed
    have packs' : Grouping.Packs { r with groups }.schemas { r with groups }.groups := packed
    exact check_eq_ok_iff.trans (gap?_eq_none_iff packs')

/-- Counting and a quadrature of one mode go to two groups. A backend that only counts lacks the
readout of the second, whatever its limit, and one with every readout lacks an execution. -/
theorem check_finds_second_group :
    let c := (Circuit.empty "c").afterCalls [.measure (.leaf ⟨"NumberOperator", [.index 0], []⟩),
      .measure (.leaf ⟨"QuadX", [.index 0], []⟩)]
    let counting : Backend := { fockOnly "counting" with maxExecutions := some 1 }
    let single : Backend := { hybrid "single" with maxExecutions := some 1 }
    ∃ r, Analysis.ofCircuit c = .ok r ∧ (hybrid "any").check r = .ok () ∧
      (hybrid "any").HasReadouts r ∧ counting.FirstGap r (.readout 1 .position ⟨0⟩) ∧
      single.FirstGap r (.executions 2 1) := by
  intro c counting single
  let number := MeasurementSchema.empty.push ⟨0⟩ (.plain .discrete) List.not_mem_nil
  let x := MeasurementSchema.empty.push ⟨0⟩ (.rotated .position .zero ⟨0⟩) List.not_mem_nil
  let r : Analysis := ⟨[.continuous], [number, x], [⟨[0], [(⟨0⟩, .discrete)], []⟩,
    ⟨[1], [(⟨0⟩, .position)], [.rotation .zero ⟨0⟩]⟩]⟩
  have analysed : Analysis.ofCircuit c = .ok r := by decide +kernel
  have passed : (hybrid "any").check r = .ok () := by decide +kernel
  refine ⟨r, analysed, passed, ((check_decides_measurements analysed _).1.1 passed).2.1, ?_, ?_⟩
  · have failed : counting.check r = .error (.unsupportedByBackend "counting"
        (.readout 1 .position ⟨0⟩)) := by decide +kernel
    obtain ⟨gap, same, first⟩ := ((check_decides_measurements analysed counting).2.1 _).1 failed
    cases same
    exact first
  · have failed : single.check r = .error (.unsupportedByBackend "single" (.executions 2 1)) := by
      decide +kernel
    obtain ⟨gap, same, first⟩ := ((check_decides_measurements analysed single).2.1 _).1 failed
    cases same
    exact first

end Backend

end Qumode
