import Qumode.Proofs.FirstOccurrences
import Qumode.Proofs.Readout.Collection

/-!
# Schemas merged

What is collected for several lists of demands, one list after another in one schema, is what the
schemas collected for each list come to when they are put together: there is a common schema just
when the schemas agree on the wires they share (`MeasurementSchema.exists_collect?_flatMap`), and it
lists the first readout of every wire (`MeasurementSchema.entries_of_collect?_flatMap`).
-/

namespace Qumode

/-- Of the entries for one wire, the first. -/
def firstEntries (entries : List (WireId × WireReadout)) : List (WireId × WireReadout) :=
  entries.eraseDupsBy fun e e' => e.1 == e'.1

theorem firstEntries_flatMap {β : Type} (lists : List β)
    (f : β → List (WireId × WireReadout)) :
    firstEntries (lists.flatMap fun b => firstEntries (f b)) = firstEntries (lists.flatMap f) := by
  refine eraseDupsBy_flatMap (fun e e' e'' first second => ?_) lists f
  rw [beq_iff_eq] at first second ⊢
  exact first.trans second

namespace Demand

/-- The wire of a demand with its readout. -/
def wireReadout? (d : Demand) : Option (WireId × WireReadout) := d.readout.map (d.wire, ·)

theorem wireReadout?_eq_some {d : Demand} {r : WireReadout} (asked : d.readout = some r) :
    d.wireReadout? = some (d.wire, r) := by
  rw [wireReadout?, asked]
  rfl

/-- The schema has the readout of the demand on its wire, or one that is the same. -/
def Held (s : MeasurementSchema) (d : Demand) : Prop :=
  ∃ r p, d.readout = some r ∧ s.get? d.wire = some p ∧ (p = r ∨ p.numEq r = true)

end Demand

namespace MeasurementSchema

variable {s s' : MeasurementSchema} {ds ds' : List Demand} {d : Demand} {r : WireReadout}

/-- The two schemas have the same readout on every wire that is in both. -/
def Agrees (s s' : MeasurementSchema) : Prop :=
  ∀ w r r', s.get? w = some r → s'.get? w = some r' → r.numEq r' = true

/-- Demands are collected just when they are readable. -/
theorem exists_collect?_iff : (∃ s', s.collect? ds = some s') ↔ Readable s ds := by
  induction ds generalizing s with
  | nil => exact iff_of_true ⟨s, rfl⟩ ⟨List.forall_mem_nil _, .nil⟩
  | cons d rest ih =>
    constructor
    · rintro ⟨s', collected⟩
      obtain ⟨r, next, asked, inserted, others⟩ := collect?_cons.1 collected
      have adds := s.insert_spec d.wire r
      rw [inserted] at adds
      have recorded : d.Recorded s next := ⟨r, asked, adds⟩
      exact recorded.readable_iff.1 (ih.1 ⟨s', others⟩)
    · intro readable
      obtain ⟨r, asked, accepts⟩ := readable.admitted d List.mem_cons_self
      have spec := s.insert_spec d.wire r
      cases inserted : s.insert d.wire r with
      | error conflict =>
        rw [inserted] at spec
        exact absurd accepts spec
      | ok next =>
        rw [inserted] at spec
        have recorded : d.Recorded s next := ⟨r, asked, spec⟩
        obtain ⟨s', others⟩ := ih.2 (recorded.readable_iff.2 readable)
        exact ⟨s', collect?_cons.2 ⟨r, next, asked, inserted, others⟩⟩

/-- A readout that is inserted stands at the end, unless its wire has the same one already. -/
theorem entries_of_insert {w : WireId} (inserted : s.insert w r = .ok s') :
    s.get? w = none ∧ s'.entries = s.entries ++ [(w, r)] ∨
      ∃ there, s.get? w = some there ∧ there.numEq r = true ∧ s' = s := by
  cases held : s.get? w with
  | none =>
    rw [insert_of_fresh held] at inserted
    cases inserted
    exact .inl ⟨rfl, rfl⟩
  | some there =>
    rw [insert_of_held held] at inserted
    split at inserted
    case isTrue same =>
      cases inserted
      exact .inr ⟨there, rfl, same, rfl⟩
    case isFalse => cases inserted

theorem firstEntries_entries (s : MeasurementSchema) : firstEntries s.entries = s.entries := by
  refine eraseDupsBy_eq_self ((List.pairwise_map.1 s.distinct).imp fun apart => ?_)
  simpa using Ne.symm apart

/-- A schema lists what it had, and then the first readout of every other wire. -/
theorem entries_of_collect? (collected : s.collect? ds = some s') :
    s'.entries = firstEntries (s.entries ++ ds.filterMap Demand.wireReadout?) := by
  induction ds generalizing s with
  | nil =>
    cases collected
    rw [List.filterMap_nil, List.append_nil, firstEntries_entries]
  | cons d rest ih =>
    obtain ⟨r, next, asked, inserted, others⟩ := collect?_cons.1 collected
    rw [ih others, List.filterMap_cons_some (Demand.wireReadout?_eq_some asked), List.append_cons]
    rcases entries_of_insert inserted with ⟨-, pushed⟩ | ⟨there, held, -, rfl⟩
    · rw [pushed]
    · have listed := get?_eq_some_iff.1 held
      have dropped : firstEntries (next.entries ++ [(d.wire, r)]) = next.entries := by
        rw [firstEntries, eraseDupsBy_concat, ← firstEntries, firstEntries_entries]
        exact if_pos (List.any_eq_true.2 ⟨_, listed, beq_self_eq_true d.wire⟩)
      refine eraseDupsBy_append_congr ?_ _
      exact (firstEntries_entries next).trans dropped.symm

/-- A demand that was collected is held by the schema. -/
theorem held_of_collect? (collected : s.collect? ds = some s') (mem : d ∈ ds) : d.Held s' := by
  induction ds generalizing s with
  | nil => cases mem
  | cons first rest ih =>
    obtain ⟨r, next, asked, inserted, others⟩ := collect?_cons.1 collected
    rcases List.mem_cons.1 mem with rfl | later
    · have adds := s.insert_spec d.wire r
      rw [inserted] at adds
      have there : s'.get? d.wire = (s.get? d.wire).or (some r) := by
        rw [get?_of_collect? others, adds.get?, if_pos rfl, Option.or_assoc, Option.some_or]
      cases before : s.get? d.wire with
      | none => exact ⟨r, r, asked, by rw [there, before, Option.none_or], .inl rfl⟩
      | some p =>
        exact ⟨r, p, asked, by rw [there, before, Option.some_or], .inr (adds.accepts p before)⟩
    · exact ih others later

/-- What a schema has on a wire is asked for there. -/
theorem exists_demand_of_collect? (collected : empty.collect? ds = some s) {w : WireId}
    (held : s.get? w = some r) : ∃ d ∈ ds, d.wire = w ∧ d.readout = some r := by
  rw [get?_of_collect? collected, get?_empty, Option.none_or] at held
  obtain ⟨d, mem, found⟩ := List.exists_of_findSome?_eq_some held
  unfold Demand.readoutOn at found
  split at found
  case isTrue on => exact ⟨d, mem, on, found⟩
  case isFalse => cases found

/-- Schemas agree just when the demands that they are collected for do. -/
theorem agrees_iff (collected : empty.collect? ds = some s)
    (collected' : empty.collect? ds' = some s') :
    s.Agrees s' ↔ ∀ d ∈ ds, ∀ d' ∈ ds', d.Agrees d' := by
  constructor
  · intro agree d mem d' mem' on r r' asked asked'
    obtain ⟨_, held, own, found, same⟩ := held_of_collect? collected mem
    obtain ⟨_, held', own', found', same'⟩ := held_of_collect? collected' mem'
    cases own.symm.trans asked
    cases own'.symm.trans asked'
    rw [← on] at found'
    have between := agree d.wire held held' found found'
    have left : r.numEq held' = true := by
      rcases same with rfl | same
      · exact between
      · exact WireReadout.sameness.trans (WireReadout.sameness.symm same) between
    rcases same' with rfl | same'
    · exact left
    · exact WireReadout.sameness.trans left same'
  · intro agree w r r' held held'
    obtain ⟨d, mem, rfl, asked⟩ := exists_demand_of_collect? collected held
    obtain ⟨d', mem', on, asked'⟩ := exists_demand_of_collect? collected' held'
    exact agree d mem d' mem' on.symm r r' asked asked'

section Lists

variable {β : Type} {demands : β → List Demand} {ts : List β} {schemas : List MeasurementSchema}

/-- Schemas agree when the demands they have collected do. -/
theorem pairwise_agrees_iff
    (each : List.Forall₂ (fun t s => empty.collect? (demands t) = some s) ts schemas) :
    schemas.Pairwise Agrees ↔
      ts.Pairwise fun t t' => ∀ d ∈ demands t, ∀ d' ∈ demands t', d.Agrees d' := by
  induction each with
  | nil => exact iff_of_true .nil .nil
  | @cons t s ts schemas first others ih =>
    rw [List.pairwise_cons, List.pairwise_cons, ih]
    refine and_congr_left fun _ => ⟨fun agree t' mem => ?_, fun agree s' mem => ?_⟩
    · obtain ⟨s', mem', found⟩ := Steps.exists_left_of_mem others.flip mem
      exact (agrees_iff first found).1 (agree s' mem')
    · obtain ⟨t', mem', found⟩ := Steps.exists_left_of_mem others mem
      exact (agrees_iff first found).2 (agree t' mem')

/-- All demands are collected in one schema just when each list is in a schema of its own and these
schemas agree. -/
theorem exists_collect?_flatMap_iff :
    (∃ s, empty.collect? (ts.flatMap demands) = some s) ↔
      ∃ schemas, List.Forall₂ (fun t s => empty.collect? (demands t) = some s) ts schemas ∧
        schemas.Pairwise Agrees := by
  rw [exists_collect?_iff]
  constructor
  · intro together
    obtain ⟨each, across⟩ := List.pairwise_flatMap.1 together.agree
    have single : ∀ t ∈ ts, (empty.collect? (demands t)).isSome := by
      intro t mem
      rw [Option.isSome_iff_exists, exists_collect?_iff]
      exact ⟨List.forall_mem_flatMap.1 together.admitted t mem, each t mem⟩
    obtain ⟨schemas, collected⟩ := Option.isSome_iff_exists.1 (Steps.isSome_mapM_iff.2 single)
    have found := Steps.mapM_eq_some.1 collected
    exact ⟨schemas, found, (pairwise_agrees_iff found).2 across⟩
  · rintro ⟨schemas, found, agree⟩
    have single : ∀ t ∈ ts, Readable empty (demands t) := by
      intro t mem
      obtain ⟨s, -, collected⟩ := Steps.exists_left_of_mem found.flip mem
      exact exists_collect?_iff.1 ⟨s, collected⟩
    refine ⟨List.forall_mem_flatMap.2 fun t mem => (single t mem).admitted, ?_⟩
    exact List.pairwise_flatMap.2
      ⟨fun t mem => (single t mem).agree, (pairwise_agrees_iff found).1 agree⟩

/-- The common schema lists the first readout of every wire. -/
theorem entries_of_collect?_flatMap
    (each : List.Forall₂ (fun t s => empty.collect? (demands t) = some s) ts schemas)
    (collected : empty.collect? (ts.flatMap demands) = some s) :
    s.entries = firstEntries (schemas.flatMap (·.entries)) := by
  have single : schemas.flatMap (·.entries) =
      ts.flatMap fun t => firstEntries ((demands t).filterMap Demand.wireReadout?) := by
    clear collected
    induction each with
    | nil => rfl
    | cons first _ ih =>
      rw [List.flatMap_cons, List.flatMap_cons, ih, entries_of_collect? first]
      rfl
  rw [single, firstEntries_flatMap, ← List.filterMap_flatMap]
  exact entries_of_collect? collected

end Lists

end MeasurementSchema

end Qumode
