import Qumode.Analysis.Basic
import Qumode.Proofs.Steps
import Qumode.Proofs.Typing.Resolution

/-!
# The readouts of an observable are its own

What an observable is read out with is collected on a typing context, and whether that succeeds
hangs on the types that are settled there. What is collected does not: `MeasurementSchema.collect?`
gathers the readouts of some demands without a context, and it is what every successful run comes to
(`Typing.schema?_of_observable`). So the schemas of an analysis are functions of the measurements
alone, whatever the operations of the circuit are and wherever a measurement stands.
-/

namespace Qumode

/-- The schema with the readouts of some demands, in order. It is missing if a demand has no
readout, or not the one that its wire has already. -/
def MeasurementSchema.collect? (s : MeasurementSchema) : List Demand → Option MeasurementSchema
  | [] => some s
  | d :: rest => do
    let r ← d.readout
    let s' ← (s.insert d.wire r).toOption
    collect? s' rest

theorem MeasurementSchema.collect?_cons {s s' : MeasurementSchema} {d : Demand}
    {ds : List Demand} : s.collect? (d :: ds) = some s' ↔
      ∃ r next, d.readout = some r ∧ s.insert d.wire r = .ok next ∧ next.collect? ds = some s' := by
  have held : ∀ {x : Except (BasisSchema × BasisSchema) MeasurementSchema} {next},
      x.toOption = some next ↔ x = .ok next := by
    rintro (refused | inserted) next
    · exact ⟨fun h => (nomatch h), fun h => (nomatch h)⟩
    · simp [Except.toOption]
  simp only [collect?, Option.bind_eq_bind, Option.bind_eq_some_iff, held, exists_and_left]

/-- The readout that a demand asks for on a wire. -/
def Demand.readoutOn (w : WireId) (d : Demand) : Option WireReadout :=
  if d.wire = w then d.readout else none

/-- A schema keeps its readouts and gets the first of every other wire. -/
theorem MeasurementSchema.get?_of_collect? {s s' : MeasurementSchema} {ds : List Demand}
    (collected : s.collect? ds = some s') (w : WireId) :
    s'.get? w = (s.get? w).or (ds.findSome? (Demand.readoutOn w)) := by
  induction ds generalizing s with
  | nil =>
    cases collected
    exact (Option.or_none).symm
  | cons d rest ih =>
    obtain ⟨r, next, readout, inserted, collected⟩ := collect?_cons.1 collected
    have adds := s.insert_spec d.wire r
    rw [inserted] at adds
    rw [ih collected, adds.get?, List.findSome?_cons, Demand.readoutOn]
    by_cases on : d.wire = w
    · subst on
      simp [readout]
    · simp [on, Ne.symm on]

/-- The readouts of an observable. -/
def Observable.schema? (t : Observable Leaf) : Option MeasurementSchema :=
  MeasurementSchema.empty.collect? t.demands

theorem Observable.schema?_rightUnique :
    Relator.RightUnique fun (t : Observable Leaf) s => t.schema? = some s := by
  intro t s s' found found'
  exact Option.some.inj (found.symm.trans found')

namespace Typing

variable {c : Circuit} {site : Site} {s s' : MeasurementSchema} {ctx ctx' : TypeContext}

theorem insert_of_record {w : WireId} {r : WireReadout}
    (done : (record c site s w r).run ctx = .ok s' ctx') : s.insert w r = .ok s' := by
  unfold record at done
  split at done
  case h_1 inserted held =>
    cases done
    exact held
  case h_2 => cases done

/-- A demand that is met has a readout, which goes into the schema. -/
theorem recorded_of_demand {name : String} {d : Demand}
    (done : (demand c site name s d).run ctx = .ok s' ctx') :
    ∃ r, d.readout = some r ∧ s.insert d.wire r = .ok s' := by
  unfold demand at done
  obtain ⟨-, settled, -, rest⟩ := Steps.run_bind_eq_ok.1 done
  cases asked : d.readout with
  | none =>
    rw [asked] at rest
    cases rest
  | some r =>
    rw [asked] at rest
    exact ⟨r, rfl, insert_of_record rest⟩

/-- A run of demands comes to the readouts that the demands ask for. -/
theorem collect?_of_demands {ds : List (String × Demand)}
    (done : (ds.foldlM (fun s (name, d) => demand c site name s d) s).run ctx = .ok s' ctx') :
    s.collect? (ds.map Prod.snd) = some s' := by
  induction ds generalizing s ctx with
  | nil =>
    cases done
    rfl
  | cons d rest ih =>
    rw [List.foldlM_cons] at done
    obtain ⟨next, ctx'', first, others⟩ := Steps.run_bind_eq_ok.1 done
    obtain ⟨r, asked, inserted⟩ := recorded_of_demand first
    exact MeasurementSchema.collect?_cons.2 ⟨r, next, asked, inserted, ih others⟩

/-- What an observable resolves to is the schema of its demands. -/
theorem schema?_of_observable {t : Observable Leaf} {index : Nat}
    (done : (observable c t index).run ctx = .ok s ctx') : t.schema? = some s := by
  unfold observable at done
  rw [tree_eq_foldlM] at done
  have collected := collect?_of_demands done
  rw [snd_named] at collected
  exact collected

/-- So it is for measurements in a row. -/
theorem schema?_of_measurementsFrom {ts : List (Observable Leaf)} {index : Nat}
    {schemas : List MeasurementSchema}
    (done : (measurementsFrom c index ts).run ctx = .ok schemas ctx') :
    List.Forall₂ (fun t s => t.schema? = some s) ts schemas := by
  induction ts generalizing index ctx schemas with
  | nil =>
    cases done
    exact .nil
  | cons t rest ih =>
    unfold measurementsFrom at done
    obtain ⟨s, ctx₁, first, others⟩ := Steps.run_bind_eq_ok.1 done
    obtain ⟨more, ctx₂, later, finish⟩ := Steps.run_bind_eq_ok.1 others
    cases finish
    exact .cons (schema?_of_observable first) (ih later)

end Typing

namespace Analysis

variable {c d : Circuit} {r r' : Analysis}

/-- An analysis is made of the resolved types and readouts and of the groups. -/
theorem ofCircuit_eq_ok : ofCircuit c = .ok r ↔
    ∃ ctx, (resolved c).run (.start c) = .ok r.schemas ctx ∧ ctx.finish c = .ok r.wireTypes ∧
      r.groups = Grouping.groupMeasurements r.schemas := by
  unfold ofCircuit
  cases run : (resolved c).run (.start c) with
  | error e ctx => exact ⟨fun h => (nomatch h), fun ⟨_, h, _⟩ => (nomatch h)⟩
  | ok schemas ctx =>
    dsimp only
    rw [Steps.bind_eq_ok]
    constructor
    · rintro ⟨types, finished, ⟨⟩⟩
      exact ⟨ctx, rfl, finished, rfl⟩
    · rintro ⟨_, ⟨⟩, finished, groups⟩
      refine ⟨r.wireTypes, finished, ?_⟩
      rw [← groups]

/-- The schemas of an analysis are those of the measurements, one for each. -/
theorem schemas_of_ofCircuit (analysed : ofCircuit c = .ok r) :
    List.Forall₂ (fun t s => t.schema? = some s) c.measurements r.schemas := by
  obtain ⟨ctx, run, -⟩ := ofCircuit_eq_ok.1 analysed
  unfold resolved at run
  obtain ⟨-, ctx', -, measured⟩ := Steps.run_bind_eq_ok.1 run
  exact Typing.schema?_of_measurementsFrom measured

/-- The groups of an analysis are those of its schemas. -/
theorem groups_of_ofCircuit (analysed : ofCircuit c = .ok r) :
    r.groups = Grouping.groupMeasurements r.schemas := by
  obtain ⟨-, -, -, groups⟩ := ofCircuit_eq_ok.1 analysed
  exact groups

/-- Circuits with the same measurements have the same schemas. -/
theorem schemas_eq (analysed : ofCircuit c = .ok r) (analysed' : ofCircuit d = .ok r')
    (same : d.measurements = c.measurements) : r'.schemas = r.schemas := by
  have first := schemas_of_ofCircuit analysed
  have second := schemas_of_ofCircuit analysed'
  rw [same] at second
  exact List.right_unique_forall₂' Observable.schema?_rightUnique second first

end Analysis

end Qumode
