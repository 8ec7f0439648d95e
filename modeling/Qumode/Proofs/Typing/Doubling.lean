import Qumode.Proofs.Circuit.Calls
import Qumode.Proofs.Readout.Merging
import Qumode.Proofs.Typing.Replay

/-!
# An observable twice

The sum or the product of an observable with itself makes the same demands twice. The second time
every type is settled and every wire has its readout, so nothing is added; but the readouts are
compared with those that are there, and a readout at an angle that is not a number differs from
itself (`WireReadout.numEq_self`). A run that succeeds has such a readout only on a wire that is
touched once, and then the second demand on that wire fails.
-/

namespace Qumode

/-! ## Readouts that differ from themselves -/

def Param.isNaN : Param → Bool
  | .int _ => false
  | .real value => value.isNaN

/-- Whether an operation before the readout has a parameter that is not a number. -/
def WireReadout.atNaN (r : WireReadout) : Bool :=
  r.diagonalizing.any fun op => op.params.any Param.isNaN

theorem isEqv_self {α : Type} {same : α → α → Bool} {off : α → Bool}
    (self : ∀ a, same a a = !off a) (l : List α) : l.isEqv l same = !l.any off := by
  induction l with
  | nil => rfl
  | cons a l ih => rw [List.isEqv, self, ih, List.any_cons, Bool.not_or]

theorem Real64.numEq_self (x : Real64) : x.numEq x = !x.isNaN := by
  rw [Bool.eq_iff_iff, numEq_self_iff, Bool.not_eq_true']

theorem Param.numEq_self (p : Param) : p.numEq p = !p.isNaN := by
  cases p with
  | int value => simp [numEq, isNaN]
  | real value => exact value.numEq_self

/-- An operation equals itself unless a parameter is no number. -/
theorem Operation.numEq_self (op : Operation) : op.numEq op = !op.params.any Param.isNaN := by
  simp [numEq, isEqv_self Param.numEq_self]

/-- A readout is the same as itself unless it is at an angle that is not a number. -/
theorem WireReadout.numEq_self (r : WireReadout) : r.numEq r = !r.atNaN := by
  simp [numEq, atNaN, isEqv_self Operation.numEq_self]

/-- What is the same as something is the same as itself. -/
theorem WireReadout.atNaN_of_numEq {p r : WireReadout} (same : p.numEq r = true) :
    r.atNaN = false := by
  have self : r.numEq r = true := sameness.trans (sameness.symm same) same
  rwa [numEq_self, Bool.not_eq_true'] at self

namespace MeasurementSchema

variable {s s' : MeasurementSchema} {ds : List Demand}

/-- The first readout of the schema at an angle that is not a number is the first that is asked for:
a wire that is asked for again has no such readout. -/
theorem find?_atNaN_of_collect? (collected : s.collect? ds = some s') :
    s'.entries.find? (·.2.atNaN) =
      (s.entries.find? (·.2.atNaN)).or ((ds.filterMap Demand.wireReadout?).find? (·.2.atNaN)) := by
  induction ds generalizing s with
  | nil =>
    cases collected
    exact Option.or_none.symm
  | cons d rest ih =>
    obtain ⟨r, next, asked, inserted, others⟩ := collect?_cons.1 collected
    rw [ih others, List.filterMap_cons_some (Demand.wireReadout?_eq_some asked), List.find?_cons]
    rcases entries_of_insert inserted with ⟨-, pushed⟩ | ⟨there, -, same, rfl⟩
    · rw [pushed, List.find?_append, List.find?_singleton, Option.or_assoc]
      cases r.atNaN <;> rfl
    · rw [WireReadout.atNaN_of_numEq same]

end MeasurementSchema

namespace Typing

open MeasurementSchema (held_of_collect? find?_atNaN_of_collect?)

variable {c : Circuit} {index : Nat} {ctx ctx' : TypeContext} {s : MeasurementSchema}

/-- The conflict of a readout with itself. -/
def selfConflict (c : Circuit) (site : Site) (w : WireId) (r : WireReadout) : AnalysisError :=
  .schemaConflict (c.wireLabel w) (site.describe c) r.schema r.schema

/-- Demands whose types are settled and whose readouts are held come to the first of them that
differs from itself. -/
theorem demands_again {site : Site} {ds : List (String × Demand)}
    (met : ctx.Meets ((ds.map Prod.snd).map Demand.typed))
    (held : ∀ d ∈ ds.map Prod.snd, d.Held s) :
    (ds.foldlM (fun s (name, d) => demand c site name s d) s).run ctx =
      match ((ds.map Prod.snd).filterMap Demand.wireReadout?).find? (·.2.atNaN) with
      | none => .ok s ctx
      | some (w, r) => .error (selfConflict c site w r) ctx := by
  -- a demand changes neither the schema nor the context, so both are fixed along the demands
  induction ds with
  | nil => rfl
  | cons d rest ih =>
    obtain ⟨settled, met⟩ := TypeContext.meets_cons.1 met
    rw [List.map_cons, List.forall_mem_cons] at held
    obtain ⟨⟨r, p, asked, there, same⟩, held⟩ := held
    have recorded : (demand c site d.1 s d.2).run ctx = (record c site s d.2.wire r).run ctx := by
      rw [demand, asked, EStateM.run_bind, require_of_meets settled]
    rw [List.foldlM_cons, EStateM.run_bind, recorded, record,
      MeasurementSchema.insert_of_held there, List.map_cons,
      List.filterMap_cons_some (Demand.wireReadout?_eq_some asked), List.find?_cons]
    cases off : r.atNaN with
    | false =>
      have accepted : p.numEq r = true := by
        rcases same with rfl | same
        · rw [WireReadout.numEq_self, off]
          rfl
        · exact same
      rw [if_pos accepted]
      exact ih met held
    | true =>
      have own : p = r := by
        rcases same with own | same
        · exact own
        · cases off.symm.trans (WireReadout.atNaN_of_numEq same)
      subst own
      have refused : ¬ p.numEq p = true := by
        rw [WireReadout.numEq_self, off]
        exact Bool.false_ne_true
      rw [if_neg refused]
      rfl

/-- The sum and the product of an observable with itself come to the schema of the observable and
to its context, unless a wire is read out at an angle that is not a number. The first such wire is
reported as a conflict of the readout with itself. -/
theorem doubled_run {t u : Observable Leaf} (doubled : u = .sum [t, t] ∨ u = .product [t, t])
    (done : (observable c t index).run ctx = .ok s ctx') :
    (observable c u index).run ctx =
      match s.entries.find? (·.2.atNaN) with
      | none => .ok s ctx'
      | some (w, r) => .error (selfConflict c (.measurement index) w r) ctx' := by
  have leaves : u.leafList = t.leafList ++ t.leafList := by
    rcases doubled with rfl | rfl <;> simp [Observable.leafList, Observable.leafLists]
  have collected := schema?_of_observable done
  obtain ⟨-, -, grows, -⟩ := (observable_makes t index).of_ok done
  rw [observable, tree_eq_foldlM] at done
  rw [observable, tree_eq_foldlM, leaves, List.flatMap_append, List.foldlM_append,
    EStateM.run_bind, done]
  dsimp only
  rw [Observable.schema?] at collected
  rw [find?_atNaN_of_collect? collected]
  refine (demands_again ?_ ?_).trans ?_
  · rw [snd_named]
    exact grows.meets
  · rw [snd_named]
    exact fun d mem => held_of_collect? collected mem
  · rw [snd_named]
    rfl

/-- A quadrature and a qubit observable, twice: the sum has the schema and the context of one. -/
theorem doubled_run_of_product :
    let c := (Circuit.empty "c").afterCalls
      [.measure (.product [.leaf ⟨"QuadX", [.index 0], []⟩, .leaf ⟨"PauliX", [.index 1], []⟩])]
    let t : Observable Leaf := .product
      [.leaf ⟨"QuadX", [⟨0⟩], .continuous (some (.quadrature .zero))⟩,
        .leaf ⟨"PauliX", [⟨1⟩], .discrete ["Hadamard"]⟩]
    c.measurements = [t] ∧ ∃ s ctx, (observable c t 0).run (.start c) = .ok s ctx ∧
      (observable c (.sum [t, t]) 0).run (.start c) = .ok s ctx := by
  intro c t
  obtain ⟨s, ctx, done, numbers⟩ : ∃ s ctx, (observable c t 0).run (.start c) = .ok s ctx ∧
      s.entries.find? (·.2.atNaN) = none := ⟨_, _, rfl, by decide⟩
  have doubled := doubled_run (.inl rfl) done
  rw [numbers] at doubled
  exact ⟨rfl, s, ctx, done, doubled⟩

/-- A quadrature at an angle that is not a number is resolved, but its sum with itself is not. -/
theorem doubled_conflicts_at_nan :
    let c := (Circuit.empty "c").afterCalls
      [.measure (.leaf ⟨"QuadOperator", [.label "m"], [.nan]⟩)]
    let t : Observable Leaf :=
      .leaf ⟨"QuadOperator", [⟨0⟩], .continuous (some (.quadrature .nan))⟩
    c.measurements = [t] ∧ (∃ s ctx, (observable c t 0).run (.start c) = .ok s ctx) ∧
      ¬ ∃ s ctx, (observable c (.sum [t, t]) 0).run (.start c) = .ok s ctx := by
  intro c t
  have fails : (observable c (.sum [t, t]) 0).run (.start c) =
      .error (selfConflict c (.measurement 0) ⟨0⟩ (.rotated .position .nan ⟨0⟩))
        ⟨[some ⟨.continuous, .measurement 0⟩]⟩ := by rfl
  refine ⟨by rfl, ⟨_, _, rfl⟩, ?_⟩
  rintro ⟨s, ctx, done⟩
  cases fails.symm.trans done

end Typing

end Qumode
