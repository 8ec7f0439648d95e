import Qumode.Proofs.Readout.Collection

/-!
# Demands that are met already

A run that succeeds leaves the types it demanded settled (`TypeContext.Grows.meets`), and demands on
settled wires are met without a change. So on a context that meets the demands of an element, making
them again comes to the answer that the element has by itself, whatever else has been settled in
between and under whatever site it is reported.
-/

namespace Qumode

namespace TypeContext

variable {ctx ctx' : TypeContext} {T T' : List (WireId × WireType)} {w : WireId} {t : WireType}

/-- The demanded types are settled. -/
def Meets (ctx : TypeContext) (T : List (WireId × WireType)) : Prop :=
  ∀ w t, (w, t) ∈ T → ctx.get? w = some t

/-- What a context has grown by is settled in it. -/
theorem Grows.meets (grows : ctx.Grows T ctx') : ctx'.Meets T :=
  fun w t mem => (grows.get? w t).2 (.inr mem)

/-- Demands in a row are settled when each part is. -/
theorem meets_append : ctx.Meets (T ++ T') ↔ ctx.Meets T ∧ ctx.Meets T' := by
  constructor
  · intro met
    exact ⟨fun w t mem => met w t (List.mem_append_left T' mem),
      fun w t mem => met w t (List.mem_append_right T mem)⟩
  · rintro ⟨early, late⟩ w t mem
    rcases List.mem_append.1 mem with mem | mem
    · exact early w t mem
    · exact late w t mem

theorem meets_cons : ctx.Meets ((w, t) :: T) ↔ ctx.get? w = some t ∧ ctx.Meets T := by
  constructor
  · intro met
    exact ⟨met w t List.mem_cons_self, fun v u mem => met v u (List.mem_cons_of_mem _ mem)⟩
  · rintro ⟨first, others⟩ v u mem
    rcases List.mem_cons.1 mem with same | mem
    · cases same
      exact first
    · exact others v u mem

/-- The second context has the filled slots of the first. -/
def Keeps (ctx ctx' : TypeContext) : Prop :=
  ∀ (i : Nat) (s : Settled), ctx.slots[i]? = some (some s) → ctx'.slots[i]? = some (some s)

/-- A context that keeps filled slots keeps what is settled. -/
theorem Keeps.meets (keeps : ctx.Keeps ctx') (met : ctx.Meets T) : ctx'.Meets T := by
  intro w t mem
  obtain ⟨s, slot, type⟩ := get?_eq_some_iff.1 (met w t mem)
  exact get?_eq_some_iff.2 ⟨s, keeps w.index s slot, type⟩

end TypeContext

namespace Typing

open TypeContext

variable {c : Circuit} {ctx : TypeContext} {site : Site}

/-- A requirement that is settled succeeds and changes nothing. -/
theorem require_of_meets {w : WireId} {t : WireType} (met : ctx.get? w = some t) :
    (require c w t site).run ctx = .ok () ctx := by
  obtain ⟨s, slot, type⟩ := get?_eq_some_iff.1 met
  rw [EStateM.run, require, slot]
  exact if_pos type

/-- A loop whose turns change nothing changes nothing. -/
theorem forM_of_unchanged {β : Type} {f : β → Typing Unit} {bs : List β}
    (each : ∀ b ∈ bs, (f b).run ctx = .ok () ctx) : (bs.forM f).run ctx = .ok () ctx := by
  induction bs with
  | nil => rfl
  | cons b rest ih =>
    rw [List.forall_mem_cons] at each
    exact Steps.run_bind_eq_ok.2 ⟨(), ctx, each.1, ih each.2⟩

/-- Operations whose demands are settled succeed again and change nothing. -/
theorem operations_of_meets (met : ctx.Meets (c.operations.flatMap Operation.requirements)) :
    (operations c).run ctx = .ok () ctx := by
  refine forM_of_unchanged fun ⟨op, index⟩ entry => ?_
  refine forM_of_unchanged fun ⟨w, t⟩ required => ?_
  have listed : op ∈ c.operations := List.fst_mem_of_mem_zipIdx entry
  exact require_of_meets (met w t (List.mem_flatMap.2 ⟨op, listed, required⟩))

/-- Demands whose types are settled come to the schema that collects their readouts. -/
theorem demands_of_meets {ds : List (String × Demand)} {s s' : MeasurementSchema}
    (met : ctx.Meets ((ds.map Prod.snd).map Demand.typed))
    (collected : s.collect? (ds.map Prod.snd) = some s') :
    (ds.foldlM (fun s (name, d) => demand c site name s d) s).run ctx = .ok s' ctx := by
  induction ds generalizing s with
  | nil =>
    cases collected
    rfl
  | cons d rest ih =>
    obtain ⟨settled, others⟩ := meets_cons.1 met
    obtain ⟨r, next, asked, added, collected⟩ := MeasurementSchema.collect?_cons.1 collected
    have first : (demand c site d.1 s d.2).run ctx = .ok next ctx := by
      rw [demand, asked]
      refine Steps.run_bind_eq_ok.2 ⟨(), ctx, require_of_meets settled, ?_⟩
      dsimp only
      rw [record, added]
      rfl
    rw [List.foldlM_cons]
    exact Steps.run_bind_eq_ok.2 ⟨next, ctx, first, ih others collected⟩

/-- An observable whose demands are settled gives its schema again and changes nothing. -/
theorem observable_of_meets {t : Observable Leaf} {s : MeasurementSchema} (index : Nat)
    (met : ctx.Meets (t.demands.map Demand.typed)) (found : t.schema? = some s) :
    (observable c t index).run ctx = .ok s ctx := by
  rw [observable, tree_eq_foldlM]
  rw [← snd_named] at met
  rw [Observable.schema?, ← snd_named] at found
  exact demands_of_meets met found

/-- So do measurements in a row. -/
theorem measurementsFrom_of_meets {ts : List (Observable Leaf)} {schemas : List MeasurementSchema}
    (index : Nat) (met : ctx.Meets (ts.flatMap fun t => t.demands.map Demand.typed))
    (found : List.Forall₂ (fun t s => t.schema? = some s) ts schemas) :
    (measurementsFrom c index ts).run ctx = .ok schemas ctx := by
  induction found generalizing index with
  | nil => rfl
  | cons first others ih =>
    rw [List.flatMap_cons, meets_append] at met
    rw [measurementsFrom]
    refine Steps.run_bind_eq_ok.2 ⟨_, ctx, observable_of_meets index met.1 first, ?_⟩
    exact Steps.run_bind_eq_ok.2 ⟨_, ctx, ih (index + 1) met.2, rfl⟩

end Typing

end Qumode
