import Qumode.Typing.Context

/-!
# Which demands are met

Demands on a typing context are met one after another and the first that is not met ends the run.
`Typing.Makes` says when such a run succeeds without mention of an order: when the demands fit the
context (`TypeContext.Fits`), that is, agree with each other and with what is settled. A run that
succeeds settles what is demanded and nothing else (`TypeContext.Grows`).

Runs compose (`Makes.bind`) because demands fit one after another just when they fit together
(`Grows.fits_append`).
-/

namespace Qumode

namespace TypeContext

variable {ctx ctx' ctx'' : TypeContext} {T T' : List (WireId × WireType)} {w : WireId}
  {t : WireType}

/-- Demands on wires of the context that agree with its settled types and with each other. -/
def Fits (ctx : TypeContext) (T : List (WireId × WireType)) : Prop :=
  ∀ w t, (w, t) ∈ T → w.index < ctx.slots.length ∧
    (∀ t', ctx.get? w = some t' → t' = t) ∧ ∀ t', (w, t') ∈ T → t' = t

/-- The second context has the types of the first and the demanded ones. -/
structure Grows (ctx : TypeContext) (T : List (WireId × WireType)) (ctx' : TypeContext) :
    Prop where
  length : ctx'.slots.length = ctx.slots.length
  get? : ∀ w t, ctx'.get? w = some t ↔ ctx.get? w = some t ∨ (w, t) ∈ T

theorem fits_nil (ctx : TypeContext) : ctx.Fits [] := fun _ _ mem => nomatch mem

theorem Grows.nil (ctx : TypeContext) : ctx.Grows [] ctx := ⟨rfl, by simp⟩

/-- Growing by demands and then by others is growing by all of them. -/
theorem Grows.append (first : ctx.Grows T ctx') (second : ctx'.Grows T' ctx'') :
    ctx.Grows (T ++ T') ctx'' where
  length := second.length.trans first.length
  get? w t := by rw [second.get?, first.get?, List.mem_append, or_assoc]

/-- What fits a context fits in part. -/
theorem Fits.left (h : ctx.Fits (T ++ T')) : ctx.Fits T := by
  intro w t mem
  obtain ⟨inside, settled, agree⟩ := h w t (List.mem_append_left T' mem)
  exact ⟨inside, settled, fun t' mem' => agree t' (List.mem_append_left T' mem')⟩

/-- After some demands, others fit just when all of them fit together. -/
theorem Grows.fits_append (grows : ctx.Grows T ctx') (fits : ctx.Fits T) :
    ctx'.Fits T' ↔ ctx.Fits (T ++ T') := by
  constructor
  · intro fits' w t mem
    rcases List.mem_append.1 mem with early | late
    · obtain ⟨inside, settled, agree⟩ := fits w t early
      refine ⟨inside, settled, fun t' mem' => ?_⟩
      rcases List.mem_append.1 mem' with early' | late'
      · exact agree t' early'
      · exact ((fits' w t' late').2.1 t ((grows.get? w t).2 (.inr early))).symm
    · obtain ⟨inside, settled, agree⟩ := fits' w t late
      refine ⟨grows.length ▸ inside, fun t' found => ?_, fun t' mem' => ?_⟩
      · exact settled t' ((grows.get? w t').2 (.inl found))
      · rcases List.mem_append.1 mem' with early' | late'
        · exact settled t' ((grows.get? w t').2 (.inr early'))
        · exact agree t' late'
  · intro together w t late
    obtain ⟨inside, settled, agree⟩ := together w t (List.mem_append_right T late)
    refine ⟨grows.length.symm ▸ inside, fun t' found => ?_, fun t' late' => ?_⟩
    · rcases (grows.get? w t').1 found with before | early
      · exact settled t' before
      · exact agree t' (List.mem_append_left T' early)
    · exact agree t' (List.mem_append_right T late')

/-- A wire has a type when its slot is filled with a setting of that type. -/
theorem get?_eq_some_iff :
    ctx.get? w = some t ↔ ∃ s, ctx.slots[w.index]? = some (some s) ∧ s.type = t := by
  simp [get?, Option.join_eq_some_iff]

/-- A demand fits when its wire has a slot that is empty or has the demanded type. -/
theorem fits_singleton :
    ctx.Fits [(w, t)] ↔ w.index < ctx.slots.length ∧ ∀ t', ctx.get? w = some t' → t' = t := by
  constructor
  · intro fits
    obtain ⟨inside, settled, -⟩ := fits w t (List.mem_singleton_self _)
    exact ⟨inside, settled⟩
  · rintro ⟨inside, settled⟩ v u mem
    cases List.mem_singleton.1 mem
    refine ⟨inside, settled, fun t' mem' => ?_⟩
    cases List.mem_singleton.1 mem'
    rfl

/-- An empty slot is filled. -/
theorem grows_set {s : Settled} (empty : ctx.slots[w.index]? = some none) :
    ctx.Grows [(w, s.type)] ⟨ctx.slots.set w.index (some s)⟩ where
  length := List.length_set
  get? v u := by
    have inside : w.index < ctx.slots.length := (List.getElem?_eq_some_iff.1 empty).1
    simp only [get?_eq_some_iff, List.getElem?_set, List.mem_singleton, Prod.mk.injEq]
    by_cases same : w = v
    · subst same
      simp only [↓reduceIte, inside, empty, Option.some.injEq, exists_eq_left', reduceCtorEq,
        false_and, exists_false, true_and, false_or]
      exact eq_comm
    · have apart : w.index ≠ v.index := fun h => same (WireId.ext h)
      simp [apart, Ne.symm same]

/-- A slot that has the demanded type is left as it is. -/
theorem grows_settled {s : Settled} (settled : ctx.slots[w.index]? = some (some s)) :
    ctx.Grows [(w, s.type)] ctx where
  length := rfl
  get? v u := by
    rw [List.mem_singleton, Prod.mk.injEq]
    refine ⟨.inl, ?_⟩
    rintro (found | ⟨rfl, rfl⟩)
    · exact found
    · exact get?_eq_some_iff.2 ⟨s, settled, rfl⟩

end TypeContext

namespace Typing

open TypeContext

variable {α β : Type} {x : Typing α} {T T' : List (WireId × WireType)} {met met' : Prop}
  {Q Q' : α → Prop} {R : β → Prop}

/-- The run makes the demands `T` and has a further condition `met`. It succeeds just when the
demands fit and the condition holds, and `Q` is true of its result. -/
def Makes (x : Typing α) (T : List (WireId × WireType)) (met : Prop) (Q : α → Prop) : Prop :=
  ∀ ctx : TypeContext, match x.run ctx with
    | .ok a ctx' => ctx.Fits T ∧ met ∧ ctx.Grows T ctx' ∧ Q a
    | .error _ _ => ¬ (ctx.Fits T ∧ met)

/-- A run that has succeeded was made of demands that fit, and the context has grown by them. -/
theorem Makes.of_ok (h : x.Makes T met Q) {ctx ctx' : TypeContext} {a : α}
    (run : x.run ctx = .ok a ctx') : ctx.Fits T ∧ met ∧ ctx.Grows T ctx' ∧ Q a := by
  have at_ctx := h ctx
  rwa [run] at at_ctx

/-- A run that has failed had a demand that does not fit, or a condition that is not met. -/
theorem Makes.of_error (h : x.Makes T met Q) {ctx ctx' : TypeContext} {e : AnalysisError}
    (run : x.run ctx = .error e ctx') : ¬ (ctx.Fits T ∧ met) := by
  have at_ctx := h ctx
  rwa [run] at at_ctx

/-- The condition may be put in other words, and less be said of the result. -/
theorem Makes.mono (h : x.Makes T met Q) (met_iff : met ↔ met') (use : ∀ a, Q a → Q' a) :
    x.Makes T met' Q' := by
  intro ctx
  cases run : x.run ctx with
  | ok a ctx' =>
    obtain ⟨fits, holds, grows, good⟩ := h.of_ok run
    exact ⟨fits, met_iff.1 holds, grows, use a good⟩
  | error e ctx' => exact fun ⟨fits, holds⟩ => h.of_error run ⟨fits, met_iff.2 holds⟩

/-- A value is given without a demand. -/
theorem Makes.pure {a : α} (h : Q a) : (pure a : Typing α).Makes [] True Q :=
  fun ctx => ⟨ctx.fits_nil, trivial, .nil ctx, h⟩

/-- A refusal makes no demand, and its condition is never met. -/
theorem Makes.throw (e : AnalysisError) : (throw e : Typing α).Makes [] False Q :=
  fun _ => And.right

/-- Demands are made one part after another, under the conditions of both. -/
theorem Makes.bind {y : α → Typing β} (hx : x.Makes T met Q)
    (hy : ∀ a, Q a → (y a).Makes T' met' R) : (x >>= y).Makes (T ++ T') (met ∧ met') R := by
  intro ctx
  rw [EStateM.run_bind]
  cases first : x.run ctx with
  | error e ctx' => exact fun ⟨fits, holds, _⟩ => hx.of_error first ⟨fits.left, holds⟩
  | ok a ctx' =>
    obtain ⟨fits, holds, grows, good⟩ := hx.of_ok first
    dsimp only
    cases second : (y a).run ctx' with
    | error e ctx'' =>
      rintro ⟨together, -, holds'⟩
      exact (hy a good).of_error second ⟨(grows.fits_append fits).2 together, holds'⟩
    | ok b ctx'' =>
      obtain ⟨fits', holds', grows', good'⟩ := (hy a good).of_ok second
      exact ⟨(grows.fits_append fits).1 fits', ⟨holds, holds'⟩, grows.append grows', good'⟩

/-- A run whose result is only rearranged. -/
theorem Makes.map {g : α → β} (hx : x.Makes T met Q) (use : ∀ a, Q a → R (g a)) :
    (x >>= fun a => Pure.pure (g a)).Makes T met R := by
  intro ctx
  rw [EStateM.run_bind]
  cases first : x.run ctx with
  | error e ctx' => exact hx.of_error first
  | ok a ctx' =>
    obtain ⟨fits, holds, grows, good⟩ := hx.of_ok first
    exact ⟨fits, holds, grows, use a good⟩

/-- A loop makes the demands of its turns. -/
theorem Makes.forM {f : β → Typing Unit} {demands : β → List (WireId × WireType)}
    (h : ∀ b, (f b).Makes (demands b) True fun _ => True) (bs : List β) :
    (bs.forM f).Makes (bs.flatMap demands) True fun _ => True := by
  induction bs with
  | nil => exact .pure trivial
  | cons b rest ih => exact ((h b).bind fun _ _ => ih).mono (and_self_iff) fun _ => id

/-- A requirement makes its one demand, and nothing else can go wrong. -/
theorem require_makes (c : Circuit) (w : WireId) (t : WireType) (site : Site) :
    (require c w t site).Makes [(w, t)] True fun _ => True := by
  intro ctx
  rw [EStateM.run, require]
  cases slot : ctx.slots[w.index]? with
  | none =>
    rintro ⟨fits, -⟩
    exact absurd (fits_singleton.1 fits).1 (Nat.not_lt.2 (List.getElem?_eq_none_iff.1 slot))
  | some found =>
    have inside : w.index < ctx.slots.length := (List.getElem?_eq_some_iff.1 slot).1
    cases found with
    | none =>
      have unsettled : ctx.get? w = none := by simp [get?, slot]
      refine ⟨fits_singleton.2 ⟨inside, ?_⟩, trivial, grows_set (s := ⟨t, site⟩) slot, trivial⟩
      simp [unsettled]
    | some s =>
      have type_eq : ctx.get? w = some s.type := get?_eq_some_iff.2 ⟨s, slot, rfl⟩
      dsimp only
      by_cases same : s.type = t
      · subst same
        rw [if_pos rfl]
        refine ⟨fits_singleton.2 ⟨inside, ?_⟩, trivial, grows_settled slot, trivial⟩
        simp [type_eq]
      · rw [if_neg same]
        rintro ⟨fits, -⟩
        exact same ((fits_singleton.1 fits).2 s.type type_eq)

/-- An operation makes the demands that its wires require. -/
theorem operation_makes (c : Circuit) (op : Operation) (index : Nat) :
    (operation c op index).Makes op.requirements True fun _ => True := by
  have each := Makes.forM (fun (demand : WireId × WireType) =>
    require_makes c demand.1 demand.2 (.operation index)) op.requirements
  rwa [List.flatMap_singleton'] at each

/-- The operations of a circuit make all of theirs. -/
theorem operations_makes (c : Circuit) :
    (operations c).Makes (c.operations.flatMap Operation.requirements) True fun _ => True := by
  have each := Makes.forM (fun (entry : Operation × Nat) =>
    operation_makes c entry.1 entry.2) c.operations.zipIdx
  rwa [← List.flatMap_map, List.zipIdx_map_fst] at each

end Typing

end Qumode
