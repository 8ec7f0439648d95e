/-!
# Two runs in lockstep

A computation is run twice, from states that a relation relates. The runs go in lockstep if both
succeed with the same result or both fail, the second with the error of the first as a translation
gives it, and if the relation holds afterwards in either case. Sequences of computations that go in
lockstep do, too, so a relation between two runs of a program is shown for its steps.
-/

namespace Qumode.Steps

variable {ε σ α β : Type}

/-- Two outcomes that differ in the state, and in the error by its translation. -/
inductive Alike (R : σ → σ → Prop) (g : ε → ε) :
    EStateM.Result ε σ α → EStateM.Result ε σ α → Prop where
  | ok {a : α} {s s' : σ} (related : R s s') : Alike R g (.ok a s) (.ok a s')
  | error {e : ε} {s s' : σ} (related : R s s') : Alike R g (.error e s) (.error (g e) s')

/-- The computations have like outcomes from related states. -/
def Lockstep (R : σ → σ → Prop) (g : ε → ε) (x y : EStateM ε σ α) : Prop :=
  ∀ ⦃s s' : σ⦄, R s s' → Alike R g (x.run s) (y.run s')

namespace Lockstep

variable {R : σ → σ → Prop} {g : ε → ε} {x y : EStateM ε σ α}

theorem pure (a : α) : Lockstep R g (pure a : EStateM ε σ α) (Pure.pure a) := fun _ _ => .ok

theorem throw (e : ε) : Lockstep R g (throw e : EStateM ε σ α) (MonadExcept.throw (g e)) :=
  fun _ _ => .error

theorem bind {k k' : α → EStateM ε σ β} (first : Lockstep R g x y)
    (second : ∀ a, Lockstep R g (k a) (k' a)) : Lockstep R g (x >>= k) (y >>= k') := by
  intro s s' related
  have outcomes := first related
  rw [EStateM.run_bind, EStateM.run_bind]
  generalize x.run s = outcome, y.run s' = outcome' at outcomes
  cases outcomes with
  | ok related' => exact second _ related'
  | error related' => exact .error related'

/-- A run whose result is only rearranged. -/
theorem map {h : α → β} (run : Lockstep R g x y) :
    Lockstep R g (x >>= fun a => Pure.pure (h a)) (y >>= fun a => Pure.pure (h a)) :=
  run.bind fun a => .pure (h a)

/-- A loop over items, and the loop over the items that stand for them. -/
theorem forM {f f' : β → EStateM ε σ Unit} {h : β → β} {items : List β}
    (each : ∀ b ∈ items, Lockstep R g (f b) (f' (h b))) :
    Lockstep R g (items.forM f) ((items.map h).forM f') := by
  induction items with
  | nil => exact .pure ()
  | cons b rest ih =>
    rw [List.forall_mem_cons] at each
    exact each.1.bind fun _ => ih each.2

theorem forM_same {f f' : β → EStateM ε σ Unit} {items : List β}
    (each : ∀ b ∈ items, Lockstep R g (f b) (f' b)) :
    Lockstep R g (items.forM f) (items.forM f') := by
  have loop : Lockstep R g (items.forM f) ((items.map id).forM f') := forM each
  rwa [List.map_id] at loop

theorem foldlM {f f' : α → β → EStateM ε σ α} {items : List β}
    (each : ∀ b ∈ items, ∀ a, Lockstep R g (f a b) (f' a b)) (a : α) :
    Lockstep R g (items.foldlM f a) (items.foldlM f' a) := by
  induction items generalizing a with
  | nil => exact .pure a
  | cons b rest ih =>
    rw [List.forall_mem_cons] at each
    rw [List.foldlM_cons, List.foldlM_cons]
    exact (each.1 a).bind (ih each.2)

end Lockstep

end Qumode.Steps
