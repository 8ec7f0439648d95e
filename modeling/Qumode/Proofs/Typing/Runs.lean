import Qumode.Proofs.Circuit.Calls
import Qumode.Proofs.Typing.Replay

/-!
# Runs on one context

A typing context may be used for any sequence of steps: single demands, the operations of the
circuit, an observable, all measurements. A step that fails ends where it fails, what it has settled
until then stays, and the run goes on with the next step.

`Step.attempts` lists the demands that a step comes to on a context, the one at which it fails
included. The invariant of a run is `Holds`: a slot holds the first attempt of the run on its wire.
Every computation that is made of demands extends the attempts by its own (`Typing.Logs`), so every
step does, and all that a run can do to the slots follows from its attempts.
-/

namespace Qumode

/-- A demand that a run comes to, met or not. -/
structure Attempt where
  wire : WireId
  type : WireType
  site : Site

namespace Attempt

def settled (a : Attempt) : Settled := ⟨a.type, a.site⟩

/-- The first attempt on a wire. -/
def first? (log : List Attempt) (w : WireId) : Option Attempt := log.find? (·.wire = w)

variable {log log' : List Attempt} {a : Attempt} {w : WireId}

/-- The first attempt on a wire is one of the earlier ones, if there is any. -/
theorem first?_append : first? (log ++ log') w = (first? log w).or (first? log' w) :=
  List.find?_append

theorem first?_singleton : first? [a] w = if a.wire = w then some a else none := by
  simp [first?, List.find?_singleton]

end Attempt

open Attempt

/-- The slots hold the first attempts on the wires of the circuit. -/
structure Holds (ctx : TypeContext) (c : Circuit) (log : List Attempt) : Prop where
  length : ctx.slots.length = c.numWires
  slot : ∀ w : WireId, w.index < c.numWires →
    ctx.slots[w.index]? = some ((first? log w).map settled)

namespace Holds

variable {c : Circuit} {ctx ctx' : TypeContext} {log log' : List Attempt} {a : Attempt}

/-- A new context holds no attempt. -/
theorem start (c : Circuit) : Holds (.start c) c [] where
  length := List.length_replicate
  slot w inside := by
    rw [TypeContext.start, List.getElem?_replicate, if_pos inside]
    rfl

/-- An attempt that is not the first on a wire of the circuit is not seen in the slots. -/
theorem later (h : Holds ctx c log)
    (seen : a.wire.index < c.numWires → (first? log a.wire).isSome) :
    Holds ctx c (log ++ [a]) where
  length := h.length
  slot w inside := by
    rw [h.slot w inside, first?_append, first?_singleton]
    by_cases on : a.wire = w
    · subst on
      obtain ⟨early, found⟩ := Option.isSome_iff_exists.1 (seen inside)
      rw [found, Option.some_or]
    · rw [if_neg on, Option.or_none]

/-- The first attempt on a wire is put into its slot. -/
theorem fill (h : Holds ctx c log) (fresh : first? log a.wire = none) :
    Holds ⟨ctx.slots.set a.wire.index (some a.settled)⟩ c (log ++ [a]) where
  length := List.length_set.trans h.length
  slot w inside := by
    rw [List.getElem?_set, first?_append, first?_singleton]
    by_cases on : a.wire = w
    · subst on
      rw [if_pos rfl, if_pos (h.length ▸ inside), fresh, if_pos rfl]
      rfl
    · have apart : a.wire.index ≠ w.index := fun same => on (WireId.ext same)
      rw [if_neg apart, if_neg on, Option.or_none, h.slot w inside]

/-- More attempts leave the filled slots as they are. -/
theorem keeps (h : Holds ctx c log) (h' : Holds ctx' c (log ++ log')) : ctx.Keeps ctx' := by
  intro i s filled
  have inside : i < c.numWires := h.length ▸ (List.getElem?_eq_some_iff.1 filled).1
  have found := (h.slot ⟨i⟩ inside).symm.trans filled
  obtain ⟨early, first, rfl⟩ := Option.map_eq_some_iff.1 (Option.some.inj found)
  have slot' := h'.slot ⟨i⟩ inside
  rwa [first?_append, first, Option.some_or] at slot'

end Holds

namespace Typing

variable {α β γ σ : Type} {c : Circuit} {ctx : TypeContext} {x : Typing α}
  {attempts : TypeContext → List Attempt}

/-- What is settled after a computation, failed or not. -/
def after (x : Typing α) (ctx : TypeContext) : TypeContext :=
  match x.run ctx with
  | .ok _ ctx' => ctx'
  | .error _ ctx' => ctx'

/-- What goes on from where a computation succeeds. -/
def onward (x : Typing α) (next : α → TypeContext → List β) (ctx : TypeContext) : List β :=
  match x.run ctx with
  | .ok a ctx' => next a ctx'
  | .error _ _ => []

/-- The items that a loop comes to, the one at which it fails included. -/
def visited (step : σ → β → Typing σ) : σ → List β → TypeContext → List β
  | _, [], _ => []
  | s, b :: rest, ctx => b :: (step s b).onward (fun s' ctx' => visited step s' rest ctx') ctx

/-- What is made of the result may be made at once. -/
theorem map_onward (g : β → γ) (next : α → TypeContext → List β) :
    (x.onward next ctx).map g = x.onward (fun a ctx' => (next a ctx').map g) ctx := by
  rw [onward, onward]
  cases x.run ctx with
  | error e ctx' => rfl
  | ok a ctx' => rfl

/-- The context after a run that has succeeded is the one it ends with. -/
theorem after_of_ok {ctx' : TypeContext} {a : α} (done : x.run ctx = .ok a ctx') :
    x.after ctx = ctx' := by
  rw [after, done]

/-- A computation followed by one that settles nothing. -/
theorem after_bind {f : α → Typing β} (silent : ∀ a ctx, (f a).after ctx = ctx) :
    (x >>= f).after ctx = x.after ctx := by
  rw [after, EStateM.run_bind, after]
  cases x.run ctx with
  | error e ctx' => rfl
  | ok a ctx' => exact silent a ctx'

/-- The computation makes the attempts, which depend on where it starts. -/
def Logs (c : Circuit) (x : Typing α) (attempts : TypeContext → List Attempt) : Prop :=
  ∀ ctx log, Holds ctx c log → Holds (x.after ctx) c (log ++ attempts ctx)

/-- What never changes the context attempts nothing. -/
theorem Logs.silent (none : ∀ ctx, x.after ctx = ctx) : Logs c x fun _ => [] := by
  intro ctx log h
  rwa [none, List.append_nil]

/-- What follows without changing the context adds no attempt. -/
theorem Logs.bind_silent {f : α → Typing β} (h : Logs c x attempts)
    (silent : ∀ a ctx, (f a).after ctx = ctx) : Logs c (x >>= f) attempts := by
  intro ctx log holds
  rw [after_bind silent]
  exact h ctx log holds

/-- What is attempted behind a computation that succeeds is attempted from where it ends. -/
theorem Logs.bind {f : α → Typing β} {attempts' : α → TypeContext → List Attempt}
    (h : Logs c x attempts) (others : ∀ a, Logs c (f a) (attempts' a)) :
    Logs c (x >>= f) fun ctx => attempts ctx ++ x.onward attempts' ctx := by
  intro ctx log holds
  have first := h ctx log holds
  rw [after] at first
  rw [after, EStateM.run_bind]
  dsimp only
  rw [onward]
  cases run : x.run ctx with
  | error e ctx' =>
    rw [run] at first
    rwa [List.append_nil]
  | ok a ctx' =>
    rw [run] at first
    rw [← List.append_assoc]
    exact others a ctx' _ first

/-- A loop attempts what its items do, as far as it comes. -/
theorem Logs.foldlM {step : σ → β → Typing σ} {attempt : β → Attempt}
    (each : ∀ s b, Logs c (step s b) fun _ => [attempt b]) (items : List β) (s : σ) :
    Logs c (items.foldlM step s) fun ctx => (visited step s items ctx).map attempt := by
  induction items generalizing s with
  | nil => exact .silent fun _ => rfl
  | cons b rest ih =>
    have loop := (each s b).bind ih
    simp only [visited, List.map_cons, map_onward]
    rwa [List.foldlM_cons]

/-- A requirement is one attempt, whether it succeeds or fails. -/
theorem require_logs (c : Circuit) (w : WireId) (t : WireType) (site : Site) :
    Logs c (require c w t site) fun _ => [⟨w, t, site⟩] := by
  intro ctx log h
  rw [after, EStateM.run, require]
  cases slot : ctx.slots[w.index]? with
  | none =>
    have outside : c.numWires ≤ w.index := h.length ▸ List.getElem?_eq_none_iff.1 slot
    exact h.later fun inside => absurd inside (Nat.not_lt.2 outside)
  | some held =>
    have inside : w.index < c.numWires := h.length ▸ (List.getElem?_eq_some_iff.1 slot).1
    have first := (h.slot w inside).symm.trans slot
    cases held with
    | none => exact h.fill (a := ⟨w, t, site⟩) (Option.map_eq_none_iff.1 (Option.some.inj first))
    | some s =>
      obtain ⟨early, found, -⟩ := Option.map_eq_some_iff.1 (Option.some.inj first)
      have seen : (first? log w).isSome := found ▸ rfl
      -- met or not, the demand leaves a filled slot as it is
      by_cases same : s.type = t
      · simp only [same, ↓reduceIte]
        exact h.later fun _ => seen
      · simp only [same, ↓reduceIte]
        exact h.later fun _ => seen

/-- A demand attempts the type of its wire, whatever becomes of its readout. -/
theorem demand_logs (c : Circuit) (site : Site) (name : String) (s : MeasurementSchema)
    (d : Demand) : Logs c (demand c site name s d) fun _ => [⟨d.wire, d.type, site⟩] := by
  refine (require_logs c d.wire d.type site).bind_silent fun _ ctx => ?_
  cases d.readout with
  | none => rfl
  | some r =>
    dsimp only
    rw [record]
    cases s.insert d.wire r with
    | error refused => rfl
    | ok next => rfl

end Typing

/-- The demands of all operations, in program order. -/
def Circuit.attempts (c : Circuit) : List Attempt :=
  c.operations.zipIdx.flatMap fun (op, index) =>
    op.requirements.map fun (w, t) => ⟨w, t, .operation index⟩

namespace Typing

variable {c : Circuit}

/-- One demand of a loop that carries nothing on. -/
def attempt (c : Circuit) (_ : Unit) (a : Attempt) : Typing Unit := require c a.wire a.type a.site

/-- Attempts that are listed item by item are made item by item. -/
theorem foldlM_attempt_flatMap {β : Type} {f : β → Typing Unit} {listed : β → List Attempt}
    (each : ∀ b, f b = (listed b).foldlM (attempt c) ()) (bs : List β) :
    bs.forM f = (bs.flatMap listed).foldlM (attempt c) () := by
  induction bs with
  | nil => rfl
  | cons b rest ih =>
    rw [List.flatMap_cons, List.foldlM_append, ← each]
    exact bind_congr fun _ => ih

/-- The operations of a circuit are their attempts, one after another. -/
theorem operations_eq_foldlM (c : Circuit) : operations c = c.attempts.foldlM (attempt c) () := by
  refine foldlM_attempt_flatMap (fun (op, index) => ?_) c.operations.zipIdx
  dsimp only
  rw [List.map_eq_flatMap]
  refine foldlM_attempt_flatMap (fun (w, t) => ?_) op.requirements
  exact (bind_pure (require c w t (.operation index))).symm

/-- The operations attempt their requirements up to the first that fails. -/
theorem operations_logs (c : Circuit) :
    Logs c (operations c) fun ctx => visited (attempt c) () c.attempts ctx := by
  have each (u : Unit) (a : Attempt) : Logs c (attempt c u a) fun _ => [id a] :=
    require_logs c a.wire a.type a.site
  have loop := Logs.foldlM each c.attempts ()
  simp only [List.map_id] at loop
  rwa [operations_eq_foldlM]

/-- The demands that an observable comes to. -/
def observableAttempts (c : Circuit) (t : Observable Leaf) (index : Nat) (ctx : TypeContext) :
    List Attempt :=
  (visited (fun s (name, d) => demand c (.measurement index) name s d) .empty
    (t.leafList.flatMap named) ctx).map fun (_, d) => ⟨d.wire, d.type, .measurement index⟩

/-- The demands that several measurements come to, the first of which has the given index. -/
def measurementAttempts (c : Circuit) : Nat → List (Observable Leaf) → TypeContext → List Attempt
  | _, [], _ => []
  | index, t :: rest, ctx => observableAttempts c t index ctx ++
    (observable c t index).onward (fun _ ctx' => measurementAttempts c (index + 1) rest ctx') ctx

/-- An observable attempts what its leaves demand, up to the first failure. -/
theorem observable_logs (c : Circuit) (t : Observable Leaf) (index : Nat) :
    Logs c (observable c t index) (observableAttempts c t index) := by
  rw [observable, tree_eq_foldlM]
  exact .foldlM (fun s item => demand_logs c (.measurement index) item.1 s item.2) _ _

/-- Measurements attempt what their leaves demand, up to the first failure. -/
theorem measurementsFrom_logs (c : Circuit) (index : Nat) (ts : List (Observable Leaf)) :
    Logs c (measurementsFrom c index ts) (measurementAttempts c index ts) := by
  induction ts generalizing index with
  | nil => exact .silent fun _ => rfl
  | cons t rest ih =>
    have others : ∀ s : MeasurementSchema, Logs c (measurementsFrom c (index + 1) rest >>=
        fun schemas => pure (s :: schemas)) (measurementAttempts c (index + 1) rest) :=
      fun s => (ih (index + 1)).bind_silent fun _ _ => rfl
    exact (observable_logs c t index).bind others

end Typing

/-- One use of a context. -/
inductive Step where
  | require (w : WireId) (type : WireType) (site : Site)
  | operations
  | observable (t : Observable Leaf) (index : Nat)
  | measurements

/-- What a step comes to when it succeeds. -/
inductive Answer where
  | done
  | schema (s : MeasurementSchema)
  | schemas (ss : List MeasurementSchema)

namespace Step

variable {c : Circuit} {ctx ctx' : TypeContext} {step step' : Step} {answer : Answer}

def run (c : Circuit) : Step → Typing Answer
  | require w type site => do
    Typing.require c w type site
    pure .done
  | operations => do
    Typing.operations c
    pure .done
  | observable t index => do
    let s ← Typing.observable c t index
    pure (.schema s)
  | measurements => do
    let ss ← Typing.measurements c
    pure (.schemas ss)

/-- The demands that a step comes to, in order. -/
def attempts (c : Circuit) : Step → TypeContext → List Attempt
  | require w type site => fun _ => [⟨w, type, site⟩]
  | operations => Typing.visited (Typing.attempt c) () c.attempts
  | observable t index => Typing.observableAttempts c t index
  | measurements => Typing.measurementAttempts c 0 c.measurements

/-- Every step logs the attempts that it makes from the context it starts in. -/
theorem run_logs (c : Circuit) (step : Step) : Typing.Logs c (step.run c) (step.attempts c) := by
  cases step with
  | require w type site => exact (Typing.require_logs c w type site).bind_silent fun _ _ => rfl
  | operations => exact (Typing.operations_logs c).bind_silent fun _ _ => rfl
  | observable t index => exact (Typing.observable_logs c t index).bind_silent fun _ _ => rfl
  | measurements =>
    exact (Typing.measurementsFrom_logs c 0 c.measurements).bind_silent fun _ _ => rfl

/-- All that a step demands when it succeeds. -/
def demands (c : Circuit) : Step → List (WireId × WireType)
  | require w type _ => [(w, type)]
  | operations => c.operations.flatMap Operation.requirements
  | observable t _ => t.demands.map Demand.typed
  | measurements => c.measurements.flatMap fun t => t.demands.map Demand.typed

/-- What a step can come to, whatever the context. -/
inductive Answers (c : Circuit) : Step → Answer → Prop
  | require (w : WireId) (type : WireType) (site : Site) : Answers c (.require w type site) .done
  | operations : Answers c .operations .done
  | observable {t : Observable Leaf} (index : Nat) {s : MeasurementSchema}
      (found : t.schema? = some s) : Answers c (.observable t index) (.schema s)
  | measurements {ss : List MeasurementSchema}
      (found : List.Forall₂ (fun t s => t.schema? = some s) c.measurements ss) :
      Answers c .measurements (.schemas ss)

/-- A step that succeeds comes to one of its answers and leaves its demands met. -/
theorem answers_of_run (done : (step.run c).run ctx = .ok answer ctx') :
    Answers c step answer ∧ ctx'.Meets (step.demands c) := by
  cases step with
  | require w type site =>
    obtain ⟨_, _, first, ⟨⟩⟩ := Steps.run_bind_eq_ok.1 done
    exact ⟨.require w type site, ((Typing.require_makes c w type site).of_ok first).2.2.1.meets⟩
  | operations =>
    obtain ⟨_, _, first, ⟨⟩⟩ := Steps.run_bind_eq_ok.1 done
    exact ⟨.operations, ((Typing.operations_makes c).of_ok first).2.2.1.meets⟩
  | observable t index =>
    obtain ⟨_, _, first, ⟨⟩⟩ := Steps.run_bind_eq_ok.1 done
    exact ⟨.observable index (Typing.schema?_of_observable first),
      ((Typing.observable_makes t index).of_ok first).2.2.1.meets⟩
  | measurements =>
    obtain ⟨_, _, first, ⟨⟩⟩ := Steps.run_bind_eq_ok.1 done
    exact ⟨.measurements (Typing.schema?_of_measurementsFrom first),
      ((Typing.measurements_makes c).of_ok first).2.2.1.meets⟩

/-- A step whose demands are met comes to its answer and settles nothing. -/
theorem run_of_meets (answers : Answers c step answer) (met : ctx.Meets (step.demands c)) :
    (step.run c).run ctx = .ok answer ctx := by
  cases answers with
  | require w type site =>
    have settled := met w type (List.mem_singleton_self _)
    exact Steps.run_bind_eq_ok.2 ⟨(), ctx, Typing.require_of_meets settled, rfl⟩
  | operations => exact Steps.run_bind_eq_ok.2 ⟨(), ctx, Typing.operations_of_meets met, rfl⟩
  | observable index found =>
    exact Steps.run_bind_eq_ok.2 ⟨_, ctx, Typing.observable_of_meets index met found, rfl⟩
  | measurements found =>
    exact Steps.run_bind_eq_ok.2 ⟨_, ctx, Typing.measurementsFrom_of_meets 0 met found, rfl⟩

/-- The second step is the first again. An observable may be resolved for another measurement. -/
inductive Repeats : Step → Step → Prop
  | same (step : Step) : Repeats step step
  | observable (t : Observable Leaf) (index index' : Nat) :
      Repeats (.observable t index) (.observable t index')

theorem Repeats.demands_eq (h : Repeats step step') : step'.demands c = step.demands c := by
  cases h with
  | same => rfl
  | observable => rfl

/-- A step that repeats another has the answer of the other. -/
theorem Repeats.answers (h : Repeats step step') (answers : Answers c step answer) :
    Answers c step' answer := by
  cases h with
  | same => exact answers
  | observable t index index' =>
    cases answers with
    | observable _ found => exact .observable index' found

end Step

namespace Run

variable {c : Circuit} {ctx : TypeContext} {steps later : List Step}

/-- What is settled after some steps. -/
def reached (c : Circuit) : List Step → TypeContext → TypeContext
  | [], ctx => ctx
  | step :: rest, ctx => reached c rest ((step.run c).after ctx)

/-- The demands that some steps come to. -/
def attempts (c : Circuit) : List Step → TypeContext → List Attempt
  | [], _ => []
  | step :: rest, ctx => step.attempts c ctx ++ attempts c rest ((step.run c).after ctx)

/-- A run of steps goes on from the context that the first of them reach. -/
theorem reached_append :
    reached c (steps ++ later) ctx = reached c later (reached c steps ctx) := by
  induction steps generalizing ctx with
  | nil => rfl
  | cons step rest ih => exact ih

/-- The context that a run reaches holds its attempts behind the earlier ones. -/
theorem reached_holds {log : List Attempt} (h : Holds ctx c log) :
    Holds (reached c steps ctx) c (log ++ attempts c steps ctx) := by
  induction steps generalizing ctx log with
  | nil => rwa [attempts, List.append_nil]
  | cons step rest ih =>
    rw [attempts, ← List.append_assoc]
    exact ih (step.run_logs c ctx log h)

/-- Steps leave the slots as they are that are filled on the way to them. -/
theorem reached_keeps (c : Circuit) (steps later : List Step) :
    (reached c steps (.start c)).Keeps (reached c (steps ++ later) (.start c)) := by
  have before : Holds (reached c steps (.start c)) c ([] ++ attempts c steps (.start c)) :=
    reached_holds (Holds.start c)
  rw [reached_append]
  exact before.keeps (reached_holds before)

/-- A requirement on a wire outside of the circuit changes nothing. -/
theorem require_outside {w : WireId} (outside : c.numWires ≤ w.index) (type : WireType)
    (site : Site) {log : List Attempt} (h : Holds ctx c log) :
    ((Step.require w type site).run c).after ctx = ctx := by
  have unlisted : ctx.slots[w.index]? = none := List.getElem?_eq_none_iff.2 (h.length ▸ outside)
  have refused : (Typing.require c w type site).run ctx =
      .error (.unresolvedWire (c.wireLabel w)) ctx := by
    rw [EStateM.run, Typing.require, unlisted]
  rw [Step.run, Typing.after_bind fun _ _ => rfl, Typing.after, refused]

/-- Slots are written once: after any steps they hold the first attempts on their wires, and no
later step changes one that is filled. Demands outside the table change nothing, and a step that
has succeeded does so again with the same answer, and changes nothing, whatever came in between. -/
theorem slots_written_once (c : Circuit) (steps later : List Step) :
    Holds (reached c steps (.start c)) c (attempts c steps (.start c)) ∧
    (reached c steps (.start c)).Keeps (reached c (steps ++ later) (.start c)) ∧
    (∀ (w : WireId) (type : WireType) (site : Site), c.numWires ≤ w.index →
      reached c (steps ++ [.require w type site]) (.start c) = reached c steps (.start c)) ∧
    ∀ (step step' : Step) (answer : Answer) (ctx : TypeContext), step.Repeats step' →
      (step.run c).run (reached c steps (.start c)) = .ok answer ctx →
      (step'.run c).run (reached c (steps ++ step :: later) (.start c)) =
        .ok answer (reached c (steps ++ step :: later) (.start c)) := by
  have held : Holds (reached c steps (.start c)) c (attempts c steps (.start c)) :=
    reached_holds (Holds.start c)
  refine ⟨held, reached_keeps c steps later, ?outside, ?again⟩
  case outside =>
    intro w type site outside
    rw [reached_append]
    exact require_outside outside type site held
  case again =>
    intro step step' answer ctx repeats done
    obtain ⟨answers, met⟩ := Step.answers_of_run done
    have settled : reached c (steps ++ [step]) (.start c) = ctx := by
      rw [reached_append]
      exact Typing.after_of_ok done
    have keeps := reached_keeps c (steps ++ [step]) later
    rw [settled, List.append_assoc, List.singleton_append] at keeps
    refine Step.run_of_meets (repeats.answers answers) ?_
    rw [repeats.demands_eq]
    exact keeps.meets met

/-- The second operation fails on the qubit that the first has settled. The qumode behind it stays
free for the observable, whose readout is found again after all measurements together have failed.
-/
theorem slots_written_once_around_failures :
    let c := (Circuit.empty "c").afterCalls [
      .standard "Hadamard" [.index 4] [],
      .continuous "Beamsplitter" [.index 4, .index 9] [],
      .measure (.leaf ⟨"QuadX", [.index 9], []⟩),
      .measure (.leaf ⟨"PauliZ", [.index 9], []⟩)]
    let t : Observable Leaf := .leaf ⟨"QuadX", [⟨1⟩], .continuous (some (.quadrature .zero))⟩
    let ctx := reached c [.operations, .observable t 0, .measurements] (.start c)
    ctx.slots = [some ⟨.discrete, .operation 0⟩, some ⟨.continuous, .measurement 0⟩] ∧
      ∃ s, ((Step.observable t 5).run c).run ctx = .ok (.schema s) ctx := by
  intro c t ctx
  obtain ⟨-, -, -, again⟩ := slots_written_once c [.operations] [.measurements]
  refine ⟨rfl, _, again (.observable t 0) (.observable t 5) _ _ (.observable t 0 5) rfl⟩

end Run

end Qumode
