import Qumode.Proofs.FirstFault
import Qumode.Proofs.Typing.Resolution

/-!
# Which demand is blamed

The analysis makes one demand after another: those of the operations first, then those of the leaves
of every measurement (`Circuit.events`). `Event.Fault` says what is wrong with an event behind
others, without a context: its wire was first used at the other type, its leaf has no natural basis
there, or its measurement reads the wire out in another way already. The first of these that applies
is what the event is reported with.

A context recalls the earliest event on every wire and nothing else (`Recalls`), and a schema has
the earliest readout of every wire (`Collected`). Under these invariants one step of the analysis
fails just when its event is faulty, and with its fault, so a run reports the fault of the earliest
faulty event (`Typing.Follows`).
-/

namespace Qumode

/-- A demand on a wire, with the element of the circuit that makes it. -/
inductive Event where
  | operation (index : Nat) (op : Operation) (wire : WireId) (type : WireType)
  | leaf (index : Nat) (m : Observable Leaf) (l : Leaf) (d : Demand)

namespace Event

/-- The element that makes the demand, as it is reported. -/
def origin : Event → Origin
  | operation index op _ _ => ⟨.operation index, op.name⟩
  | leaf index m _ _ => ⟨.measurement index, m.name⟩

def wire : Event → WireId
  | operation _ _ wire _ => wire
  | leaf _ _ _ d => d.wire

def type : Event → WireType
  | operation _ _ _ type => type
  | leaf _ _ _ d => d.type

/-- The readout of a wire, if the event asks for it in the measurement at an index. -/
def readout? (index : Nat) (w : WireId) : Event → Option WireReadout
  | operation .. => none
  | leaf i _ _ d => if i = index ∧ d.wire = w then d.readout else none

/-- The events of an operation, in wire order. -/
def ofOperation (op : Operation) (index : Nat) : List Event :=
  op.requirements.map fun (w, t) => operation index op w t

/-- The events of a measurement: those of its leaves from left to right, each in wire order. The
identity has none. -/
def ofMeasurement (m : Observable Leaf) (index : Nat) : List Event :=
  m.leafList.flatMap fun l => l.demands.map (leaf index m l)

/-- The earliest event on a wire. -/
def earliest? (events : List Event) (w : WireId) : Option Event := events.find? (·.wire = w)

/-- The earliest readout of a wire in the measurement at an index. -/
def earliestReadout? (events : List Event) (index : Nat) (w : WireId) : Option WireReadout :=
  events.findSome? (readout? index w)

/-- The event demands what its wire is used as already, if it is. -/
def Typed (before : List Event) (e : Event) : Prop :=
  ∀ first, earliest? before e.wire = some first → first.type = e.type

/-- What is wrong with an event that stands behind some others. The type comes before the natural
basis, and the natural basis before the readout. -/
inductive Fault (c : Circuit) (before : List Event) : Event → AnalysisError → Prop where
  /-- The earliest event on the wire demands the other type. -/
  | aliasing {e first : Event} {label : Wire} (named : c.wires.label? e.wire = some label)
      (settled : earliest? before e.wire = some first) (other : first.type = e.type.opposite) :
      Fault c before e (.aliasing label first.type first.origin e.origin)
  /-- The leaf has no natural basis on the wire. -/
  | unsupported {index : Nat} {m : Observable Leaf} {l : Leaf} {d : Demand} {label : Wire}
      (named : c.wires.label? d.wire = some label) (typed : Typed before (leaf index m l d))
      (unreadable : d.readout = none) :
      Fault c before (leaf index m l d)
        (.unsupportedObservable l.name label ⟨.measurement index, m.name⟩)
  /-- The earliest readout of the wire in the measurement is another one. -/
  | conflict {index : Nat} {m : Observable Leaf} {l : Leaf} {d : Demand} {label : Wire}
      {held asked : WireReadout} (named : c.wires.label? d.wire = some label)
      (typed : Typed before (leaf index m l d)) (readable : d.readout = some asked)
      (earlier : earliestReadout? before index d.wire = some held)
      (differ : held.numEq asked = false) :
      Fault c before (leaf index m l d)
        (.schemaConflict label ⟨.measurement index, m.name⟩ held.schema asked.schema)

variable {c : Circuit} {before : List Event} {e : Event} {index : Nat} {w : WireId}

/-- An event of the type that its wire has is not one of the other type. -/
theorem Typed.not_other {first : Event} (typed : Typed before e)
    (settled : earliest? before e.wire = some first) : first.type ≠ e.type.opposite := by
  rw [typed first settled]
  cases e.type <;> exact nofun

/-- An event is wrong in one way at most. -/
theorem fault_unique (before : List Event) (e : Event) (err err' : AnalysisError)
    (h : Fault c before e err) (h' : Fault c before e err') : err = err' := by
  cases h with
  | aliasing named settled other =>
    cases h' with
    | aliasing named' settled' other' =>
      cases named.symm.trans named'
      cases settled.symm.trans settled'
      rfl
    | unsupported _ typed _ => exact absurd other (typed.not_other settled)
    | conflict _ typed _ _ _ => exact absurd other (typed.not_other settled)
  | unsupported named typed unreadable =>
    cases h' with
    | aliasing _ settled other => exact absurd other (typed.not_other settled)
    | unsupported named' _ _ =>
      cases named.symm.trans named'
      rfl
    | conflict _ _ readable _ _ => exact nomatch unreadable.symm.trans readable
  | conflict named typed readable earlier differ =>
    cases h' with
    | aliasing _ settled other => exact absurd other (typed.not_other settled)
    | unsupported _ _ unreadable => exact nomatch unreadable.symm.trans readable
    | conflict named' _ readable' earlier' _ =>
      cases named.symm.trans named'
      cases readable.symm.trans readable'
      cases earlier.symm.trans earlier'
      rfl

/-- A later event is the earliest on its wire only if there is none before. -/
theorem earliest?_append :
    earliest? (before ++ [e]) w =
      (earliest? before w).or (if e.wire = w then some e else none) := by
  rw [earliest?, List.find?_append]
  by_cases on : e.wire = w <;> simp [earliest?, on]

/-- A later readout is the first only if the measurement has none on the wire before. -/
theorem earliestReadout?_append :
    earliestReadout? (before ++ [e]) index w =
      (earliestReadout? before index w).or (e.readout? index w) := by
  rw [earliestReadout?, List.findSome?_append, List.findSome?_singleton]
  rfl

/-- The event is on a wire of the circuit, and the circuit has the element that makes it. -/
structure Belongs (e : Event) (c : Circuit) : Prop where
  described : e.origin.site.describe c = e.origin
  inside : e.wire.index < c.numWires

end Event

/-- All demands that an analysis makes, in order. -/
def Circuit.events (c : Circuit) : List Event :=
  c.operations.zipIdx.flatMap (fun (op, index) => Event.ofOperation op index) ++
    c.measurements.zipIdx.flatMap fun (m, index) => Event.ofMeasurement m index

/-- An id inside the circuit is that of its label. -/
theorem Circuit.label?_wireLabel {c : Circuit} {w : WireId} (inside : w.index < c.numWires) :
    c.wires.label? w = some (c.wireLabel w) := by
  have listed : c.wires.label? w = some c.wires.names[w.index] := List.getElem?_eq_getElem inside
  rw [wireLabel, listed, Option.getD_some]

section Invariants

open Event

variable {c : Circuit} {before : List Event} {e : Event} {ctx : TypeContext} {index : Nat}
  {s s' : MeasurementSchema}

/-- The slots hold the earliest events on the wires. -/
structure Recalls (ctx : TypeContext) (c : Circuit) (before : List Event) : Prop where
  belongs : ∀ e ∈ before, e.Belongs c
  length : ctx.slots.length = c.numWires
  slot : ∀ w : WireId, w.index < c.numWires →
    ctx.slots[w.index]? = some ((earliest? before w).map fun e => ⟨e.type, e.origin.site⟩)

/-- A new context recalls that there was no event. -/
theorem recalls_start (c : Circuit) : Recalls (.start c) c [] where
  belongs _ mem := nomatch mem
  length := List.length_replicate
  slot w inside := by
    rw [TypeContext.start, List.getElem?_replicate, if_pos inside]
    rfl

theorem Recalls.belongs_append (h : Recalls ctx c before) (belongs : e.Belongs c) :
    ∀ e' ∈ before ++ [e], e'.Belongs c := by
  rw [List.forall_mem_append, List.forall_mem_singleton]
  exact ⟨h.belongs, belongs⟩

/-- The first event on a wire fills its slot. -/
theorem Recalls.first (h : Recalls ctx c before) (belongs : e.Belongs c)
    (empty : earliest? before e.wire = none) :
    Recalls ⟨ctx.slots.set e.wire.index (some ⟨e.type, e.origin.site⟩)⟩ c (before ++ [e]) where
  belongs := h.belongs_append belongs
  length := List.length_set.trans h.length
  slot w inside := by
    rw [earliest?_append, List.getElem?_set]
    by_cases on : e.wire = w
    · subst on
      have there := (List.getElem?_eq_some_iff.1 (h.slot e.wire inside)).1
      simp [empty, there]
    · have apart : e.wire.index ≠ w.index := fun same => on (WireId.ext same)
      rw [if_neg apart, if_neg on, Option.or_none, h.slot w inside]

/-- A later event on a wire leaves its slot as it is. -/
theorem Recalls.later (h : Recalls ctx c before) (belongs : e.Belongs c) {first : Event}
    (settled : earliest? before e.wire = some first) : Recalls ctx c (before ++ [e]) where
  belongs := h.belongs_append belongs
  length := h.length
  slot w inside := by
    rw [earliest?_append, h.slot w inside]
    by_cases on : e.wire = w
    · subst on
      rw [settled, Option.some_or]
    · rw [if_neg on, Option.or_none]

/-- The schema has the earliest readouts of the measurement at an index. -/
def Collected (s : MeasurementSchema) (before : List Event) (index : Nat) : Prop :=
  ∀ w, s.get? w = earliestReadout? before index w

/-- A readout more in the schema is an event more. -/
theorem Collected.adds {m : Observable Leaf} {l : Leaf} {d : Demand} {asked : WireReadout}
    (h : Collected s before index) (readable : d.readout = some asked)
    (adds : s.Adds d.wire asked s') : Collected s' (before ++ [.leaf index m l d]) index := by
  intro w
  rw [adds.get?, earliestReadout?_append, ← h w, readout?]
  by_cases on : d.wire = w
  · subst on
    simp [readable]
  · simp [on, Ne.symm on]

/-- No event of the measurement at an index, or of one behind it, has been met. -/
def Unmeasured (before : List Event) (index : Nat) : Prop :=
  ∀ i, index ≤ i → ∀ w, earliestReadout? before i w = none

/-- A measurement without an event has collected nothing. -/
theorem Unmeasured.collected (h : Unmeasured before index) : Collected .empty before index :=
  fun w => (h index (Nat.le_refl index) w).symm

/-- The events of a measurement ask for readouts in this measurement alone. -/
theorem Unmeasured.append {m : Observable Leaf} (fresh : Unmeasured before index) :
    Unmeasured (before ++ ofMeasurement m index) (index + 1) := by
  intro i later w
  rw [earliestReadout?, List.findSome?_append, Option.or_eq_none_iff]
  refine ⟨fresh i (Nat.le_of_succ_le later) w, List.findSome?_eq_none_iff.2 fun e mem => ?_⟩
  obtain ⟨l, -, mem⟩ := List.mem_flatMap.1 mem
  obtain ⟨d, -, rfl⟩ := List.mem_map.1 mem
  exact if_neg fun on => Nat.ne_of_lt later on.1

end Invariants

namespace Typing

open Event

variable {α β : Type} {c : Circuit} {x : Typing α} {before events events' : List Event} {e : Event}
  {ctx : TypeContext} {Q : α → Prop} {R : β → Prop}

/-- The run makes some demands behind others. It fails with the fault of the earliest faulty one; if
there is none, it succeeds, and `Q` is true of its result. -/
def Follows (c : Circuit) (before : List Event) (x : Typing α) (events : List Event)
    (Q : α → Prop) : Prop :=
  ∀ ctx, Recalls ctx c before → match x.run ctx with
    | .ok a ctx' => Faultless (Faults.Behind (Fault c) before) events ∧
        Recalls ctx' c (before ++ events) ∧ Q a
    | .error err _ => FirstFault (Faults.Behind (Fault c) before) events err

/-- What gives a value at once follows no events. -/
theorem Follows.pure {a : α} (h : Q a) : Follows c before (pure a) [] Q := by
  intro ctx recalls
  refine ⟨faultless_nil, ?_, h⟩
  rwa [List.append_nil]

/-- Events are followed one part after another. -/
theorem Follows.bind {y : α → Typing β} (hx : Follows c before x events Q)
    (hy : ∀ a, Q a → Follows c (before ++ events) (y a) events' R) :
    Follows c before (x >>= y) (events ++ events') R := by
  intro ctx recalls
  have first := hx ctx recalls
  rw [EStateM.run_bind]
  cases run : x.run ctx with
  | error err ctx' =>
    rw [run] at first
    exact FirstFault.left first
  | ok a ctx' =>
    rw [run] at first
    obtain ⟨clean, recalls', good⟩ := first
    -- the events of the second run stand behind those of the first
    have second := hy a good ctx' recalls'
    rw [← Faults.behind_behind] at second
    dsimp only
    cases run' : (y a).run ctx' with
    | error err ctx'' =>
      rw [run'] at second
      exact FirstFault.right clean second
    | ok b ctx'' =>
      rw [run'] at second
      obtain ⟨clean', recalls'', good'⟩ := second
      refine ⟨faultless_append.2 ⟨clean, clean'⟩, ?_, good'⟩
      rwa [← List.append_assoc]

/-- A type is demanded of a wire that has it or has none, or that has the other type. -/
theorem require_spec (recalls : Recalls ctx c before) (belongs : e.Belongs c) :
    match (require c e.wire e.type e.origin.site).run ctx with
    | .ok _ ctx' => Typed before e ∧ Recalls ctx' c (before ++ [e])
    | .error err _ => Fault c before e err := by
  have slot := recalls.slot e.wire belongs.inside
  rw [EStateM.run, require]
  cases settled : earliest? before e.wire with
  | none =>
    rw [settled] at slot
    rw [slot]
    refine ⟨fun first found => ?_, recalls.first belongs settled⟩
    cases settled.symm.trans found
  | some first =>
    rw [settled] at slot
    rw [slot]
    dsimp only [Option.map_some]
    by_cases same : first.type = e.type
    · rw [if_pos same]
      refine ⟨fun first' found => ?_, recalls.later belongs settled⟩
      cases settled.symm.trans found
      exact same
    · rw [if_neg same, belongs.described,
        (recalls.belongs first (List.mem_of_find?_eq_some settled)).described]
      exact .aliasing (c.label?_wireLabel belongs.inside) settled
          (WireType.ne_iff_eq_opposite.1 same)

/-- A run of steps makes the demands of each, one step after another. -/
theorem Follows.forM {f : β → Typing Unit} {demands : β → List Event} {bs : List β}
    (h : ∀ b ∈ bs, ∀ before, Follows c before (f b) (demands b) fun _ => True) :
    ∀ before, Follows c before (bs.forM f) (bs.flatMap demands) fun _ => True := by
  induction bs with
  | nil => exact fun before => .pure trivial
  | cons b rest ih =>
    intro before
    have others := ih fun b' hb => h b' (List.mem_cons_of_mem b hb)
    exact (h b List.mem_cons_self before).bind fun _ _ => others _

/-- The rest of the step of an event, which leaves the context as it is. It fails with the fault of
the event, or the event is not faulty. -/
def Decides (c : Circuit) (before : List Event) (e : Event) (rest : Typing α) (Q : α → Prop) :
    Prop :=
  ∀ ctx, match rest.run ctx with
    | .ok a ctx' => ctx' = ctx ∧ (∀ err, ¬ Fault c before e err) ∧ Q a
    | .error err _ => Fault c before e err

/-- An event demands its type first. -/
theorem Follows.of_require {rest : Typing α} (belongs : e.Belongs c)
    (decides : Typed before e → Decides c before e rest Q) :
    Follows c before (require c e.wire e.type e.origin.site >>= fun _ => rest) [e] Q := by
  intro ctx recalls
  have spec := require_spec recalls belongs
  rw [EStateM.run_bind]
  cases run : (require c e.wire e.type e.origin.site).run ctx with
  | error err ctx' =>
    rw [run] at spec
    exact FirstFault.behind_singleton spec
  | ok u ctx' =>
    rw [run] at spec
    obtain ⟨typed, recalls'⟩ := spec
    have decided := decides typed ctx'
    dsimp only
    cases run' : rest.run ctx' with
    | error err ctx'' =>
      rw [run'] at decided
      exact FirstFault.behind_singleton decided
    | ok a ctx'' =>
      rw [run'] at decided
      obtain ⟨rfl, clean, good⟩ := decided
      exact ⟨faultless_behind_singleton.2 clean, recalls', good⟩

/-- A requirement follows its one event: it fails just when that is faulty. -/
theorem requirement_follows {op : Operation} {w : WireId} {t : WireType}
    (belongs : (Event.operation index op w t).Belongs c) (before : List Event) :
    Follows c before (require c w t (.operation index)) [.operation index op w t]
      fun _ => True := by
  rw [← bind_pure_unit (x := require c w t (.operation index))]
  refine Follows.of_require belongs fun typed ctx => ⟨rfl, fun err fault => ?_, trivial⟩
  cases fault with
  | aliasing named settled other => exact typed.not_other settled other

/-- An operation follows the events of its wires in order. -/
theorem operation_follows {op : Operation}
    (belongs : ∀ e ∈ ofOperation op index, e.Belongs c) (before : List Event) :
    Follows c before (operation c op index) (ofOperation op index) fun _ => True := by
  rw [ofOperation, List.map_eq_flatMap]
  refine Follows.forM (fun demand mem before => ?_) before
  exact requirement_follows (belongs _ (List.mem_map_of_mem mem)) before

/-- The operations of a circuit follow their events in order. -/
theorem operations_follows
    (belongs : ∀ entry ∈ c.operations.zipIdx, ∀ e ∈ ofOperation entry.1 entry.2, e.Belongs c) :
    Follows c [] (operations c)
      (c.operations.zipIdx.flatMap fun (op, index) => ofOperation op index) fun _ => True :=
  Follows.forM (fun entry mem => operation_follows (belongs entry mem)) []

/-- A readout that the schema accepts is the earliest of its wire or the same as that one. -/
theorem not_fault_of_accepts {m : Observable Leaf} {l : Leaf} {d : Demand} {s : MeasurementSchema}
    {asked : WireReadout} (collected : Collected s before index)
    (typed : Typed before (.leaf index m l d)) (readable : d.readout = some asked)
    (accepts : s.Accepts d.wire asked) (err : AnalysisError) :
    ¬ Fault c before (.leaf index m l d) err := by
  intro fault
  cases fault with
  | aliasing named settled other => exact typed.not_other settled other
  | unsupported named typed unreadable => cases unreadable.symm.trans readable
  | conflict named typed readable' earlier differ =>
    cases readable.symm.trans readable'
    rw [← collected] at earlier
    exact Bool.false_ne_true (differ.symm.trans (accepts _ earlier))

/-- A readout goes into the schema, or is refused with the one that the wire has. -/
theorem record_decides {m : Observable Leaf} {l : Leaf} {d : Demand} {s : MeasurementSchema}
    {asked : WireReadout} (belongs : (Event.leaf index m l d).Belongs c)
    (collected : Collected s before index) (typed : Typed before (.leaf index m l d))
    (readable : d.readout = some asked) :
    Decides c before (.leaf index m l d) (record c (.measurement index) s d.wire asked) fun s' =>
      Collected s' (before ++ [.leaf index m l d]) index := by
  intro ctx
  have spec := s.insert_spec d.wire asked
  rw [record]
  cases inserted : s.insert d.wire asked with
  | ok s' =>
    rw [inserted] at spec
    exact ⟨rfl, not_fault_of_accepts collected typed readable spec.accepts,
      collected.adds readable spec⟩
  | error refused =>
    obtain ⟨there, held, differ⟩ : ∃ there, s.get? d.wire = some there ∧
        there.numEq asked = false := by
      rw [inserted] at spec
      simpa [MeasurementSchema.Accepts] using spec
    rw [MeasurementSchema.insert_of_held held, differ] at inserted
    cases inserted
    have fault := Fault.conflict (c.label?_wireLabel belongs.inside) typed readable
      ((collected d.wire).symm.trans held) differ
    rwa [← show _ = Origin.mk _ m.name from belongs.described] at fault

/-- A demand follows its one event, and the readout is collected. -/
theorem demand_follows {m : Observable Leaf} {l : Leaf} {d : Demand} {s : MeasurementSchema}
    (belongs : (Event.leaf index m l d).Belongs c) (collected : Collected s before index) :
    Follows c before (demand c (.measurement index) l.name s d) [.leaf index m l d]
      fun s' => Collected s' (before ++ [.leaf index m l d]) index := by
  refine Follows.of_require belongs fun typed => ?_
  cases readable : d.readout with
  | none =>
    intro ctx
    have fault := Fault.unsupported (c.label?_wireLabel belongs.inside) typed readable
    rwa [← show _ = Origin.mk _ m.name from belongs.described] at fault
  | some asked => exact record_decides belongs collected typed readable

/-- The leaves of a measurement with their demands, in order. -/
def occurrences (m : Observable Leaf) : List (Leaf × Demand) :=
  m.leafList.flatMap fun l => l.demands.map (l, ·)

/-- The leaves of a measurement follow their events in order. -/
theorem occurrences_follows {m : Observable Leaf} {ds : List (Leaf × Demand)}
    {s : MeasurementSchema}
    (belongs : ∀ d ∈ ds, (Event.leaf index m d.1 d.2).Belongs c) :
    ∀ before, Collected s before index →
      Follows c before
        (ds.foldlM (fun s (l, d) => demand c (.measurement index) l.name s d) s)
        (ds.map fun (l, d) => .leaf index m l d) fun _ => True := by
  induction ds generalizing s with
  | nil => exact fun before _ => .pure trivial
  | cons d rest ih =>
    intro before collected
    rw [List.forall_mem_cons] at belongs
    rw [List.foldlM_cons]
    exact (demand_follows belongs.1 collected).bind fun s' collected' => ih belongs.2 _ collected'

/-- A measurement without an event so far follows its events. -/
theorem observable_follows {m : Observable Leaf}
    (belongs : ∀ e ∈ ofMeasurement m index, e.Belongs c) (fresh : Unmeasured before index) :
    Follows c before (observable c m index) (ofMeasurement m index) fun _ => True := by
  have named_eq : m.leafList.flatMap named = (occurrences m).map fun (l, d) => (l.name, d) := by
    simp only [occurrences, List.map_flatMap, List.map_map]
    rfl
  have events_eq : ofMeasurement m index = (occurrences m).map fun (l, d) => .leaf index m l d := by
    simp only [occurrences, List.map_flatMap, List.map_map]
    rfl
  rw [events_eq] at belongs ⊢
  rw [observable, tree_eq_foldlM, named_eq, List.foldlM_map]
  exact occurrences_follows (List.forall_mem_map.1 belongs) before fresh.collected

/-- Measurements follow their events one after another. -/
theorem measurementsFrom_follows {ts : List (Observable Leaf)}
    (belongs : ∀ entry ∈ ts.zipIdx index, ∀ e ∈ ofMeasurement entry.1 entry.2, e.Belongs c)
    (fresh : Unmeasured before index) :
    Follows c before (measurementsFrom c index ts)
      ((ts.zipIdx index).flatMap fun (m, index) => ofMeasurement m index) fun _ => True := by
  induction ts generalizing index before with
  | nil => exact .pure trivial
  | cons t rest ih =>
    rw [List.zipIdx_cons, List.forall_mem_cons] at belongs
    rw [measurementsFrom, List.zipIdx_cons, List.flatMap_cons]
    refine (observable_follows belongs.1 fresh).bind fun s _ => ?_
    rw [← List.append_nil (List.flatMap _ _)]
    exact (ih belongs.2 (Unmeasured.append fresh)).bind fun schemas _ => .pure trivial

end Typing

end Qumode
