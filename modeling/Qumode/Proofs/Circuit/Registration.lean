import Mathlib.Data.List.Forall2
import Mathlib.Data.List.Nodup
import Qumode.Circuit.Builder

/-!
# Registering the wires of a record

A computation on a table of wires adds wires at the end and does nothing else to the table, also
when it fails, and the wires that are in the table decide neither whether it fails nor with what.
`Normal.Registers` says both together with what its result is good for: the ids that a record gets
are the ids of its wires in the table after it, and in every table that grows from that one.

The fault of an observable (`Observable.fault?`) is read off the observable alone: it is the fault
of the first node that has one, depth first and left to right.
-/

namespace Qumode

namespace WireTable

variable {t u v : WireTable} {w : Wire} {id : WireId}

/-- The wires of `t` are the first wires of `u`. -/
def Within (t u : WireTable) : Prop := t.names <+: u.names

theorem Within.refl (t : WireTable) : t.Within t := List.prefix_refl _

theorem Within.trans (h : t.Within u) (h' : u.Within v) : t.Within v := List.IsPrefix.trans h h'

/-- An id keeps its wire in a larger table. -/
theorem Within.label? (h : t.Within u) (found : t.label? id = some w) : u.label? id = some w := by
  obtain ⟨added, grown⟩ := h
  have inside : id.index < t.names.length := (List.getElem?_eq_some_iff.1 found).1
  rw [WireTable.label?, ← grown, List.getElem?_append_left inside]
  exact found

theorem Within.size_le (h : t.Within u) : t.size ≤ u.size := h.length_le

/-- Forgetting the wires that were added brings the table back, in both directions. -/
theorem Within.truncate (h : t.Within u) : u.truncate t.size = t :=
  WireTable.ext (List.prefix_iff_eq_take.1 h).symm

/-- Only ids below the size of a table have a wire. -/
theorem index_lt_size_of_label? (found : t.label? id = some w) : id.index < t.size :=
  (List.getElem?_eq_some_iff.1 found).1

/-- Adding a wire leaves those in front of it as they are. -/
theorem intern_within (t : WireTable) (w : Wire) : t.Within (t.intern w).2 := by
  unfold intern
  split
  · exact .refl t
  · exact List.prefix_append _ _

/-- The id of a wire that is found or added is that of the wire. -/
theorem label?_intern (t : WireTable) (w : Wire) :
    (t.intern w).2.label? (t.intern w).1 = some w := by
  unfold intern
  split
  case h_1 id known => exact get?_eq_some_iff.1 known
  case h_2 => simp [label?, push, size]

end WireTable

namespace Normal

variable {α β : Type} {x : Normal α} {fault fault' : Option CircuitError}
  {P : α → WireTable → Prop} {Q : β → WireTable → Prop}

/-- Whatever the table is, `x` only adds wires to it. It fails with `fault`, and if there is none it
succeeds with a result that `P` relates to the table after it. -/
def Registers (x : Normal α) (fault : Option CircuitError) (P : α → WireTable → Prop) : Prop :=
  ∀ t : WireTable, match x.run t with
    | .ok a u => t.Within u ∧ fault = none ∧ P a u
    | .error e u => t.Within u ∧ fault = some e

/-- A computation that has succeeded had no fault, only added wires, and gave what it promises. -/
theorem Registers.of_ok (h : x.Registers fault P) {t u : WireTable} {a : α}
    (run : x.run t = .ok a u) : t.Within u ∧ fault = none ∧ P a u := by
  have at_t := h t
  rwa [run] at at_t

/-- A computation that has failed had the fault it failed with. -/
theorem Registers.of_error (h : x.Registers fault P) {t u : WireTable} {e : CircuitError}
    (run : x.run t = .error e u) : t.Within u ∧ fault = some e := by
  have at_t := h t
  rwa [run] at at_t

/-- A computation that succeeds has no fault. -/
theorem Registers.with_fault (h : x.Registers fault P) :
    x.Registers fault fun a t => fault = none ∧ P a t := by
  intro t
  cases run : x.run t with
  | error e u => exact h.of_error run
  | ok a u =>
    obtain ⟨within, found, good⟩ := h.of_ok run
    exact ⟨within, found, found, good⟩

/-- Refusing is having the fault. -/
theorem Registers.throw (e : CircuitError) : (throw e : Normal α).Registers (some e) P :=
  fun t => ⟨.refl t, rfl⟩

/-- A value that holds over every table is given without a fault. -/
theorem Registers.pure {a : α} (h : ∀ t, P a t) : (pure a : Normal α).Registers none P :=
  fun t => ⟨.refl t, rfl, h t⟩

/-- One computation after another. What the first result is good for must outlast the wires that the
second computation adds. -/
theorem Registers.bind {y : α → Normal β} (hx : x.Registers fault P)
    (lasts : ∀ a t u, t.Within u → P a t → P a u)
    (hy : ∀ a, (y a).Registers fault' fun b u => P a u → Q b u) :
    (x >>= y).Registers (fault.or fault') Q := by
  intro t
  rw [EStateM.run_bind]
  cases first : x.run t with
  | error e u =>
    obtain ⟨within, rfl⟩ := hx.of_error first
    exact ⟨within, rfl⟩
  | ok a u =>
    obtain ⟨within, rfl, good⟩ := hx.of_ok first
    dsimp only
    cases second : (y a).run u with
    | error e v =>
      obtain ⟨within', found⟩ := (hy a).of_error second
      exact ⟨within.trans within', found⟩
    | ok b v =>
      obtain ⟨within', found, use⟩ := (hy a).of_ok second
      exact ⟨within.trans within', found, use (lasts a u v within' good)⟩

/-- A computation whose result is only rearranged. -/
theorem Registers.map (hx : x.Registers fault P) {g : α → β} (h : ∀ a t, P a t → Q (g a) t) :
    (x >>= fun a => Pure.pure (g a)).Registers fault Q := by
  intro t
  rw [EStateM.run_bind]
  cases first : x.run t with
  | error e u => exact hx.of_error first
  | ok a u =>
    obtain ⟨within, found, good⟩ := hx.of_ok first
    exact ⟨within, found, h a u good⟩

/-- Interning a wire has no fault and gives an id of the wire. -/
theorem intern_registers (w : Wire) :
    (intern w).Registers none fun id t => t.label? id = some w :=
  fun t => ⟨t.intern_within w, rfl, t.label?_intern w⟩

/-- The ids of several wires are theirs. -/
def Labelled (wires : List Wire) (ids : List WireId) (t : WireTable) : Prop :=
  ids.map t.label? = wires.map some

theorem Labelled.cons {w : Wire} {wires : List Wire} {id : WireId} {ids : List WireId}
    {t : WireTable} (h : Labelled wires ids t) (found : t.label? id = some w) :
    Labelled (w :: wires) (id :: ids) t := by
  rw [Labelled, List.map_cons, List.map_cons, found, h]

/-- There is one id for each wire. -/
theorem Labelled.length_eq {wires : List Wire} {ids : List WireId} {t : WireTable}
    (h : Labelled wires ids t) : ids.length = wires.length := by
  simpa using congrArg List.length h

/-- Every id is that of one of the wires. -/
theorem Labelled.exists_label {wires : List Wire} {ids : List WireId} {t : WireTable}
    (h : Labelled wires ids t) {id : WireId} (mem : id ∈ ids) :
    ∃ w ∈ wires, t.label? id = some w := by
  have labelled : t.label? id ∈ wires.map some := h ▸ List.mem_map_of_mem mem
  obtain ⟨w, hw, found⟩ := List.mem_map.1 labelled
  exact ⟨w, hw, found.symm⟩

/-- Ids of wires are their ids in a larger table as well. -/
theorem Labelled.lasts {wires : List Wire} {ids : List WireId} {t u : WireTable}
    (within : t.Within u) (h : Labelled wires ids t) : Labelled wires ids u := by
  rw [Labelled, ← h]
  refine List.map_congr_left fun id mem => ?_
  obtain ⟨w, -, found⟩ := h.exists_label mem
  rw [found, within.label? found]

/-- Different wires have different ids. -/
theorem Labelled.nodup {wires : List Wire} {ids : List WireId} {t : WireTable}
    (h : Labelled wires ids t) (distinct : wires.Nodup) : ids.Nodup := by
  have images : (ids.map t.label?).Nodup := h ▸ distinct.map fun _ _ => Option.some.inj
  exact .of_map _ images

/-- Interning wires has no fault and gives one id for each of them. -/
theorem internAll_registers (wires : List Wire) :
    (internAll wires).Registers none (Labelled wires) := by
  induction wires with
  | nil => exact .pure fun _ => rfl
  | cons w rest ih =>
    exact (intern_registers w).bind (fun _ _ _ within => within.label?) fun id =>
      ih.map fun ids t labelled found => labelled.cons found

end Normal

/-- Nothing is repeated just when the wires are distinct and none was seen before. -/
theorem firstRepeated?_eq_none_iff {seen wires : List Wire} :
    firstRepeated? seen wires = none ↔ wires.Nodup ∧ ∀ w ∈ wires, w ∉ seen := by
  induction wires generalizing seen with
  | nil => simp [firstRepeated?]
  | cons w rest ih =>
    rw [firstRepeated?]
    by_cases repeated : w ∈ seen
    · simp [repeated]
    · rw [if_neg repeated, ih, List.nodup_cons, List.forall_mem_cons]
      constructor
      · rintro ⟨distinct, apart⟩
        refine ⟨⟨fun again => apart w again List.mem_cons_self, distinct⟩, repeated, ?_⟩
        exact fun v hv seenBefore => apart v hv (List.mem_cons_of_mem w seenBefore)
      · rintro ⟨⟨once, distinct⟩, -, apart⟩
        refine ⟨distinct, fun v hv => ?_⟩
        rw [List.mem_cons, not_or]
        exact ⟨fun same => once (same ▸ hv), apart v hv⟩

namespace Normal

/-- The wires of a leaf are registered up to the first that is repeated, which is the fault. -/
theorem internDistinct_registers (name : String) (seen wires : List Wire) :
    (internDistinct name seen wires).Registers
      ((firstRepeated? seen wires).map fun w => .duplicateWire w name) (Labelled wires) := by
  induction wires generalizing seen with
  | nil => exact .pure fun _ => rfl
  | cons w rest ih =>
    rw [internDistinct, firstRepeated?]
    by_cases repeated : w ∈ seen
    · simp only [repeated, ↓reduceIte, Option.map_some]
      exact .throw _
    · simp only [repeated, ↓reduceIte]
      exact (intern_registers w).bind (fun _ _ _ within => within.label?) fun id =>
        (ih (w :: seen)).map fun ids t labelled found => labelled.cons found

end Normal

/-- What is wrong with a named observable: the classification of its name is looked at first. -/
def NamedObservable.fault? (n : NamedObservable) : Option CircuitError :=
  match LeafKind.classify n.name n.wires.length n.params with
  | .error e => some e
  | .ok _ => (firstRepeated? [] n.wires).map fun w => .duplicateWire w n.name

/-- A leaf over a table stands for a named observable: it has its name, its wires, which are
distinct, and the kind that the classification gives. -/
structure Leaf.StandsFor (t : WireTable) (l : Leaf) (n : NamedObservable) : Prop where
  name : l.name = n.name
  wires : Normal.Labelled n.wires l.wires t
  distinct : n.wires.Nodup
  kind : LeafKind.classify n.name n.wires.length n.params = .ok l.kind

/-- What a leaf stands for does not change when the table grows. -/
theorem Leaf.StandsFor.lasts {t u : WireTable} (within : t.Within u) {l : Leaf}
    {n : NamedObservable} (h : l.StandsFor t n) : l.StandsFor u n :=
  { h with wires := h.wires.lasts within }

namespace Observable

mutual

/-- The fault of the first faulty node, depth first and left to right. An empty sum or product is
faulty at the node itself. -/
def fault? : RawObservable → Option CircuitError
  | .leaf n => n.fault?
  | .sum terms => if terms.isEmpty then some (.emptyComposite .sum) else faults? terms
  | .product factors => if factors.isEmpty then some (.emptyComposite .product) else faults? factors
  | .adjoint base => fault? base
  | .power base _ => fault? base

/-- The first fault of several observables. -/
def faults? : List RawObservable → Option CircuitError
  | [] => none
  | raw :: rest => (fault? raw).or (faults? rest)

end

end Observable

namespace Normal

/-- A leaf is refused with the fault of its named observable, or stands for it. -/
theorem leaf_registers (n : NamedObservable) :
    (leaf n).Registers n.fault? fun l t => l.StandsFor t n := by
  rw [leaf, NamedObservable.fault?]
  cases classified : LeafKind.classify n.name n.wires.length n.params with
  | error e => exact .throw e
  | ok kind =>
    refine (internDistinct_registers n.name [] n.wires).with_fault.map ?_
    rintro ids t ⟨faultless, labelled⟩
    have distinct := (firstRepeated?_eq_none_iff.1 (Option.map_eq_none_iff.1 faultless)).1
    exact ⟨rfl, labelled, distinct, classified⟩

mutual

/-- An observable is refused with its first fault, or its leaves stand for the named observables. -/
theorem observable_registers : (raw : RawObservable) →
    (observable raw).Registers raw.fault? fun tree t =>
      List.Forall₂ (Leaf.StandsFor t) tree.leafList raw.leafList
  | .leaf n => by
    rw [observable, Observable.fault?]
    exact (leaf_registers n).map fun l t stands => .cons stands .nil
  | .sum terms => by
    rw [observable, Observable.fault?]
    cases terms.isEmpty with
    | true => exact .throw _
    | false => exact (observables_registers terms).map fun trees t stands => stands
  | .product factors => by
    rw [observable, Observable.fault?]
    cases factors.isEmpty with
    | true => exact .throw _
    | false => exact (observables_registers factors).map fun trees t stands => stands
  | .adjoint base => by
    rw [observable, Observable.fault?]
    exact (observable_registers base).map fun tree t stands => stands
  | .power base _ => by
    rw [observable, Observable.fault?]
    exact (observable_registers base).map fun tree t stands => stands

/-- Several observables are refused with the first fault among them. -/
theorem observables_registers : (raws : List RawObservable) →
    (observables raws).Registers (Observable.faults? raws) fun trees t =>
      List.Forall₂ (Leaf.StandsFor t) (Observable.leafLists trees) (Observable.leafLists raws)
  | [] => .pure fun _ => .nil
  | raw :: rest => by
    rw [observables, Observable.faults?]
    exact (observable_registers raw).bind
      (fun _ _ _ within stands => stands.imp fun _ _ => Leaf.StandsFor.lasts within)
      fun tree => (observables_registers rest).map fun trees t stands first =>
        List.rel_append first stands

end

end Normal

end Qumode
