import Mathlib.Data.List.Basic
import Qumode.Circuit.Builder
import Qumode.Proofs.Lockstep
import Qumode.Proofs.Observable.Nodes

/-!
# Circuits with other names for their wires

A description whose wires are named otherwise stands for the same circuit with other names in its
table. The names may be exchanged for any others that are as distinct, integers for labels and
labels for integers: a name is only ever compared with other names. So the two runs that build the
circuits go in lockstep. The table of the second has the new names of the wires in that of the first
(`WireTable.Relabelled`), which gives a wire the same id, and what is wrong with a record is wrong
with the relabelled one.
-/

namespace Qumode

variable {f : Wire → Wire}

/-- The error about the relabelled record. -/
def CircuitError.relabel (f : Wire → Wire) : CircuitError → CircuitError
  | duplicateWire w name => .duplicateWire (f w) name
  | e => e

def OperationRecord.relabel (f : Wire → Wire) (r : OperationRecord) : OperationRecord :=
  { r with wires := r.wires.map f }

def NamedObservable.relabel (f : Wire → Wire) (n : NamedObservable) : NamedObservable :=
  { n with wires := n.wires.map f }

/-- The description with other names for its wires, and with any name for itself. -/
def Description.relabel (f : Wire → Wire) (name : String) (d : Description) : Description :=
  ⟨name, d.operations.map (OperationRecord.relabel f),
    d.measurements.map (Observable.map (NamedObservable.relabel f))⟩

/-! ## Tables -/

namespace WireTable

variable {t u : WireTable}

/-- The second table has the new names of the wires of the first, in the same order. -/
def Relabelled (f : Wire → Wire) (t u : WireTable) : Prop := u.names = t.names.map f

theorem Relabelled.size (h : t.Relabelled f u) : u.size = t.size := by
  rw [WireTable.size, show u.names = t.names.map f from h, List.length_map]
  rfl

/-- An id has the label under its new name. -/
theorem Relabelled.label? (h : t.Relabelled f u) (id : WireId) :
    u.label? id = (t.label? id).map f := by
  rw [WireTable.label?, show u.names = t.names.map f from h, List.getElem?_map]
  rfl

/-- A wire has its id under either name. -/
theorem Relabelled.get? (injective : f.Injective) (h : t.Relabelled f u) (w : Wire) :
    u.get? (f w) = t.get? w := by
  refine Option.ext fun id => ?_
  rw [get?_eq_some_iff, get?_eq_some_iff, h.label?, Option.map_eq_some_iff]
  constructor
  · rintro ⟨v, found, same⟩
    rw [found, injective same]
  · intro found
    exact ⟨w, found, rfl⟩

/-- A wire under its new name gets the id it has under the old one. -/
theorem Relabelled.intern (injective : f.Injective) (h : t.Relabelled f u) (w : Wire) :
    (u.intern (f w)).1 = (t.intern w).1 ∧ (t.intern w).2.Relabelled f (u.intern (f w)).2 := by
  have same := h.get? injective w
  unfold WireTable.intern
  split
  case h_1 id known =>
    rw [same] at known
    split
    case h_1 id' known' =>
      cases known.symm.trans known'
      exact ⟨rfl, h⟩
    case h_2 unknown => cases known.symm.trans unknown
  case h_2 unknown =>
    rw [same] at unknown
    split
    case h_1 id known => cases known.symm.trans unknown
    case h_2 =>
      refine ⟨congrArg WireId.mk h.size, ?_⟩
      rw [Relabelled, push, push, List.map_append, ← show u.names = t.names.map f from h]
      rfl

/-- Forgetting the last wires forgets the same wires. -/
theorem Relabelled.truncate (h : t.Relabelled f u) (size : Nat) :
    (t.truncate size).Relabelled f (u.truncate size) := by
  rw [Relabelled, WireTable.truncate, WireTable.truncate, List.map_take,
    ← show u.names = t.names.map f from h]

end WireTable

/-! ## Registering the wires of a record -/

namespace Normal

variable {α : Type} {wires seen : List Wire}

/-- The runs go in lockstep on tables of which the second is the relabelled first. -/
abbrev Relabels (f : Wire → Wire) (x y : Normal α) : Prop :=
  Steps.Lockstep (WireTable.Relabelled f) (CircuitError.relabel f) x y

theorem intern_relabels (injective : f.Injective) (w : Wire) :
    Relabels f (intern w) (intern (f w)) := by
  intro t u related
  obtain ⟨same, related'⟩ := related.intern injective w
  have first : (intern w).run t = .ok (t.intern w).1 (t.intern w).2 := rfl
  have second : (intern (f w)).run u = .ok (u.intern (f w)).1 (u.intern (f w)).2 := rfl
  rw [first, second, same]
  exact .ok related'

/-- Interning wires does the same under new names. -/
theorem internAll_relabels (injective : f.Injective) (wires : List Wire) :
    Relabels f (internAll wires) (internAll (wires.map f)) := by
  induction wires with
  | nil => exact .pure []
  | cons w rest ih => exact (intern_relabels injective w).bind fun _ => ih.map

/-- Interning distinct wires repeats the same wire, under its new name, or none. -/
theorem internDistinct_relabels (injective : f.Injective) (name : String) (seen wires : List Wire) :
    Relabels f (internDistinct name seen wires)
      (internDistinct name (seen.map f) (wires.map f)) := by
  induction wires generalizing seen with
  | nil => exact .pure []
  | cons w rest ih =>
    have seen_iff : f w ∈ seen.map f ↔ w ∈ seen := List.mem_map_of_injective injective
    rw [List.map_cons, internDistinct, internDistinct]
    by_cases repeated : w ∈ seen
    · rw [if_pos repeated, if_pos (seen_iff.2 repeated)]
      exact .throw (CircuitError.duplicateWire w name)
    · rw [if_neg repeated, if_neg (mt seen_iff.1 repeated)]
      exact (intern_relabels injective w).bind fun _ => (ih (w :: seen)).map

/-- What is wrong with a name is wrong under any names of the wires. -/
theorem relabel_of_classify {name : String} {numWires : Nat} {params : List Real64}
    {e : CircuitError} (failed : LeafKind.classify name numWires params = .error e) :
    e.relabel f = e := by
  unfold LeafKind.classify LeafKind.ofName? LeafKind.ofName?.hybrid at failed
  split at failed
  · cases failed
    rfl
  · split at failed
    all_goals first
      | (cases failed; done)
      | (cases failed; rfl)
      | (split at failed <;> cases failed; rfl)

/-- A named observable under new names is the same leaf, or has the fault under new names. -/
theorem leaf_relabels (injective : f.Injective) (n : NamedObservable) :
    Relabels f (leaf n) (leaf (n.relabel f)) := by
  unfold leaf
  dsimp only [NamedObservable.relabel]
  rw [List.length_map]
  cases classified : LeafKind.classify n.name n.wires.length n.params with
  | error e =>
    have same : e.relabel f = e := relabel_of_classify classified
    have fails : Relabels f (throw e : Normal Leaf) (throw (e.relabel f)) := .throw e
    rwa [same] at fails
  | ok kind => exact (internDistinct_relabels injective n.name [] n.wires).map

mutual

/-- An observable under new names is the same tree, or has the fault under new names. -/
theorem observable_relabels (injective : f.Injective) : (raw : RawObservable) →
    Relabels f (observable raw) (observable (raw.map (NamedObservable.relabel f)))
  | .leaf n => by
    rw [Observable.map, observable, observable]
    exact (leaf_relabels injective n).map
  | .sum terms => by
    rw [Observable.map, observable, observable, Observable.mapAll_eq_map, List.isEmpty_map,
      ← Observable.mapAll_eq_map]
    split
    · exact .throw (CircuitError.emptyComposite .sum)
    · exact (observables_relabels injective terms).map
  | .product factors => by
    rw [Observable.map, observable, observable, Observable.mapAll_eq_map, List.isEmpty_map,
      ← Observable.mapAll_eq_map]
    split
    · exact .throw (CircuitError.emptyComposite .product)
    · exact (observables_relabels injective factors).map
  | .adjoint base => by
    rw [Observable.map, observable, observable]
    exact (observable_relabels injective base).map
  | .power base exponent => by
    rw [Observable.map, observable, observable]
    exact (observable_relabels injective base).map

/-- So are several observables. -/
theorem observables_relabels (injective : f.Injective) : (raws : List RawObservable) →
    Relabels f (observables raws)
      (observables (Observable.mapAll (NamedObservable.relabel f) raws))
  | [] => .pure []
  | raw :: rest => by
    rw [Observable.mapAll, observables, observables]
    refine (observable_relabels injective raw).bind fun _ => ?_
    exact (observables_relabels injective rest).map

end

end Normal

/-! ## Building a circuit -/

/-- New names that tell wires apart repeat where the old ones do. -/
theorem firstRepeated?_relabel (injective : f.Injective) (seen wires : List Wire) :
    firstRepeated? (seen.map f) (wires.map f) = (firstRepeated? seen wires).map f := by
  induction wires generalizing seen with
  | nil => rfl
  | cons w rest ih =>
    have seen_iff : f w ∈ seen.map f ↔ w ∈ seen := List.mem_map_of_injective injective
    rw [List.map_cons, firstRepeated?, firstRepeated?]
    by_cases repeated : w ∈ seen
    · rw [if_pos repeated, if_pos (seen_iff.2 repeated)]
      rfl
    · rw [if_neg repeated, if_neg (mt seen_iff.1 repeated)]
      exact ih (w :: seen)

/-- A record under new names passes its check when it does under the old ones. -/
theorem OperationRecord.check_relabel (injective : f.Injective) (r : OperationRecord)
    (index : Nat) :
    (r.relabel f).check index = (r.check index).mapError (CircuitError.relabel f) := by
  have capability : (r.relabel f).capability? = r.capability? := by
    simp only [capability?, relabel, List.length_map]
  have first : firstRepeated? [] (r.relabel f).wires = (firstRepeated? [] r.wires).map f :=
    firstRepeated?_relabel injective [] r.wires
  rw [check, check, capability, first]
  cases r.capability? with
  | error fault => rfl
  | ok capability =>
    cases firstRepeated? [] r.wires with
    | none => rfl
    | some w => rfl

namespace Circuit

variable {c c' : Circuit}

/-- The second circuit is the first with other names for its wires, and maybe for itself. -/
structure Relabelled (f : Wire → Wire) (c c' : Circuit) : Prop where
  wires : c.wires.Relabelled f c'.wires
  operations : c'.operations = c.operations
  measurements : c'.measurements = c.measurements

theorem Relabelled.numWires (h : c.Relabelled f c') : c'.numWires = c.numWires := h.wires.size

/-- The runs go in lockstep on circuits of which the second is the relabelled first. -/
abbrev Relabels (f : Wire → Wire) (x y : Builder Unit) : Prop :=
  Steps.Lockstep (Circuit.Relabelled f) (CircuitError.relabel f) x y

/-- Adding an operation under new names adds the same operation. -/
theorem pushRecord_relabels (injective : f.Injective) (r : OperationRecord) :
    Relabels f (pushRecord r) (pushRecord (r.relabel f)) := by
  intro c c' related
  rw [EStateM.run, EStateM.run, pushRecord, pushRecord, r.check_relabel injective,
    related.operations]
  cases r.check c.operations.length with
  | error e => exact .error related
  | ok capability =>
    have outcomes := Normal.internAll_relabels injective r.wires related.wires
    have wires : (r.relabel f).wires = r.wires.map f := rfl
    dsimp only [Except.mapError]
    rw [wires]
    generalize (Normal.internAll r.wires).run c.wires = outcome,
      (Normal.internAll (r.wires.map f)).run c'.wires = outcome' at outcomes
    cases outcomes with
    | error _ => exact .error related
    | ok registered => exact .ok ⟨registered, rfl, related.measurements⟩

/-- Adding a measurement under new names adds the same measurement. -/
theorem measure_relabels (injective : f.Injective) (raw : RawObservable) :
    Relabels f (measure raw) (measure (raw.map (NamedObservable.relabel f))) := by
  intro c c' related
  have outcomes := Normal.observable_relabels injective raw related.wires
  rw [EStateM.run, EStateM.run, measure, measure, related.wires.size]
  generalize (Normal.observable raw).run c.wires = outcome,
    (Normal.observable (raw.map (NamedObservable.relabel f))).run c'.wires = outcome' at outcomes
  cases outcomes with
  | error registered =>
    exact .error ⟨registered.truncate c.wires.size, related.operations, related.measurements⟩
  | ok registered =>
    rw [related.measurements]
    exact .ok ⟨registered, related.operations, rfl⟩

/-- A description under new names adds the same operations and measurements. -/
theorem pushDescription_relabels (injective : f.Injective) (d : Description) (name : String) :
    Relabels f (pushDescription d) (pushDescription (d.relabel f name)) := by
  have operations : Relabels f (d.operations.forM pushRecord)
      ((d.operations.map (OperationRecord.relabel f)).forM pushRecord) :=
    .forM fun r _ => pushRecord_relabels injective r
  exact operations.bind fun _ => .forM fun raw _ => measure_relabels injective raw

/-- A description stands for the relabelled circuit under other names of the wires, or is wrong in
the same way. -/
theorem ofDescription_relabel (injective : f.Injective) (d : Description) (name : String) :
    (∀ c, ofDescription d = .ok c →
      ∃ c', ofDescription (d.relabel f name) = .ok c' ∧ c.Relabelled f c') ∧
    ∀ e, ofDescription d = .error e → ofDescription (d.relabel f name) = .error (e.relabel f) := by
  have start : (empty d.name).Relabelled f (empty name) := ⟨rfl, rfl, rfl⟩
  have outcomes := pushDescription_relabels injective d name start
  have same_name : (d.relabel f name).name = name := rfl
  rw [ofDescription, ofDescription, same_name]
  generalize (pushDescription d).run (empty d.name) = outcome,
    (pushDescription (d.relabel f name)).run (empty name) = outcome' at outcomes
  cases outcomes with
  | error related => exact ⟨nofun, fun e failed => by cases failed; rfl⟩
  | ok related => exact ⟨fun c built => ⟨_, rfl, by cases built; exact related⟩, nofun⟩

end Circuit

end Qumode
