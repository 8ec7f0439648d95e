import Mathlib.Logic.Equiv.Defs
import Mathlib.Logic.Relator
import Qumode.Proofs.Circuit.Registration
import Qumode.Proofs.Readout.Demands

/-!
# Circuits with other ids

Two tables with the same wires number them differently. A renaming (`WireTable.Renames`) carries the
ids of one to the ids of the other, and what is said over the first table to what is said over the
second: operations, leaves and readouts. A renamed leaf asks of a renamed wire what the leaf asks of
the wire (`Leaf.touches_rename`), and what stands for a record stands for it when it is renamed
(`Operation.StandsFor.rename`, `Leaf.StandsFor.rename`).
-/

namespace Qumode

namespace WireTable

variable {t u : WireTable} {f : WireId ≃ WireId} {id : WireId} {w : Wire}

/-- The renaming takes the id of every wire of the first table to its id in the second. -/
def Renames (t u : WireTable) (f : WireId ≃ WireId) : Prop := ∀ id, u.label? (f id) = t.label? id

/-- A renaming can be undone. -/
theorem Renames.symm (h : t.Renames u f) : u.Renames t f.symm := by
  intro id
  rw [← h, f.apply_symm_apply]

/-- A wire has its id in the one table under the new id in the other. -/
theorem Renames.get? (h : t.Renames u f) (w : Wire) : u.get? w = (t.get? w).map f := by
  refine Option.ext fun id => ?_
  rw [get?_eq_some_iff, Option.map_eq_some_iff]
  constructor
  · intro found
    refine ⟨f.symm id, get?_eq_some_iff.2 ?_, f.apply_symm_apply id⟩
    rw [h.symm, found]
  · rintro ⟨id, found, rfl⟩
    rw [h, get?_eq_some_iff.1 found]

/-- The id of a wire of the first table in the second. An id of no wire stands for itself. -/
def translate (t u : WireTable) (id : WireId) : WireId := ((t.label? id).bind u.get?).getD id

/-- Two tables of the same wires have as many. -/
theorem size_eq (same : ∀ w, w ∈ t.names ↔ w ∈ u.names) : t.size = u.size :=
  ((List.perm_ext_iff_of_nodup t.distinct u.distinct).2 same).length_eq

/-- The translation of an id has the wire of the id. -/
theorem translate_of_label? (same : ∀ w, w ∈ t.names ↔ w ∈ u.names)
    (found : t.label? id = some w) : u.label? (translate t u id) = some w := by
  obtain ⟨id', known⟩ : ∃ id', u.get? w = some id' := by
    rw [← Option.isSome_iff_exists, Option.isSome_iff_ne_none, ne_eq, get?_eq_none_iff, not_not]
    exact (same w).1 (List.mem_of_getElem? found)
  rw [translate, found, Option.bind_some, known, Option.getD_some, get?_eq_some_iff.1 known]

/-- Ids outside of the table are left as they are. -/
theorem translate_of_none (outside : t.label? id = none) : translate t u id = id := by
  rw [translate, outside, Option.bind_none, Option.getD_none]

/-- An id and its translation have the same wire, or both have none. -/
theorem label?_translate (same : ∀ w, w ∈ t.names ↔ w ∈ u.names) (id : WireId) :
    u.label? (translate t u id) = t.label? id := by
  cases found : t.label? id with
  | some w => exact translate_of_label? same found
  | none =>
    rw [translate_of_none found]
    have outside : t.size ≤ id.index := List.getElem?_eq_none_iff.1 found
    exact List.getElem?_eq_none (Nat.le_trans (Nat.le_of_eq (size_eq same).symm) outside)

/-- Translating there and back gives the id again. -/
theorem translate_translate (same : ∀ w, w ∈ t.names ↔ w ∈ u.names) (id : WireId) :
    translate u t (translate t u id) = id := by
  have there := label?_translate same id
  cases found : t.label? id with
  | some w =>
    rw [found] at there
    rw [translate, there, Option.bind_some, get?_eq_some_iff.2 found, Option.getD_some]
  | none =>
    rw [found] at there
    rw [translate_of_none there, translate_of_none found]

/-- Tables with the same wires are renamed to each other. -/
theorem exists_renames (same : ∀ w, w ∈ t.names ↔ w ∈ u.names) : ∃ f, t.Renames u f :=
  ⟨⟨translate t u, translate u t, translate_translate same,
    translate_translate fun w => (same w).symm⟩, label?_translate same⟩

end WireTable

/-! ## Operations -/

/-- The operation on the renamed wires. -/
def Operation.rename (f : WireId → WireId) (op : Operation) : Operation :=
  { op with wires := op.wires.map f }

/-- The readout of a renamed wire. -/
def WireReadout.rename (f : WireId → WireId) (r : WireReadout) : WireReadout :=
  ⟨r.schema, r.diagonalizing.map (Operation.rename f)⟩

/-- The leaf on the renamed wires. -/
def Leaf.rename (f : WireId → WireId) (l : Leaf) : Leaf := { l with wires := l.wires.map f }

def Demand.rename (f : WireId → WireId) (d : Demand) : Demand :=
  ⟨f d.wire, d.type, d.readout.map (WireReadout.rename f)⟩

section Rename

variable {f : WireId ≃ WireId} {w : WireId} {t : WireType}

theorem Operation.rename_symm (f : WireId ≃ WireId) (op : Operation) :
    (op.rename f).rename f.symm = op := by
  simp [rename]

theorem Leaf.rename_symm (f : WireId ≃ WireId) (l : Leaf) : (l.rename f).rename f.symm = l := by
  simp [rename]

/-- What an operation requires of a wire it requires of the wire under its new id. -/
theorem Operation.requirements_rename (f : WireId → WireId) (op : Operation) :
    (op.rename f).requirements = op.requirements.map (Prod.map f id) := by
  simp [requirements, rename, List.zipIdx_map, Function.comp_def]

/-- A renamed leaf makes the same demands on the renamed wires. -/
theorem Leaf.demands_rename (f : WireId → WireId) (l : Leaf) :
    (l.rename f).demands = l.demands.map (Demand.rename f) := by
  have qubit (gates : List String) (w : WireId) :
      Demand.qubit gates (f w) = (Demand.qubit gates w).rename f := by
    simp [Demand.qubit, Demand.rename, WireReadout.rename, Operation.rename, Operation.qubitGate]
  have qumode (basis : Option NaturalBasis) (w : WireId) :
      Demand.qumode basis (f w) = (Demand.qumode basis w).rename f := by
    cases basis with
    | none => rfl
    | some basis => cases basis <;> rfl
  rw [demands, demands, rename]
  cases l.kind with
  | identity => rfl
  | discrete gates =>
    simp only [List.map_map]
    exact List.map_congr_left fun w _ => qubit gates w
  | continuous basis =>
    simp only [List.map_map]
    exact List.map_congr_left fun w _ => qumode basis w
  | hybrid count basis =>
    simp only [List.zipIdx_map, List.map_map, List.length_map]
    refine List.map_congr_left fun entry _ => ?_
    dsimp only [Function.comp_apply, Prod.map_fst, Prod.map_snd, id_eq]
    split
    · exact qumode basis entry.1
    · exact qubit [] entry.1

/-- A renamed leaf asks of a renamed wire what the leaf asks of the wire, and of no other wire. -/
theorem Leaf.touches_rename_iff {f : WireId → WireId} {l : Leaf} {v : WireId}
    {r : Option WireReadout} :
    (l.rename f).Touches v t r ↔
      ∃ w q, l.Touches w t q ∧ f w = v ∧ q.map (WireReadout.rename f) = r := by
  rw [← mem_demands, demands_rename, List.mem_map]
  constructor
  · rintro ⟨⟨w, u, q⟩, mem, equal⟩
    obtain ⟨on, rfl, readout⟩ := Demand.mk.inj equal
    exact ⟨w, q, mem_demands.1 mem, on, readout⟩
  · rintro ⟨w, q, touches, rfl, rfl⟩
    exact ⟨⟨w, t, q⟩, mem_demands.2 touches, rfl⟩

/-- A leaf under other ids touches them as it touched the old ones. -/
theorem Leaf.Touches.rename {l : Leaf} {r : Option WireReadout} (f : WireId → WireId)
    (h : l.Touches w t r) : (l.rename f).Touches (f w) t (r.map (WireReadout.rename f)) :=
  touches_rename_iff.2 ⟨w, r, h, rfl, rfl⟩

/-- Numeric equality does not see ids, as long as they are told apart. -/
theorem Operation.numEq_rename (f : WireId ≃ WireId) (a b : Operation) :
    (a.rename f).numEq (b.rename f) = a.numEq b := by
  have wires : decide (a.wires.map f = b.wires.map f) = decide (a.wires = b.wires) :=
    decide_eq_decide.2 (List.map_injective_iff.2 f.injective).eq_iff
  rw [numEq, numEq, ← wires]
  rfl

/-- Whether readouts are the same does not depend on the numbering of wires. -/
theorem WireReadout.numEq_rename (f : WireId ≃ WireId) (a b : WireReadout) :
    (a.rename f).numEq (b.rename f) = a.numEq b := by
  have operations (as bs : List Operation) :
      (as.map (Operation.rename f)).isEqv (bs.map (Operation.rename f)) Operation.numEq =
        as.isEqv bs Operation.numEq := by
    induction as generalizing bs with
    | nil => cases bs <;> rfl
    | cons a as ih =>
      cases bs with
      | nil => rfl
      | cons b bs => simp only [List.map_cons, List.isEqv_cons_cons, Operation.numEq_rename, ih]
  rw [numEq, numEq, ← operations a.diagonalizing b.diagonalizing]
  rfl

end Rename

/-! ## What stands for a record -/

section StandsFor

open Qumode.Normal

variable {t u : WireTable} {f : WireId ≃ WireId}

/-- The ids of wires in another table are the renamed ones. -/
theorem Normal.Labelled.rename (renames : t.Renames u f) {wires : List Wire} {ids : List WireId}
    (h : Labelled wires ids t) : Labelled wires (ids.map f) u := by
  rw [Labelled, List.map_map, ← h]
  exact List.map_congr_left fun id _ => renames id

/-- The ids of wires are those that the table finds. -/
theorem Normal.Labelled.filterMap_get? {wires : List Wire} {ids : List WireId}
    (h : Labelled wires ids t) : wires.filterMap t.get? = ids := by
  have labels : (wires.map some).filterMap (·.bind t.get?) = wires.filterMap t.get? :=
    List.filterMap_map
  rw [← labels, ← h, List.filterMap_map]
  refine (List.filterMap_congr fun id mem => ?_).trans List.filterMap_some
  obtain ⟨w, -, found⟩ := h.exists_label mem
  rw [Function.comp_apply, found, Option.bind_some, WireTable.get?_eq_some_iff.2 found]

/-- Wires have one list of ids in a table. -/
theorem Normal.Labelled.unique {wires : List Wire} {ids ids' : List WireId}
    (h : Labelled wires ids t) (h' : Labelled wires ids' t) : ids = ids' :=
  h.filterMap_get?.symm.trans h'.filterMap_get?

/-- A renamed leaf stands for the same named observable. -/
theorem Leaf.StandsFor.rename (renames : t.Renames u f) {l : Leaf} {n : NamedObservable}
    (h : l.StandsFor t n) : (l.rename f).StandsFor u n :=
  ⟨h.name, h.wires.rename renames, h.distinct, h.kind⟩

/-- One leaf over a table stands for a named observable. -/
theorem Leaf.standsFor_leftUnique (t : WireTable) : Relator.LeftUnique (Leaf.StandsFor t) := by
  intro l l' n h h'
  obtain ⟨name, wires, kind⟩ := l
  obtain ⟨name', wires', kind'⟩ := l'
  cases h.name.trans h'.name.symm
  cases h.wires.unique h'.wires
  cases h.kind.symm.trans h'.kind
  rfl

end StandsFor

end Qumode
