import Qumode.Operation
import Qumode.Positions

/-!
# Readouts

A wire is read out in one of three ways: by counting (the computational basis of a qubit, the photon
number of a qumode), by homodyne detection of a quadrature, or by heterodyne detection of both. A
`WireReadout` adds the operations that turn the eigenbasis of an observable into the one that is
read.

A `MeasurementSchema` lists the readouts that one measurement needs, one for each wire it touches,
in order of first touch, and keeps the position of every wire for look-up. Two readouts are the same
when `WireReadout.numEq` says so, with angles compared as numbers.
-/

namespace Qumode

inductive BasisSchema where
  | discrete
  | position
  | coherent
  deriving DecidableEq, Repr, Inhabited

/-- The kind of value that a readout gives. -/
inductive ValueKind where
  | integer
  | real
  | complex
  deriving DecidableEq, Repr

namespace BasisSchema

def valueKind : BasisSchema → ValueKind
  | discrete => .integer
  | position => .real
  | coherent => .complex

def text : BasisSchema → String
  | discrete => "Discrete"
  | position => "Position"
  | coherent => "Coherent"

instance : ToString BasisSchema := ⟨text⟩

end BasisSchema

/-- How one wire is read out: the operations to apply, in order, and the readout after them. -/
structure WireReadout where
  schema : BasisSchema
  diagonalizing : List Operation
  deriving DecidableEq, Repr

namespace WireReadout

/-- A readout with nothing to apply before it. -/
def plain (schema : BasisSchema) : WireReadout := ⟨schema, []⟩

/-- A readout after a rotation by an angle. -/
def rotated (schema : BasisSchema) (angle : Real64) (wire : WireId) : WireReadout :=
  ⟨schema, [.rotation angle wire]⟩

/-- Sameness of readouts: the same schema after the same operations. -/
def numEq (a b : WireReadout) : Bool :=
  decide (a.schema = b.schema) && a.diagonalizing.isEqv b.diagonalizing Operation.numEq

end WireReadout

/-- The readouts that one measurement needs, in order of first touch, with the position of every
wire it touches. -/
structure MeasurementSchema where
  entries : List (WireId × WireReadout)
  positions : Positions WireId
  indexed : positions.Indexes (entries.map (·.1))

namespace MeasurementSchema

def empty : MeasurementSchema := ⟨[], ∅, Positions.indexes_nil⟩

instance : Inhabited MeasurementSchema := ⟨empty⟩

@[ext]
theorem ext {s t : MeasurementSchema} (h : s.entries = t.entries) : s = t := by
  obtain ⟨entries, positions, indexed⟩ := s
  obtain ⟨_, positions', indexed'⟩ := t
  subst h
  cases indexed.unique indexed'
  rfl

instance : DecidableEq MeasurementSchema := fun s t =>
  decidable_of_iff (s.entries = t.entries) MeasurementSchema.ext_iff.symm

instance : Repr MeasurementSchema := ⟨fun s => reprPrec s.entries⟩

/-- The readout of a wire that the measurement touches. -/
def get? (s : MeasurementSchema) (w : WireId) : Option WireReadout :=
  s.positions[w]?.bind fun i => s.entries[i]?.map (·.2)

/-- How a wire that the measurement touches is read out. -/
def basis? (s : MeasurementSchema) (w : WireId) : Option BasisSchema := (s.get? w).map (·.schema)

/-- How many wires the measurement touches. -/
def size (s : MeasurementSchema) : Nat := s.entries.length

def isEmpty (s : MeasurementSchema) : Bool := s.entries.isEmpty

/-- A measurement touches no wire twice. -/
theorem distinct (s : MeasurementSchema) : (s.entries.map (·.1)).Nodup := s.indexed.nodup

theorem get?_eq_some_iff {s : MeasurementSchema} {w : WireId} {r : WireReadout} :
    s.get? w = some r ↔ (w, r) ∈ s.entries := by
  rw [get?, Option.bind_eq_some_iff, List.mem_iff_getElem?]
  refine exists_congr fun i => ?_
  rw [s.indexed w i, List.getElem?_map]
  cases s.entries[i]? with
  | none => simp
  | some e => simp [Prod.ext_iff]

theorem get?_eq_none_iff {s : MeasurementSchema} {w : WireId} :
    s.get? w = none ↔ w ∉ s.entries.map (·.1) := by
  rw [Option.eq_none_iff_forall_ne_some]
  simp only [ne_eq, get?_eq_some_iff, List.mem_map, Prod.exists, exists_and_right, exists_eq_right,
    not_exists]

/-- The schema with a readout for one more wire. -/
def push (s : MeasurementSchema) (w : WireId) (r : WireReadout)
    (fresh : w ∉ s.entries.map (·.1)) : MeasurementSchema where
  entries := s.entries ++ [(w, r)]
  positions := s.positions.insert w s.entries.length
  indexed := by
    simpa only [List.length_map, List.map_append, List.map_cons, List.map_nil] using
      s.indexed.push fresh

/-- The schema with a readout for a wire. The same readout twice is no change; a different one is
refused with what is there and what is new. -/
def insert (s : MeasurementSchema) (w : WireId) (r : WireReadout) :
    Except (BasisSchema × BasisSchema) MeasurementSchema :=
  match h : s.get? w with
  | none => .ok (s.push w r (get?_eq_none_iff.1 h))
  | some there => if there.numEq r then .ok s else .error (there.schema, r.schema)

/-- Equality with angles compared as numbers. -/
def numEq (a b : MeasurementSchema) : Bool :=
  a.entries.isEqv b.entries fun (v, r) (w, s) => decide (v = w) && r.numEq s

end MeasurementSchema

end Qumode
