import Qumode.Positions
import Qumode.Wire.Basic

/-!
# The wires of a circuit

A table lists the wires of a circuit in order of first reference, each once; the position of a wire
is its id. A map beside the list finds the id of a wire. `intern` finds or adds a wire, `truncate`
forgets the wires added last. Looking up a name and reading a label are inverse to each other
(`get?_eq_some_iff`), and a table is known by its list (`ext`).
-/

namespace Qumode

/-- The distinct wires of a circuit, the one with id `i` at position `i`. -/
structure WireTable where
  names : List Wire
  positions : Positions Wire
  indexed : positions.Indexes names

namespace WireTable

def empty : WireTable := ⟨[], ∅, Positions.indexes_nil⟩

instance : Inhabited WireTable := ⟨empty⟩

/-- How many wires there are. -/
def size (t : WireTable) : Nat := t.names.length

def isEmpty (t : WireTable) : Bool := t.names.isEmpty

/-- The id of a wire that is in the table. -/
def get? (t : WireTable) (w : Wire) : Option WireId := t.positions[w]?.map WireId.mk

/-- The wire with a given id. -/
def label? (t : WireTable) (id : WireId) : Option Wire := t.names[id.index]?

/-- All ids, in order. -/
def ids (t : WireTable) : List WireId := (List.range t.size).map WireId.mk

@[ext]
theorem ext {s t : WireTable} (h : s.names = t.names) : s = t := by
  obtain ⟨names, positions, indexed⟩ := s
  obtain ⟨_, positions', indexed'⟩ := t
  subst h
  cases indexed.unique indexed'
  rfl

theorem distinct (t : WireTable) : t.names.Nodup := t.indexed.nodup

theorem get?_eq_none_iff {t : WireTable} {w : Wire} : t.get? w = none ↔ w ∉ t.names := by
  rw [get?, Option.map_eq_none_iff, t.indexed.getElem?_eq_none_iff]

theorem get?_eq_some_iff {t : WireTable} {w : Wire} {id : WireId} :
    t.get? w = some id ↔ t.label? id = some w := by
  obtain ⟨i⟩ := id
  rw [get?, label?, ← t.indexed w i]
  simp

/-- The table with a new wire at the end. -/
def push (t : WireTable) (w : Wire) (fresh : w ∉ t.names) : WireTable where
  names := t.names ++ [w]
  positions := t.positions.insert w t.size
  indexed := t.indexed.push fresh

/-- The id of a wire, which is added at the end unless it is in the table already. An id is the
number of the wires before it, so 32 bits hold every id of a table with at most `2 ^ 32` wires. -/
def intern (t : WireTable) (w : Wire) : WireId × WireTable :=
  match h : t.get? w with
  | some id => (id, t)
  | none => (⟨t.size⟩, t.push w (get?_eq_none_iff.1 h))

/-- The first `size` wires alone. The others are forgotten one after another. -/
def truncate (t : WireTable) (size : Nat) : WireTable where
  names := t.names.take size
  positions := Positions.eraseAll t.positions (t.names.drop size)
  indexed := t.indexed.take size

end WireTable

end Qumode
