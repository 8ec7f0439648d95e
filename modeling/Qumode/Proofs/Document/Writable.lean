import Mathlib.Data.List.Nodup
import Mathlib.Data.Option.Basic
import Qumode.Proofs.Document.Reading

/-!
# Documents that can be written

Not every document comes from a text of JSON: bare words do not, nor numbers that are out of range.
`Document.Writable` asks for what a text can keep. `Document.nesting` counts how deep lists and
records stand inside of each other.
-/

namespace Qumode

/-- A number that a document can hold. -/
def Numeral.Plain : Numeral → Prop
  | integer value => integerRange value = true
  | real value => value.isFinite = true

namespace Document

mutual

/-- How many lists and records the innermost one is inside of, itself counted. -/
def nesting : Document → Nat
  | .null => 0
  | .bool _ => 0
  | .number _ => 0
  | .text _ => 0
  | .bare _ _ => 0
  | .list items => nestingOfItems items + 1
  | .fields entries => nestingOfEntries entries + 1
  | .tagged _ body => nesting body

def nestingOfItems : List Document → Nat
  | [] => 0
  | d :: rest => max (nesting d) (nestingOfItems rest)

def nestingOfEntries : List (Option String × Document) → Nat
  | [] => 0
  | (_, d) :: rest => max (nesting d) (nestingOfEntries rest)

end

mutual

/-- A document that a text can be written for: no bare words or tags, no text that cannot be read,
numbers that a document can hold, and no name twice in a record. -/
def Writable : Document → Prop
  | .null => True
  | .bool _ => True
  | .number numeral => numeral.Plain
  | .text content => content.isSome
  | .bare _ _ => False
  | .list items => WritableItems items
  | .fields entries => (entries.map (·.1)).Nodup ∧ WritableEntries entries
  | .tagged _ _ => False

def WritableItems : List Document → Prop
  | [] => True
  | d :: rest => Writable d ∧ WritableItems rest

def WritableEntries : List (Option String × Document) → Prop
  | [] => True
  | (name, d) :: rest => name.isSome ∧ Writable d ∧ WritableEntries rest

end

theorem writable_list {items : List Document} (writable : ∀ d ∈ items, d.Writable) :
    (Document.list items).Writable := by
  rw [Writable]
  induction items with
  | nil => trivial
  | cons d rest ih =>
    obtain ⟨first, others⟩ := List.forall_mem_cons.1 writable
    exact ⟨first, ih others⟩

/-- A record without a repeated name can be written when its fields can. -/
theorem writable_record {r : Record} (distinct : (r.map (·.1)).Nodup)
    (writable : ∀ field ∈ r, field.2.Writable) : r.toDocument.Writable := by
  have names : r.entries.map (·.1) = (r.map (·.1)).map some := by simp [Record.entries]
  refine ⟨names ▸ distinct.map (Option.some_injective String), ?_⟩
  clear names distinct
  induction r with
  | nil => trivial
  | cons field r ih =>
    obtain ⟨first, others⟩ := List.forall_mem_cons.1 writable
    exact ⟨rfl, first, ih others⟩

theorem writable_field (name : String) {d : Document} (writable : d.Writable) :
    (Document.fields [(some name, d)]).Writable :=
  ⟨List.nodup_singleton (some name), rfl, writable, trivial⟩

end Document

end Qumode
