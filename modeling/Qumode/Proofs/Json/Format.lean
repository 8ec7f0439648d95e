import Qumode.Proofs.Json.Documents

/-!
# What JSON text keeps

A format is a way to write documents as text and to read them. Its laws are about one value at a
time: nothing, truth values, integers, finite reals and texts are read back as they were written,
and so are lists and records whose parts are (`Format.Lawful`). So a document that can be written is
kept as a whole, if it does not nest deeper than the format reads (`Format.Lawful.keeps`).

`format` is a format with these laws (`format_lawful`).
-/

namespace Qumode.Json

open Document

/-- How documents are written as text and read, down to a depth of lists and records. -/
structure Format where
  write : Document → String
  read? : String → Option Document
  depthLimit : Nat

namespace Format

variable (format : Format)

/-- A document is read back from the text that is written for it. -/
def Keeps (d : Document) : Prop := format.read? (format.write d) = some d

/-- Values are kept by kind: integers and reals are told apart, a printed real is read back exactly,
and a list or record within the depth that is read is kept if its parts are. -/
structure Lawful : Prop where
  null : format.Keeps .null
  bool (value : Bool) : format.Keeps (.bool value)
  integer (value : Int) : Numeral.integerRange value = true →
    format.Keeps (.number (.integer value))
  real (value : Real64) : value.isFinite = true → format.Keeps (.number (.real value))
  text (content : String) : format.Keeps (.text (some content))
  list (items : List Document) : (Document.list items).Writable →
    (Document.list items).nesting ≤ format.depthLimit →
    (∀ d ∈ items, format.Keeps d) → format.Keeps (.list items)
  fields (entries : List (Option String × Document)) : (Document.fields entries).Writable →
    (Document.fields entries).nesting ≤ format.depthLimit →
    (∀ entry ∈ entries, format.Keeps entry.2) → format.Keeps (.fields entries)

namespace Lawful

variable {format : Format}

mutual

/-- A document that can be written and does not nest too deep is read back. -/
theorem keeps (lawful : format.Lawful) : (d : Document) → d.Writable →
    d.nesting ≤ format.depthLimit → format.Keeps d
  | .null, _, _ => lawful.null
  | .bool value, _, _ => lawful.bool value
  | .number (.integer value), writable, _ => lawful.integer value writable
  | .number (.real value), writable, _ => lawful.real value writable
  | .text (some content), _, _ => lawful.text content
  | .text none, writable, _ => absurd writable Bool.false_ne_true
  | .bare _ _, writable, _ | .tagged _ _, writable, _ => writable.elim
  | .list items, writable, nests =>
    lawful.list items writable nests (keepsItems lawful items writable (Nat.le_of_succ_le nests))
  | .fields entries, writable, nests =>
    lawful.fields entries writable nests
      (keepsEntries lawful entries writable.2 (Nat.le_of_succ_le nests))

theorem keepsItems (lawful : format.Lawful) : (items : List Document) → WritableItems items →
    nestingOfItems items ≤ format.depthLimit → ∀ d ∈ items, format.Keeps d
  | [], _, _ => List.forall_mem_nil _
  | d :: rest, writable, nests =>
    List.forall_mem_cons.2
      ⟨keeps lawful d writable.1 (le_of_max_le_left nests),
        keepsItems lawful rest writable.2 (le_of_max_le_right nests)⟩

theorem keepsEntries (lawful : format.Lawful) : (entries : List (Option String × Document)) →
    WritableEntries entries → nestingOfEntries entries ≤ format.depthLimit →
    ∀ entry ∈ entries, format.Keeps entry.2
  | [], _, _ => List.forall_mem_nil _
  | (_, d) :: rest, writable, nests =>
    List.forall_mem_cons.2
      ⟨keeps lawful d writable.2.1 (le_of_max_le_left nests),
        keepsEntries lawful rest writable.2.2 (le_of_max_le_right nests)⟩

end

end Lawful

end Format

/-- Documents on one line; a real is printed with the fewest digits that are read back. -/
def format : Format := ⟨compact, parse?, 127⟩

theorem format_keeps (d : Document) (writable : d.Writable) : format.Keeps d :=
  parse?_compact writable

/-- The bundled format keeps what can be written, so it has the laws. -/
theorem format_lawful : format.Lawful where
  null := format_keeps .null trivial
  bool value := format_keeps (.bool value) trivial
  integer value range := format_keeps (.number (.integer value)) range
  real value finite := format_keeps (.number (.real value)) finite
  text content := format_keeps (.text (some content)) rfl
  list items writable _ _ := format_keeps (.list items) writable
  fields entries writable _ _ := format_keeps (.fields entries) writable

end Qumode.Json
