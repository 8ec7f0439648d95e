import Qumode.Document.Numeral

/-!
# Document trees

What a circuit description, an emitter configuration or a backend profile is read from. A tree
keeps what its readers have to tell apart: integers and reals, repeated names, texts whose escapes
name no character, and bare words whose kind is left to the place where they stand.

`scalar?` settles the kind of a leaf where the place accepts several.
-/

namespace Qumode

/-- The value of a leaf. -/
inductive Scalar where
  | null
  | bool (value : Bool)
  | integer (value : Int)
  | real (value : Real64)
  | text (content : String)
  deriving DecidableEq, Repr

/-- A document. A text is `none` when one of its escapes is half of a surrogate pair: such a text
may be passed over but not read. A bare word comes with its value as a leaf, unless it has none.
A tag names the variant that stands behind it. -/
inductive Document where
  | null
  | bool (value : Bool)
  | number (numeral : Numeral)
  | text (content : Option String)
  | bare (word : String) (value : Option Scalar)
  | list (items : List Document)
  | fields (entries : List (Option String × Document))
  | tagged (tag : String) (body : Document)
  deriving Inhabited

/-- The two ways a document is written. -/
inductive Dialect where
  | json
  | yaml
  deriving DecidableEq, Repr

/-- The value of a number. One that is too large for a double has none. -/
def Scalar.ofNumeral? : Numeral → Option Scalar
  | .integer value => some (.integer value)
  | .real value => if value.isFinite then some (.real value) else none

namespace Document

/-- The value of a leaf whose place accepts several kinds. -/
def scalar? : Document → Option Scalar
  | .null => some .null
  | .bool value => some (.bool value)
  | .number numeral => Scalar.ofNumeral? numeral
  | .text (some content) => some (.text content)
  | .bare _ value => value
  | .text none | .list _ | .fields _ | .tagged _ _ => none

/-- The text of a leaf whose place accepts texts alone; a bare word is one whatever it looks
like, and a tag is passed over. -/
def text? : Document → Option String
  | .text content => content
  | .bare word _ => some word
  | .tagged _ body => body.text?
  | _ => none

def bool? (d : Document) : Option Bool :=
  match d.scalar? with
  | some (.bool value) => some value
  | _ => none

/-- A natural number below `limit`. -/
def nat? (limit : Nat) (d : Document) : Option Nat :=
  match d.scalar? with
  | some (.integer n) => if 0 ≤ n ∧ n < limit then some n.toNat else none
  | _ => none

def uint32? (d : Document) : Option UInt32 := (d.nat? UInt32.size).map UInt32.ofNat

def uint64? (d : Document) : Option UInt64 := (d.nat? UInt64.size).map UInt64.ofNat

/-- A real; integers are read as the nearest one. -/
def real? (d : Document) : Option Real64 :=
  match d.scalar? with
  | some (.integer n) => some (Real64.ofInt n)
  | some (.real x) => some x
  | _ => none

/-- The items of a list; an empty bare word stands for the empty list. -/
def items? : Document → Option (List Document)
  | .list items => some items
  | .bare "" _ => some []
  | .tagged _ body => body.items?
  | _ => none

/-- A value that may be absent. -/
def option? {α : Type} (read : Document → Option α) : Document → Option (Option α)
  | .null => some none
  | .bare _ (some .null) => some none
  | d => (read d).map some

end Document

end Qumode
