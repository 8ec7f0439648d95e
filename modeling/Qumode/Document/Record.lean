import Qumode.Document.Tree

/-!
# Records and variants in documents

A record is written with its fields by name, in any order, or as a list of them in order of
declaration. Fields by other names are passed over; a field may not stand twice; of a list only
the last fields can be missing.

A variant is written as its name alone, or with what belongs to it: in JSON as a record whose only
field bears the name, and in YAML behind a tag.
-/

namespace Qumode

/-- The fields that are present, by name. -/
abbrev Record := List (String × Document)

namespace Document

/-- The one field with a given name, if there is any. -/
def field? (entries : List (Option String × Document)) (name : String) :
    Option (Option (String × Document)) :=
  match entries.filter fun entry => entry.1 = some name with
  | [] => some none
  | [entry] => some (some (name, entry.2))
  | _ => none

/-- The record with fields of the given names, in order of declaration. -/
def record? (names : List String) : Document → Option Record
  | .fields entries =>
    if entries.any (·.1.isNone) then none
    else (names.mapM (field? entries)).map fun found => found.filterMap id
  | .list items => if items.length ≤ names.length then some (names.zip items) else none
  | .bare "" _ => some []
  | .tagged _ body => body.record? names
  | _ => none

/-- A variant: its name, and what belongs to it. -/
def variant? (dialect : Dialect) : Document → Option (String × Option Document)
  | .text (some name) => some (name, none)
  | .bare name _ => some (name, none)
  | .fields [(some name, body)] =>
    match dialect with
    | .json => some (name, some body)
    | .yaml => none
  | .tagged name body =>
    match dialect with
    | .json => none
    | .yaml => some (name, some body)
  | _ => none

/-- The name of a variant that nothing belongs to. -/
def unitVariant? (dialect : Dialect) (d : Document) : Option String :=
  match d.variant? dialect with
  | some (name, none) | some (name, some .null) | some (name, some (.bare _ (some .null))) =>
    some name
  | _ => none

/-- A list, each item read alike. -/
def list? {α : Type} (read : Document → Option α) (d : Document) : Option (List α) := do
  (← d.items?).mapM read

end Document

namespace Record

variable {α : Type}

/-- A field that must be there. -/
def required (r : Record) (name : String) (read : Document → Option α) : Option α := do
  read (← r.lookup name)

/-- A field that may be missing. -/
def withDefault (r : Record) (name : String) (fallback : α) (read : Document → Option α) :
    Option α :=
  match r.lookup name with
  | none => some fallback
  | some d => read d

end Record

end Qumode
