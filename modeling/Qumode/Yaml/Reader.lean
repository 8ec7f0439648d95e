import Qumode.Yaml.Flow

/-!
# Reading YAML text

Records with one field to a line, lists with one item to a line behind a dash, and flow values,
nested by indentation and behind tags. A text that has nothing in it is an empty word.
-/

namespace Qumode.Yaml

/-- Passes over lines that hold blanks and comments alone, up to the start of a line. -/
def skipLines : Nat → List Char → List Char
  | 0, cs => cs
  | fuel + 1, cs =>
    match cs.dropWhile isBlank with
    | [] => []
    | c :: rest =>
      if isBreak c then skipLines fuel rest
      else if c = '#' then skipLines fuel ((c :: rest).dropWhile fun c => !isBreak c)
      else cs

/-- The blanks in front of a line. -/
def indentation (cs : List Char) : Nat := (cs.takeWhile (· = ' ')).length

/-- The text behind a finished line: nothing but blanks and a comment may stand on its rest. -/
def endOfLine? (cs : List Char) : Option (List Char) :=
  match cs.dropWhile isBlank with
  | [] => some []
  | c :: rest =>
    if isBreak c then some rest
    else if c = '#' then some (rest.dropWhile fun c => !isBreak c)
    else none

/-- The name of a field and what stands behind its colon. -/
def fieldName? (cs : List Char) : Option (String × List Char) := do
  let (name, rest) ← quoted? cs <|> word? false cs
  match rest.dropWhile isBlank with
  | [':'] => some (name, [])
  | ':' :: c :: rest => if isBlank c || isBreak c then some (name, c :: rest) else none
  | _ => none

/-- Whether an item of a list stands in front. -/
def isItem : List Char → Bool
  | ['-'] => true
  | '-' :: c :: _ => isBlank c || isBreak c
  | _ => false

/-- A value that stands on the rest of a line, or begins there, and the text behind its last line.
-/
def inlineValue? (cs : List Char) : Option (Document × List Char) := do
  let (d, rest) ←
    match cs with
    | '[' :: _ | '\x7b' :: _ | '"' :: _ | '\'' :: _ => flowValue (4 * cs.length + 4) cs
    | _ => (word? false cs).map fun (s, rest) => (Word.toDocument s, rest)
  some (d, ← endOfLine? rest)

mutual

/-- The value on the lines that follow, indented by at least `least`; nothing there is an empty
word. -/
def block : Nat → Nat → List Char → Option (Document × List Char)
  | 0, _, _ => none
  | fuel + 1, least, cs =>
    let cs := skipLines (cs.length + 1) cs
    let indent := indentation cs
    let line := cs.drop indent
    if line.isEmpty || indent < least then some (Word.toDocument "", cs)
    else if isItem line then items fuel indent [] cs
    else match fieldName? line with
      | some _ => fields fuel indent [] cs
      | none => lineValue fuel least line

/-- A value on the rest of a line, behind a tag if there is one. What a tag belongs to may also
stand on the lines that follow, indented by at least `least`. -/
def lineValue : Nat → Nat → List Char → Option (Document × List Char)
  | 0, _, _ => none
  | fuel + 1, least, cs =>
    match cs with
    | '!' :: rest =>
      match tag? rest with
      | none => none
      | some (tag, rest) =>
        let value := match endOfLine? rest with
          | none => if rest.head? = some '!' then none else inlineValue? rest
          | some rest => block fuel least rest
        value.map fun (d, rest) => (.tagged tag d, rest)
    | _ => inlineValue? cs

/-- The items of a list indented by `indent`, behind the reversed items `done`. What stands behind a
dash is indented as deep as it stands. -/
def items : Nat → Nat → List Document → List Char → Option (Document × List Char)
  | 0, _, _, _ => none
  | fuel + 1, indent, done, cs =>
    let cs := skipLines (cs.length + 1) cs
    let line := cs.drop indent
    if indentation cs = indent && isItem line then
      match block fuel (indent + 1) (List.replicate (indent + 1) ' ' ++ line.drop 1) with
      | some (d, rest) => items fuel indent (d :: done) rest
      | none => none
    else if !(cs.drop (indentation cs)).isEmpty && indent < indentation cs then none
    else some (.list done.reverse, cs)

/-- The fields of a record indented by `indent`, behind the reversed fields `done`. The items of a
list that is a value may stand as deep as its name. -/
def fields :
    Nat → Nat → List (Option String × Document) → List Char → Option (Document × List Char)
  | 0, _, _, _ => none
  | fuel + 1, indent, done, cs =>
    let cs := skipLines (cs.length + 1) cs
    let line := cs.drop indent
    if indentation cs = indent && !line.isEmpty && !isItem line then
      match fieldName? line with
      | none => none
      | some (name, rest) =>
        match fieldValue fuel indent rest with
        | some (d, rest) => fields fuel indent ((some name, d) :: done) rest
        | none => none
    else if !(cs.drop (indentation cs)).isEmpty && indent < indentation cs then none
    else some (.fields done.reverse, cs)

/-- The value of a field whose name is indented by `indent`, behind its colon. -/
def fieldValue : Nat → Nat → List Char → Option (Document × List Char)
  | 0, _, _ => none
  | fuel + 1, indent, rest =>
    match endOfLine? rest with
    | none => lineValue fuel (indent + 1) (rest.dropWhile isBlank)
    | some rest =>
      let below := skipLines (rest.length + 1) rest
      if indentation below = indent && isItem (below.drop indent) then items fuel indent [] below
      else block fuel (indent + 1) rest

end

/-- The text behind the mark that may open a document. -/
def afterOpening : List Char → List Char
  | '-' :: '-' :: '-' :: rest =>
    match endOfLine? rest with
    | some rest => rest
    | none => rest
  | cs => cs

/-- The document that a YAML text stands for. -/
def parse? (source : String) : Option Document :=
  let cs := source.toList
  let cs := afterOpening (skipLines (cs.length + 1) cs)
  match block (4 * cs.length + 4) 0 cs with
  | some (d, rest) => if (skip false rest).isEmpty then some d else none
  | none => none

end Qumode.Yaml
