import Qumode.Yaml.Word

/-!
# Flow values of YAML

Lists in brackets, records in braces, quoted texts and bare words: the part of YAML that does not
depend on indentation, and that JSON text is written in. A value may run over several lines, and a
tag may stand in front of it. Anchors and texts folded over lines are not read.
-/

namespace Qumode.Yaml

/-- The blanks inside one line. -/
def isBlank (c : Char) : Bool := c = ' ' || c = '\t'

def isBreak (c : Char) : Bool := c = '\n' || c = '\r'

/-- The characters that end a bare word inside brackets and braces. -/
def isFlowMark (c : Char) : Bool := c ∈ [',', '[', ']', '\x7b', '\x7d']

/-- Characters that no bare word begins with. -/
def isIndicator (c : Char) : Bool :=
  isFlowMark c || c ∈ ['#', '&', '*', '!', '|', '>', '\'', '"', '%', '@', '\x60']

/-- Passes over blanks, line breaks and comments. -/
def skip (inComment : Bool) : List Char → List Char
  | [] => []
  | c :: rest =>
    if isBreak c then skip false rest
    else if inComment || isBlank c then skip inComment rest
    else if c = '#' then skip true rest
    else c :: rest

/-- A text in single quotes whose opening quote is already read; a quote inside is doubled. -/
def singleQuoted (done : List Char) : List Char → Option (String × List Char)
  | '\'' :: '\'' :: rest => singleQuoted ('\'' :: done) rest
  | '\'' :: rest => some (String.ofList done.reverse, rest)
  | c :: rest => if isBreak c then none else singleQuoted (c :: done) rest
  | [] => none

/-- The character with a code of `count` hexadecimal digits; surrogates are no characters. -/
def codeEscape? (count : Nat) (cs : List Char) : Option (Char × List Char) := do
  if (cs.take count).length < count then none
  let n ← Digit.number? 16 (cs.take count)
  if n.isValidChar then some (Char.ofNat n, cs.drop count) else none

/-- The character of an escape in double quotes whose backslash is already read. -/
def escape? : List Char → Option (Char × List Char)
  | 'x' :: rest => codeEscape? 2 rest
  | 'u' :: rest => codeEscape? 4 rest
  | 'U' :: rest => codeEscape? 8 rest
  | c :: rest =>
    ([('0', '\x00'), ('a', '\x07'), ('b', '\x08'), ('t', '\t'), ('\t', '\t'), ('n', '\n'),
      ('v', '\x0b'), ('f', '\x0c'), ('r', '\r'), ('e', '\x1b'), (' ', ' '), ('"', '"'),
      ('/', '/'), ('\\', '\\'), ('N', '\u0085'), ('_', '\u00a0'), ('L', '\u2028'),
      ('P', '\u2029')].lookup c).map fun e => (e, rest)
  | [] => none

/-- A text in double quotes whose opening quote is already read. The fuel bounds the number of
characters. -/
def doubleQuoted : Nat → List Char → List Char → Option (String × List Char)
  | _ + 1, done, '"' :: rest => some (String.ofList done.reverse, rest)
  | fuel + 1, done, '\\' :: rest =>
    match escape? rest with
    | some (c, rest) => doubleQuoted fuel (c :: done) rest
    | none => none
  | fuel + 1, done, c :: rest => if isBreak c then none else doubleQuoted fuel (c :: done) rest
  | _, _, _ => none

/-- A quoted text, if one stands in front. -/
def quoted? : List Char → Option (String × List Char)
  | '\'' :: rest => singleQuoted [] rest
  | '"' :: rest => doubleQuoted (rest.length + 1) [] rest
  | _ => none

/-- Whether a bare word ends before a character: at a line break, at a colon that ends a name, at a
comment, and inside brackets or braces at their marks. -/
def endsWord (inFlow : Bool) (before : Char) : List Char → Bool
  | [] => true
  | ':' :: rest =>
    match rest with
    | [] => true
    | c :: _ => isBlank c || isBreak c || (inFlow && isFlowMark c)
  | c :: _ => isBreak c || (c = '#' && isBlank before) || (inFlow && isFlowMark c)

/-- The rest of a bare word behind its reversed characters `done`. -/
def wordRest (inFlow : Bool) (done : List Char) : List Char → List Char × List Char
  | [] => (done, [])
  | c :: rest =>
    if endsWord inFlow (done.headD ' ') (c :: rest) then (done, c :: rest)
    else wordRest inFlow (c :: done) rest

/-- Whether a bare word begins with these characters. A dash, a question mark or a colon begins one
only when something stands directly behind it. -/
def beginsWord (inFlow : Bool) : List Char → Bool
  | [] => false
  | c :: rest =>
    if c = '-' || c = '?' || c = ':' then
      match rest with
      | [] => false
      | d :: _ => !(isBlank d || isBreak d || (inFlow && isFlowMark d))
    else !(isIndicator c || isBlank c || isBreak c)

/-- A bare word, and what stands behind it from the blanks on. -/
def word? (inFlow : Bool) (cs : List Char) : Option (String × List Char) :=
  if beginsWord inFlow cs then
    let (done, rest) := wordRest inFlow [] cs
    some (String.ofList (done.dropWhile isBlank).reverse, done.takeWhile isBlank ++ rest)
  else none

/-- The name of a tag whose mark is already read, and what stands behind its blanks. -/
def tag? (cs : List Char) : Option (String × List Char) :=
  let name := cs.takeWhile fun c => c.isAlphanum || c = '_' || c = '-'
  let rest := cs.drop name.length
  match name, rest with
  | [], _ => none
  | _, [] => some (String.ofList name, [])
  | _, c :: _ =>
    if isBlank c || isBreak c || isFlowMark c then
      some (String.ofList name, rest.dropWhile isBlank)
    else none

mutual

/-- The flow value in front of a text. The fuel bounds how deep values nest and how many stand in a
row. -/
def flowValue : Nat → List Char → Option (Document × List Char)
  | 0, _ => none
  | fuel + 1, cs =>
    match cs with
    | '[' :: rest => flowItems fuel [] (skip false rest)
    | '\x7b' :: rest => flowFields fuel [] (skip false rest)
    | '"' :: _ | '\'' :: _ => (quoted? cs).map fun (s, rest) => (.text (some s), rest)
    | '!' :: rest =>
      match tag? rest with
      | none => none
      | some (tag, rest) =>
        (flowTagged fuel (skip false rest)).map fun (d, rest) => (.tagged tag d, rest)
    | _ => (word? true cs).map fun (s, rest) => (Word.toDocument s, rest)

/-- The flow value behind a tag; there may be none. -/
def flowTagged : Nat → List Char → Option (Document × List Char)
  | 0, _ => none
  | fuel + 1, cs =>
    match cs with
    | ',' :: _ | ']' :: _ | '\x7d' :: _ => some (Word.toDocument "", cs)
    | '!' :: _ => none
    | _ => flowValue fuel cs

/-- The items of a list behind the reversed items `done`. -/
def flowItems : Nat → List Document → List Char → Option (Document × List Char)
  | 0, _, _ => none
  | fuel + 1, done, cs =>
    match cs with
    | ']' :: rest => some (.list done.reverse, rest)
    | _ =>
      match flowValue fuel cs with
      | none => none
      | some (d, rest) =>
        match skip false rest with
        | ',' :: rest => flowItems fuel (d :: done) (skip false rest)
        | ']' :: rest => some (.list (d :: done).reverse, rest)
        | _ => none

/-- The fields of a record behind the reversed fields `done`. A name without a colon has an empty
value. -/
def flowFields :
    Nat → List (Option String × Document) → List Char → Option (Document × List Char)
  | 0, _, _ => none
  | fuel + 1, done, cs =>
    match cs with
    | '\x7d' :: rest => some (.fields done.reverse, rest)
    | _ =>
      match quoted? cs <|> word? true cs with
      | none => none
      | some (name, rest) =>
        match flowFieldValue fuel (skip false rest) with
        | none => none
        | some (d, rest) =>
          let done := (some name, d) :: done
          match skip false rest with
          | ',' :: rest => flowFields fuel done (skip false rest)
          | '\x7d' :: rest => some (.fields done.reverse, rest)
          | _ => none

/-- The value of a field, behind its name. -/
def flowFieldValue : Nat → List Char → Option (Document × List Char)
  | 0, _ => none
  | fuel + 1, cs =>
    match cs with
    | ':' :: rest =>
      match skip false rest with
      | ',' :: rest => some (Word.toDocument "", ',' :: rest)
      | '\x7d' :: rest => some (Word.toDocument "", '\x7d' :: rest)
      | rest => flowValue fuel rest
    | rest => some (Word.toDocument "", rest)

end

end Qumode.Yaml
