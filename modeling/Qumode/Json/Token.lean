import Qumode.Document.Tree
import Qumode.Json.Decimal
import Qumode.Text.Digit

/-!
# Tokens of JSON text

The lexical rules of RFC 8259 and nothing beside them: no comments, no superfluous zeros, no raw
control characters in texts, no byte-order mark. `Token.next?` reads the token at the front of a
text that does not begin with a blank, and `Token.text` writes one.

A text whose escapes name half of a surrogate pair is a token, so that it can be passed over; its
content is `none`.
-/

namespace Qumode.Json

/-- The blanks allowed between tokens. -/
def isBlank (c : Char) : Bool := c = ' ' || c = '\t' || c = '\n' || c = '\r'

inductive Token where
  | openList
  | closeList
  | openFields
  | closeFields
  | comma
  | colon
  | null
  | bool (value : Bool)
  | number (numeral : Numeral)
  | text (content : Option String)

namespace Token

/-- Four hexadecimal digits in front, and what follows them. -/
def codeUnit? (cs : List Char) : Option (Nat × List Char) := do
  if (cs.take 4).length < 4 then none
  let n ← Digit.number? 16 (cs.take 4)
  some (n, cs.drop 4)

def isHighSurrogate (n : Nat) : Bool := decide (0xD800 ≤ n ∧ n < 0xDC00)

def isLowSurrogate (n : Nat) : Bool := decide (0xDC00 ≤ n ∧ n < 0xE000)

/-- The character of a `\u` escape whose letter is already read; `none` for half of a pair. A high
half takes the low half in the escape that follows it. -/
def unicodeEscape? (cs : List Char) : Option (Option Char × List Char) := do
  let (n, rest) ← codeUnit? cs
  if isHighSurrogate n then
    match rest with
    | '\\' :: 'u' :: tail => do
      let (low, after) ← codeUnit? tail
      if isLowSurrogate low then
        some (some (Char.ofNat (0x10000 + (n - 0xD800) * 0x400 + (low - 0xDC00))), after)
      else some (none, rest)
    | _ => some (none, rest)
  else if isLowSurrogate n then some (none, rest)
  else some (some (Char.ofNat n), rest)

/-- The character of an escape whose backslash is already read. -/
def escape? : List Char → Option (Option Char × List Char)
  | 'u' :: rest => unicodeEscape? rest
  | '"' :: rest => some (some '"', rest)
  | '\\' :: rest => some (some '\\', rest)
  | '/' :: rest => some (some '/', rest)
  | 'b' :: rest => some (some '\x08', rest)
  | 'f' :: rest => some (some '\x0c', rest)
  | 'n' :: rest => some (some '\n', rest)
  | 'r' :: rest => some (some '\r', rest)
  | 't' :: rest => some (some '\t', rest)
  | _ => none

/-- The rest of a text whose opening quote is already read, after the reversed characters `done`.
The fuel bounds the number of characters. -/
def content? : Nat → Option (List Char) → List Char → Option (Option String × List Char)
  | 0, _, _ => none
  | _ + 1, _, [] => none
  | _ + 1, done, '"' :: rest => some (done.map fun cs => String.ofList cs.reverse, rest)
  | fuel + 1, done, '\\' :: rest => do
    let (c, rest) ← escape? rest
    content? fuel (do some ((← c) :: (← done))) rest
  | fuel + 1, done, c :: rest =>
    if c.toNat < 0x20 then none else content? fuel (done.map (c :: ·)) rest

/-- The whole part of a number: no superfluous zero in front. -/
def whole? (cs : List Char) : Option (Nat × List Char) :=
  match Digit.span cs with
  | ([], _) => none
  | ('0' :: _ :: _, _) => none
  | (ds, rest) => some (Nat.ofDigitChars 10 ds 0, rest)

/-- The fraction, if a point stands in front; it has at least one digit. -/
def fraction? : List Char → Option (List Char × List Char)
  | '.' :: rest =>
    match Digit.span rest with
    | ([], _) => none
    | (ds, rest) => some (ds, rest)
  | rest => some ([], rest)

/-- At least one digit, read as one number. -/
def digits? (cs : List Char) : Option (Nat × List Char) :=
  match Digit.span cs with
  | ([], _) => none
  | (ds, rest) => some (Nat.ofDigitChars 10 ds 0, rest)

/-- The power of ten, if its letter stands in front. -/
def exponent? : List Char → Option (Option Int × List Char)
  | 'e' :: '-' :: rest | 'E' :: '-' :: rest => (digits? rest).map fun (n, r) => (some (-n), r)
  | 'e' :: '+' :: rest | 'E' :: '+' :: rest => (digits? rest).map fun (n, r) => (some n, r)
  | 'e' :: rest | 'E' :: rest => (digits? rest).map fun (n, r) => (some n, r)
  | rest => some (none, rest)

def decimal? (cs : List Char) : Option (Decimal × List Char) := do
  let (isNegative, cs) := match cs with
    | '-' :: rest => (true, rest)
    | cs => (false, cs)
  let (whole, cs) ← whole? cs
  let (fraction, cs) ← fraction? cs
  let (exponent, cs) ← exponent? cs
  some (⟨isNegative, whole, fraction, exponent⟩, cs)

/-- The token in front of a text, and what follows it. -/
def next? : List Char → Option (Token × List Char)
  | '[' :: rest => some (openList, rest)
  | ']' :: rest => some (closeList, rest)
  | '\x7b' :: rest => some (openFields, rest)
  | '\x7d' :: rest => some (closeFields, rest)
  | ',' :: rest => some (comma, rest)
  | ':' :: rest => some (colon, rest)
  | '"' :: rest => (content? (rest.length + 1) (some []) rest).map fun (t, r) => (text t, r)
  | 'n' :: 'u' :: 'l' :: 'l' :: rest => some (null, rest)
  | 't' :: 'r' :: 'u' :: 'e' :: rest => some (bool true, rest)
  | 'f' :: 'a' :: 'l' :: 's' :: 'e' :: rest => some (bool false, rest)
  | cs => (decimal? cs).map fun (n, r) => (number n.toNumeral, r)

/-- A character inside a text as it is written. -/
def escaped (c : Char) : List Char :=
  if c = '"' then ['\\', '"']
  else if c = '\\' then ['\\', '\\']
  else if c = '\x08' then ['\\', 'b']
  else if c = '\x0c' then ['\\', 'f']
  else if c = '\n' then ['\\', 'n']
  else if c = '\r' then ['\\', 'r']
  else if c = '\t' then ['\\', 't']
  else if c.toNat < 0x20 then
    ['\\', 'u', '0', '0', Digit.hex (c.toNat / 16), Digit.hex (c.toNat % 16)]
  else [c]

/-- A text between its quotes. The text that cannot be read is written as half of a pair. -/
def quoted : Option String → List Char
  | some content => '"' :: content.toList.flatMap escaped ++ ['"']
  | none => "\"\\ud800\"".toList

/-- A number as written. A real that is not finite has no digits, and nothing stands for it. -/
def numberChars : Numeral → List Char
  | .integer value => (Decimal.ofInt value).text
  | .real value => if value.isFinite then (Decimal.ofReal value).text else "null".toList

/-- A token as written. -/
def chars : Token → List Char
  | openList => ['[']
  | closeList => [']']
  | openFields => ['\x7b']
  | closeFields => ['\x7d']
  | comma => [',']
  | colon => [':']
  | null => ['n', 'u', 'l', 'l']
  | bool true => ['t', 'r', 'u', 'e']
  | bool false => ['f', 'a', 'l', 's', 'e']
  | number numeral => numberChars numeral
  | text content => quoted content

end Token

end Qumode.Json
