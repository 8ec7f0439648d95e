import Qumode.Json.Token

/-!
# Writing JSON text

`compact` puts the tokens of a document side by side, with no blanks. `pretty` puts every item and
every field on a line of its own, two blanks deeper than what holds it; empty lists and records stay
on one line.
-/

namespace Qumode.Json

mutual

/-- The tokens of a document. A bare word is written as a text, and a tag as the name of a field. -/
def tokens : Document → List Token
  | .null => [.null]
  | .bool value => [.bool value]
  | .number numeral => [.number numeral]
  | .text content => [.text content]
  | .bare word _ => [.text (some word)]
  | .list items => .openList :: itemTokens items ++ [.closeList]
  | .fields entries => .openFields :: fieldTokens entries ++ [.closeFields]
  | .tagged tag body => .openFields :: .text (some tag) :: .colon :: tokens body ++ [.closeFields]

def itemTokens : List Document → List Token
  | [] => []
  | [d] => tokens d
  | d :: rest => tokens d ++ .comma :: itemTokens rest

def fieldTokens : List (Option String × Document) → List Token
  | [] => []
  | [(name, d)] => .text name :: .colon :: tokens d
  | (name, d) :: rest => .text name :: .colon :: tokens d ++ .comma :: fieldTokens rest

end

/-- The document on one line. -/
def compact (d : Document) : String := String.ofList ((tokens d).flatMap Token.chars)

/-- A line break and the blanks in front of what is `depth` lists or records deep. -/
def lineBreak (depth : Nat) : List Char := '\n' :: List.replicate (2 * depth) ' '

mutual

/-- A document inside of `depth` lists and records. -/
def prettyChars (depth : Nat) : Document → List Char
  | .list [] => ['[', ']']
  | .list (d :: rest) =>
    '[' :: lineBreak (depth + 1) ++ prettyChars (depth + 1) d ++ prettyItems (depth + 1) rest
      ++ lineBreak depth ++ [']']
  | .fields [] => ['\x7b', '\x7d']
  | .fields ((name, d) :: rest) =>
    '\x7b' :: lineBreak (depth + 1) ++ Token.quoted name ++ ':' :: ' ' :: prettyChars (depth + 1) d
      ++ prettyFields (depth + 1) rest ++ lineBreak depth ++ ['\x7d']
  | .null => Token.null.chars
  | .bool value => (Token.bool value).chars
  | .number numeral => Token.numberChars numeral
  | .text content => Token.quoted content
  | .bare word _ => Token.quoted (some word)
  | .tagged tag body =>
    '\x7b' :: lineBreak (depth + 1) ++ Token.quoted (some tag) ++ ':' :: ' '
      :: prettyChars (depth + 1) body ++ lineBreak depth ++ ['\x7d']

def prettyItems (depth : Nat) : List Document → List Char
  | [] => []
  | d :: rest => ',' :: lineBreak depth ++ prettyChars depth d ++ prettyItems depth rest

def prettyFields (depth : Nat) : List (Option String × Document) → List Char
  | [] => []
  | (name, d) :: rest =>
    ',' :: lineBreak depth ++ Token.quoted name ++ ':' :: ' ' :: prettyChars depth d
      ++ prettyFields depth rest

end

/-- The document over several lines. -/
def pretty (d : Document) : String := String.ofList (prettyChars 0 d)

end Qumode.Json
