import Qumode.Json.Token

/-!
# Reading JSON text

The tokens of a text are read from left to right by a machine that keeps the lists and records it
is inside of, so a text may nest as deep as it likes; how deep the fields that matter may nest is
for their readers to say. `parse?` accepts a text that is one value between blanks.
-/

namespace Qumode.Json

/-- A list or record that is being read, with what it holds so far in reverse. A record waits for
the value of `name`. -/
inductive Frame where
  | list (done : List Document)
  | fields (done : List (Option String × Document)) (name : Option String)

/-- What may come next, and inside of what. -/
inductive State where
  | value (outer : List Frame)
  | firstItem (outer : List Frame)
  | afterItem (done : List Document) (outer : List Frame)
  | firstField (outer : List Frame)
  | nextField (done : List (Option String × Document)) (outer : List Frame)
  | afterName (done : List (Option String × Document)) (name : Option String) (outer : List Frame)
  | afterField (done : List (Option String × Document)) (outer : List Frame)
  | complete (whole : Document)

namespace State

/-- A value is finished: it goes to the list or record that waits for it. -/
def supply (d : Document) : List Frame → State
  | [] => complete d
  | .list done :: outer => afterItem (d :: done) outer
  | .fields done name :: outer => afterField ((name, d) :: done) outer

/-- The first token of a value, inside of `outer`. -/
def beginValue (outer : List Frame) : Token → Option State
  | .openList => some (firstItem outer)
  | .openFields => some (firstField outer)
  | .null => some (supply .null outer)
  | .bool b => some (supply (.bool b) outer)
  | .number numeral => some (supply (.number numeral) outer)
  | .text content => some (supply (.text content) outer)
  | _ => none

def step : State → Token → Option State
  | value outer, t => beginValue outer t
  | firstItem outer, .closeList => some (supply (.list []) outer)
  | firstItem outer, t => beginValue (.list [] :: outer) t
  | afterItem done outer, .comma => some (value (.list done :: outer))
  | afterItem done outer, .closeList => some (supply (.list done.reverse) outer)
  | firstField outer, .closeFields => some (supply (.fields []) outer)
  | firstField outer, .text name => some (afterName [] name outer)
  | nextField done outer, .text name => some (afterName done name outer)
  | afterName done name outer, .colon => some (value (.fields done name :: outer))
  | afterField done outer, .comma => some (nextField done outer)
  | afterField done outer, .closeFields => some (supply (.fields done.reverse) outer)
  | _, _ => none

end State

/-- The rest of a text, from a state of the machine. The fuel bounds the number of tokens and
blanks. -/
def read? : Nat → State → List Char → Option Document
  | 0, _, _ => none
  | _ + 1, .complete whole, [] => some whole
  | _ + 1, _, [] => none
  | fuel + 1, state, c :: rest =>
    if isBlank c then read? fuel state rest
    else match Token.next? (c :: rest) with
      | none => none
      | some (token, rest) =>
        match state.step token with
        | none => none
        | some state => read? fuel state rest

/-- The document that a JSON text stands for. -/
def parse? (source : String) : Option Document :=
  let cs := source.toList
  read? (cs.length + 1) (.value []) cs

end Qumode.Json
