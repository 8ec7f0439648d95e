import Qumode.Gate
import Qumode.Program.Settings
import Qumode.Readout.Schema

/-!
# Lines of a program

A program is a list of lines, each of one of a few kinds. What a line says does not depend on
widths, decimal places or indentation: those settle only its text. `Line.text?` is missing exactly
for a statement with a real parameter that cannot be written with as many places.
-/

namespace Qumode

/-- The two registers of a program. -/
inductive Register where
  | qubits
  | qumodes
  deriving DecidableEq, Repr

def Register.text : Register → String
  | qubits => "q"
  | qumodes => "m"

/-- One element of a register. -/
structure Operand where
  register : Register
  index : Nat
  deriving DecidableEq, Repr

def Operand.text (o : Operand) : String := o.register.text ++ "[" ++ toString o.index ++ "]"

/-- The ways a register element is read out. -/
inductive ReadoutKind where
  | measure
  | fockNumber
  | homodyne
  | heterodyne
  deriving DecidableEq, Repr

namespace ReadoutKind

/-- The readout of a wire of a type in a schema; a qubit has only one. -/
def ofWire? : WireType → BasisSchema → Option ReadoutKind
  | .discrete, .discrete => some measure
  | .continuous, .discrete => some fockNumber
  | .continuous, .position => some homodyne
  | .continuous, .coherent => some heterodyne
  | .discrete, _ => none

def keyword : ReadoutKind → String
  | measure => "measure"
  | fockNumber => "fock_number"
  | homodyne => "homodyne"
  | heterodyne => "heterodyne"

/-- The type of the result. -/
def resultType (s : Settings) : ReadoutKind → String
  | measure => "bit"
  | fockNumber => "uint[" ++ toString s.intBits.toNat ++ "]"
  | homodyne => "float[" ++ toString s.floatBits.toNat ++ "]"
  | heterodyne => "complex[float[" ++ toString s.floatBits.toNat ++ "]]"

/-- Whether the readout is a function call. -/
def isCall (mode : Mode) (kind : ReadoutKind) : Bool :=
  decide (mode = .strict) && decide (kind ≠ measure)

end ReadoutKind

/-- A gate applied to operands. -/
structure Statement where
  name : String
  params : List Param
  operands : List Operand
  deriving DecidableEq, Repr

namespace Statement

/-- The statement with `precision` decimal places for each real, if they can be written. -/
def text? (precision : Nat) (st : Statement) : Option String :=
  let operands := ", ".intercalate (st.operands.map Operand.text)
  if st.params.isEmpty then some (Gate.written st.name ++ " " ++ operands ++ ";")
  else
    (st.params.mapM (Param.text? precision)).map fun params =>
      Gate.written st.name ++ "(" ++ ", ".intercalate params ++ ") " ++ operands ++ ";"

end Statement

/-- One line of a program. -/
inductive Line where
  | version
  | includeFile (name : String)
  | blank
  | declaration (keyword : WireType) (count : Nat) (register : Register)
  | stub (kind : ReadoutKind)
  | openPreparation
  | reset (register : Register)
  | prepare (statement : Statement)
  | closePreparation
  | callPreparation
  | rotate (statement : Statement)
  | readout (kind : ReadoutKind) (variableIndex : Nat) (operand : Operand) (asCall : Bool)
  deriving DecidableEq, Repr

namespace Line

/-- The name of the preparation routine. -/
def preparation : String := "state_prep"

/-- Whether the line stands inside the preparation routine. -/
def isInner : Line → Bool
  | reset _ | prepare _ => true
  | _ => false

/-- The line without its indentation. -/
def content? (s : Settings) : Line → Option String
  | version => some "OPENQASM 3.0;"
  | includeFile name => some ("include \"" ++ name ++ "\";")
  | blank => some ""
  | declaration keyword count register =>
    some (keyword.text ++ "[" ++ toString count ++ "] " ++ register.text ++ ";")
  | stub kind =>
    some ("def " ++ kind.keyword ++ "(" ++ WireType.discrete.text ++ " r) -> " ++ kind.resultType s
      ++ " \x7b\x7d")
  | openPreparation => some ("def " ++ preparation ++ "() \x7b")
  | reset register => some ("reset " ++ register.text ++ ";")
  | prepare statement => statement.text? s.precision.toNat
  | closePreparation => some "\x7d"
  | callPreparation => some (preparation ++ "();")
  | rotate statement => statement.text? s.precision.toNat
  | readout kind variableIndex operand asCall =>
    some (kind.resultType s ++ " c" ++ toString variableIndex ++ " = " ++ kind.keyword
      ++ (if asCall then "(" ++ operand.text ++ ")" else " " ++ operand.text) ++ ";")

/-- The line as written, without its line break. -/
def text? (s : Settings) (line : Line) : Option String :=
  (line.content? s).map fun content =>
    if line.isInner then "".pushn ' ' s.indent.toNat ++ content else content

end Line

/-- The text of a program: every line ends with a line break. -/
def Line.render? (s : Settings) (lines : List Line) : Option String :=
  (lines.mapM (Line.text? s)).map fun texts => String.join (texts.map (· ++ "\n"))

end Qumode
