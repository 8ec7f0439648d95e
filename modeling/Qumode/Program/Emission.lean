import Qumode.Analysis.Basic
import Qumode.Program.Line

/-!
# Emitting a program

The program of an analysed circuit declares the registers, defines the preparation routine, and then
has one block for each execution group: a call of the routine, the diagonalizing operations, and the
readouts, whose result variables are numbered through the whole program.

`Scope.ofAnalysis` first checks that an analysis fits the circuit as far as a program depends on it.
What it does not compare are the measurements themselves, beyond their number.
-/

namespace Qumode

/-- How an analysis fails to fit a circuit. -/
inductive Mismatch where
  | wireCount (analysed actual : Nat)
  | untypedWire (wire : WireId)
  | operationType (index : Nat) (name : String) (type : WireType) (wire : WireId)
  | measurementCount (placed actual : Nat)
  | untypedReadout (group : Nat) (wire : WireId)
  | impossibleReadout (group : Nat) (schema : BasisSchema) (type : WireType) (wire : WireId)
  deriving DecidableEq, Repr

def Mismatch.text : Mismatch → String
  | wireCount analysed actual =>
    "analysis covers " ++ toString analysed ++ " wires, circuit has " ++ toString actual
  | untypedWire wire => "wire " ++ wire.text ++ " has no type"
  | operationType index name type wire =>
    "operation " ++ toString index ++ " (" ++ name ++ ") needs a " ++ type.text ++ " on "
      ++ wire.text
  | measurementCount placed actual =>
    "groups place " ++ toString placed ++ " measurements, circuit has " ++ toString actual
  | untypedReadout group wire =>
    "group " ++ toString group ++ " reads untyped wire " ++ wire.text
  | impossibleReadout group schema type wire =>
    "group " ++ toString group ++ " needs a " ++ schema.text ++ " readout on " ++ type.text
      ++ " wire " ++ wire.text

/-- Why no program is emitted. `noOperand` is a wire that is looked up in vain: it has no operand,
or its readout in a group has no kind. The checks on the analysis should have stopped before. -/
inductive EmitError where
  | analysis (error : AnalysisError)
  | invariant (mismatch : Mismatch)
  | noOperand (wire : WireId)
  | precisionTooLarge
  deriving DecidableEq, Repr

def EmitError.message : EmitError → String
  | analysis error => "Analysis failed: " ++ error.message
  | invariant mismatch => "Internal invariant violated: " ++ mismatch.text
  | noOperand wire => "Wire " ++ wire.text ++ " has no operand"
  | precisionTooLarge => "Formatting argument out of range"

/-- What a program refers to: the operand of every wire, the sizes of the registers, and the kind of
every readout of every group. -/
structure Scope where
  operands : List Operand
  numQubits : Nat
  numQumodes : Nat
  kinds : List (List ReadoutKind)
  deriving DecidableEq, Repr

namespace Scope

/-- The operands of wires in order, when so many qubits and qumodes have one already, and how many
qubits and qumodes have one in the end. -/
def allot (r : Analysis) (qubits qumodes : Nat) : List WireId →
    Except Mismatch (List Operand × Nat × Nat)
  | [] => .ok ([], qubits, qumodes)
  | w :: rest =>
    match r.wireType? w with
    | none => .error (.untypedWire w)
    | some .discrete => do
      let (operands, counts) ← allot r (qubits + 1) qumodes rest
      pure (⟨.qubits, qubits⟩ :: operands, counts)
    | some .continuous => do
      let (operands, counts) ← allot r qubits (qumodes + 1) rest
      pure (⟨.qumodes, qumodes⟩ :: operands, counts)

/-- Whether an analysis has as many wires as a circuit. -/
def checkWires (c : Circuit) (r : Analysis) : Except Mismatch Unit :=
  if r.numWires = c.numWires then .ok () else .error (.wireCount r.numWires c.numWires)

/-- Whether an analysis meets all demands of an operation. -/
def checkOperation (r : Analysis) (op : Operation) (index : Nat) : Except Mismatch Unit :=
  match op.requirements.find? fun (w, type) => r.wireType? w ≠ some type with
  | some (w, type) => .error (.operationType index op.name type w)
  | none => .ok ()

/-- Whether the groups of an analysis place as many measurements as a circuit has. -/
def checkPlaced (c : Circuit) (r : Analysis) : Except Mismatch Unit :=
  let placed := (r.groups.flatMap ExecutionGroup.measurements).length
  if placed = c.measurements.length then .ok ()
  else .error (.measurementCount placed c.measurements.length)

/-- The kind of the readout of one wire of a group. -/
def readoutKind (r : Analysis) (group : Nat) (w : WireId) (schema : BasisSchema) :
    Except Mismatch ReadoutKind :=
  match r.wireType? w with
  | none => .error (.untypedReadout group w)
  | some type =>
    match ReadoutKind.ofWire? type schema with
    | none => .error (.impossibleReadout group schema type w)
    | some kind => .ok kind

/-- The kinds of the readouts of one group. -/
def groupKinds (r : Analysis) (g : ExecutionGroup) (index : Nat) :
    Except Mismatch (List ReadoutKind) :=
  g.readouts.mapM fun (w, schema) => readoutKind r index w schema

/-- The scope of a circuit under an analysis, if the two fit. -/
def ofAnalysis (c : Circuit) (r : Analysis) : Except Mismatch Scope := do
  checkWires c r
  let (operands, numQubits, numQumodes) ← allot r 0 0 c.wires.ids
  c.operations.zipIdx.forM fun (op, index) => checkOperation r op index
  checkPlaced c r
  let kinds ← r.groups.zipIdx.mapM fun (g, index) => groupKinds r g index
  pure { operands, numQubits, numQumodes, kinds }

/-- The operand of a wire. -/
def operand (scope : Scope) (w : WireId) : Except EmitError Operand :=
  match scope.operands[w.index]? with
  | some operand => .ok operand
  | none => .error (.noOperand w)

/-- The kind of the readout at a position of a group, which is on the wire `w`. -/
def kind (scope : Scope) (group position : Nat) (w : WireId) : Except EmitError ReadoutKind :=
  match scope.kinds[group]?.bind (·[position]?) with
  | some kind => .ok kind
  | none => .error (.noOperand w)

/-- The statement that applies an operation. -/
def statement (scope : Scope) (op : Operation) : Except EmitError Statement := do
  let operands ← op.wires.mapM scope.operand
  pure ⟨op.name, op.params, operands⟩

end Scope

namespace Program

/-- The version line and the includes; the qumode include stands where there are qumodes. -/
def header (scope : Scope) : List Line :=
  [.version, .includeFile "stdgates.inc"]
    ++ (if 0 < scope.numQumodes then [.includeFile "cvstdgates.inc"] else []) ++ [.blank]

/-- The functions that a strict program calls, in order of first use. -/
def calledKinds (mode : Mode) (scope : Scope) : List ReadoutKind :=
  (scope.kinds.flatten.filter (·.isCall mode)).eraseDups

/-- The keyword of the qumode register. -/
def qumodeKeyword : Mode → WireType
  | .permissive => .continuous
  | .strict => .discrete

/-- The registers and the stubs of called functions. -/
def declarations (mode : Mode) (scope : Scope) : List Line :=
  (if 0 < scope.numQubits then [.declaration .discrete scope.numQubits .qubits] else [])
    ++ (if 0 < scope.numQumodes then
          [.declaration (qumodeKeyword mode) scope.numQumodes .qumodes] else [])
    ++ (calledKinds mode scope).map .stub
    ++ (if 0 < scope.numQubits + scope.numQumodes then [.blank] else [])

/-- The preparation routine: resets, then all operations. -/
def preparation (scope : Scope) (operations : List Operation) : Except EmitError (List Line) := do
  let statements ← operations.mapM scope.statement
  pure <|
    [.openPreparation]
      ++ (if 0 < scope.numQubits then [.reset .qubits] else [])
      ++ (if 0 < scope.numQumodes then [.reset .qumodes] else [])
      ++ statements.map .prepare ++ [.closePreparation]

/-- The readouts of a group from `position` on; result variables are numbered from `next` on. -/
def readouts (mode : Mode) (scope : Scope) (group position next : Nat) :
    List (WireId × BasisSchema) → Except EmitError (List Line)
  | [] => .ok []
  | (w, _) :: rest => do
    let kind ← scope.kind group position w
    let operand ← scope.operand w
    let lines ← readouts mode scope group (position + 1) (next + 1) rest
    pure (.readout kind next operand (kind.isCall mode) :: lines)

/-- The diagonalizing statements of a group, if they are wanted. -/
def rotated (rotations : Bool) (scope : Scope) (g : ExecutionGroup) :
    Except EmitError (List Statement) :=
  if rotations then g.diagonalizing.mapM scope.statement else .ok []

/-- The block of a group, after its blank line. -/
def block (mode : Mode) (rotations : Bool) (scope : Scope) (index next : Nat) (g : ExecutionGroup) :
    Except EmitError (List Line) := do
  let rotated ← rotated rotations scope g
  let read ← readouts mode scope index 0 next g.readouts
  pure (.callPreparation :: rotated.map .rotate ++ read)

/-- The blocks of the groups from `index` on, each after a blank line. -/
def blocks (mode : Mode) (rotations : Bool) (scope : Scope) (index next : Nat) :
    List ExecutionGroup → Except EmitError (List Line)
  | [] => .ok []
  | g :: rest => do
    let lines ← block mode rotations scope index next g
    let more ← blocks mode rotations scope (index + 1) (next + g.readouts.length) rest
    pure (.blank :: lines ++ more)

/-- The lines of the program of a circuit under an analysis. -/
def lines (mode : Mode) (rotations : Bool) (c : Circuit) (r : Analysis) :
    Except EmitError (List Line) := do
  let scope ← (Scope.ofAnalysis c r).mapError .invariant
  let prepared ← preparation scope c.operations
  let measured ← blocks mode rotations scope 0 0 r.groups
  pure (header scope ++ declarations mode scope ++ prepared ++ measured)

/-- The text of the program of a circuit under an analysis. -/
def emit (c : Circuit) (r : Analysis) (s : Settings) : Except EmitError String := do
  let lines ← lines s.mode s.rotations c r
  match Line.render? s lines with
  | some text => pure text
  | none => throw .precisionTooLarge

/-- The text of the program of a circuit, which is analysed first. -/
def ofCircuit (c : Circuit) (s : Settings) : Except EmitError String :=
  match Analysis.ofCircuit c with
  | .error e => .error (.analysis e)
  | .ok r => emit c r s

end Program

end Qumode
