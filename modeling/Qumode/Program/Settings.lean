/-!
# Settings of the emitted program

Permissive programs use the qumode keyword and read qumodes out with statements. Strict programs
are plain OpenQASM 3: every register holds qubits, and qumodes are read out by calling declared
functions.
-/

namespace Qumode

inductive Mode where
  | permissive
  | strict
  deriving DecidableEq, Repr

/-- How a program is written. -/
structure Settings where
  mode : Mode := .permissive
  /-- Whether diagonalizing operations are written before the readouts. -/
  rotations : Bool := true
  /-- Decimal places of real parameters. -/
  precision : UInt64 := 6
  /-- Width of photon numbers. -/
  intBits : UInt32 := 32
  /-- Width of homodyne and heterodyne results. -/
  floatBits : UInt32 := 32
  /-- Blanks in front of the lines inside the preparation routine. -/
  indent : UInt64 := 4
  deriving DecidableEq, Repr, Inhabited

namespace Settings

def isStrict (s : Settings) : Bool := decide (s.mode = .strict)

end Settings

end Qumode
