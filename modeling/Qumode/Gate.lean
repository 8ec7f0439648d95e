/-!
# Gate names in OpenQASM

Which operation names have a gate in the standard includes, and under what name. An operation
without one is written under its own name.
-/

namespace Qumode.Gate

/-- The gates of the qubit include. -/
def standardGates : List (String × String) :=
  [("GlobalPhase", "gphase"), ("Identity", "id"), ("Hadamard", "h"), ("PauliX", "x"),
   ("PauliY", "y"), ("PauliZ", "z"), ("S", "s"), ("Adjoint(S)", "sdg"), ("T", "t"),
   ("Adjoint(T)", "tdg"), ("SX", "sx"), ("Rot", "u"), ("RX", "rx"), ("RY", "ry"), ("RZ", "rz"),
   ("PhaseShift", "p"), ("ControlledPhaseShift", "cp"), ("CNOT", "cx"), ("CZ", "cz"), ("CY", "cy"),
   ("CH", "ch"), ("SWAP", "swap"), ("CSWAP", "cswap"), ("Toffoli", "ccx"), ("CRX", "crx"),
   ("CRY", "cry"), ("CRZ", "crz")]

/-- The gates of the qumode include. -/
def continuousGates : List (String × String) :=
  [("Displacement", "cv_d"), ("Rotation", "cv_r"), ("Squeezing", "cv_sq"),
   ("Beamsplitter", "cv_bs"), ("TwoModeSqueezing", "cv_sq2"), ("CubicPhase", "cv_p3"),
   ("SelectiveNumberArbitraryPhase", "cv_snap"), ("ConditionalDisplacement", "cv_cd"),
   ("SelectiveQubitRotation", "cv_sqr"), ("JaynesCummings", "cv_jc"),
   ("AntiJaynesCummings", "cv_ajc"), ("ModeSwap", "cv_swap"), ("Fourier", "cv_f"),
   ("ConditionalParity", "cv_cp"), ("ConditionalRotation", "cv_cr"),
   ("ConditionalBeamsplitter", "cv_cbs"), ("ConditionalTwoModeSqueezing", "cv_csq2")]

/-- The OpenQASM name of an operation, if it has one. -/
def qasmName? (name : String) : Option String := (standardGates ++ continuousGates).lookup name

/-- The name an operation is written under. -/
def written (name : String) : String := (qasmName? name).getD name

end Qumode.Gate
