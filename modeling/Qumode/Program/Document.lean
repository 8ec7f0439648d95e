import Qumode.Document.Record
import Qumode.Program.Settings

/-!
# Settings as documents

A settings document names the settings that differ from the usual ones.
-/

namespace Qumode

namespace Mode

def text : Mode → String
  | permissive => "permissive"
  | strict => "strict"

def ofText? (name : String) : Option Mode := [permissive, strict].find? fun mode => mode.text = name

end Mode

namespace Settings

def ofDocument? (dialect : Dialect) (d : Document) : Option Settings := do
  let r ← d.record? ["mode", "rotations", "precision", "int_bits", "float_bits", "indent"]
  let usual : Settings := {}
  let mode ← r.withDefault "mode" usual.mode fun d => do Mode.ofText? (← d.unitVariant? dialect)
  let rotations ← r.withDefault "rotations" usual.rotations Document.bool?
  let precision ← r.withDefault "precision" usual.precision Document.uint64?
  let intBits ← r.withDefault "int_bits" usual.intBits Document.uint32?
  let floatBits ← r.withDefault "float_bits" usual.floatBits Document.uint32?
  let indent ← r.withDefault "indent" usual.indent Document.uint64?
  some { mode, rotations, precision, intBits, floatBits, indent }

def toDocument (s : Settings) : Document :=
  .fields
    [(some "mode", .text (some s.mode.text)),
     (some "rotations", .bool s.rotations),
     (some "precision", .number (.ofNat s.precision.toNat)),
     (some "int_bits", .number (.ofNat s.intBits.toNat)),
     (some "float_bits", .number (.ofNat s.floatBits.toNat)),
     (some "indent", .number (.ofNat s.indent.toNat))]

end Settings

end Qumode
