import Mos6502.Isa.AddressingMode
import Mos6502.Source.Statement
import Mos6502.Text.Numeral

/-!
# Diagnostics

What can be wrong with a program without stopping the work on it. Errors are collected, so that
one run reports all of them; a warning says that part of the program has no effect. Each has a
cause, and `message` is the only place where its wording is fixed.
-/

namespace Mos6502

/-- A cause together with the line and the bytes it is reported at. -/
structure Located (κ : Type) where
  line : Nat
  span : Span
  cause : κ
deriving DecidableEq

/-- Which index registers an operand admits. -/
inductive RegisterChoice where
  | x
  | y
  | either
deriving DecidableEq

/-- How messages call the admitted registers. -/
def RegisterChoice.describe : RegisterChoice → String
  | x => "X"
  | y => "Y"
  | either => "X or Y"

/-- Why a statement cannot be encoded or lowered. -/
inductive Fault where
  | unknownInstruction (mnemonic : String) (mode : AddressingMode)
  | invalidRegister (expected : RegisterChoice)
  | outOfRange (value max : UInt32)
  | duplicateLabel (name : String)
  | labelInByteData (name : String)
  | undefinedVariable (name : String)
  | notLowered (shape : Shape) (mnemonic : String)
deriving DecidableEq

/-- The wording of a fault. -/
def Fault.describe : Fault → String
  | unknownInstruction mnemonic mode =>
    "unrecognized " ++ mode.describe ++ " instruction: " ++ mnemonic
  | invalidRegister expected => "register argument must be " ++ expected.describe
  | outOfRange value max =>
    "value " ++ Text.hexLiteral 1 value.toNat ++ " is out of range (max " ++
      Text.hexLiteral 1 max.toNat ++ ")"
  | duplicateLabel name => "label `" ++ name ++ "` is already defined"
  | labelInByteData name => "label reference `" ++ name ++ "` does not fit into a byte"
  | undefinedVariable name => "undefined variable `" ++ name ++ "`"
  | notLowered shape mnemonic =>
    shape.describe ++ " instruction `" ++ mnemonic ++ "` lacks an IR lowering implementation"

/-- Why part of a program has no effect. -/
inductive Caution where
  /-- Byte data that no label owns. -/
  | trashedData (address : UInt32)
  /-- An instruction that no open block can take. -/
  | unreachableCode (mnemonic : String)
deriving DecidableEq

/-- The wording of a caution. -/
def Caution.describe : Caution → String
  | trashedData address => "trashing data at " ++ Text.hexLiteral 4 address.toNat
  | unreachableCode mnemonic =>
    "unreachable code: `" ++ mnemonic ++ "` follows a terminated block"

/-- A fault at a place of the program. -/
abbrev AsmError := Located Fault

/-- A caution at a place of the program. -/
abbrev Warning := Located Caution

/-- What stands in front of a description: the line it is about. -/
def atLine (line : Nat) (description : String) : String :=
  "line " ++ Nat.repr line ++ ": " ++ description

/-- The text of an error. -/
def AsmError.message (e : AsmError) : String :=
  atLine e.line e.cause.describe

/-- The text of a warning. -/
def Warning.message (w : Warning) : String :=
  atLine w.line w.cause.describe

end Mos6502
