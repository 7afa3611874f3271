/-!
# Addressing modes

The thirteen ways in which a 6502 instruction names its operand. The mode decides how many bytes
the instruction takes: one for the opcode, and none, one or two for the operand.
-/

namespace Mos6502

/-- Operand encoding of an instruction. -/
inductive AddressingMode where
  | implied
  | accumulator
  | immediate
  | zeroPage
  | zeroPageX
  | zeroPageY
  | absolute
  | absoluteX
  | absoluteY
  | indirectX
  | indirectY
  | indirect
  | relative
deriving DecidableEq

namespace AddressingMode

/-- All modes, in the order of the tables. -/
def all : List AddressingMode :=
  [implied, accumulator, immediate, zeroPage, zeroPageX, zeroPageY, absolute, absoluteX, absoluteY,
    indirectX, indirectY, indirect, relative]

/-- Length of the instruction in bytes, opcode included. -/
def size : AddressingMode → Nat
  | implied | accumulator => 1
  | immediate | zeroPage | zeroPageX | zeroPageY | indirectX | indirectY | relative => 2
  | absolute | absoluteX | absoluteY | indirect => 3

/-- How messages call the mode. -/
def describe : AddressingMode → String
  | implied => "implied"
  | accumulator => "accumulator"
  | immediate => "immediate"
  | zeroPage => "zero page"
  | zeroPageX => "zero page, X"
  | zeroPageY => "zero page, Y"
  | absolute => "absolute"
  | absoluteX => "absolute, X"
  | absoluteY => "absolute, Y"
  | indirectX => "indirect, X"
  | indirectY => "indirect, Y"
  | indirect => "indirect"
  | relative => "relative"

theorem mem_all (mode : AddressingMode) : mode ∈ all := by
  cases mode <;> decide

end AddressingMode

end Mos6502
