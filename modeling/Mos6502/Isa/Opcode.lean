import Mos6502.Isa.AddressingMode

/-!
# Opcodes

The documented instruction set of the NMOS 6502: 151 opcodes, listed by addressing mode. A row
gives the mnemonic in small letters and the opcode.
-/

namespace Mos6502.Opcode

/-- The rows of an addressing mode. -/
def table : AddressingMode → List (String × UInt8)
  | .implied =>
    [("brk", 0x00), ("clc", 0x18), ("cld", 0xD8), ("cli", 0x58), ("clv", 0xB8), ("dex", 0xCA),
      ("dey", 0x88), ("inx", 0xE8), ("iny", 0xC8), ("nop", 0xEA), ("pha", 0x48), ("php", 0x08),
      ("pla", 0x68), ("plp", 0x28), ("rti", 0x40), ("rts", 0x60), ("sec", 0x38), ("sed", 0xF8),
      ("sei", 0x78), ("tax", 0xAA), ("tay", 0xA8), ("tsx", 0xBA), ("txa", 0x8A), ("txs", 0x9A),
      ("tya", 0x98)]
  | .accumulator =>
    [("asl", 0x0A), ("lsr", 0x4A), ("rol", 0x2A), ("ror", 0x6A)]
  | .immediate =>
    [("adc", 0x69), ("and", 0x29), ("cmp", 0xC9), ("cpx", 0xE0), ("cpy", 0xC0), ("eor", 0x49),
      ("lda", 0xA9), ("ldx", 0xA2), ("ldy", 0xA0), ("ora", 0x09), ("sbc", 0xE9)]
  | .zeroPage =>
    [("adc", 0x65), ("and", 0x25), ("asl", 0x06), ("bit", 0x24), ("cmp", 0xC5), ("cpx", 0xE4),
      ("cpy", 0xC4), ("dec", 0xC6), ("eor", 0x45), ("inc", 0xE6), ("lda", 0xA5), ("ldx", 0xA6),
      ("ldy", 0xA4), ("lsr", 0x46), ("ora", 0x05), ("rol", 0x26), ("ror", 0x66), ("sbc", 0xE5),
      ("sta", 0x85), ("stx", 0x86), ("sty", 0x84)]
  | .zeroPageX =>
    [("adc", 0x75), ("and", 0x35), ("asl", 0x16), ("cmp", 0xD5), ("dec", 0xD6), ("eor", 0x55),
      ("inc", 0xF6), ("lda", 0xB5), ("ldy", 0xB4), ("lsr", 0x56), ("ora", 0x15), ("rol", 0x36),
      ("ror", 0x76), ("sbc", 0xF5), ("sta", 0x95), ("sty", 0x94)]
  | .zeroPageY =>
    [("ldx", 0xB6), ("stx", 0x96)]
  | .absolute =>
    [("adc", 0x6D), ("and", 0x2D), ("asl", 0x0E), ("bit", 0x2C), ("cmp", 0xCD), ("cpx", 0xEC),
      ("cpy", 0xCC), ("dec", 0xCE), ("eor", 0x4D), ("inc", 0xEE), ("jmp", 0x4C), ("jsr", 0x20),
      ("lda", 0xAD), ("ldx", 0xAE), ("ldy", 0xAC), ("lsr", 0x4E), ("ora", 0x0D), ("rol", 0x2E),
      ("ror", 0x6E), ("sbc", 0xED), ("sta", 0x8D), ("stx", 0x8E), ("sty", 0x8C)]
  | .absoluteX =>
    [("adc", 0x7D), ("and", 0x3D), ("asl", 0x1E), ("cmp", 0xDD), ("dec", 0xDE), ("eor", 0x5D),
      ("inc", 0xFE), ("lda", 0xBD), ("ldy", 0xBC), ("lsr", 0x5E), ("ora", 0x1D), ("rol", 0x3E),
      ("ror", 0x7E), ("sbc", 0xFD), ("sta", 0x9D)]
  | .absoluteY =>
    [("adc", 0x79), ("and", 0x39), ("cmp", 0xD9), ("eor", 0x59), ("lda", 0xB9), ("ldx", 0xBE),
      ("ora", 0x19), ("sbc", 0xF9), ("sta", 0x99)]
  | .indirectX =>
    [("adc", 0x61), ("and", 0x21), ("cmp", 0xC1), ("eor", 0x41), ("lda", 0xA1), ("ora", 0x01),
      ("sbc", 0xE1), ("sta", 0x81)]
  | .indirectY =>
    [("adc", 0x71), ("and", 0x31), ("cmp", 0xD1), ("eor", 0x51), ("lda", 0xB1), ("ora", 0x11),
      ("sbc", 0xF1), ("sta", 0x91)]
  | .indirect =>
    [("jmp", 0x6C)]
  | .relative =>
    [("bcc", 0x90), ("bcs", 0xB0), ("beq", 0xF0), ("bmi", 0x30), ("bne", 0xD0), ("bpl", 0x10),
      ("bvc", 0x50), ("bvs", 0x70)]

/-- The opcode of a mnemonic, written in small letters, in an addressing mode. -/
def find? (mode : AddressingMode) (mnemonic : String) : Option UInt8 :=
  (table mode).lookup mnemonic

/-- The modes that have a row for a mnemonic, with their opcodes, in the order of the tables. -/
def forms (mnemonic : String) : List (AddressingMode × UInt8) :=
  AddressingMode.all.filterMap fun mode => (find? mode mnemonic).map (mode, ·)

/-- The rows of an addressing mode in the order of their mnemonics. -/
def sortedTable (mode : AddressingMode) : List (String × UInt8) :=
  (table mode).mergeSort fun x y => decide (x.1 ≤ y.1)

end Mos6502.Opcode
