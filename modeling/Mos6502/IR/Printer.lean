import Mos6502.IR.Basic
import Mos6502.Text.Bytes
import Mos6502.Text.Numeral

/-!
# The textual form of modules

One line for each global, one for each declaration, and for a definition a line for its head, its
blocks, its instructions and its closing brace.

A name is written as it is if it consists of letters, digits and a few signs. Any other name, the
empty one too, is written between quotes, byte by byte, with every byte that is not a printable
ASCII character escaped as a backslash and two hexadecimal digits; so are the quote and the
backslash themselves. The name of the module stands in a comment and is not escaped.

An index that denotes nothing is written as such, so that every module has a text.
-/

namespace Mos6502.IR

open Text

/-- How a type is written. -/
def Ty.render : Ty → String
  | void => "void"
  | i1 => "i1"
  | i8 => "i8"
  | i32 => "i32"
  | ptr => "ptr"
  | bytes n => "[" ++ Nat.repr n ++ " x i8]"

/-- Bytes that stand for themselves between quotes. -/
def isVerbatim (b : UInt8) : Bool :=
  0x20 ≤ b && b ≤ 0x7E && b != 0x22 && b != 0x5C

/-- How a byte is written between quotes. -/
def renderByte (b : UInt8) : String :=
  if isVerbatim b then String.singleton (Char.ofNat b.toNat) else "\\" ++ hexUpper 2 b.toNat

/-- How bytes are written between quotes. -/
def renderBytes (bs : List UInt8) : String :=
  String.join (bs.map renderByte)

/-- Characters of names that need no quotes. -/
def isPlainChar (c : Char) : Bool :=
  c.isAlphanum || c == '_' || c == '.' || c == '$' || c == '-'

/-- Can a name do without quotes? -/
def isPlain (name : String) : Bool :=
  !name.toList.isEmpty && name.toList.all isPlainChar

/-- How a name is written, after the sign of what it names. -/
def renderName (sigil name : String) : String :=
  sigil ++ if isPlain name then name else "\"" ++ renderBytes (encode name) ++ "\""

/-- What stands in place of an index that denotes nothing. -/
def renderInvalid (sigil : String) (index : Nat) : String :=
  sigil ++ "<invalid " ++ Nat.repr index ++ ">"

/-- How a constant is written: integers with their sign, other types by their bits. -/
def renderConst (ty : Ty) (bits : UInt64) : String :=
  match ty with
  | .i1 => if bits &&& 1 = 1 then "true" else "false"
  | .i8 => decimal (BitVec.ofNat 8 bits.toNat).toInt
  | .i32 => decimal (BitVec.ofNat 32 bits.toNat).toInt
  | _ => Nat.repr bits.toNat

/-- How the visibility of a symbol is written. -/
def Linkage.render : Linkage → String
  | external => ""
  | internal => "private "

/-- How arithmetic is written. -/
def BinOp.render : BinOp → String
  | add => "add"
  | sub => "sub"

/-- How a comparison is written. -/
def Predicate.render : Predicate → String
  | eq => "eq"
  | slt => "slt"

/-- How a value is written. -/
def Value.render (globals : List Global) (f : Function) : Value → String
  | const ty bits => renderConst ty bits
  | ofLocal i =>
    match f.locals[i]? with
    | some l => renderName "%" l.name
    | none => renderInvalid "%" i
  | ofGlobal i =>
    match globals[i]? with
    | some g => renderName "@" g.name
    | none => renderInvalid "@" i

/-- How a value is written with its type in front. -/
def Value.renderTyped (globals : List Global) (f : Function) (v : Value) : String :=
  (f.typeOf v).render ++ " " ++ v.render globals f

/-- How the destination of an instruction is written. -/
def renderDest (globals : List Global) (f : Function) (dest : Nat) : String :=
  (Value.ofLocal dest).render globals f ++ " = "

/-- How an instruction is written. -/
def Inst.render (globals : List Global) (f : Function) : Inst → String
  | alloca dest ty => renderDest globals f dest ++ "alloca " ++ ty.render
  | load dest ty ptr =>
    renderDest globals f dest ++ "load " ++ ty.render ++ ", " ++ ptr.renderTyped globals f
  | store value ptr =>
    "store " ++ value.renderTyped globals f ++ ", " ++ ptr.renderTyped globals f
  | binary dest op lhs rhs =>
    renderDest globals f dest ++ op.render ++ " " ++ lhs.renderTyped globals f ++ ", " ++
      rhs.render globals f
  | icmp dest pred lhs rhs =>
    renderDest globals f dest ++ "icmp " ++ pred.render ++ " " ++ lhs.renderTyped globals f ++
      ", " ++ rhs.render globals f
  | br target =>
    "br label " ++ match f.blocks[target]? with
      | some b => renderName "%" b.name
      | none => renderInvalid "%" target
  | unreachable => "unreachable"

/-- How a block is written: its name, then its instructions. -/
def Block.render (globals : List Global) (f : Function) (b : Block) : String :=
  renderName "" b.name ++ ":" ++ (if b.pinned then " ; entry point" else "") ++ "\n" ++
    String.join (b.insts.map fun i => "  " ++ i.render globals f ++ "\n")

/-- How the head of a function is written. -/
def Function.renderHead (f : Function) : String :=
  (if f.isDeclaration then "declare " else "define ") ++ f.linkage.render ++ f.ret.render ++ " " ++
    renderName "@" f.name ++ "(" ++ String.intercalate ", " (f.params.map Ty.render) ++ ")" ++
    (if f.attrs.noreturn then " noreturn" else "") ++
    (if f.attrs.nounwind then " nounwind" else "")

/-- How a function is written. -/
def Function.render (globals : List Global) (f : Function) : String :=
  if f.isDeclaration then
    f.renderHead ++ "\n"
  else
    f.renderHead ++ " \x7b\n" ++ String.join (f.blocks.map (Block.render globals f)) ++ "\x7d\n"

/-- How a global is written. -/
def Global.render (g : Global) : String :=
  renderName "@" g.name ++ " = " ++ g.linkage.render ++
    (if g.constant then "constant " else "global ") ++ g.ty.render ++ " c\"" ++
    renderBytes g.init ++ "\"\n"

/-- The text of a module. -/
def Module.render (m : Module) : String :=
  "; ModuleID = '" ++ m.name ++ "'\n" ++ (if m.globals.isEmpty then "" else "\n") ++
    String.join (m.globals.map Global.render) ++
    String.join (m.functions.map fun f => "\n" ++ f.render m.globals)

end Mos6502.IR
