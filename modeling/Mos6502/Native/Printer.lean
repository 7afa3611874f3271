import Mos6502.Native.Basic
import Mos6502.Text.Numeral

/-!
# The textual form of native functions

A function starts with its signature and what it declares: its slots, then its symbols. The blocks
follow, with an empty line before each of them; without declarations there is none before the
first block. Only the first block has parameters, those of the function.

Stores, arithmetic and comparisons are written without a type where their first operand is made in
the same block, and with its type otherwise. After an instruction stands a comment with the
constants among its operands.
-/

namespace Mos6502.Native

open Text

/-- How a type is written. -/
def Ty.render : Ty → String
  | i8 => "i8"
  | i32 => "i32"
  | i64 => "i64"

/-- Hexadecimal digits in groups of four, the first one filled up with zeros. -/
def hexGroups (n : Nat) : String :=
  let digits := Nat.toDigits 16 n
  let filled := List.replicate ((4 - digits.length % 4) % 4) '0' ++ digits
  let group (i : Nat) : String := String.ofList ((filled.drop (4 * i)).take 4)
  "0x" ++ String.intercalate "_" ((List.range (filled.length / 4)).map group)

/-- How a constant is written: in decimal below 10000, else in hexadecimal. -/
def renderImm (n : Int) : String :=
  if n < 10000 then decimal n else hexGroups n.toNat

/-- How a value is written. -/
def renderValue (v : Nat) : String :=
  "v" ++ Nat.repr v

/-- How a stack slot is written. -/
def renderSlot (s : Nat) : String :=
  "ss" ++ Nat.repr s

/-- How a symbol is written. -/
def renderSymbol (s : Nat) : String :=
  "gv" ++ Nat.repr s

/-- How a block is written where it is named. -/
def renderBlockName (b : Nat) : String :=
  "block" ++ Nat.repr b

/-- How an operation is written, with the type of its first operand if that is made in another
block than the one it stands in. -/
def renderOp (f : Function) (block : Nat) (op : String) (first : Nat) : String :=
  match f.values[first]? with
  | some v => if v.block = block then op else op ++ "." ++ v.ty.render
  | none => op

/-- How the value that an instruction makes is written. -/
def renderDest (dest : Nat) : String :=
  renderValue dest ++ " = "

/-- How arithmetic is written. -/
def binaryName : IR.BinOp → String
  | .add => "iadd"
  | .sub => "isub"

/-- How a comparison is written. -/
def predicateName : IR.Predicate → String
  | .eq => "eq"
  | .slt => "slt"

/-- How an instruction is written, without its comment. -/
def Inst.render (f : Function) (block : Nat) : Inst → String
  | iconst dest ty imm => renderDest dest ++ "iconst." ++ ty.render ++ " " ++ renderImm imm
  | globalValue dest symbol => renderDest dest ++ "global_value.i64 " ++ renderSymbol symbol
  | stackAddr dest slot => renderDest dest ++ "stack_addr.i64 " ++ renderSlot slot
  | stackLoad dest ty slot =>
    renderDest dest ++ "stack_load." ++ ty.render ++ " " ++ renderSlot slot
  | load dest ty address => renderDest dest ++ "load." ++ ty.render ++ " " ++ renderValue address
  | stackStore value slot =>
    renderOp f block "stack_store" value ++ " " ++ renderValue value ++ ", " ++ renderSlot slot
  | store value address =>
    renderOp f block "store" value ++ " " ++ renderValue value ++ ", " ++ renderValue address
  | binary dest op lhs rhs =>
    renderDest dest ++ renderOp f block (binaryName op) lhs ++ " " ++ renderValue lhs ++ ", " ++
      renderValue rhs
  | icmp dest pred lhs rhs =>
    renderDest dest ++ renderOp f block "icmp" lhs ++ " " ++ predicateName pred ++ " " ++
      renderValue lhs ++ ", " ++ renderValue rhs
  | jump target => "jump " ++ renderBlockName target
  | trap => "trap user1"

/-- The comment that tells which operands are constants. -/
def renderComment (f : Function) (i : Inst) : String :=
  let constants := i.args.filterMap fun v =>
    (f.values[v]?.bind ValueInfo.imm).map fun imm => renderValue v ++ " = " ++ renderImm imm
  if constants.isEmpty then "" else "  ; " ++ String.intercalate ", " constants

/-- The parameters of the first block. -/
def renderParams (f : Function) : String :=
  if f.params.isEmpty then ""
  else
    "(" ++ String.intercalate ", "
      (f.params.mapIdx fun i t => renderValue i ++ ": " ++ t.render) ++ ")"

/-- How a block is written. -/
def renderBlock (f : Function) (block : Nat) (insts : List Inst) : String :=
  renderBlockName block ++ (if block = 0 then renderParams f else "") ++ ":\n" ++
    String.join (insts.map fun i => "    " ++ i.render f block ++ renderComment f i ++ "\n")

/-- The distinct symbols in the order of their first use. -/
def externals (symbols : List Nat) : List Nat :=
  symbols.foldl (fun seen s => if s ∈ seen then seen else seen ++ [s]) []

/-- How the slots and symbols of a function are declared. -/
def renderDeclarations (f : Function) : List String :=
  f.slots.mapIdx (fun i size => renderSlot i ++ " = explicit_slot " ++ Nat.repr size) ++
    f.symbols.mapIdx fun i s =>
      renderSymbol i ++ " = symbol colocated userextname" ++
        Nat.repr ((externals f.symbols).idxOf s)

/-- How a function is written. -/
def Function.render (f : Function) : String :=
  let result := match f.ret with
    | some t => " -> " ++ t.render
    | none => ""
  let declarations := renderDeclarations f
  "function u0:" ++ Nat.repr f.id ++ "(" ++ String.intercalate ", " (f.params.map Ty.render) ++
    ")" ++ result ++ " system_v \x7b\n" ++
    String.join (declarations.map fun d => "    " ++ d ++ "\n") ++
    (if declarations.isEmpty then "" else "\n") ++
    String.intercalate "\n" (f.blocks.mapIdx (renderBlock f)) ++ "\x7d\n"

/-- The text of the functions of a module. -/
def render (functions : List Function) : String :=
  String.join (functions.map Function.render)

end Mos6502.Native
