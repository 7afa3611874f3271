import Mos6502.Lowering.EntryPoint
import Mos6502.Lowering.Rule
import Mos6502.Proofs.Execution

/-!
# The processor

What the instructions of a program mean, stated of the registers and flags alone and without
regard to how they are compiled. Only the instructions that work on registers and constants have a
meaning here; every other one has none, so that `Cpu.execAll?` has a result exactly for code that
consists of these.

`resetCode` is the code that runs after a reset: what stands behind the label of the reset vector,
in the order of the text, up to the label of an interrupt handler. Other labels do not stop it, and
neither do data, assignments or changes of the location counter.

`Cpu.slots` lays the state out in the order in which a compiled function keeps it.
-/

namespace Mos6502

/-- The registers and flags. -/
structure Cpu where
  x : UInt8
  y : UInt8
  a : UInt8
  negative : Bool
  zero : Bool
deriving DecidableEq

namespace Cpu

/-- What a register holds. -/
def reg (c : Cpu) : Reg → UInt8
  | .a => c.a
  | .x => c.x
  | .y => c.y

/-- Puts a result into a register. The negative flag is its bit seven, and the zero flag tells
whether it is zero. -/
def put (c : Cpu) (r : Reg) (result : UInt8) : Cpu :=
  let c := { c with negative := result.toNat.testBit 7, zero := result == 0 }
  match r with
  | .a => { c with a := result }
  | .x => { c with x := result }
  | .y => { c with y := result }

/-- The byte that an immediate operand stands for, given what names stand for. -/
def byte? (vars : String → Option UInt32) (e : Expr) : Option UInt8 :=
  let n? := match e with
    | .int n => some n
    | .name s => vars s
  n?.bind fun n => if n ≤ 0xff then some n.toUInt8 else none

/-- What an instruction does. -/
def exec? (vars : String → Option UInt32) (c : Cpu) (i : Instr) : Option Cpu :=
  match Text.lowercase i.mnemonic.val, i.operand with
  | "lda", .immediate e => (byte? vars e).map (c.put .a)
  | "ldx", .immediate e => (byte? vars e).map (c.put .x)
  | "ldy", .immediate e => (byte? vars e).map (c.put .y)
  | "tax", .implied => some (c.put .x c.a)
  | "tay", .implied => some (c.put .y c.a)
  | "txa", .implied => some (c.put .a c.x)
  | "tya", .implied => some (c.put .a c.y)
  | "inx", .implied => some (c.put .x (c.x + 1))
  | "iny", .implied => some (c.put .y (c.y + 1))
  | "dex", .implied => some (c.put .x (c.x - 1))
  | "dey", .implied => some (c.put .y (c.y - 1))
  | "nop", .implied => some c
  | _, _ => none

/-- What instructions do, one after the other. -/
def execAll? (vars : String → Option UInt32) (c : Cpu) (code : List Instr) : Option Cpu :=
  code.foldlM (exec? vars) c

@[simp] theorem execAll?_nil (vars : String → Option UInt32) (c : Cpu) :
    execAll? vars c [] = some c :=
  rfl

@[simp] theorem execAll?_cons (vars : String → Option UInt32) (c : Cpu) (i : Instr)
    (code : List Instr) :
    execAll? vars c (i :: code) = (exec? vars c i).bind (execAll? vars · code) :=
  rfl

theorem execAll?_append (vars : String → Option UInt32) (c : Cpu) (code more : List Instr) :
    execAll? vars c (code ++ more) = (execAll? vars c code).bind (execAll? vars · more) :=
  List.foldlM_append

/-- The state in the order of the slots of a compiled function. -/
def slots (c : Cpu) : List IR.Datum :=
  [.byte c.x, .byte c.y, .byte c.a, .bit c.negative, .bit c.zero]

end Cpu

namespace Stmt

/-- The name of a label. -/
def label? : Stmt → Option String
  | ⟨_, _, .label name⟩ => some name
  | _ => none

/-- The instruction of a statement. -/
def instr? : Stmt → Option Instr
  | ⟨_, _, .instr i⟩ => some i
  | _ => none

/-- The value that a statement assigns to a name. -/
def assigned? (name : String) : Stmt → Option UInt32
  | ⟨_, _, .assign n value⟩ => if n = name then some value else none
  | _ => none

section

variable (line : Nat) (span : Span)

@[simp] theorem label?_label (name : String) : label? ⟨line, span, .label name⟩ = some name := rfl
@[simp] theorem label?_assign (n : String) (v : UInt32) :
    label? ⟨line, span, .assign n v⟩ = none := rfl
@[simp] theorem label?_org (a : UInt32) : label? ⟨line, span, .org a⟩ = none := rfl
@[simp] theorem label?_data (w : DataWidth) (items : List (Spanned Datum)) :
    label? ⟨line, span, .data w items⟩ = none := rfl
@[simp] theorem label?_instr (i : Instr) : label? ⟨line, span, .instr i⟩ = none := rfl

@[simp] theorem instr?_label (name : String) : instr? ⟨line, span, .label name⟩ = none := rfl
@[simp] theorem instr?_assign (n : String) (v : UInt32) :
    instr? ⟨line, span, .assign n v⟩ = none := rfl
@[simp] theorem instr?_org (a : UInt32) : instr? ⟨line, span, .org a⟩ = none := rfl
@[simp] theorem instr?_data (w : DataWidth) (items : List (Spanned Datum)) :
    instr? ⟨line, span, .data w items⟩ = none := rfl
@[simp] theorem instr?_instr (i : Instr) : instr? ⟨line, span, .instr i⟩ = some i := rfl

end

end Stmt

/-- The value last assigned to a name, anywhere in a program. -/
def lastAssigned (stmts : List Stmt) (name : String) : Option UInt32 :=
  (stmts.filterMap (Stmt.assigned? name)).getLast?

/-- The instructions that follow the label of the reset vector, up to a label of a handler. -/
def resetCode (entries : EntryPoints) (stmts : List Stmt) : List Instr :=
  ((stmts.dropWhile fun s => s.label? != some entries.reset).takeWhile fun s =>
    !s.label?.any entries.isHandler).filterMap Stmt.instr?

end Mos6502
