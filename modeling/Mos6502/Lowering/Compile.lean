import Mos6502.IR.Prune
import Mos6502.Lowering.DataSection
import Mos6502.Lowering.Segment
import Mos6502.Source.Parse

/-!
# Compilation

Puts the parts together: the layout of a program, its data, its entry points, its code. The
function `main` starts in a block that makes the slots and goes to the code at the reset vector;
the code's blocks follow it.

Diagnostics are those of the layout, then of the data, then of the code, and they are reported
even if no module is made. Code is only looked at once all vectors hold a label, so an error there
keeps its diagnostics empty. Whether these labels label code is known afterwards.
-/

namespace Mos6502

open IR

/-- What a caller can choose. -/
structure Options where
  moduleName : String := "asm_module"
  optLevel : OptLevel := .none
deriving DecidableEq

/-- The outcome of a compilation. -/
structure Output where
  warnings : List Warning
  errors : List AsmError
  module : Except CompileError Module

/-- No error of any kind. -/
def Output.isClean (o : Output) : Bool :=
  o.errors.isEmpty && o.module.isOk

/-- Writes a character. -/
def putcharDecl : Function :=
  { name := "putchar", ret := .i32, params := [.i32], linkage := .external }

/-- Ends the program. -/
def exitDecl : Function :=
  { name := "exit", ret := .void, params := [.i32], linkage := .external
    attrs := { noreturn := true, nounwind := true } }

/-- The function that the program becomes, still without its code. -/
def mainDecl : Function :=
  { name := "main", ret := .i32, params := [], linkage := .external }

/-- A module with the constants of a program. Functions have their names first, so a constant
never takes one of them. -/
def dataModule (name : String) (data : DataSection) : Module :=
  data.blobs.foldl (fun m b => m.addGlobal b.1 .internal b.2)
    { name, functions := [putcharDecl, exitDecl, mainDecl] }

/-- The name of the first block. -/
def entryName : String :=
  "Entry"

/-- The first block, still open, and its locals. -/
def entryDraft : Draft :=
  (makeSlots.run {}).2

/-- The function `main`, which goes to block `reset` first. -/
def mainFunction (reset : Nat) (code : CodeSection) : Function :=
  { mainDecl with
    blocks := { name := entryName, insts := entryDraft.insts ++ [.br reset] } :: code.blocks
    locals := code.locals }

/-- The module with its code. -/
def withMain (m : Module) (f : Function) : Module :=
  { m with functions := [putcharDecl, exitDecl, f] }

/-- Refuses a module that does not verify. -/
def check (m : Module) : Except CompileError Unit :=
  match m.verify with
  | .ok () => .ok ()
  | .error e => .error (.invalidModule e)

/-- Verifies a module, and again after pruning changed it. -/
def finish (level : OptLevel) (m : Module) : Except CompileError Module := do
  check m
  let (pruned, changed) := m.pruneTimes level.rounds
  if changed then
    check pruned
  return pruned

/-- The block of the label at a vector. -/
def entryBlock (segments : List Segment) (entries : EntryPoints) (v : EntryVector) :
    Except CompileError Nat :=
  match blockOf? segments (entries.get v) with
  | some b => .ok b
  | none => .error (.unresolvedEntryPoint v)

/-- The module of a program whose vectors hold labels. -/
def assemble (options : Options) (data : DataSection) (entries : EntryPoints)
    (segments : List Segment) (code : CodeSection) : Except CompileError Module := do
  let _ ← entryBlock segments entries .nmi
  let reset ← entryBlock segments entries .reset
  let _ ← entryBlock segments entries .irq
  finish options.optLevel (withMain (dataModule options.moduleName data) (mainFunction reset code))

/-- Compiles a program. -/
def compile (options : Options) (stmts : List Stmt) : Output :=
  let layout := Layout.ofStmts stmts
  let placed := layout.place stmts
  let data := DataSection.ofPlaced placed
  match EntryPoints.resolve stmts layout with
  | .error e => ⟨data.warnings, layout.errors ++ data.errors, .error e⟩
  | .ok entries =>
    let (code, segments) := Segment.split data.owns placed
    let before := CodeSection.idle entryDraft.locals code
    let after :=
      CodeSection.ofSegments layout.vars entries [] [entryName] entryDraft.locals 1 segments
    { warnings := data.warnings ++ before.warnings ++ after.warnings
      errors := layout.errors ++ data.errors ++ before.errors ++ after.errors
      module := assemble options data entries segments after }

/-- The first thing that is wrong with a text, of whatever kind. -/
inductive FirstError where
  | unreadable (error : SyntaxError)
  | faulty (error : AsmError)
  | fatal (error : CompileError)

/-- Compiles a text and accepts no error at all. A diagnostic comes before the error that kept the
module from being made. -/
def compileText (text : List Char) : Except FirstError Module :=
  let parsed := parse text
  match parsed.errors with
  | e :: _ => .error (.unreadable e)
  | [] =>
    let output := compile {} parsed.stmts
    match output.errors, output.module with
    | e :: _, _ => .error (.faulty e)
    | [], .ok m => .ok m
    | [], .error e => .error (.fatal e)

end Mos6502
