import Mos6502.Layout
import Mos6502.Lowering.EntryPoint
import Mos6502.Lowering.Rule

/-!
# Code

A label that owns no data starts a segment of code, which reaches up to the next such label. Each
segment becomes one block, and control falls from each block into the next one.

An interrupt handler is the exception: where its label stands first, its block is closed at once
and its body is not lowered. So is the last block, after its body. Code before the first label and
in the body of a handler has no block to go to; each instruction there that could have been lowered
is reported as unreachable.

Only the first segment of a label is an entry point; a later one of the same label is an ordinary
block under a fresh name.
-/

namespace Mos6502

open IR

/-- An encodable instruction and its place in the text. -/
structure CodeLine where
  line : Nat
  span : Span
  instr : Instr
deriving DecidableEq

/-- A label and the code that follows it. -/
structure Segment where
  label : String
  body : List CodeLine
deriving DecidableEq

namespace Segment

/-- The code before the first label, and the segments. Labels that own data are passed over. -/
def split (ownsData : String → Bool) : List Placed → List CodeLine × List Segment
  | [] => ([], [])
  | p :: rest =>
    let (code, segments) := split ownsData rest
    match p.stmt.node, p.address with
    | .label name, _ =>
      if ownsData name then (code, segments) else ([], ⟨name, code⟩ :: segments)
    | .instr i, some _ => (⟨p.stmt.line, p.stmt.span, i⟩ :: code, segments)
    | _, _ => (code, segments)

end Segment

/-- What code becomes: blocks, all locals of the function, and what was found on the way. -/
structure CodeSection where
  blocks : List Block := []
  locals : List Local := []
  errors : List AsmError := []
  warnings : List Warning := []
deriving DecidableEq

namespace CodeLine

/-- The error for an instruction without a rule. -/
def notLowered (c : CodeLine) : AsmError :=
  ⟨c.line, c.span, .notLowered c.instr.operand.shape c.instr.mnemonic.val⟩

/-- What is reported of an instruction that no open block can take. -/
def idle (c : CodeLine) : List AsmError × List Warning :=
  match Rule.of? c.instr with
  | none => ([c.notLowered], [])
  | some _ => ([], [⟨c.line, c.span, .unreachableCode c.instr.mnemonic.val⟩])

/-- Lowers an instruction into a block. One that cannot be lowered leaves the block as it is. -/
def lower (vars : Bindings String UInt32) (d : Draft) (c : CodeLine) :
    Draft × List AsmError :=
  match Rule.of? c.instr with
  | none => (d, [c.notLowered])
  | some rule =>
    match rule.lower vars c.instr with
    | .ok steps => ((steps.run d).2, [])
    | .error fault => (d, [⟨c.line, c.span, fault⟩])

/-- Lowers instructions into a block, one after the other. -/
def lowerAll (vars : Bindings String UInt32) (d : Draft) :
    List CodeLine → Draft × List AsmError
  | [] => (d, [])
  | c :: cs =>
    let (d', errors) := c.lower vars d
    let (d'', errors') := lowerAll vars d' cs
    (d'', errors ++ errors')

end CodeLine

namespace CodeSection

/-- What is reported of code that no open block can take. -/
def idle (locals : List Local) (code : List CodeLine) : CodeSection :=
  { locals
    errors := code.flatMap fun c => c.idle.1
    warnings := code.flatMap fun c => c.idle.2 }

/-- Lowers segments, of which the first becomes block number `index`. The labels of the segments
and the names of the blocks before them are given, and the locals so far. -/
def ofSegments (vars : Bindings String UInt32) (entries : EntryPoints)
    (labels names : List String) (locals : List Local) (index : Nat) : List Segment → CodeSection
  | [] => { locals }
  | s :: rest =>
    let isFirst := !labels.contains s.label
    let isHandler := isFirst && entries.isHandler s.label
    let (draft, errors) :=
      if isHandler then (⟨locals, []⟩, s.body.flatMap fun c => c.idle.1)
      else CodeLine.lowerAll vars ⟨locals, []⟩ s.body
    let warnings := if isHandler then s.body.flatMap fun c => c.idle.2 else []
    let terminator := if isHandler || rest.isEmpty then Inst.unreachable else .br (index + 1)
    let block : Block :=
      { name := Text.freshName s.label names
        insts := draft.insts ++ [terminator]
        pinned := isFirst && entries.isEntry s.label }
    let others :=
      ofSegments vars entries (s.label :: labels) (block.name :: names) draft.locals
        (index + 1) rest
    { blocks := block :: others.blocks
      locals := others.locals
      errors := errors ++ others.errors
      warnings := warnings ++ others.warnings }

end CodeSection

/-- The number of the block that a label's first segment becomes; block zero is the entry of the
function. -/
def blockOf? (segments : List Segment) (label : String) : Option Nat :=
  (segments.findIdx? fun s => s.label == label).map (· + 1)

end Mos6502
