import Mos6502.IR.Verify
import Mos6502.Layout

/-!
# Entry points

The processor finds the code to run in three words near the end of the address space: one for the
non-maskable interrupt, one for reset, one for the interrupt request. A program has to put a label
into each of them with a word-sized data declaration that starts exactly there; only its first
item counts.

Errors about entry points stop a compilation, unlike diagnostics; so would a module that does not
verify.
-/

namespace Mos6502

/-- The words that hold entry points. -/
inductive EntryVector where
  | nmi
  | reset
  | irq
deriving DecidableEq

namespace EntryVector

/-- All vectors, in the order in which they are looked at. -/
def all : List EntryVector :=
  [nmi, reset, irq]

/-- Where a vector lies. -/
def address : EntryVector → UInt32
  | nmi => 0xfffa
  | reset => 0xfffc
  | irq => 0xfffe

/-- How messages call a vector. -/
def describe : EntryVector → String
  | nmi => "nmi"
  | reset => "reset"
  | irq => "irq"

/-- How messages call a vector and the place where it lies. -/
def describeAt (v : EntryVector) : String :=
  v.describe ++ " entry point at " ++ Text.hexLiteral 4 v.address.toNat

end EntryVector

/-- Why no module was made. -/
inductive CompileError where
  /-- Nothing lies at the vector. -/
  | missingEntryPoint (vector : EntryVector)
  /-- Something else than a word-sized data declaration lies at the vector. -/
  | entryPointNotWord (vector : EntryVector) (line : Nat) (span : Span)
  /-- The word at the vector is not a label. -/
  | entryPointNotLabel (vector : EntryVector) (line : Nat) (span : Span)
  /-- The label at the vector labels no code. -/
  | unresolvedEntryPoint (vector : EntryVector)
  /-- The module does not verify. -/
  | invalidModule (error : IR.VerifyError)
deriving DecidableEq

namespace CompileError

/-- The text of a compilation error. -/
def message : CompileError → String
  | missingEntryPoint v => "missing " ++ v.describeAt
  | entryPointNotWord v line _ =>
    atLine line (v.describeAt ++ " must be a word-sized data declaration")
  | entryPointNotLabel v line _ => atLine line (v.describeAt ++ " must reference a label")
  | unresolvedEntryPoint v => "missing " ++ v.describe ++ " entry point"
  | invalidModule e => "invalid module: " ++ e.message

/-- Where the error lies in the text, if it lies anywhere. -/
def span? : CompileError → Option Span
  | entryPointNotWord _ _ span | entryPointNotLabel _ _ span => some span
  | missingEntryPoint _ | unresolvedEntryPoint _ | invalidModule _ => none

end CompileError

/-- The label that a statement found at a vector puts there. -/
def EntryVector.labelOf (v : EntryVector) (s : Stmt) : Except CompileError String :=
  match s.node with
  | .data .word items =>
    match items.head?.map Spanned.val with
    | some (.label name) => .ok name
    | _ => .error (.entryPointNotLabel v s.line s.span)
  | _ => .error (.entryPointNotWord v s.line s.span)

/-- The label at a vector. -/
def EntryVector.resolve (v : EntryVector) (stmts : List Stmt) (layout : Layout) :
    Except CompileError String :=
  match (layout.offsets.get? v.address).bind (stmts[·]?) with
  | none => .error (.missingEntryPoint v)
  | some s => v.labelOf s

/-- The labels at the three vectors. -/
structure EntryPoints where
  nmi : String
  reset : String
  irq : String
deriving DecidableEq

namespace EntryPoints

/-- Reads the vectors of a program. -/
def resolve (stmts : List Stmt) (layout : Layout) : Except CompileError EntryPoints := do
  let nmi ← EntryVector.nmi.resolve stmts layout
  let reset ← EntryVector.reset.resolve stmts layout
  let irq ← EntryVector.irq.resolve stmts layout
  return ⟨nmi, reset, irq⟩

/-- The label at a vector. -/
def get (e : EntryPoints) : EntryVector → String
  | .nmi => e.nmi
  | .reset => e.reset
  | .irq => e.irq

/-- Is the label that of an interrupt handler? -/
def isHandler (e : EntryPoints) (label : String) : Bool :=
  label == e.nmi || label == e.irq

/-- Is the label an entry point at all? -/
def isEntry (e : EntryPoints) (label : String) : Bool :=
  e.isHandler label || label == e.reset

end EntryPoints

end Mos6502
