import Mos6502.Bindings
import Mos6502.Isa.Select

/-!
# Layout

Walks over the statements of a program once, in source order, with a location counter. Data
declarations and encodable instructions take an address and move the counter by their size;
`org` sets it; everything else leaves it alone. The counter is a 32-bit word and wraps.

Along the way labels and variables are collected. The first label of a name keeps its address and
the others are errors; the last assignment to a name counts. If several statements share an
address, the last one is found there.

Errors never stop the walk: an instruction that cannot be encoded takes no address.
-/

namespace Mos6502

/-- An encoded instruction. -/
structure Encoded where
  stmt : Stmt
  address : UInt32
  encoding : Encoding
deriving DecidableEq

/-- What is known of a program after some of its statements. -/
structure Layout where
  /-- The location counter. -/
  counter : UInt32 := 0
  vars : Bindings String UInt32 := {}
  labels : Bindings String UInt32 := {}
  instructions : List Encoded := []
  /-- The index of the last statement at an address. -/
  offsets : Bindings UInt32 Nat := {}
  /-- The address of each statement so far, in source order. -/
  addresses : List (Option UInt32) := []
  errors : List AsmError := []

namespace Layout

/-- Places a statement without an address. -/
def skip (l : Layout) : Layout :=
  { l with addresses := l.addresses ++ [none] }

/-- Places a statement of the given size at the location counter. -/
def occupy (l : Layout) (size : Nat) : Layout :=
  { l with
    counter := l.counter + UInt32.ofNat size
    offsets := l.offsets.insert l.counter l.addresses.length
    addresses := l.addresses ++ [some l.counter] }

/-- Places the next statement. -/
def visit (l : Layout) (s : Stmt) : Layout :=
  match s.node with
  | .assign name value => { l.skip with vars := l.vars.insert name value }
  | .label name =>
    if l.labels.contains name then
      { l.skip with errors := l.errors ++ [⟨s.line, s.span, .duplicateLabel name⟩] }
    else
      { l.skip with labels := l.labels.insert name l.counter }
  | .org address => { l.skip with counter := address }
  | .data width items => l.occupy (dataSize width items)
  | .instr i =>
    match i.select s.line s.span with
    | .ok e =>
      { l.occupy e.size with instructions := l.instructions ++ [⟨s, l.counter, e⟩] }
    | .error e => { l.skip with errors := l.errors ++ [e] }

/-- Places all statements of a program. -/
def ofStmts (stmts : List Stmt) : Layout :=
  stmts.foldl visit {}

/-- The address of the statement at an index. -/
def addressAt? (l : Layout) (index : Nat) : Option UInt32 :=
  l.addresses[index]?.join

/-- The layouts after each statement, each with the statement that led to it. -/
def trace (l : Layout) : List Stmt → List (Stmt × Layout)
  | [] => []
  | s :: stmts => (s, l.visit s) :: trace (l.visit s) stmts

end Layout

/-- A statement with the address it was placed at. -/
structure Placed where
  stmt : Stmt
  address : Option UInt32
deriving DecidableEq

/-- The statements of a program with their addresses. -/
def Layout.place (l : Layout) (stmts : List Stmt) : List Placed :=
  List.zipWith Placed.mk stmts l.addresses

end Mos6502
