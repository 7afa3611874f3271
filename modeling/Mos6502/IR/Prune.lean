import Mos6502.Graph
import Mos6502.IR.Basic

/-!
# Pruning

Removes the blocks of a function that are never entered: those that no chain of branches reaches
from the first block or from a pinned one. Every branch in a block counts, wherever it stands, and
a branch to a block that does not exist leads nowhere.

The blocks that stay keep their order, and their branches are renumbered to follow them.
-/

namespace Mos6502.IR

/-- Where a block can branch to. -/
def Block.targets (b : Block) : List Nat :=
  b.insts.filterMap Inst.target?

namespace Function

/-- The blocks that a block branches to. -/
def successors (f : Function) (block : Nat) : List Nat :=
  match f.blocks[block]? with
  | some b => b.targets
  | none => []

/-- The blocks at which the function can be entered: the first one and the pinned ones. -/
def entries (f : Function) : List Nat :=
  (List.range f.blocks.length).filter fun i => i == 0 || (f.blocks[i]?.map Block.pinned).getD false

/-- Which blocks are ever entered. -/
def live (f : Function) : List Bool :=
  Graph.reach f.blocks.length f.successors f.entries

end Function

/-- The place of an index after the indices without a mark are gone. An index that has no mark or
does not exist stays as it is. -/
def renumber (marks : List Bool) (i : Nat) : Nat :=
  if marks[i]? = some true then (marks.take i).count true else i

/-- The instruction with its target renumbered. -/
def Inst.renumber (marks : List Bool) : Inst → Inst
  | br target => br (IR.renumber marks target)
  | i => i

/-- The block with its branches renumbered. -/
def Block.renumber (marks : List Bool) (b : Block) : Block :=
  { b with insts := b.insts.map (Inst.renumber marks) }

/-- The elements that are marked. -/
def keepMarked {α : Type} (marks : List Bool) (xs : List α) : List α :=
  (xs.zip marks).filterMap fun p => if p.2 then some p.1 else none

/-- The function without the blocks that are never entered, and whether there were any. -/
def Function.prune (f : Function) : Function × Bool :=
  let marks := f.live
  if marks.all id then (f, false)
  else ({ f with blocks := (keepMarked marks f.blocks).map (Block.renumber marks) }, true)

/-- What is done to a module once it is built. -/
inductive OptLevel where
  | none
  | basic
deriving DecidableEq

/-- How often a level prunes. -/
def OptLevel.rounds : OptLevel → Nat
  | none => 0
  | basic => 1

/-- Prunes every defined function of a module once. -/
def Module.prune (m : Module) : Module × Bool :=
  let pruned := m.functions.map fun f => if f.isDeclaration then (f, false) else f.prune
  ({ m with functions := pruned.map Prod.fst }, pruned.any Prod.snd)

/-- Prunes a module several times and tells whether that changed anything. -/
def Module.pruneTimes (m : Module) : (rounds : Nat) → Module × Bool
  | 0 => (m, false)
  | rounds + 1 =>
    let (m', changed) := m.prune
    let (m'', changed') := m'.pruneTimes rounds
    (m'', changed || changed')

/-- The name under which pruning is listed. -/
def pruneName : String :=
  "prune-unreachable-blocks"

end Mos6502.IR
