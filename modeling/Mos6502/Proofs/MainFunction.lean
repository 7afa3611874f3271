import Mos6502.Proofs.CodeBlocks

/-!
# The function that a program becomes

`main` starts with the block that makes the slots, and the blocks of the code follow it. The
entries of a compilation that concern it are named first. Then it is shown to have the slot form,
whatever the program is: the code may be faulty, labels may repeat, and blocks may be without any
instruction.

## Main results

* `slotForm_mainFunction` — `main` has the slot form
* `exists_block_codeOf` — what block `i + 1` of `main` is
-/

namespace Mos6502

open IR

/-- The code of a program, given the labels at its vectors. -/
def codeOf (entries : EntryPoints) (stmts : List Stmt) : CodeSection :=
  CodeSection.ofSegments (Layout.ofStmts stmts).vars entries [] [entryName] entryDraft.locals 1
    (segmentsOf stmts)

/-- The first block of a function that a program becomes. -/
def entryBlockTo (reset : Nat) : Block :=
  { name := entryName, insts := entryDraft.insts ++ [.br reset] }

theorem blocks_mainFunction (reset : Nat) (code : CodeSection) :
    (mainFunction reset code).blocks = entryBlockTo reset :: code.blocks :=
  rfl

theorem hasSlots_entryDraft : HasSlots entryDraft.locals :=
  List.prefix_rfl

theorem endsWith_entryBlockTo (reset : Nat) : (entryBlockTo reset).EndsWith (.br reset) :=
  ⟨entryDraft.insts, rfl, rfl, by decide⟩

theorem insts_entryDraft :
    entryDraft.insts =
      [.alloca 0 .i8, .alloca 1 .i8, .alloca 2 .i8, .alloca 3 .i1, .alloca 4 .i1] := by
  decide

theorem typed_entryBlockTo (reset : Nat) {locals : List Local} (hslots : HasSlots locals) :
    ∀ i ∈ (entryBlockTo reset).insts, i.Typed locals := by
  intro i hi
  rcases List.mem_append.mp hi with hi | hi
  · rw [insts_entryDraft] at hi
    simp only [List.mem_cons, List.not_mem_nil, or_false] at hi
    rcases hi with rfl | rfl | rfl | rfl | rfl <;>
      exact .alloca nofun (hslots.tyIn?_slot (by decide))
  · obtain rfl := List.mem_singleton.mp hi
    exact .br

theorem scoped_entryBlockTo (reset : Nat) : Scoped [] (entryBlockTo reset).insts := by
  refine scoped_append.mpr ⟨?_, by simp [Inst.operands], trivial⟩
  rw [insts_entryDraft]
  simp [Scoped, Inst.operands]

theorem dests_entryBlockTo (reset : Nat) : dests (entryBlockTo reset).insts = slotLocals := by
  rw [entryBlockTo, dests_append]
  exact List.append_nil _

theorem renumber_entryBlockTo (marks : List Bool) (reset : Nat) :
    (entryBlockTo reset).renumber marks = entryBlockTo (IR.renumber marks reset) := by
  rw [entryBlockTo, entryBlockTo, Block.renumber, insts_entryDraft]
  rfl

/-! ### Blocks of the code -/

section

variable {entries : EntryPoints} {stmts : List Stmt}

/-- Is segment `s`, which is number `i` of the program, that of a handler? -/
def isHandlerAt (entries : EntryPoints) (stmts : List Stmt) (i : Nat) (s : Segment) : Bool :=
  isHandlerAfter entries (labelsBefore [] (segmentsOf stmts) i) s

/-- How the block of segment `i` ends. -/
def terminatorAt (entries : EntryPoints) (stmts : List Stmt) (i : Nat) (s : Segment) : Inst :=
  fallThrough (isHandlerAt entries stmts i s) (i + 1 == (segmentsOf stmts).length) (i + 2)

/-- **Block `i + 1` of `main`** comes from segment `i`. -/
theorem exists_block_codeOf (entries : EntryPoints) {i : Nat} {s : Segment}
    (hs : (segmentsOf stmts)[i]? = some s) :
    ∃ b, (codeOf entries stmts).blocks[i]? = some b ∧
      b.pinned = isEntryAfter entries (labelsBefore [] (segmentsOf stmts) i) s ∧
      (codeOf entries stmts).HasBlock (Layout.ofStmts stmts).vars s (isHandlerAt entries stmts i s)
        (terminatorAt entries stmts i s) b := by
  have hnext : i + 2 = 1 + i + 1 := by omega
  rw [terminatorAt, hnext]
  exact CodeSection.exists_block _ entries [] 1 hasSlots_entryDraft hs

@[simp] theorem length_blocks_codeOf (entries : EntryPoints) (stmts : List Stmt) :
    (codeOf entries stmts).blocks.length = (segmentsOf stmts).length :=
  CodeSection.length_blocks _ _ _ _ _ _ _

/-- Each block of the code comes from a segment. -/
theorem exists_segment_of_mem {b : Block} (hb : b ∈ (codeOf entries stmts).blocks) :
    ∃ i s, i < (segmentsOf stmts).length ∧
      (codeOf entries stmts).HasBlock (Layout.ofStmts stmts).vars s (isHandlerAt entries stmts i s)
        (terminatorAt entries stmts i s) b := by
  obtain ⟨i, hi, rfl⟩ := List.mem_iff_getElem.mp hb
  have hlt : i < (segmentsOf stmts).length := by rwa [length_blocks_codeOf] at hi
  obtain ⟨b, hb, -, hblock⟩ := exists_block_codeOf entries (List.getElem?_eq_getElem hlt)
  rw [List.getElem?_eq_getElem hi] at hb
  cases hb
  exact ⟨i, _, hlt, hblock⟩

theorem terminatorAt_isTerminator (i : Nat) (s : Segment) :
    (terminatorAt entries stmts i s).isTerminator = true := by
  unfold terminatorAt fallThrough
  split <;> rfl

/-- A block goes on only if there is a block after it. -/
theorem terminatorAt_target {i : Nat} {s : Segment} (hi : i < (segmentsOf stmts).length) {t : Nat}
    (ht : (terminatorAt entries stmts i s).target? = some t) :
    0 < t ∧ t < (segmentsOf stmts).length + 1 := by
  unfold terminatorAt fallThrough at ht
  split at ht
  · cases ht
  · next hlast =>
    cases ht
    simp only [Bool.or_eq_true, beq_iff_eq, not_or] at hlast
    omega

theorem hasSlots_codeOf (entries : EntryPoints) (stmts : List Stmt) :
    HasSlots (codeOf entries stmts).locals :=
  CodeSection.prefix_locals _ _ _ _ _ _ hasSlots_entryDraft

/-- **`main` has the slot form**, if it starts with one of its blocks. -/
theorem slotForm_mainFunction {reset : Nat} (hpos : 0 < reset)
    (hle : reset ≤ (segmentsOf stmts).length) :
    (mainFunction reset (codeOf entries stmts)).SlotForm (entryBlockTo reset)
      (codeOf entries stmts).blocks where
  blocks := rfl
  names := CodeSection.nodup_names _ _ _ _ (List.nodup_singleton _) _
  closed := by
    rw [blocks_mainFunction, List.forall_mem_cons]
    refine ⟨⟨_, endsWith_entryBlockTo reset⟩, fun b hb => ?_⟩
    obtain ⟨i, s, -, hblock⟩ := exists_segment_of_mem hb
    exact ⟨_, hblock.endsWith (terminatorAt_isTerminator i s)⟩
  typed := by
    rw [blocks_mainFunction, List.forall_mem_cons]
    refine ⟨typed_entryBlockTo reset (hasSlots_codeOf entries stmts), fun b hb => ?_⟩
    obtain ⟨i, s, -, hblock⟩ := exists_segment_of_mem hb
    obtain ⟨body, hinsts, hbody⟩ := hblock.bodyCode
    exact hbody.typed_block hinsts (terminatorAt_isTerminator i s)
  targets := by
    have hlength : (mainFunction reset (codeOf entries stmts)).blocks.length =
        (segmentsOf stmts).length + 1 := by
      rw [blocks_mainFunction, List.length_cons, length_blocks_codeOf]
    rw [hlength, blocks_mainFunction, List.forall_mem_cons]
    refine ⟨fun t ht => ?_, fun b hb t ht => ?_⟩
    · have htarget : (entryBlockTo reset).targets = [reset] := by
        rw [Block.targets, entryBlockTo, insts_entryDraft]
        rfl
      rw [htarget, List.mem_singleton] at ht
      omega
    · obtain ⟨i, s, hi, hblock⟩ := exists_segment_of_mem hb
      obtain ⟨body, hinsts, hbody⟩ := hblock.bodyCode
      rw [hbody.targets_block hinsts, Option.mem_toList] at ht
      exact terminatorAt_target hi ht
  entryInScope := scoped_entryBlockTo reset
  inner b hb := by
    obtain ⟨i, s, -, hblock⟩ := exists_segment_of_mem hb
    obtain ⟨body, hinsts, hbody⟩ := hblock.bodyCode
    rw [dests_entryBlockTo]
    exact hbody.inner_block hinsts (terminatorAt_isTerminator i s)

end

end Mos6502
