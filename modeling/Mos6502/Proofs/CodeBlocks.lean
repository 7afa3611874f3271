import Mos6502.Proofs.FreshName
import Mos6502.Proofs.LoweredCode
import Mos6502.Proofs.Segments

/-!
# The blocks that segments become

Segments are lowered one after the other, and what is known of the earlier ones is passed along:
their labels, the names of their blocks, the locals so far. The statements here are about block
number `i` alone. They say what it was made from, and that what it refers to is still there in the
finished section, so that later files need no induction over segments for facts about one block.

Whether a segment is the first of its label is decided by the labels in front of it, those of the
segments before it and those that were passed in.

## Main definitions

* `Segment.draft` — the body of a segment's block, and the errors found in it
* `CodeSection.HasBlock` — a block of a section comes from a segment

## Main results

* `CodeSection.exists_block` — block `i` comes from segment `i`
* `CodeSection.nodup_names` — no two blocks have the same name
-/

namespace Mos6502

open IR

/-- What a segment becomes, without its terminator, and what is wrong with it. -/
def Segment.draft (vars : Bindings String UInt32) (locals : List Local) (isHandler : Bool)
    (s : Segment) : Draft × List AsmError :=
  if isHandler then (⟨locals, []⟩, s.body.flatMap fun c => c.idle.1)
  else CodeLine.lowerAll vars ⟨locals, []⟩ s.body

/-- How a block ends: a handler and the last block with `unreachable`, any other by going on to
block `next`. -/
def fallThrough (isHandler isLast : Bool) (next : Nat) : Inst :=
  if isHandler || isLast then .unreachable else .br next

/-- The block `b` comes from the segment `s`, whose code was lowered when the locals were some
that the section starts with. -/
def CodeSection.HasBlock (code : CodeSection) (vars : Bindings String UInt32) (s : Segment)
    (isHandler : Bool) (terminator : Inst) (b : Block) : Prop :=
  ∃ locals, HasSlots locals ∧
    (s.draft vars locals isHandler).1.locals <+: code.locals ∧
    (∀ e ∈ (s.draft vars locals isHandler).2, e ∈ code.errors) ∧
    b.insts = (s.draft vars locals isHandler).1.insts ++ [terminator]

/-- The body of a segment's block can stand in any block. -/
theorem Segment.bodyCode_draft (vars : Bindings String UInt32) {locals : List Local}
    (hslots : HasSlots locals) (isHandler : Bool) (s : Segment) :
    BodyCode (s.draft vars locals isHandler).1.locals locals.length
      (s.draft vars locals isHandler).1.insts := by
  cases isHandler with
  | true => exact .nil
  | false =>
    obtain ⟨new, body, hdraft, hbody⟩ :=
      CodeLine.lowerAll_spec vars s.body (d := ⟨locals, []⟩) hslots
    rw [draft, if_neg (by decide), hdraft]
    exact hbody

section

variable {code : CodeSection} {vars : Bindings String UInt32} {s : Segment} {isHandler : Bool}
  {terminator : Inst} {b : Block}

/-- A block that comes from a segment is code that can stand anywhere, and its terminator. -/
theorem CodeSection.HasBlock.bodyCode (h : code.HasBlock vars s isHandler terminator b) :
    ∃ body, b.insts = body ++ [terminator] ∧ BodyCode code.locals 5 body := by
  obtain ⟨locals, hslots, ⟨rest, hrest⟩, -, hinsts⟩ := h
  have hbody := (s.bodyCode_draft vars hslots isHandler).locals_append rest
  rw [hrest] at hbody
  exact ⟨_, hinsts, hbody.mono hslots.five_le_length⟩

theorem CodeSection.HasBlock.endsWith (h : code.HasBlock vars s isHandler terminator b)
    (ht : terminator.isTerminator = true) : b.EndsWith terminator := by
  obtain ⟨body, hinsts, hbody⟩ := h.bodyCode
  exact ⟨body, hinsts, ht, hbody.plain⟩

end

/-! ### Which segments are entry points -/

/-- Is the segment that of a handler, given the labels before it? -/
def isHandlerAfter (entries : EntryPoints) (labels : List String) (s : Segment) : Bool :=
  !labels.contains s.label && entries.isHandler s.label

/-- Is the segment an entry point, given the labels before it? -/
def isEntryAfter (entries : EntryPoints) (labels : List String) (s : Segment) : Bool :=
  !labels.contains s.label && entries.isEntry s.label

/-- The labels before segment `i`, the latest first. -/
def labelsBefore (labels : List String) (segments : List Segment) (i : Nat) : List String :=
  ((segments.take i).map Segment.label).reverse ++ labels

theorem labelsBefore_cons_succ (labels : List String) (s : Segment) (rest : List Segment)
    (i : Nat) :
    labelsBefore labels (s :: rest) (i + 1) = labelsBefore (s.label :: labels) rest i := by
  simp [labelsBefore]

/-! ### Lowering segments -/

namespace CodeSection

variable (vars : Bindings String UInt32) (entries : EntryPoints) (labels names : List String)
  {locals : List Local} (index : Nat) (segments : List Segment)

/-- One segment after the other. -/
theorem ofSegments_cons (locals : List Local) (s : Segment) (rest : List Segment) :
    ofSegments vars entries labels names locals index (s :: rest) =
      let isHandler := isHandlerAfter entries labels s
      let draft := s.draft vars locals isHandler
      let block : Block :=
        { name := Text.freshName s.label names
          insts := draft.1.insts ++ [fallThrough isHandler rest.isEmpty (index + 1)]
          pinned := isEntryAfter entries labels s }
      let others :=
        ofSegments vars entries (s.label :: labels) (block.name :: names) draft.1.locals
          (index + 1) rest
      { blocks := block :: others.blocks
        locals := others.locals
        errors := draft.2 ++ others.errors
        warnings :=
          (if isHandler then s.body.flatMap fun c => c.idle.2 else []) ++ others.warnings } :=
  rfl

/-- The locals after a segment start with those before it. -/
theorem prefix_locals_draft (hslots : HasSlots locals) (isHandler : Bool) (s : Segment) :
    locals <+: (s.draft vars locals isHandler).1.locals := by
  cases isHandler with
  | true => exact List.prefix_rfl
  | false =>
    obtain ⟨new, body, hdraft, -⟩ :=
      CodeLine.lowerAll_spec vars s.body (d := ⟨locals, []⟩) hslots
    simp [Segment.draft, hdraft]

theorem prefix_locals (hslots : HasSlots locals) :
    locals <+: (ofSegments vars entries labels names locals index segments).locals := by
  induction segments generalizing labels names locals index with
  | nil => exact List.prefix_rfl
  | cons s rest ih =>
    have hdraft := prefix_locals_draft vars hslots (isHandlerAfter entries labels s) s
    exact hdraft.trans (ih _ _ _ (hslots.trans hdraft))

theorem length_blocks (locals : List Local) :
    (ofSegments vars entries labels names locals index segments).blocks.length =
      segments.length := by
  induction segments generalizing labels names locals index with
  | nil => rfl
  | cons s rest ih => exact congrArg (· + 1) (ih _ _ _ _)

variable {names segments}

/-- No block takes a name that is taken already. -/
theorem nodup_names (hnames : names.Nodup) (locals : List Local) :
    (names ++ (ofSegments vars entries labels names locals index segments).blocks.map
      Block.name).Nodup := by
  induction segments generalizing labels names locals index with
  | nil => simpa [ofSegments] using hnames
  | cons s rest ih =>
    have hfresh := Text.freshName_not_mem s.label names
    exact List.perm_middle.nodup_iff.mpr (ih _ _ (List.nodup_cons.mpr ⟨hfresh, hnames⟩) _)

/-- **Block `i` comes from segment `i`.** -/
theorem exists_block (hslots : HasSlots locals) {i : Nat} {s : Segment}
    (hs : segments[i]? = some s) :
    ∃ b, (ofSegments vars entries labels names locals index segments).blocks[i]? = some b ∧
      b.pinned = isEntryAfter entries (labelsBefore labels segments i) s ∧
      (ofSegments vars entries labels names locals index segments).HasBlock vars s
        (isHandlerAfter entries (labelsBefore labels segments i) s)
        (fallThrough (isHandlerAfter entries (labelsBefore labels segments i) s)
          (i + 1 == segments.length) (index + i + 1)) b := by
  induction segments generalizing labels names locals index i with
  | nil => simp at hs
  | cons t rest ih =>
    rw [ofSegments_cons]
    have hdraft := prefix_locals_draft vars hslots (isHandlerAfter entries labels t) t
    cases i with
    | zero =>
      obtain rfl : t = s := by simpa using hs
      refine ⟨_, rfl, rfl, ⟨locals, hslots, ?_, ?_, ?_⟩⟩
      · exact prefix_locals _ _ _ _ _ _ (hslots.trans hdraft)
      · exact fun e he => List.mem_append_left _ he
      · cases rest <;> rfl
    | succ i =>
      obtain ⟨b, hb, hpinned, ⟨base, hbase, hlocals, herrors, hinsts⟩⟩ :=
        ih (t.label :: labels) (index + 1) (hslots.trans hdraft) hs
      rw [labelsBefore_cons_succ]
      refine ⟨b, hb, hpinned, ⟨base, hbase, hlocals, ?_, ?_⟩⟩
      · exact fun e he => List.mem_append_right _ (herrors e he)
      · rw [hinsts, Nat.add_right_comm index 1 i, Nat.add_assoc index i 1]
        simp

end CodeSection

end Mos6502
