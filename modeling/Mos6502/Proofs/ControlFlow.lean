import Mos6502.Proofs.Compilation

/-!
# The control-flow graph of a program

Which blocks `main` has and where each of them goes, read off the labels of the program alone. The
bodies of the blocks do not matter here, and neither does whether the code in them could be
lowered.

Everything depends on three lists of facts: the labels that own no data, in source order; where a
name stands among them for the first time; and which names the vectors hold. A label counts as a
handler, or as an entry point at all, only where it stands first.

## Main results

* `isHandlerAt_iff`, `isEntryAfter_iff` — the first occurrence of a name that a vector holds
* `controlFlow_compile` — the graph
-/

namespace Mos6502

open IR

/-- Label number `i` is the first of its name. -/
def IsFirst (labels : List String) (i : Nat) (name : String) : Prop :=
  ∀ j < i, labels[j]? ≠ some name

instance (labels : List String) (i : Nat) (name : String) : Decidable (IsFirst labels i name) :=
  inferInstanceAs (Decidable (∀ j < i, labels[j]? ≠ some name))

variable {entries : EntryPoints} {stmts : List Stmt}

/-- The labels that are passed along tell whether a name stands first. -/
theorem contains_labelsBefore_eq_false_iff {i : Nat} {name : String} :
    (labelsBefore [] (segmentsOf stmts) i).contains name = false ↔
      IsFirst (codeLabels stmts) i name := by
  rw [labelsBefore, List.append_nil, List.map_take, map_label_segmentsOf, List.contains_reverse,
    ← Bool.not_eq_true, List.contains_iff_mem, List.mem_take_iff_getElem]
  constructor
  · intro h j hj hname
    obtain ⟨hlt, hget⟩ := List.getElem?_eq_some_iff.mp hname
    exact h ⟨j, by omega, hget⟩
  · rintro h ⟨j, hj, hget⟩
    exact h j (by omega) (List.getElem?_eq_some_iff.mpr ⟨by omega, hget⟩)

theorem isHandlerAt_iff {i : Nat} {s : Segment} :
    isHandlerAt entries stmts i s = true ↔
      IsFirst (codeLabels stmts) i s.label ∧ (s.label = entries.nmi ∨ s.label = entries.irq) := by
  rw [isHandlerAt, isHandlerAfter, Bool.and_eq_true, Bool.not_eq_true',
    contains_labelsBefore_eq_false_iff]
  simp [EntryPoints.isHandler]

theorem isEntryAfter_iff {i : Nat} {s : Segment} :
    isEntryAfter entries (labelsBefore [] (segmentsOf stmts) i) s = true ↔
      IsFirst (codeLabels stmts) i s.label ∧ ∃ v, s.label = entries.get v := by
  rw [isEntryAfter, Bool.and_eq_true, Bool.not_eq_true', contains_labelsBefore_eq_false_iff]
  refine and_congr_right fun _ => ⟨fun h => ?_, ?_⟩
  · simp only [EntryPoints.isEntry, EntryPoints.isHandler, Bool.or_eq_true, beq_iff_eq] at h
    rcases h with (h | h) | h
    · exact ⟨.nmi, h⟩
    · exact ⟨.irq, h⟩
    · exact ⟨.reset, h⟩
  · rintro ⟨v, hv⟩
    cases v <;> simp [EntryPoints.isEntry, EntryPoints.isHandler, EntryPoints.get, hv]

theorem terminatorAt_eq {i : Nat} {s : Segment} :
    terminatorAt entries stmts i s =
      if i + 1 = (codeLabels stmts).length ∨
        IsFirst (codeLabels stmts) i s.label ∧ (s.label = entries.nmi ∨ s.label = entries.irq)
      then .unreachable else .br (i + 2) := by
  rw [terminatorAt, fallThrough]
  refine if_congr ?_ rfl rfl
  rw [Bool.or_eq_true, isHandlerAt_iff, beq_iff_eq, length_segmentsOf, or_comm]

/-- **The control-flow graph** of a program that is compiled without optimisation. There is a block
for each label that owns no data, after the first block, which goes to the code at the reset
vector. Control falls from each block into the next one, except out of handlers and out of the last
one. The blocks that the vectors lead to are pinned. -/
theorem controlFlow_compile (options : Options) (hlevel : options.optLevel = .none)
    (stmts : List Stmt) (m : IR.Module) (hm : (compile options stmts).module = .ok m) :
    ∃ (entries : EntryPoints) (f : IR.Function),
      EntryPoints.resolve stmts (Layout.ofStmts stmts) = .ok entries ∧ m.main? = some f ∧
      f.blocks.length = (codeLabels stmts).length + 1 ∧
      (∃ (b : Block) (k : Nat), f.blocks[0]? = some b ∧ b.name = "Entry" ∧ b.pinned = false ∧
        b.EndsWith (.br (k + 1)) ∧ (codeLabels stmts)[k]? = some entries.reset ∧
        IsFirst (codeLabels stmts) k entries.reset) ∧
      ∀ (i : Nat) (name : String), (codeLabels stmts)[i]? = some name →
        ∃ b : Block, f.blocks[i + 1]? = some b ∧
          b.EndsWith (if i + 1 = (codeLabels stmts).length ∨
              IsFirst (codeLabels stmts) i name ∧ (name = entries.nmi ∨ name = entries.irq)
            then .unreachable else .br (i + 2)) ∧
          (b.pinned = true ↔
            IsFirst (codeLabels stmts) i name ∧ ∃ v, name = entries.get v) := by
  obtain ⟨entries, reset, hresolves, rfl⟩ := exists_resolves hm
  rw [hlevel]
  refine ⟨entries, mainFunction reset (codeOf entries stmts), hresolves.vectors,
    (hresolves.isProgram options.moduleName).main?_eq, ?_, ?_, fun i name hname => ?_⟩
  · rw [blocks_mainFunction, List.length_cons, length_blocks_codeOf, length_segmentsOf]
  · obtain ⟨k, rfl, hk, hfirst⟩ := blockOf?_eq_some_iff.mp hresolves.reset
    rw [map_label_segmentsOf] at hk
    simp only [map_label_segmentsOf] at hfirst
    exact ⟨entryBlockTo (k + 1), k, rfl, rfl, rfl, endsWith_entryBlockTo _, hk, hfirst⟩
  · rw [← label_getElem?_segmentsOf] at hname
    obtain ⟨s, hs, rfl⟩ := Option.map_eq_some_iff.mp hname
    obtain ⟨b, hb, hpinned, hblock⟩ := exists_block_codeOf entries hs
    refine ⟨b, hb, ?_, ?_⟩
    · rw [← terminatorAt_eq]
      exact hblock.endsWith (terminatorAt_isTerminator i s)
    · rw [hpinned]
      exact isEntryAfter_iff

/-- Of two blocks called `Entry` only the first is an entry point, and the handler ends at once. -/
theorem controlFlow_compile_repeatedLabels :
    codeLabels repeatedLabels = ["Entry", "Entry", "main", "nmi", "Entry.1", "nmi"] ∧
      ∃ (m : IR.Module) (f : IR.Function),
        (compile {} repeatedLabels).module = .ok m ∧ m.main? = some f ∧ f.blocks.length = 7 ∧
        (∃ b : Block, f.blocks[1]? = some b ∧ b.EndsWith (.br 2) ∧ b.pinned = true) ∧
        (∃ b : Block, f.blocks[2]? = some b ∧ b.EndsWith (.br 3) ∧ b.pinned ≠ true) ∧
        (∃ b : Block, f.blocks[4]? = some b ∧ b.EndsWith .unreachable ∧ b.pinned = true) := by
  have hlabels : codeLabels repeatedLabels =
      ["Entry", "Entry", "main", "nmi", "Entry.1", "nmi"] := by decide
  have hok : (compile {} repeatedLabels).module.isOk = true := by decide
  have hvectors : EntryPoints.resolve repeatedLabels (Layout.ofStmts repeatedLabels) =
      .ok ⟨"nmi", "Entry", "nmi"⟩ := by rfl
  cases hm : (compile {} repeatedLabels).module with
  | error e => simp [hm, Except.isOk, Except.toBool] at hok
  | ok m =>
    obtain ⟨entries, f, hentries, hf, hlength, -, hblocks⟩ :=
      controlFlow_compile {} rfl repeatedLabels m hm
    rw [hvectors, Except.ok.injEq] at hentries
    subst hentries
    rw [hlabels] at hlength hblocks
    obtain ⟨b₁, hb₁, hend₁, hpinned₁⟩ := hblocks 0 "Entry" rfl
    obtain ⟨b₂, hb₂, hend₂, hpinned₂⟩ := hblocks 1 "Entry" rfl
    obtain ⟨b₄, hb₄, hend₄, hpinned₄⟩ := hblocks 3 "nmi" rfl
    rw [if_neg (by decide)] at hend₁ hend₂
    rw [if_pos (by decide)] at hend₄
    refine ⟨hlabels, m, f, rfl, hf, hlength, ⟨b₁, hb₁, hend₁, ?_⟩, ⟨b₂, hb₂, hend₂, ?_⟩,
      ⟨b₄, hb₄, hend₄, ?_⟩⟩
    · exact hpinned₁.mpr ⟨by decide, .reset, rfl⟩
    · exact fun h => absurd (hpinned₂.mp h).1 (by decide)
    · exact hpinned₄.mpr ⟨by decide, .nmi, rfl⟩

end Mos6502
