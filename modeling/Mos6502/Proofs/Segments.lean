import Mos6502.Lowering.Compile
import Mos6502.Proofs.Layout

/-!
# Segments and the text they come from

`Segment.split` cuts a program at the labels that own no data. This file relates the pieces to the
text: the labels of the segments are the labels of the program without those that own data, and
the code that runs after a reset is found in the segments from that of the reset label on, up to
that of a handler.

The parts of a compilation get names here, so that later statements need not repeat the nested
definitions of `compile`.

## Main results

* `map_label_segmentsOf` — the labels of the segments
* `resetCode_eq` — the code after a reset, read off the segments
* `blockOf?_eq_some_iff` — the block of a label is that of its first segment
-/

namespace Mos6502

/-- The statements of a program with their addresses. -/
def placedOf (stmts : List Stmt) : List Placed :=
  (Layout.ofStmts stmts).place stmts

/-- The data of a program. -/
def dataOf (stmts : List Stmt) : DataSection :=
  DataSection.ofPlaced (placedOf stmts)

/-- The segments of a program. -/
def segmentsOf (stmts : List Stmt) : List Segment :=
  (Segment.split (dataOf stmts).owns (placedOf stmts)).2

/-- The labels of a program that own no data, in source order. -/
def codeLabels (stmts : List Stmt) : List String :=
  (stmts.filterMap Stmt.label?).filter fun name => !(dataOf stmts).owns name

/-! ### The labels of the segments -/

theorem map_label_split (ownsData : String → Bool) (placed : List Placed) :
    (Segment.split ownsData placed).2.map Segment.label =
      ((placed.map Placed.stmt).filterMap Stmt.label?).filter fun name => !ownsData name := by
  induction placed with
  | nil => rfl
  | cons p rest ih =>
    obtain ⟨⟨line, span, node⟩, address⟩ := p
    cases node with
    | label name => cases h : ownsData name <;> simp [Segment.split, h, ih]
    | instr i => cases address <;> simpa [Segment.split, List.filterMap_cons] using ih
    | assign | org | data => simpa [Segment.split, List.filterMap_cons] using ih

/-- Each label that owns no data starts a segment. -/
theorem map_label_segmentsOf (stmts : List Stmt) :
    (segmentsOf stmts).map Segment.label = codeLabels stmts := by
  rw [segmentsOf, map_label_split, placedOf, Layout.map_stmt_place]
  rfl

@[simp] theorem length_segmentsOf (stmts : List Stmt) :
    (segmentsOf stmts).length = (codeLabels stmts).length := by
  rw [← map_label_segmentsOf, List.length_map]

theorem label_getElem?_segmentsOf (stmts : List Stmt) (i : Nat) :
    ((segmentsOf stmts)[i]?.map Segment.label) = (codeLabels stmts)[i]? := by
  rw [← map_label_segmentsOf, List.getElem?_map]

theorem mem_codeLabels {stmts : List Stmt} {name : String} (h : name ∈ codeLabels stmts) :
    (dataOf stmts).owns name = false := by
  simpa using (List.mem_filter.mp h).2

/-! ### The code after a reset -/

/-- The code of segments, up to the segment of a handler. -/
def Segment.codeUpTo (entries : EntryPoints) : List Segment → List Instr
  | [] => []
  | s :: rest =>
    if entries.isHandler s.label then [] else s.body.map CodeLine.instr ++ codeUpTo entries rest

section

variable {ownsData : String → Bool} {entries : EntryPoints}
  (handlers : ∀ name, entries.isHandler name → ownsData name = false)

include handlers in
/-- What stands in front of a handler is the code before the first segment, and then that of the
segments. A label that owns data cannot end it, since no handler owns data. -/
theorem takeWhile_filterMap_eq {placed : List Placed}
    (encoded : ∀ p ∈ placed, p.stmt.instr?.isSome → p.address.isSome) :
    ((placed.map Placed.stmt).takeWhile fun s => !s.label?.any entries.isHandler).filterMap
        Stmt.instr? =
      (Segment.split ownsData placed).1.map CodeLine.instr ++
        Segment.codeUpTo entries (Segment.split ownsData placed).2 := by
  induction placed with
  | nil => rfl
  | cons p rest ih =>
    specialize ih fun q hq => encoded q (List.mem_cons_of_mem p hq)
    have hp := encoded p List.mem_cons_self
    obtain ⟨⟨line, span, node⟩, address⟩ := p
    cases node with
    | label name =>
      by_cases hh : entries.isHandler name
      · simp [Segment.split, hh, handlers name hh, Segment.codeUpTo]
      · cases ho : ownsData name <;>
          simpa [Segment.split, List.filterMap_cons, hh, ho, Segment.codeUpTo] using ih
    | instr i =>
      obtain ⟨a, rfl⟩ := Option.isSome_iff_exists.mp (hp rfl)
      simpa [Segment.split, List.filterMap_cons] using ih
    | assign | org | data => simpa [Segment.split, List.filterMap_cons] using ih

include handlers in
/-- The code after a reset is that of the segments from that of the reset label on. -/
theorem resetCode_split (hreset : ownsData entries.reset = false) {placed : List Placed}
    (encoded : ∀ p ∈ placed, p.stmt.instr?.isSome → p.address.isSome) :
    resetCode entries (placed.map Placed.stmt) =
      Segment.codeUpTo entries
        ((Segment.split ownsData placed).2.dropWhile fun s => s.label != entries.reset) := by
  induction placed with
  | nil => rfl
  | cons p rest ih =>
    have here := takeWhile_filterMap_eq handlers encoded
    specialize ih fun q hq => encoded q (List.mem_cons_of_mem p hq)
    rw [resetCode] at ih ⊢
    obtain ⟨⟨line, span, node⟩, address⟩ := p
    cases node with
    | label name =>
      by_cases hn : name = entries.reset
      · -- the search ends here, and so does that in the segments
        subst hn
        simpa [Segment.split, hreset] using here
      · cases ho : ownsData name <;> simpa [Segment.split, List.dropWhile_cons, hn, ho] using ih
    | instr i => cases address <;> simpa [Segment.split, List.dropWhile_cons] using ih
    | assign | org | data => simpa [Segment.split, List.dropWhile_cons] using ih

end

/-! ### The block of a label -/

/-- The block of a label is one after the place of its first segment. -/
theorem blockOf?_eq_some_iff {segments : List Segment} {label : String} {b : Nat} :
    blockOf? segments label = some b ↔
      ∃ k, b = k + 1 ∧ (segments.map Segment.label)[k]? = some label ∧
        ∀ j < k, (segments.map Segment.label)[j]? ≠ some label := by
  simp only [blockOf?, Option.map_eq_some_iff, List.findIdx?_eq_some_iff_getElem]
  constructor
  · rintro ⟨k, ⟨hk, hlabel, hleast⟩, rfl⟩
    refine ⟨k, rfl, by simpa [hk] using hlabel, fun j hj hjl => hleast j hj ?_⟩
    have hlt : j < segments.length := Nat.lt_trans hj hk
    simpa [hlt] using hjl
  · rintro ⟨k, rfl, hlabel, hleast⟩
    obtain ⟨s, hs, rfl⟩ : ∃ s, segments[k]? = some s ∧ s.label = label := by
      simpa using hlabel
    obtain ⟨hk, rfl⟩ := List.getElem?_eq_some_iff.mp hs
    refine ⟨k, ⟨hk, by simp, fun j hj hjl => hleast j hj ?_⟩, rfl⟩
    have hlt : j < segments.length := Nat.lt_trans hj hk
    simpa [hlt] using hjl

/-- The segments from a label's first one on are those behind which its block stands. -/
theorem dropWhile_eq_drop {segments : List Segment} {label : String} {k : Nat}
    (h : blockOf? segments label = some (k + 1)) :
    segments.dropWhile (fun s => s.label != label) = segments.drop k := by
  obtain ⟨_, hfind, hk⟩ := Option.map_eq_some_iff.mp h
  obtain rfl := Nat.succ.inj hk
  rw [List.dropWhile_eq_drop_findIdx_not]
  simp only [bne, Bool.not_not, (List.findIdx?_eq_some_iff_findIdx_eq.mp hfind).2]

theorem mem_codeLabels_of_blockOf? {stmts : List Stmt} {label : String} {b : Nat}
    (h : blockOf? (segmentsOf stmts) label = some b) : label ∈ codeLabels stmts := by
  obtain ⟨k, -, hlabel, -⟩ := blockOf?_eq_some_iff.mp h
  rw [map_label_segmentsOf] at hlabel
  exact List.mem_of_getElem? hlabel

/-- **The code after a reset, read off the segments.** The labels of all three vectors start
segments, and the program has no layout errors. -/
theorem resetCode_eq {stmts : List Stmt} {entries : EntryPoints} {nmi k irq : Nat}
    (herrors : (Layout.ofStmts stmts).errors = [])
    (hnmi : blockOf? (segmentsOf stmts) entries.nmi = some nmi)
    (hreset : blockOf? (segmentsOf stmts) entries.reset = some (k + 1))
    (hirq : blockOf? (segmentsOf stmts) entries.irq = some irq) :
    resetCode entries stmts = Segment.codeUpTo entries ((segmentsOf stmts).drop k) := by
  have handlers : ∀ name, entries.isHandler name → (dataOf stmts).owns name = false := by
    intro name hname
    rcases (by simpa [EntryPoints.isHandler] using hname : name = entries.nmi ∨ name = entries.irq)
      with rfl | rfl
    · exact mem_codeLabels (mem_codeLabels_of_blockOf? hnmi)
    · exact mem_codeLabels (mem_codeLabels_of_blockOf? hirq)
  have hcode := resetCode_split handlers (mem_codeLabels (mem_codeLabels_of_blockOf? hreset))
    (Layout.address_isSome_of_errors_eq_nil herrors)
  rw [Layout.map_stmt_place] at hcode
  rw [hcode, ← dropWhile_eq_drop hreset]
  rfl

end Mos6502
