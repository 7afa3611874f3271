import Mos6502.Proofs.Compilation

/-!
# Which programs become modules

Whether there is a module, and which error there is if not, is decided by the three vectors alone.
What counts at a vector is the last statement that was placed there, however the location counter
came to that address: through an `org`, past data and instructions, or by wrapping around. The
layout keeps a map from addresses to statements for this, which `get?_offsets_ofStmts` relates to
the list of placed statements.

The vectors are looked at twice, each time in the same order: first for the labels they hold, then
for the code at these labels. So an error of the first kind at a later vector comes before one of
the second kind at an earlier vector.

## Main definitions

* `EntryVector.Leads` — a label is at a vector
* `EntryVector.Fails` — no label is at a vector, and what is wrong there
* `EntryFault` — the error that a program without a module has

## Main results

* `EntryVector.resolve_eq_ok_iff`, `EntryVector.resolve_eq_error_iff`
* `outcome_compile`
-/

namespace Mos6502

open IR

/-- The last statement of a program that was placed at an address. -/
def lastPlacedAt? (stmts : List Stmt) (a : UInt32) : Option Stmt :=
  ((placedOf stmts).filter fun p => p.address = some a).getLast?.map Placed.stmt

/-! ### The statement at an address -/

namespace Layout

/-- A statement that takes an address is found there from now on. -/
theorem get?_offsets_visit (l : Layout) (s : Stmt) (a : UInt32) :
    (l.visit s).offsets.get? a =
      if l.addressOf s = some a then some l.addresses.length else l.offsets.get? a := by
  obtain ⟨line, span, node⟩ := s
  cases node with
  | assign | org => rfl
  | label name => simp only [visit]; split <;> rfl
  | data width items =>
    simp [visit, occupy, addressOf, Bindings.get?_insert, eq_comm]
  | instr i =>
    cases h : i.select line span <;>
      simp [visit, occupy, skip, addressOf, h, Bindings.get?_insert, Except.isOk, Except.toBool,
        eq_comm]

theorem lt_of_get?_offsets {stmts : List Stmt} {a : UInt32} {index : Nat}
    (h : (ofStmts stmts).offsets.get? a = some index) : index < stmts.length := by
  induction stmts using List.reverseRecOn with
  | nil => cases h
  | append_singleton stmts s ih =>
    rw [ofStmts_concat, get?_offsets_visit, length_addresses_ofStmts] at h
    rw [List.length_append, List.length_singleton]
    split at h
    · cases h
      exact Nat.lt_succ_self _
    · exact Nat.lt_succ_of_lt (ih h)

/-- The map of addresses finds the last statement at an address. -/
theorem get?_offsets_ofStmts (stmts : List Stmt) (a : UInt32) :
    ((ofStmts stmts).offsets.get? a).bind (stmts[·]?) = lastPlacedAt? stmts a := by
  induction stmts using List.reverseRecOn with
  | nil => rfl
  | append_singleton stmts s ih =>
    rw [lastPlacedAt?, placedOf, place_concat, ofStmts_concat, get?_offsets_visit,
      length_addresses_ofStmts, List.filter_append]
    by_cases ha : (ofStmts stmts).addressOf s = some a
    · simp [ha]
    · -- the earlier statements keep their indices
      have hbefore : ((ofStmts stmts).offsets.get? a).bind ((stmts ++ [s])[·]?) =
          ((ofStmts stmts).offsets.get? a).bind (stmts[·]?) := by
        cases hindex : (ofStmts stmts).offsets.get? a with
        | none => rfl
        | some index => exact List.getElem?_append_left (lt_of_get?_offsets hindex)
      rw [if_neg ha, hbefore, ih, lastPlacedAt?, placedOf]
      simp [ha]

end Layout

/-! ### The label at a vector -/

namespace EntryVector

/-- The label is at the vector: it is the first item of the word-sized data declaration that was
placed there last. -/
def Leads (stmts : List Stmt) (v : EntryVector) (label : String) : Prop :=
  ∃ s item items, lastPlacedAt? stmts v.address = some s ∧
    s.node = .data .word (item :: items) ∧ item.val = .label label

/-- What is wrong at a vector without a label. -/
inductive Fails (stmts : List Stmt) (v : EntryVector) : CompileError → Prop where
  | missing (h : lastPlacedAt? stmts v.address = none) : Fails stmts v (.missingEntryPoint v)
  | notWord {s : Stmt} (h : lastPlacedAt? stmts v.address = some s)
      (hnode : ∀ items, s.node ≠ .data .word items) :
      Fails stmts v (.entryPointNotWord v s.line s.span)
  | notLabel {s : Stmt} {items : List (Spanned Datum)} (h : lastPlacedAt? stmts v.address = some s)
      (hnode : s.node = .data .word items)
      (hitem : ∀ item ∈ items.head?, ∀ label, item.val ≠ .label label) :
      Fails stmts v (.entryPointNotLabel v s.line s.span)

variable {stmts : List Stmt} {v : EntryVector}

theorem resolve_ofStmts (stmts : List Stmt) (v : EntryVector) :
    v.resolve stmts (Layout.ofStmts stmts) =
      match lastPlacedAt? stmts v.address with
      | none => .error (.missingEntryPoint v)
      | some s => v.labelOf s := by
  cases h : lastPlacedAt? stmts v.address <;>
    simp only [resolve, Layout.get?_offsets_ofStmts, h]

theorem resolve_eq_ok_of_leads {label : String} (h : Leads stmts v label) :
    v.resolve stmts (Layout.ofStmts stmts) = .ok label := by
  obtain ⟨s, item, items, hs, hnode, hitem⟩ := h
  simp [resolve_ofStmts, hs, labelOf, hnode, hitem]

theorem resolve_eq_error_of_fails {e : CompileError} (h : Fails stmts v e) :
    v.resolve stmts (Layout.ofStmts stmts) = .error e := by
  cases h with
  | missing h => simp [resolve_ofStmts, h]
  | @notWord s h hnode =>
    rw [resolve_ofStmts, h]
    dsimp only
    unfold labelOf
    split
    · exact absurd ‹_› (hnode _)
    · rfl
  | @notLabel s items h hnode hitem =>
    simp only [resolve_ofStmts, h, labelOf, hnode]
    cases items with
    | nil => rfl
    | cons item items =>
      have hval := hitem item rfl
      rw [List.head?_cons, Option.map_some]
      split
      · exact absurd (Option.some.inj ‹_›) (hval _)
      · rfl

/-- There is a label at a vector, or something is wrong there. -/
theorem leads_or_fails (stmts : List Stmt) (v : EntryVector) :
    (∃ label, Leads stmts v label) ∨ ∃ e, Fails stmts v e := by
  cases h : lastPlacedAt? stmts v.address with
  | none => exact .inr ⟨_, .missing h⟩
  | some s =>
    by_cases hword : ∃ items, s.node = .data .word items
    · obtain ⟨items, hnode⟩ := hword
      by_cases hlabel : ∃ item ∈ items.head?, ∃ label, item.val = .label label
      · obtain ⟨item, hitem, label, hval⟩ := hlabel
        obtain ⟨rest, rfl⟩ := List.head?_eq_some_iff.mp hitem
        exact .inl ⟨label, s, item, rest, h, hnode, hval⟩
      · exact .inr ⟨_, .notLabel h hnode fun item hitem label hval =>
          hlabel ⟨item, hitem, label, hval⟩⟩
    · exact .inr ⟨_, .notWord h fun items hnode => hword ⟨items, hnode⟩⟩

/-- A vector is resolved to the label that is there. -/
theorem resolve_eq_ok_iff {label : String} :
    v.resolve stmts (Layout.ofStmts stmts) = .ok label ↔ Leads stmts v label := by
  refine ⟨fun h => ?_, resolve_eq_ok_of_leads⟩
  rcases leads_or_fails stmts v with ⟨found, hfound⟩ | ⟨e, he⟩
  · rw [resolve_eq_ok_of_leads hfound, Except.ok.injEq] at h
    exact h ▸ hfound
  · rw [resolve_eq_error_of_fails he] at h
    cases h

/-- A vector is refused for what is wrong there. -/
theorem resolve_eq_error_iff {e : CompileError} :
    v.resolve stmts (Layout.ofStmts stmts) = .error e ↔ Fails stmts v e := by
  refine ⟨fun h => ?_, resolve_eq_error_of_fails⟩
  rcases leads_or_fails stmts v with ⟨found, hfound⟩ | ⟨e', he'⟩
  · rw [resolve_eq_ok_of_leads hfound] at h
    cases h
  · rw [resolve_eq_error_of_fails he', Except.error.injEq] at h
    exact h ▸ he'

/-! ### One vector after the other -/

/-- The vectors that are looked at before this one. -/
def earlier (v : EntryVector) : List EntryVector :=
  all.takeWhile (· ≠ v)

theorem exists_iff {p : EntryVector → Prop} : (∃ v, p v) ↔ p nmi ∨ p reset ∨ p irq := by
  constructor
  · rintro ⟨v, hv⟩
    cases v
    · exact .inl hv
    · exact .inr (.inl hv)
    · exact .inr (.inr hv)
  · rintro (h | h | h) <;> exact ⟨_, h⟩

theorem forall_iff {p : EntryVector → Prop} : (∀ v, p v) ↔ p nmi ∧ p reset ∧ p irq :=
  ⟨fun h => ⟨h _, h _, h _⟩, fun ⟨hnmi, hreset, hirq⟩ v => by cases v <;> assumption⟩

/-- Steps for each vector in turn fail with the error of the first vector that has one, and else
with what comes after them. -/
theorem bind_eq_error_iff {α β : Type} {f : EntryVector → Except CompileError α}
    {g : α → α → α → Except CompileError β} {e : CompileError} :
    (do let a ← f nmi; let b ← f reset; let c ← f irq; g a b c) = .error e ↔
      (∃ v, f v = .error e ∧ ∀ u ∈ v.earlier, ∃ a, f u = .ok a) ∨
      ∃ a b c, f nmi = .ok a ∧ f reset = .ok b ∧ f irq = .ok c ∧ g a b c = .error e := by
  have hnmi : nmi.earlier = [] := rfl
  have hreset : reset.earlier = [nmi] := rfl
  have hirq : irq.earlier = [nmi, reset] := rfl
  rw [exists_iff, hnmi, hreset, hirq]
  cases h₁ : f nmi <;> cases h₂ : f reset <;> cases h₃ : f irq <;>
    simp [h₁, h₂, bind, Except.bind]

end EntryVector

/-- The labels are those at the vectors. -/
theorem EntryPoints.resolve_eq_ok_iff {stmts : List Stmt} {entries : EntryPoints} :
    resolve stmts (Layout.ofStmts stmts) = .ok entries ↔
      ∀ v : EntryVector, v.Leads stmts (entries.get v) := by
  obtain ⟨nmi, reset, irq⟩ := entries
  rw [EntryVector.forall_iff]
  simp only [← EntryVector.resolve_eq_ok_iff, get, resolve]
  cases EntryVector.nmi.resolve stmts (Layout.ofStmts stmts) <;>
    cases EntryVector.reset.resolve stmts (Layout.ofStmts stmts) <;>
      cases EntryVector.irq.resolve stmts (Layout.ofStmts stmts) <;>
        simp [bind, Except.bind, pure, Except.pure]

/-- The vectors are refused for what is wrong at the first of them without a label. -/
theorem EntryPoints.resolve_eq_error_iff {stmts : List Stmt} {e : CompileError} :
    resolve stmts (Layout.ofStmts stmts) = .error e ↔
      ∃ v : EntryVector, v.Fails stmts e ∧ ∀ u ∈ v.earlier, ∃ label, u.Leads stmts label := by
  simp only [← EntryVector.resolve_eq_ok_iff, ← EntryVector.resolve_eq_error_iff]
  rw [resolve, EntryVector.bind_eq_error_iff (f := fun v => v.resolve stmts (Layout.ofStmts stmts))
    (g := fun nmi reset irq => pure (EntryPoints.mk nmi reset irq))]
  refine or_iff_left ?_
  rintro ⟨nmi, reset, irq, -, -, -, h⟩
  cases h

/-! ### The code at a vector -/

theorem blockOf?_segmentsOf_isSome_iff {stmts : List Stmt} {label : String} :
    (∃ b, blockOf? (segmentsOf stmts) label = some b) ↔ label ∈ codeLabels stmts := by
  rw [← map_label_segmentsOf, ← Option.isSome_iff_exists, blockOf?, Option.isSome_map,
    List.findIdx?_isSome]
  simp

theorem entryBlock_eq_ok_iff {stmts : List Stmt} {entries : EntryPoints} {v : EntryVector} :
    (∃ b, entryBlock (segmentsOf stmts) entries v = .ok b) ↔
      entries.get v ∈ codeLabels stmts := by
  rw [← blockOf?_segmentsOf_isSome_iff, entryBlock]
  cases blockOf? (segmentsOf stmts) (entries.get v) <;> simp

theorem entryBlock_eq_error_iff {stmts : List Stmt} {entries : EntryPoints} {v : EntryVector}
    {e : CompileError} :
    entryBlock (segmentsOf stmts) entries v = .error e ↔
      entries.get v ∉ codeLabels stmts ∧ e = .unresolvedEntryPoint v := by
  rw [← blockOf?_segmentsOf_isSome_iff, entryBlock]
  cases blockOf? (segmentsOf stmts) (entries.get v) <;> simp [eq_comm]

/-! ### The outcome -/

/-- The error of a program without a module. Labels at the vectors come first, in order, and then
the code at these labels, in the same order. -/
inductive EntryFault (stmts : List Stmt) : CompileError → Prop where
  | noLabel {v : EntryVector} {e : CompileError} (h : v.Fails stmts e)
      (first : ∀ u ∈ v.earlier, ∃ label, u.Leads stmts label) : EntryFault stmts e
  | noCode {v : EntryVector} {label : String}
      (labels : ∀ u : EntryVector, ∃ label, u.Leads stmts label) (h : v.Leads stmts label)
      (hlabel : label ∉ codeLabels stmts)
      (first : ∀ u ∈ v.earlier, ∃ label ∈ codeLabels stmts, u.Leads stmts label) :
      EntryFault stmts (.unresolvedEntryPoint v)

/-- There is a module exactly if all vectors lead to code. -/
theorem exists_module_iff (options : Options) (stmts : List Stmt) :
    (∃ m, (compile options stmts).module = .ok m) ↔
      ∀ v : EntryVector, ∃ label ∈ codeLabels stmts, v.Leads stmts label := by
  constructor
  · rintro ⟨m, hm⟩ v
    obtain ⟨entries, reset, h, -⟩ := exists_resolves hm
    refine ⟨entries.get v, ?_, EntryPoints.resolve_eq_ok_iff.mp h.vectors v⟩
    rw [← blockOf?_segmentsOf_isSome_iff]
    cases v with
    | nmi => exact h.nmi
    | reset => exact ⟨reset, h.reset⟩
    | irq => exact h.irq
  · intro h
    choose label hlabel hleads using h
    have hvectors : EntryPoints.resolve stmts (Layout.ofStmts stmts) =
        .ok ⟨label .nmi, label .reset, label .irq⟩ :=
      EntryPoints.resolve_eq_ok_iff.mpr fun v => by cases v <;> exact hleads _
    have hblock := fun v => blockOf?_segmentsOf_isSome_iff.mpr (hlabel v)
    obtain ⟨reset, hreset⟩ := hblock .reset
    exact ⟨_, Resolves.module_eq ⟨hvectors, hblock .nmi, hreset, hblock .irq⟩ options⟩

/-- Once there are labels at the vectors, what is left to fail is that one labels no code. -/
theorem module_compile_eq_error_iff_of_resolve {stmts : List Stmt} {entries : EntryPoints}
    (hvectors : EntryPoints.resolve stmts (Layout.ofStmts stmts) = .ok entries)
    (options : Options) (e : CompileError) :
    (compile options stmts).module = .error e ↔
      ∃ v : EntryVector, (entries.get v ∉ codeLabels stmts ∧ e = .unresolvedEntryPoint v) ∧
        ∀ u ∈ v.earlier, entries.get u ∈ codeLabels stmts := by
  simp only [← entryBlock_eq_error_iff]
  simp only [← entryBlock_eq_ok_iff]
  rw [module_compile, hvectors]
  refine EntryVector.bind_eq_error_iff (f := entryBlock (segmentsOf stmts) entries)
    (g := fun _ reset _ => finish options.optLevel (withMain
      (dataModule options.moduleName (dataOf stmts)) (mainFunction reset (codeOf entries stmts))))
    |>.trans (or_iff_left ?_)
  -- with code at all vectors there is a module, so the last step does not fail
  rintro ⟨nmi, reset, irq, hnmi, hreset, hirq, hfinish⟩
  have hcode : ∀ v : EntryVector, ∃ label ∈ codeLabels stmts, v.Leads stmts label := by
    intro v
    refine ⟨entries.get v, entryBlock_eq_ok_iff.mp ?_, EntryPoints.resolve_eq_ok_iff.mp hvectors v⟩
    cases v
    · exact ⟨nmi, hnmi⟩
    · exact ⟨reset, hreset⟩
    · exact ⟨irq, hirq⟩
  obtain ⟨m, hm⟩ := (exists_module_iff options stmts).mpr hcode
  rw [module_compile, hvectors] at hm
  simp only [assemble, hnmi, hreset, hirq] at hm
  cases hfinish.symm.trans hm

/-- The errors of a compilation are those of the vectors. -/
theorem module_compile_eq_error_iff (options : Options) (stmts : List Stmt) (e : CompileError) :
    (compile options stmts).module = .error e ↔ EntryFault stmts e := by
  cases hvectors : EntryPoints.resolve stmts (Layout.ofStmts stmts) with
  | error e' =>
    obtain ⟨v, hfails, hfirst⟩ := EntryPoints.resolve_eq_error_iff.mp hvectors
    have hmodule : (compile options stmts).module = .error e' := by
      rw [module_compile, hvectors]
    rw [hmodule, Except.error.injEq]
    constructor
    · rintro rfl
      exact .noLabel hfails hfirst
    · intro h
      cases h with
      | noLabel h first =>
        exact Except.error.inj
          (hvectors.symm.trans (EntryPoints.resolve_eq_error_iff.mpr ⟨_, h, first⟩))
      | noCode labels _ _ _ =>
        obtain ⟨label, hlabel⟩ := labels v
        cases (EntryVector.resolve_eq_ok_of_leads hlabel).symm.trans
          (EntryVector.resolve_eq_error_of_fails hfails)
  | ok entries =>
    have hleads := EntryPoints.resolve_eq_ok_iff.mp hvectors
    -- no vector leads to another label
    have hget : ∀ {v : EntryVector} {label : String}, v.Leads stmts label →
        entries.get v = label := by
      intro v label h
      exact Except.ok.inj ((EntryVector.resolve_eq_ok_of_leads (hleads v)).symm.trans
        (EntryVector.resolve_eq_ok_of_leads h))
    rw [module_compile_eq_error_iff_of_resolve hvectors]
    constructor
    · rintro ⟨v, ⟨hlabel, rfl⟩, hfirst⟩
      exact .noCode (fun u => ⟨_, hleads u⟩) (hleads v) hlabel
        fun u hu => ⟨_, hfirst u hu, hleads u⟩
    · intro h
      cases h with
      | noLabel h _ =>
        cases (EntryVector.resolve_eq_ok_of_leads (hleads _)).symm.trans
          (EntryVector.resolve_eq_error_of_fails h)
      | @noCode v label _ h hlabel first =>
        refine ⟨v, ⟨hget h ▸ hlabel, rfl⟩, fun u hu => ?_⟩
        obtain ⟨label, hmem, hu⟩ := first u hu
        exact hget hu ▸ hmem

/-- **Which programs become modules, and what the others fail with.** The options have no part
in it. -/
theorem outcome_compile (options : Options) (stmts : List Stmt) :
    (∀ e, (compile options stmts).module = .error e ↔ EntryFault stmts e) ∧
      ((∃ m, (compile options stmts).module = .ok m) ↔
        ∀ v : EntryVector, ∃ label ∈ codeLabels stmts, v.Leads stmts label) :=
  ⟨module_compile_eq_error_iff options stmts, exists_module_iff options stmts⟩

end Mos6502
