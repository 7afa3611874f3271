import Mos6502.Proofs.Compilation
import Mathlib.Data.List.Forall2

/-!
# Letter case

Mnemonics and the names of index registers are written in any case. Two programs that differ in
nothing else have the same layout and become the same module, and their diagnostics are the same
up to the mnemonics that they quote.

To compare two runs, each is compared with a third one: `lowercase` writes a program in small
letters, and every part of a compilation commutes with it. The parts that see no mnemonic do not
notice; the others look a mnemonic or a register up in small letters anyway. So there is one lemma
for each function between a text and its module, and none of them mentions two programs.

## Main definitions

* `Stmt.lowercase` — a statement with its mnemonic and its register in small letters
* `AsmError.lowercase`, `Warning.lowercase` — a diagnostic with the mnemonic it quotes in small
  letters

## Main results

* `Instr.select_lowercase`, `Layout.ofStmts_lowercase` — selection and layout
* `CodeSection.ofSegments_lowercase` — code
* `compile_lowercase` — a whole compilation
* `compile_of_sameUpToCase`
-/

namespace Mos6502

open IR

/-! ### Programs in small letters -/

/-- A name in small letters, at its place. -/
def Spanned.lowercase (x : Spanned String) : Spanned String :=
  ⟨Text.lowercase x.val, x.span⟩

/-- The operand with its register in small letters. Labels and variables keep their case. -/
def Operand.lowercase : Operand → Operand
  | indexed a r => indexed a r.lowercase
  | labelIndexed n r => labelIndexed n r.lowercase
  | indirectX a r => indirectX a r.lowercase
  | indirectY a r => indirectY a r.lowercase
  | o => o

/-- The instruction with its mnemonic and its register in small letters. -/
def Instr.lowercase (i : Instr) : Instr :=
  ⟨i.mnemonic.lowercase, i.operand.lowercase⟩

/-- What a statement says, with mnemonic and register in small letters. -/
def Node.lowercase : Node → Node
  | instr i => instr i.lowercase
  | n => n

/-- The statement with its mnemonic and its register in small letters. -/
def Stmt.lowercase (s : Stmt) : Stmt :=
  ⟨s.line, s.span, s.node.lowercase⟩

/-- The fault with the mnemonic it quotes in small letters. -/
def Fault.lowercase : Fault → Fault
  | unknownInstruction mnemonic mode => unknownInstruction (Text.lowercase mnemonic) mode
  | notLowered shape mnemonic => notLowered shape (Text.lowercase mnemonic)
  | f => f

/-- The caution with the mnemonic it quotes in small letters. -/
def Caution.lowercase : Caution → Caution
  | unreachableCode mnemonic => unreachableCode (Text.lowercase mnemonic)
  | c => c

/-- The error with the mnemonic it quotes in small letters. -/
def AsmError.lowercase (e : AsmError) : AsmError :=
  ⟨e.line, e.span, e.cause.lowercase⟩

/-- The warning with the mnemonic it quotes in small letters. -/
def Warning.lowercase (w : Warning) : Warning :=
  ⟨w.line, w.span, w.cause.lowercase⟩

@[simp] theorem Text.lowercase_lowercase (s : String) :
    lowercase (lowercase s) = lowercase s := by
  simp [lowercase, Function.comp_def]

@[simp] theorem Operand.shape_lowercase (o : Operand) : o.lowercase.shape = o.shape := by
  cases o <;> rfl

/-! ### Selection -/

/-- What steps do with their errors changed is what each does with its errors changed. -/
theorem mapError_bind {ε ε' α β : Type} (g : ε → ε') (x : Except ε α) (f : α → Except ε β) :
    (x >>= f).mapError g = x.mapError g >>= fun a => (f a).mapError g := by
  cases x <;> rfl

@[simp] theorem IndexRegister.ofName?_lowercase (name : String) :
    ofName? (Text.lowercase name) = ofName? name := by
  simp [ofName?]

namespace Select

theorem firstOf_lowercase (line : Nat) (mnemonic : Spanned String) (modes : List AddressingMode)
    (report : AddressingMode) :
    firstOf line mnemonic.lowercase modes report =
      (firstOf line mnemonic modes report).mapError AsmError.lowercase := by
  simp only [firstOf, Spanned.lowercase, Text.lowercase_lowercase]
  cases modes.findSome? (encodingIn? (Text.lowercase mnemonic.val)) <;> rfl

theorem checkNumber_lowercase (line : Nat) (span : Span) (max value : UInt32) :
    (checkNumber line span max value).mapError AsmError.lowercase =
      checkNumber line span max value := by
  unfold checkNumber
  split <;> rfl

theorem checkExpr_lowercase (line : Nat) (span : Span) (max : UInt32) (e : Expr) :
    (checkExpr line span max e).mapError AsmError.lowercase = checkExpr line span max e := by
  cases e with
  | int value => exact checkNumber_lowercase line span max value
  | name => rfl

theorem anyRegister_lowercase (line : Nat) (register : Spanned String) :
    anyRegister line register.lowercase =
      (anyRegister line register).mapError AsmError.lowercase := by
  simp only [anyRegister, Spanned.lowercase, IndexRegister.ofName?_lowercase]
  cases IndexRegister.ofName? register.val <;> rfl

theorem expectRegister_lowercase (line : Nat) (register : Spanned String)
    (expected : IndexRegister) :
    expectRegister line register.lowercase expected =
      (expectRegister line register expected).mapError AsmError.lowercase := by
  simp only [expectRegister, Spanned.lowercase, IndexRegister.ofName?_lowercase]
  split <;> rfl

end Select

open Select in
/-- **Selection does not depend on letter case.** -/
theorem Instr.select_lowercase (line : Nat) (span : Span) (i : Instr) :
    i.lowercase.select line span = (i.select line span).mapError AsmError.lowercase := by
  obtain ⟨mnemonic, operand⟩ := i
  have hpure : ∀ e : Encoding, (pure e : Except AsmError Encoding).mapError AsmError.lowercase =
      pure e := fun _ => rfl
  cases operand <;>
    simp only [select, lowercase, Operand.lowercase, mapError_bind, firstOf_lowercase,
      checkNumber_lowercase, checkExpr_lowercase, anyRegister_lowercase, expectRegister_lowercase,
      hpure]

/-! ### Layout -/

/-- The encoded instruction in small letters. -/
def Encoded.lowercase (e : Encoded) : Encoded :=
  ⟨e.stmt.lowercase, e.address, e.encoding⟩

/-- The layout of a program, with the program in small letters. -/
def Layout.lowercase (l : Layout) : Layout :=
  { l with
    instructions := l.instructions.map Encoded.lowercase
    errors := l.errors.map AsmError.lowercase }

/-- The placed statement in small letters. -/
def Placed.lowercase (p : Placed) : Placed :=
  ⟨p.stmt.lowercase, p.address⟩

namespace Layout

theorem visit_lowercase (l : Layout) (s : Stmt) :
    l.lowercase.visit s.lowercase = (l.visit s).lowercase := by
  obtain ⟨line, span, node⟩ := s
  cases node with
  | assign | org | data => rfl
  | label name =>
    simp only [visit, Stmt.lowercase, Node.lowercase]
    by_cases h : l.labels.contains name = true
    · simp [lowercase, h, skip, AsmError.lowercase, Fault.lowercase]
    · simp [lowercase, h, skip]
  | instr i =>
    simp only [visit, Stmt.lowercase, Node.lowercase, Instr.select_lowercase]
    cases i.select line span with
    | ok e => simp [Except.mapError, lowercase, occupy, Encoded.lowercase, Stmt.lowercase,
        Node.lowercase]
    | error e => simp [Except.mapError, lowercase, skip]

/-- **Layout does not depend on letter case.** -/
theorem ofStmts_lowercase (stmts : List Stmt) :
    ofStmts (stmts.map Stmt.lowercase) = (ofStmts stmts).lowercase := by
  induction stmts using List.reverseRecOn with
  | nil => rfl
  | append_singleton stmts s ih =>
    rw [List.map_append, List.map_singleton, ofStmts_concat, ofStmts_concat, ih, visit_lowercase]

theorem place_lowercase (l : Layout) (stmts : List Stmt) :
    l.lowercase.place (stmts.map Stmt.lowercase) = (l.place stmts).map Placed.lowercase := by
  simp [place, lowercase, List.zipWith_map_left, List.map_zipWith, Placed.lowercase]

end Layout

/-! ### Data and entry points -/

/-- The data of a program, with the diagnostics in small letters. -/
def DataSection.lowercase (d : DataSection) : DataSection :=
  { d with
    errors := d.errors.map AsmError.lowercase
    warnings := d.warnings.map Warning.lowercase }

namespace DataSection

theorem append_lowercase (d e : DataSection) :
    (append d e).lowercase = append d.lowercase e.lowercase := by
  simp [append, lowercase]

theorem close_lowercase (buffer : Option (String × List UInt8)) :
    (close buffer).lowercase = close buffer := by
  unfold close
  repeat' split
  all_goals rfl

/-- The faults of data quote no mnemonic. -/
theorem contribution_lowercase (line : Nat) (items : List (Spanned Datum)) :
    (contribution line items).2.map AsmError.lowercase = (contribution line items).2 := by
  induction items with
  | nil => rfl
  | cons item items ih =>
    obtain ⟨value, span⟩ := item
    cases value with
    | int n =>
      by_cases hn : n ≤ 0xff
      · simp [contribution, hn, ih]
      · simp [contribution, hn, AsmError.lowercase, Fault.lowercase]
    | str s => simpa [contribution] using ih
    | label name => rfl

/-- The data walk sees no mnemonic. -/
theorem scan_lowercase (buffer : Option (String × List UInt8)) (placed : List Placed) :
    scan buffer (placed.map Placed.lowercase) = (scan buffer placed).lowercase := by
  induction placed generalizing buffer with
  | nil => exact (close_lowercase buffer).symm
  | cons p rest ih =>
    obtain ⟨⟨line, span, node⟩, address⟩ := p
    cases node with
    | label | assign | org | instr =>
      simp [scan, Placed.lowercase, Stmt.lowercase, Node.lowercase, ih, append_lowercase,
        close_lowercase]
    | data width items =>
      cases width with
      | word =>
        simp [scan, Placed.lowercase, Stmt.lowercase, Node.lowercase, ih, append_lowercase,
          close_lowercase]
      | byte =>
        cases buffer with
        | none =>
          have htrashed : ∀ w : UInt32,
              ({ warnings := [⟨line, span, .trashedData w⟩] } : DataSection).lowercase =
                { warnings := [⟨line, span, .trashedData w⟩] } := fun _ => rfl
          simp [scan, Placed.lowercase, Stmt.lowercase, Node.lowercase, ih, append_lowercase,
            htrashed]
        | some owner =>
          have herror : ({ errors := (contribution line items).2.toList } : DataSection).lowercase =
              { errors := (contribution line items).2.toList } := by
            simp only [lowercase, ← Option.toList_map, contribution_lowercase, List.map_nil]
          simp [scan, Placed.lowercase, Stmt.lowercase, Node.lowercase, ih, append_lowercase,
            herror]

theorem ofPlaced_lowercase (placed : List Placed) :
    ofPlaced (placed.map Placed.lowercase) = (ofPlaced placed).lowercase :=
  scan_lowercase none placed

theorem owns_lowercase (d : DataSection) : d.lowercase.owns = d.owns :=
  rfl

end DataSection

theorem EntryVector.labelOf_lowercase (v : EntryVector) (s : Stmt) :
    v.labelOf s.lowercase = v.labelOf s := by
  obtain ⟨line, span, node⟩ := s
  cases node <;> rfl

theorem EntryVector.resolve_lowercase (v : EntryVector) (stmts : List Stmt) (l : Layout) :
    v.resolve (stmts.map Stmt.lowercase) l.lowercase = v.resolve stmts l := by
  have hfind : (l.offsets.get? v.address).bind ((stmts.map Stmt.lowercase)[·]?) =
      ((l.offsets.get? v.address).bind (stmts[·]?)).map Stmt.lowercase := by
    cases l.offsets.get? v.address <;> simp
  rw [resolve, Layout.lowercase, hfind, resolve]
  cases (l.offsets.get? v.address).bind (stmts[·]?) with
  | none => rfl
  | some s => exact v.labelOf_lowercase s

theorem EntryPoints.resolve_lowercase (stmts : List Stmt) (l : Layout) :
    resolve (stmts.map Stmt.lowercase) l.lowercase = resolve stmts l := by
  simp only [resolve, EntryVector.resolve_lowercase]

/-! ### Code -/

/-- The instruction at its place, in small letters. -/
def CodeLine.lowercase (c : CodeLine) : CodeLine :=
  ⟨c.line, c.span, c.instr.lowercase⟩

/-- The segment with its code in small letters. -/
def Segment.lowercase (s : Segment) : Segment :=
  ⟨s.label, s.body.map CodeLine.lowercase⟩

/-- What code becomes, with the diagnostics in small letters. -/
def CodeSection.lowercase (c : CodeSection) : CodeSection :=
  { c with
    errors := c.errors.map AsmError.lowercase
    warnings := c.warnings.map Warning.lowercase }

theorem Segment.split_lowercase (ownsData : String → Bool) (placed : List Placed) :
    split ownsData (placed.map Placed.lowercase) =
      ((split ownsData placed).1.map CodeLine.lowercase,
        (split ownsData placed).2.map lowercase) := by
  induction placed with
  | nil => rfl
  | cons p rest ih =>
    obtain ⟨⟨line, span, node⟩, address⟩ := p
    cases node with
    | label name =>
      by_cases h : ownsData name = true <;>
        simp [split, Placed.lowercase, Stmt.lowercase, Node.lowercase, ih, h, lowercase]
    | instr i =>
      cases address <;>
        simp [split, Placed.lowercase, Stmt.lowercase, Node.lowercase, ih, CodeLine.lowercase]
    | assign | org | data =>
      simp [split, Placed.lowercase, Stmt.lowercase, Node.lowercase, ih]

theorem Rule.of?_lowercase (i : Instr) : of? i.lowercase = of? i := by
  simp [of?, Instr.lowercase, Spanned.lowercase]

theorem Rule.lower_lowercase (vars : Bindings String UInt32) (i : Instr) (rule : Rule) :
    rule.lower vars i.lowercase = (rule.lower vars i).mapError Fault.lowercase := by
  cases rule with
  | transfer | step | nop => rfl
  | loadImmediate reg =>
    obtain ⟨mnemonic, operand⟩ := i
    cases operand with
    | immediate e =>
      have hbyte : (immediateByte vars e).mapError Fault.lowercase = immediateByte vars e := by
        cases e with
        | int n =>
          simp only [immediateByte]
          by_cases h : n ≤ 0xff <;> simp [h, bind, Except.bind, Except.mapError, Fault.lowercase]
        | name s =>
          cases hs : vars.get? s with
          | none => simp [immediateByte, hs, bind, Except.bind, Except.mapError, Fault.lowercase]
          | some n =>
            by_cases h : n ≤ 0xff <;>
              simp [immediateByte, hs, h, bind, Except.bind, Except.mapError, Fault.lowercase]
      simp only [lower, Instr.lowercase, Operand.lowercase, mapError_bind, hbyte]
      rfl
    | _ => rfl

namespace CodeLine

theorem notLowered_lowercase (c : CodeLine) :
    c.lowercase.notLowered = c.notLowered.lowercase := by
  simp [notLowered, lowercase, Instr.lowercase, AsmError.lowercase, Fault.lowercase,
    Spanned.lowercase]

theorem idle_lowercase (c : CodeLine) :
    c.lowercase.idle = (c.idle.1.map AsmError.lowercase, c.idle.2.map Warning.lowercase) := by
  simp only [idle, lowercase, Rule.of?_lowercase]
  cases Rule.of? c.instr with
  | none => exact congrArg (fun e => ([e], [])) c.notLowered_lowercase
  | some => rfl

theorem lower_lowercase (vars : Bindings String UInt32) (d : Draft) (c : CodeLine) :
    c.lowercase.lower vars d = ((c.lower vars d).1, (c.lower vars d).2.map AsmError.lowercase) := by
  simp only [lower, lowercase, Rule.of?_lowercase]
  cases Rule.of? c.instr with
  | none => exact congrArg (fun e => (d, [e])) c.notLowered_lowercase
  | some rule =>
    simp only [Rule.lower_lowercase]
    cases rule.lower vars c.instr <;> rfl

theorem lowerAll_lowercase (vars : Bindings String UInt32) (d : Draft) (cs : List CodeLine) :
    lowerAll vars d (cs.map lowercase) =
      ((lowerAll vars d cs).1, (lowerAll vars d cs).2.map AsmError.lowercase) := by
  induction cs generalizing d with
  | nil => rfl
  | cons c cs ih => simp [lowerAll, lower_lowercase, ih]

end CodeLine

theorem Segment.draft_lowercase (vars : Bindings String UInt32) (locals : List Local)
    (isHandler : Bool) (s : Segment) :
    s.lowercase.draft vars locals isHandler =
      ((s.draft vars locals isHandler).1,
        (s.draft vars locals isHandler).2.map AsmError.lowercase) := by
  cases isHandler with
  | true => simp [draft, lowercase, List.flatMap_map, List.map_flatMap, CodeLine.idle_lowercase]
  | false => exact CodeLine.lowerAll_lowercase vars ⟨locals, []⟩ s.body

namespace CodeSection

theorem idle_lowercase (locals : List Local) (code : List CodeLine) :
    idle locals (code.map CodeLine.lowercase) = (idle locals code).lowercase := by
  simp [idle, lowercase, List.flatMap_map, List.map_flatMap, CodeLine.idle_lowercase]

/-- **Code does not depend on letter case.** -/
theorem ofSegments_lowercase (vars : Bindings String UInt32) (entries : EntryPoints)
    (labels names : List String) (locals : List Local) (index : Nat) (segments : List Segment) :
    ofSegments vars entries labels names locals index (segments.map Segment.lowercase) =
      (ofSegments vars entries labels names locals index segments).lowercase := by
  induction segments generalizing labels names locals index with
  | nil => rfl
  | cons s rest ih =>
    have hwarnings : ∀ isHandler : Bool,
        (if isHandler then s.lowercase.body.flatMap fun c => c.idle.2 else []) =
          (if isHandler then s.body.flatMap fun c => c.idle.2 else []).map Warning.lowercase := by
      intro isHandler
      cases isHandler with
      | true =>
        simp [Segment.lowercase, List.flatMap_map, List.map_flatMap, CodeLine.idle_lowercase]
      | false => rfl
    have hhandler : isHandlerAfter entries labels s.lowercase = isHandlerAfter entries labels s :=
      rfl
    have hentry : isEntryAfter entries labels s.lowercase = isEntryAfter entries labels s := rfl
    have hlabel : s.lowercase.label = s.label := rfl
    rw [List.map_cons, ofSegments_cons, ofSegments_cons]
    simp only [hhandler, hentry, hlabel, hwarnings, Segment.draft_lowercase, ih, lowercase,
      List.map_append, List.isEmpty_map]

end CodeSection

theorem blockOf?_lowercase (segments : List Segment) (label : String) :
    blockOf? (segments.map Segment.lowercase) label = blockOf? segments label := by
  rw [blockOf?, List.findIdx?_map]
  rfl

/-- A module is made of the constants of the data, and of the blocks and the locals of the code. -/
theorem assemble_lowercase (options : Options) (data : DataSection) (entries : EntryPoints)
    (segments : List Segment) (code : CodeSection) :
    assemble options data.lowercase entries (segments.map Segment.lowercase) code.lowercase =
      assemble options data entries segments code := by
  simp only [assemble, entryBlock, blockOf?_lowercase]
  rfl

/-! ### Whole programs -/

/-- The outcome of a compilation, with the diagnostics in small letters. -/
def Output.lowercase (o : Output) : Output :=
  { o with
    warnings := o.warnings.map Warning.lowercase
    errors := o.errors.map AsmError.lowercase }

/-- **A compilation does not depend on letter case**, but for the mnemonics that it quotes. -/
theorem compile_lowercase (options : Options) (stmts : List Stmt) :
    compile options (stmts.map Stmt.lowercase) = (compile options stmts).lowercase := by
  simp only [compile, Layout.ofStmts_lowercase, Layout.place_lowercase,
    DataSection.ofPlaced_lowercase, DataSection.owns_lowercase, EntryPoints.resolve_lowercase,
    Segment.split_lowercase]
  cases EntryPoints.resolve stmts (Layout.ofStmts stmts) with
  | error e => simp [Output.lowercase, Layout.lowercase, DataSection.lowercase]
  | ok entries =>
    have hvars : (Layout.ofStmts stmts).lowercase.vars = (Layout.ofStmts stmts).vars := rfl
    simp only [hvars, CodeSection.ofSegments_lowercase, CodeSection.idle_lowercase,
      assemble_lowercase]
    simp [Output.lowercase, Layout.lowercase, DataSection.lowercase, CodeSection.lowercase]

/-! ### Two programs -/

/-- The programs differ at most in the case of mnemonics and register names. -/
def SameUpToCase (stmts stmts' : List Stmt) : Prop :=
  stmts.map Stmt.lowercase = stmts'.map Stmt.lowercase

instance (stmts stmts' : List Stmt) : Decidable (SameUpToCase stmts stmts') :=
  inferInstanceAs (Decidable (_ = _))

/-- The diagnostics are about the same line and span, and their causes differ at most in what
`lower` removes. -/
def Located.Alike {κ : Type} (lower : κ → κ) (d d' : Located κ) : Prop :=
  d.line = d'.line ∧ d.span = d'.span ∧ lower d.cause = lower d'.cause

theorem forall₂_alike {κ : Type} {lower : κ → κ} {ds ds' : List (Located κ)}
    (h : ds.map (fun d => (⟨d.line, d.span, lower d.cause⟩ : Located κ)) =
      ds'.map fun d => ⟨d.line, d.span, lower d.cause⟩) :
    List.Forall₂ (Located.Alike lower) ds ds' := by
  rw [← List.forall₂_eq_eq_eq, List.forall₂_map_left_iff, List.forall₂_map_right_iff] at h
  refine h.imp fun d d' hd => ?_
  obtain ⟨hline, hspan, hcause⟩ := Located.mk.inj hd
  exact ⟨hline, hspan, hcause⟩

/-- **Mnemonics and registers are written in any case.** Programs that differ in nothing else have
the same layout and become the same module, or none for the same reason, and what is reported of
them differs at most in the case of the mnemonics that are quoted. -/
theorem compile_of_sameUpToCase (options : Options) {stmts stmts' : List Stmt}
    (h : SameUpToCase stmts stmts') :
    (Layout.ofStmts stmts).vars = (Layout.ofStmts stmts').vars ∧
    (Layout.ofStmts stmts).labels = (Layout.ofStmts stmts').labels ∧
    (Layout.ofStmts stmts).addresses = (Layout.ofStmts stmts').addresses ∧
    (Layout.ofStmts stmts).offsets = (Layout.ofStmts stmts').offsets ∧
    (Layout.ofStmts stmts).instructions.map (fun e => (e.address, e.encoding)) =
      (Layout.ofStmts stmts').instructions.map (fun e => (e.address, e.encoding)) ∧
    (compile options stmts).module = (compile options stmts').module ∧
    List.Forall₂ (Located.Alike Fault.lowercase) (compile options stmts).errors
      (compile options stmts').errors ∧
    List.Forall₂ (Located.Alike Caution.lowercase) (compile options stmts).warnings
      (compile options stmts').warnings := by
  have hlayout : (Layout.ofStmts stmts).lowercase = (Layout.ofStmts stmts').lowercase := by
    rw [← Layout.ofStmts_lowercase, ← Layout.ofStmts_lowercase, h]
  have houtput : (compile options stmts).lowercase = (compile options stmts').lowercase := by
    rw [← compile_lowercase, ← compile_lowercase, h]
  have hinstructions : ∀ l : Layout, l.instructions.map (fun e => (e.address, e.encoding)) =
      l.lowercase.instructions.map fun e => (e.address, e.encoding) := by
    intro l
    simp [Layout.lowercase, Encoded.lowercase]
  refine ⟨congrArg (·.vars) hlayout, congrArg (·.labels) hlayout, congrArg (·.addresses) hlayout,
    congrArg (·.offsets) hlayout, ?_, congrArg (·.module) houtput,
    forall₂_alike (congrArg (·.errors) houtput), forall₂_alike (congrArg (·.warnings) houtput)⟩
  rw [hinstructions, hlayout, ← hinstructions]

/-- A program with a load, a step, an instruction that is not lowered, one that cannot be encoded
and one that is unreachable, in the given spelling. -/
def spelled (lda inx sta foo register : String) : List Stmt :=
  ([.label "reset", (Operand.immediate (.int 1)).instr lda, Operand.implied.instr inx,
    (Operand.indexed 16 ⟨register, ⟨0, 0⟩⟩).instr sta, Operand.implied.instr foo,
    .label "handler", Operand.implied.instr inx] ++
      vectors "handler" "reset" "handler").map Node.stmt

theorem compile_of_sameUpToCase_spelled :
    SameUpToCase (spelled "LDA" "InX" "STA" "Foo" "X") (spelled "lda" "inx" "sta" "foo" "x") ∧
      (compile {} (spelled "LDA" "InX" "STA" "Foo" "X")).module.isOk = true ∧
      (compile {} (spelled "LDA" "InX" "STA" "Foo" "X")).module =
        (compile {} (spelled "lda" "inx" "sta" "foo" "x")).module ∧
      (compile {} (spelled "LDA" "InX" "STA" "Foo" "X")).errors.map Located.cause =
        [.unknownInstruction "Foo" .implied, .notLowered .indexed "STA"] ∧
      (compile {} (spelled "lda" "inx" "sta" "foo" "x")).errors.map Located.cause =
        [.unknownInstruction "foo" .implied, .notLowered .indexed "sta"] := by
  have hcase : SameUpToCase (spelled "LDA" "InX" "STA" "Foo" "X")
      (spelled "lda" "inx" "sta" "foo" "x") := by decide
  obtain ⟨-, -, -, -, -, hmodule, -, -⟩ := compile_of_sameUpToCase {} hcase
  exact ⟨hcase, by decide, hmodule, by decide, by decide⟩

end Mos6502
