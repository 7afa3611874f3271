import Mos6502.Proofs.EntryVectors
import Mos6502.Proofs.Findings

/-!
# No instruction is dropped silently

Code is lowered segment by segment, and the segments are cut out of the text beforehand. Seen from
the text, all of this is one walk with a cursor: `accounts` goes over the statements of a program
once, remembers the labels of code so far and how many locals there are, and says of each
instruction that could be encoded what becomes of it. There are three possibilities, and the order
in which they are decided matters. An instruction without a rule is refused, wherever it stands.
One with a rule is unreachable if no block is open. What is left to go wrong is the variable of a
load; such an instruction is refused as a whole, so nothing of it is left in the block.

The walk and the lowering are compared by one induction over the statements. It takes in the
draft of the block that is open, so that a statement of the text is one step on both sides.

## Main definitions

* `CodeLine.fate` — what becomes of an instruction
* `accountsOf` — the fates of all instructions of a program

## Main results

* `map_line_accounts` — each encoded instruction has one account
* `lower_accounts` — the accounts tell all diagnostics and all blocks of the code
* `diagnostics_compile`
-/

namespace Mos6502

open IR

/-! ### What becomes of an instruction -/

/-- What becomes of an instruction. -/
inductive Fate where
  | refused (error : AsmError)
  | unreachable (warning : Warning)
  | lowered (code : List Inst)
deriving DecidableEq

namespace Fate

/-- The error that is reported. -/
def error? : Fate → Option AsmError
  | refused e => some e
  | _ => none

/-- The warning that is reported. -/
def warning? : Fate → Option Warning
  | unreachable w => some w
  | _ => none

/-- What is appended to the open block. -/
def code : Fate → List Inst
  | lowered code => code
  | _ => []

end Fate

/-- What becomes of an instruction, where `next` is the number of the next local. -/
def CodeLine.fate (vars : String → Option UInt32) (isOpen : Bool) (next : Nat) (c : CodeLine) :
    Fate :=
  match Rule.of? c.instr with
  | none => .refused c.notLowered
  | some rule =>
    if !isOpen then .unreachable ⟨c.line, c.span, .unreachableCode c.instr.mnemonic.val⟩
    else
      match c.instr.operand with
      | .immediate (.int n) => .lowered (rule.code next n.toUInt8)
      | .immediate (.name name) =>
        match vars name with
        | none => .refused ⟨c.line, c.span, .undefinedVariable name⟩
        | some n =>
          if n ≤ 0xff then .lowered (rule.code next n.toUInt8)
          else .refused ⟨c.line, c.span, .outOfRange n 0xff⟩
      | _ => .lowered (rule.code next 0)

/-- The instruction of a statement, if it can be encoded. -/
def Stmt.codeLine? (s : Stmt) : Option CodeLine :=
  match s.node with
  | .instr i => if (i.select s.line s.span).isOk then some ⟨s.line, s.span, i⟩ else none
  | _ => none

/-- An instruction, the number of the last block before it, and what becomes of it. -/
structure Account where
  line : CodeLine
  block : Nat
  fate : Fate
deriving DecidableEq

/-- Is a block open after these labels of code, the latest first? There is one unless the latest
is the first label of a handler. -/
def isOpenAfter (entries : EntryPoints) : List String → Bool
  | [] => false
  | label :: labels => labels.contains label || !entries.isHandler label

/-- The accounts of the statements that are left, after the given labels of code and with `next`
as the next local. -/
def accounts (entries : EntryPoints) (ownsData : String → Bool) (vars : String → Option UInt32)
    (labels : List String) (next : Nat) : List Stmt → List Account
  | [] => []
  | s :: rest =>
    match s.node, s.codeLine? with
    | .label name, _ =>
      accounts entries ownsData vars (if ownsData name then labels else name :: labels) next rest
    | _, some c =>
      let fate := c.fate vars (isOpenAfter entries labels) next
      ⟨c, labels.length, fate⟩ ::
        accounts entries ownsData vars labels (next + (dests fate.code).length) rest
    | _, none => accounts entries ownsData vars labels next rest

/-- The accounts of all instructions of a program. -/
def accountsOf (entries : EntryPoints) (stmts : List Stmt) : List Account :=
  accounts entries (dataOf stmts).owns (lastAssigned stmts) [] slots.length stmts

/-- What accounts say of the code in a block. -/
def codeIn (n : Nat) (accounts : List Account) : List Inst :=
  (accounts.filter fun a => a.block == n).flatMap fun a => a.fate.code

section

variable (entries : EntryPoints) (ownsData : String → Bool) (vars : String → Option UInt32)

/-- Each encoded instruction has one account, in the order of the text. -/
theorem map_line_accounts (stmts : List Stmt) (labels : List String) (next : Nat) :
    (accounts entries ownsData vars labels next stmts).map Account.line =
      stmts.filterMap Stmt.codeLine? := by
  induction stmts generalizing labels next with
  | nil => rfl
  | cons s rest ih =>
    obtain ⟨line, span, node⟩ := s
    cases node with
    | label | assign | org | data => exact ih _ _
    | instr i =>
      by_cases h : (i.select line span).isOk <;>
        simp [accounts, Stmt.codeLine?, h, ih]

/-- Accounts belong to the last block so far or to a later one. -/
theorem length_le_block (stmts : List Stmt) (labels : List String) (next : Nat) :
    ∀ a ∈ accounts entries ownsData vars labels next stmts, labels.length ≤ a.block := by
  induction stmts generalizing labels next with
  | nil => simp [accounts]
  | cons s rest ih =>
    obtain ⟨line, span, node⟩ := s
    cases node with
    | assign | org | data => exact ih _ _
    | label name =>
      intro a ha
      refine Nat.le_trans ?_ (ih _ _ a ha)
      split
      · exact Nat.le_refl _
      · exact Nat.le_succ _
    | instr i =>
      by_cases h : (i.select line span).isOk
      · simp only [accounts, Stmt.codeLine?, h, if_true, List.forall_mem_cons]
        exact ⟨Nat.le_refl _, ih _ _⟩
      · simpa [accounts, Stmt.codeLine?, h] using ih labels next

end

theorem codeIn_eq_nil {n : Nat} {accounts : List Account} (h : ∀ a ∈ accounts, n < a.block) :
    codeIn n accounts = [] := by
  rw [codeIn, List.filter_eq_nil_iff.mpr, List.flatMap_nil]
  intro a ha
  simpa using Nat.ne_of_gt (h a ha)

/-! ### One instruction -/

/-- An encoded instruction with a number has one that fits into a byte. -/
theorem le_of_select {line : Nat} {span : Span} {i : Instr} {n : UInt32}
    (hselect : (i.select line span).isOk) (hoperand : i.operand = .immediate (.int n)) :
    n ≤ 0xff := by
  by_contra hn
  rw [Instr.select, hoperand] at hselect
  cases hfirst : Select.firstOf line i.mnemonic [.immediate] .immediate <;>
    simp [hfirst, Select.checkExpr, Select.checkNumber, hn, bind, Except.bind, Except.isOk,
      Except.toBool] at hselect

namespace Rule

theorem length_temps (rule : Rule) (n : Nat) (k : UInt8) :
    (rule.temps n).length = (dests (rule.code n k)).length := by
  cases rule <;> rfl

/-- The rules of instructions with a constant are the loads. -/
theorem of?_eq_loadImmediate_iff {i : Instr} {rule : Rule} (hrule : Rule.of? i = some rule) :
    (∃ e, i.operand = .immediate e) ↔ ∃ r, rule = loadImmediate r := by
  obtain ⟨mnemonic, operand⟩ := i
  obtain ⟨before, after, htable, -⟩ := List.lookup_eq_some_iff.mp hrule
  have hmem : (Text.lowercase mnemonic.val, rule) ∈ table operand.shape := by
    rw [htable]
    simp
  cases operand with
  | implied | immediate =>
    simp only [Operand.shape, table, List.mem_cons, Prod.mk.injEq, List.not_mem_nil, or_false]
      at hmem
    aesop
  | direct | label | indexed | labelIndexed | indirectX | indirectY | indirect => cases hmem

end Rule

namespace CodeLine

section

variable {vars : Bindings String UInt32} {c : CodeLine} {rule : Rule} {next : Nat}

/-- A load is lowered if its constant is a byte, and refused if not. -/
theorem fate_of_immediate (hrule : Rule.of? c.instr = some rule) {e : Expr}
    (he : c.instr.operand = .immediate e) (hc : (c.instr.select c.line c.span).isOk) :
    c.fate vars.get? true next =
      match Rule.immediateByte vars e with
      | .ok k => .lowered (rule.code next k)
      | .error fault => .refused ⟨c.line, c.span, fault⟩ := by
  cases e with
  | int n =>
    have hn := le_of_select hc he
    simp [fate, hrule, he, Rule.immediateByte, hn, bind, Except.bind]
  | name name =>
    cases hname : vars.get? name with
    | none => simp [fate, hrule, he, Rule.immediateByte, hname, bind, Except.bind]
    | some n =>
      by_cases hn : n ≤ 0xff <;>
        simp [fate, hrule, he, Rule.immediateByte, hname, hn, bind, Except.bind]

/-- Everything else with a rule is lowered. -/
theorem fate_of_ne_immediate (hrule : Rule.of? c.instr = some rule)
    (he : ∀ e, c.instr.operand ≠ .immediate e) :
    c.fate vars.get? true next = .lowered (rule.code next 0) := by
  rw [fate, hrule]
  cases hoperand : c.instr.operand with
  | immediate e => exact absurd hoperand (he e)
  | _ => rfl

/-- What is reported of an instruction that no open block can take. -/
theorem idle_eq_fate (vars : String → Option UInt32) (next : Nat) (c : CodeLine) :
    (c.fate vars false next).code = [] ∧
      c.idle = ((c.fate vars false next).error?.toList,
        (c.fate vars false next).warning?.toList) := by
  unfold fate idle
  cases Rule.of? c.instr <;> exact ⟨rfl, rfl⟩

/-- An open block takes an instruction in as its fate says. The locals that its code defines are
new. -/
def Takes (vars : Bindings String UInt32) (d : Draft) (c : CodeLine) (fate : Fate) : Prop :=
  ∃ new, new.length = (dests fate.code).length ∧ fate.warning? = none ∧
    c.lower vars d = (⟨d.locals ++ new, d.insts ++ fate.code⟩, fate.error?.toList)

theorem takes_refused {d : Draft} {e : AsmError} (h : c.lower vars d = (d, [e])) :
    Takes vars d c (.refused e) := by
  refine ⟨[], rfl, rfl, ?_⟩
  simp only [h, Fate.code, List.append_nil]
  rfl

/-- A rule that gives steps is taken in as its code, whatever constant is in it that its
instruction admits. -/
theorem takes_lowered {d : Draft} {steps : Build Unit} {k : UInt8}
    (hrule : Rule.of? c.instr = some rule) (hsteps : rule.lower vars c.instr = .ok steps)
    (hk : ∀ k', rule.Constant vars c.instr k' →
      rule.code d.locals.length k' = rule.code d.locals.length k) :
    Takes vars d c (.lowered (rule.code d.locals.length k)) := by
  obtain ⟨k', hk', hrun⟩ := Rule.run_lower hsteps
  refine ⟨_, rule.length_temps d.locals.length k, rfl, ?_⟩
  simp only [lower, hrule, hsteps, hrun, hk k' hk']
  rfl

/-- **One instruction in an open block.** -/
theorem takes_fate (d : Draft) (hc : (c.instr.select c.line c.span).isOk) :
    Takes vars d c (c.fate vars.get? true d.locals.length) := by
  cases hrule : Rule.of? c.instr with
  | none =>
    rw [fate, hrule]
    exact takes_refused (by rw [lower, hrule])
  | some rule =>
    by_cases himmediate : ∃ e, c.instr.operand = .immediate e
    · obtain ⟨r, rfl⟩ := (Rule.of?_eq_loadImmediate_iff hrule).mp himmediate
      obtain ⟨e, he⟩ := himmediate
      rw [fate_of_immediate hrule he hc]
      cases hbyte : Rule.immediateByte vars e with
      | error fault =>
        have hlower : (Rule.loadImmediate r).lower vars c.instr = .error fault := by
          simp [Rule.lower, he, hbyte, bind, Except.bind]
        exact takes_refused (by simp only [lower, hrule, hlower])
      | ok k =>
        have hlower : ∃ steps, (Rule.loadImmediate r).lower vars c.instr = .ok steps := by
          simp [Rule.lower, he, hbyte, bind, Except.bind, pure, Except.pure]
        obtain ⟨steps, hsteps⟩ := hlower
        refine takes_lowered hrule hsteps ?_
        rintro k' ⟨e', he', hbyte'⟩
        obtain rfl : e = e' := Operand.immediate.inj (he.symm.trans he')
        obtain rfl : k = k' := Except.ok.inj (hbyte.symm.trans hbyte')
        rfl
    · have hload := mt (Rule.of?_eq_loadImmediate_iff hrule).mpr himmediate
      rw [fate_of_ne_immediate hrule fun e he => himmediate ⟨e, he⟩]
      cases rule with
      | loadImmediate r => exact absurd ⟨r, rfl⟩ hload
      | transfer | step | nop => exact takes_lowered hrule rfl fun _ _ => rfl

end

/-! ### The code after a draft -/

/-- What code becomes that follows a draft, if its block is open and if it is not. -/
def into (vars : Bindings String UInt32) (isOpen : Bool) (d : Draft) (cs : List CodeLine) :
    Draft × List AsmError × List Warning :=
  if isOpen then ((lowerAll vars d cs).1, (lowerAll vars d cs).2, [])
  else (d, cs.flatMap fun c => c.idle.1, cs.flatMap fun c => c.idle.2)

@[simp] theorem into_nil (vars : Bindings String UInt32) (isOpen : Bool) (d : Draft) :
    into vars isOpen d [] = (d, [], []) := by
  cases isOpen <;> rfl

/-- **One instruction**, and then those after it. -/
theorem into_cons (vars : Bindings String UInt32) (isOpen : Bool) (d : Draft) {c : CodeLine}
    (hc : (c.instr.select c.line c.span).isOk) {fate : Fate}
    (hfate : c.fate vars.get? isOpen d.locals.length = fate) (cs : List CodeLine) :
    ∃ d', d'.locals.length = d.locals.length + (dests fate.code).length ∧
      d'.insts = d.insts ++ fate.code ∧
      into vars isOpen d (c :: cs) =
        ((into vars isOpen d' cs).1, fate.error?.toList ++ (into vars isOpen d' cs).2.1,
          fate.warning?.toList ++ (into vars isOpen d' cs).2.2) := by
  subst hfate
  cases isOpen with
  | true =>
    obtain ⟨new, hnew, hwarning, hlower⟩ := @takes_fate vars c d hc
    refine ⟨(c.lower vars d).1, ?_, ?_, ?_⟩
    · rw [hlower, List.length_append, hnew]
    · rw [hlower]
    · simp only [into, lowerAll_cons, hlower, hwarning]
      rfl
  | false =>
    obtain ⟨hcode, hidle⟩ := idle_eq_fate vars.get? d.locals.length c
    refine ⟨d, ?_, ?_, ?_⟩
    · rw [hcode]
      rfl
    · rw [hcode, List.append_nil]
    · simp [into, hidle]

end CodeLine

/-! ### The walk and the segments -/

theorem isOpenAfter_cons (entries : EntryPoints) (labels : List String) (s : Segment) :
    isOpenAfter entries (s.label :: labels) = !isHandlerAfter entries labels s := by
  simp [isOpenAfter, isHandlerAfter]

/-- The body of a segment goes into its block, unless that is the block of a handler. -/
theorem Segment.into_eq_draft (vars : Bindings String UInt32) (locals : List Local)
    (isHandler : Bool) (s : Segment) :
    CodeLine.into vars (!isHandler) ⟨locals, []⟩ s.body =
      ((s.draft vars locals isHandler).1, (s.draft vars locals isHandler).2,
        if isHandler then s.body.flatMap fun c => c.idle.2 else []) := by
  cases isHandler <;> rfl

/-- What accounts have to say of code: its diagnostics, the rest of the block that is open, which
has number `n`, and the blocks after it. -/
structure Accounted (n : Nat) (d : Draft) (body : Draft × List AsmError × List Warning)
    (code : CodeSection) (found : List Account) : Prop where
  errors : body.2.1 ++ code.errors = found.filterMap fun a => a.fate.error?
  warnings : body.2.2 ++ code.warnings = found.filterMap fun a => a.fate.warning?
  rest : body.1.insts = d.insts ++ codeIn n found
  blocks : ∀ i b, code.blocks[i]? = some b →
    ∃ t, t.isTerminator = true ∧ b.insts = codeIn (n + 1 + i) found ++ [t]

section

variable {vars : Bindings String UInt32} {entries : EntryPoints} {ownsData : String → Bool}

/-- A label of code ends the block before it and starts one of its own. -/
theorem Accounted.label {labels names : List String} {d : Draft} {index : Nat} {s : Segment}
    {rest : List Segment} {found : List Account} (hlater : ∀ a ∈ found, labels.length < a.block)
    {body : Draft × List AsmError × List Warning}
    (hbody : body =
      CodeLine.into vars (isOpenAfter entries (s.label :: labels)) ⟨d.locals, []⟩ s.body)
    (h : ∀ names', Accounted (labels.length + 1) ⟨d.locals, []⟩ body
      (CodeSection.ofSegments vars entries (s.label :: labels) names' body.1.locals (index + 1)
        rest) found) :
    Accounted labels.length d (d, [], [])
      (CodeSection.ofSegments vars entries labels names d.locals index (s :: rest)) found := by
  rw [isOpenAfter_cons, Segment.into_eq_draft] at hbody
  subst hbody
  obtain ⟨herrors, hwarnings, hrest, hblocks⟩ := h (Text.freshName s.label names :: names)
  rw [CodeSection.ofSegments_cons]
  refine ⟨herrors, hwarnings, ?_, fun i b hb => ?_⟩
  · rw [codeIn_eq_nil hlater, List.append_nil]
  · cases i with
    | zero =>
      cases hb
      refine ⟨_, ?_, congrArg (· ++ _) hrest⟩
      unfold fallThrough
      split <;> rfl
    | succ i =>
      obtain ⟨t, ht, hinsts⟩ := hblocks i b hb
      exact ⟨t, ht, by rw [hinsts, Nat.add_assoc (labels.length + 1), Nat.add_comm 1 i]⟩

/-- An instruction goes into the block that is open, or is reported. -/
theorem Accounted.line {n : Nat} {isOpen : Bool} {d d' : Draft} {c : CodeLine}
    {cs : List CodeLine} {fate : Fate} {code : CodeSection} {found : List Account}
    (hinsts : d'.insts = d.insts ++ fate.code)
    (hinto : CodeLine.into vars isOpen d (c :: cs) =
      ((CodeLine.into vars isOpen d' cs).1,
        fate.error?.toList ++ (CodeLine.into vars isOpen d' cs).2.1,
        fate.warning?.toList ++ (CodeLine.into vars isOpen d' cs).2.2))
    (h : Accounted n d' (CodeLine.into vars isOpen d' cs) code found) :
    Accounted n d (CodeLine.into vars isOpen d (c :: cs)) code (⟨c, n, fate⟩ :: found) := by
  obtain ⟨herrors, hwarnings, hrest, hblocks⟩ := h
  rw [hinto]
  refine ⟨?_, ?_, ?_, fun i b hb => ?_⟩
  · cases he : fate.error? <;> simp [he, herrors]
  · cases hw : fate.warning? <;> simp [hw, hwarnings]
  · simp [hrest, hinsts, codeIn]
  · obtain ⟨t, ht, hb⟩ := hblocks i b hb
    have hne : (n == n + 1 + i) = false := beq_false_of_ne (by omega)
    exact ⟨t, ht, by simp [hb, codeIn, hne]⟩

/-- **The walk tells what lowering the segments does.** -/
theorem lower_accounts {placed : List Placed}
    (hplaced : ∀ p ∈ placed, ∀ i, p.stmt.node = .instr i →
      p.address.isSome = (i.select p.stmt.line p.stmt.span).isOk)
    (labels names : List String) (d : Draft) (index : Nat) :
    Accounted labels.length d
      (CodeLine.into vars (isOpenAfter entries labels) d (Segment.split ownsData placed).1)
      (CodeSection.ofSegments vars entries labels names
        (CodeLine.into vars (isOpenAfter entries labels) d
          (Segment.split ownsData placed).1).1.locals index (Segment.split ownsData placed).2)
      (accounts entries ownsData vars.get? labels d.locals.length (placed.map Placed.stmt)) := by
  induction placed generalizing labels names d index with
  | nil =>
    rw [Segment.split, CodeLine.into_nil]
    exact ⟨rfl, rfl, (List.append_nil _).symm, fun i b hb => by simp [CodeSection.ofSegments] at hb⟩
  | cons p rest ih =>
    have hp := hplaced p List.mem_cons_self
    specialize ih fun q hq => hplaced q (List.mem_cons_of_mem p hq)
    obtain ⟨⟨line, span, node⟩, address⟩ := p
    cases node with
    | assign | org | data => exact ih labels names d index
    | label name =>
      cases ho : ownsData name with
      | true => simpa [Segment.split, accounts, ho] using ih labels names d index
      | false =>
        simp only [Segment.split, ho, accounts, List.map_cons, if_false, Bool.false_eq_true,
          CodeLine.into_nil]
        refine Accounted.label ?_ rfl fun names' =>
          ih (name :: labels) names' ⟨d.locals, []⟩ (index + 1)
        exact length_le_block entries ownsData vars.get? _ (name :: labels) _
    | instr i =>
      cases address with
      | none =>
        have hselect : (i.select line span).isOk = false := (hp i rfl).symm
        simpa [Segment.split, accounts, Stmt.codeLine?, hselect] using ih labels names d index
      | some a =>
        have hselect : (i.select line span).isOk = true := (hp i rfl).symm
        obtain ⟨d', hlocals, hinsts, hinto⟩ := CodeLine.into_cons vars
          (isOpenAfter entries labels) d (c := ⟨line, span, i⟩) hselect rfl
          (Segment.split ownsData rest).1
        have hrest := ih labels names d' index
        rw [hlocals] at hrest
        have hline := Accounted.line hinsts hinto hrest
        simp only [Segment.split, accounts, Stmt.codeLine?, hselect, List.map_cons, if_true]
        rw [hinto] at hline ⊢
        exact hline

end

/-! ### Whole programs -/

/-- The instructions with an address are those that can be encoded. -/
theorem address_isSome_placedOf (stmts : List Stmt) :
    ∀ p ∈ placedOf stmts, ∀ i, p.stmt.node = .instr i →
      p.address.isSome = (i.select p.stmt.line p.stmt.span).isOk := by
  induction stmts using List.reverseRecOn with
  | nil => intro p hp; cases hp
  | append_singleton stmts s ih =>
    intro p hp i hi
    rw [placedOf, Layout.place_concat, List.mem_append, List.mem_singleton] at hp
    rcases hp with hp | rfl
    · exact ih p hp i hi
    · have hnode : s.node = .instr i := hi
      cases hselect : (i.select s.line s.span).isOk <;> simp [Layout.addressOf, hnode, hselect]

/-- The accounts of a program tell what its code becomes. -/
theorem accounted_codeOf (entries : EntryPoints) (stmts : List Stmt) :
    Accounted 0 ⟨entryDraft.locals, []⟩
      (CodeLine.into (Layout.ofStmts stmts).vars false ⟨entryDraft.locals, []⟩
        (Segment.split (dataOf stmts).owns (placedOf stmts)).1)
      (codeOf entries stmts) (accountsOf entries stmts) := by
  have h := @lower_accounts (Layout.ofStmts stmts).vars entries (dataOf stmts).owns _
    (address_isSome_placedOf stmts) [] [entryName] ⟨entryDraft.locals, []⟩ 1
  rw [placedOf, Layout.map_stmt_place, funext (Layout.get?_vars_ofStmts stmts)] at h
  exact h

/-- The block `n` of a function, if it is one of the code, holds what accounts say, and then its
terminator. -/
def HoldsCode (f : Function) (found : List Account) : Prop :=
  ∀ n b, 0 < n → f.blocks[n]? = some b →
    ∃ t, t.isTerminator = true ∧ b.insts = codeIn n found ++ [t]

theorem holdsCode_mainFunction (entries : EntryPoints) (stmts : List Stmt) (reset : Nat) :
    HoldsCode (mainFunction reset (codeOf entries stmts)) (accountsOf entries stmts) := by
  intro n b hn hb
  obtain ⟨i, rfl⟩ := Nat.exists_eq_succ_of_ne_zero (Nat.ne_of_gt hn)
  rw [blocks_mainFunction, Nat.succ_eq_add_one, List.getElem?_cons_succ] at hb
  obtain ⟨t, ht, hinsts⟩ := (accounted_codeOf entries stmts).blocks i b hb
  exact ⟨t, ht, by rw [hinsts, Nat.succ_eq_add_one, Nat.zero_add, Nat.add_comm]⟩

/-- **No instruction is dropped silently.** The diagnostics are those of the layout, of the data and
of the code, each in the order of the text. Code is looked at only if all vectors hold a label;
then each instruction that could be encoded has one account, and the code of the accounts is what
the blocks hold before an optimisation removes some. -/
theorem diagnostics_compile (options : Options) (stmts : List Stmt) :
    ((∃ v : EntryVector, ∀ label, ¬v.Leads stmts label) →
      (compile options stmts).errors = layoutErrors stmts ++ dataErrors stmts ∧
      (compile options stmts).warnings = dataWarnings stmts) ∧
    ∀ entries : EntryPoints, (∀ v : EntryVector, v.Leads stmts (entries.get v)) →
      (compile options stmts).errors = layoutErrors stmts ++ dataErrors stmts ++
        (accountsOf entries stmts).filterMap (fun a => a.fate.error?) ∧
      (compile options stmts).warnings = dataWarnings stmts ++
        (accountsOf entries stmts).filterMap (fun a => a.fate.warning?) ∧
      (accountsOf entries stmts).map Account.line = stmts.filterMap Stmt.codeLine? ∧
      ∀ m, (compile options stmts).module = .ok m →
        ∃ m' f, (compile { options with optLevel := .none } stmts).module = .ok m' ∧
          m = (m'.pruneTimes options.optLevel.rounds).1 ∧ m'.main? = some f ∧
          f.blocks.length = (codeLabels stmts).length + 1 ∧
          HoldsCode f (accountsOf entries stmts) := by
  constructor
  · rintro ⟨v, hv⟩
    cases hvectors : EntryPoints.resolve stmts (Layout.ofStmts stmts) with
    | ok entries => exact absurd (EntryPoints.resolve_eq_ok_iff.mp hvectors v) (hv _)
    | error e =>
      rw [← Layout.errors_ofStmts, ← errors_dataOf, ← warnings_dataOf, compile, hvectors]
      exact ⟨rfl, rfl⟩
  · intro entries hentries
    have hvectors := EntryPoints.resolve_eq_ok_iff.mpr hentries
    have hcode := accounted_codeOf entries stmts
    refine ⟨?_, ?_, map_line_accounts _ _ _ _ _ _, fun m hm => ?_⟩
    · rw [← hcode.errors, ← Layout.errors_ofStmts, ← errors_dataOf, compile, hvectors,
        ← List.append_assoc]
      rfl
    · rw [← hcode.warnings, ← warnings_dataOf, compile, hvectors, ← List.append_assoc]
      rfl
    · obtain ⟨entries', reset, h, rfl⟩ := exists_resolves hm
      obtain rfl : entries = entries' := Except.ok.inj (hvectors.symm.trans h.vectors)
      refine ⟨_, _, h.module_eq _, rfl, (h.isProgram _).main?_eq, ?_,
        holdsCode_mainFunction _ _ _⟩
      rw [blocks_mainFunction, List.length_cons, length_blocks_codeOf, length_segmentsOf]

/-- A program in which everything goes wrong that can be reported, and one instruction is left. -/
def faultyProgram : List Stmt :=
  ([.data .byte [⟨.int 1, ⟨0, 0⟩⟩], Operand.implied.instr "INX", .assign "wide" 256, .label "table",
    .data .byte [⟨.int 256, ⟨0, 0⟩⟩], .label "reset", Operand.implied.instr "foo",
    (Operand.immediate (.name "none")).instr "lda", (Operand.immediate (.name "wide")).instr "lda",
    (Operand.direct 16).instr "lda", Operand.implied.instr "nop", .label "handler",
    (Operand.direct 16).instr "sta", Operand.implied.instr "dex", .label "reset"] ++
      vectors "handler" "reset" "handler").map Node.stmt

theorem diagnostics_compile_faultyProgram :
    (compile {} faultyProgram).errors.map Located.cause =
        [.unknownInstruction "foo" .implied, .duplicateLabel "reset", .outOfRange 256 255,
          .undefinedVariable "none", .outOfRange 256 255, .notLowered .direct "lda",
          .notLowered .direct "sta"] ∧
      (compile {} faultyProgram).warnings.map Located.cause =
        [.trashedData 0, .unreachableCode "INX", .unreachableCode "dex"] := by
  have hvectors : EntryPoints.resolve faultyProgram (Layout.ofStmts faultyProgram) =
      .ok ⟨"handler", "reset", "handler"⟩ := by rfl
  obtain ⟨herrors, hwarnings, -, -⟩ := (diagnostics_compile {} faultyProgram).2 _
    (EntryPoints.resolve_eq_ok_iff.mp hvectors)
  rw [herrors, hwarnings]
  constructor <;> decide

end Mos6502
