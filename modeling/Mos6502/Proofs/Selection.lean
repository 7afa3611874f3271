import Mos6502.Isa.Select
import Mathlib.Data.List.Basic
import Mathlib.Tactic.Common

/-!
# Which encoding is selected

Selection goes through a list of addressing modes that depends on the operand and takes the first
one that has the mnemonic, between tests of the register and of the number. The order of the list is
what makes the encoding short. It is not needed to say which encodings there are:
`Operand.Candidate` gives the modes of an operand by rules, in no order, and `Operand.Admissible`
and `Operand.InRange` say what the tests ask for.

Nothing here depends on the rows of the opcode tables. The lists are ordered by size, so the first
mode that has the mnemonic is a shortest one, whatever the tables hold; a branch comes first in the
list of a number because no other mode there is shorter.

## Main definitions

* `Operand.Admissible`, `Operand.InRange` — what is asked of the register and of the number
* `Operand.Candidate` — the modes of an operand
* `Operand.modes` — the same in the order in which they are tried

## Main results

* `Instr.select_eq_ok_iff` — when selection succeeds, and with what
* `Operand.mem_modes_iff`, `Operand.pairwise_modes` — the modes that are tried, and their order
* `select_shortest`
-/

namespace Mos6502

/-- The choice admits a register of this name, in any case. -/
def RegisterChoice.Admits : RegisterChoice → String → Prop
  | x, name => Text.lowercase name = "x"
  | y, name => Text.lowercase name = "y"
  | either, name => Text.lowercase name = "x" ∨ Text.lowercase name = "y"

/-- A number is at most `max`; a name has no value yet. -/
def Expr.AtMost (max : UInt32) : Expr → Prop
  | int n => n ≤ max
  | name _ => True

namespace Operand

/-- The register of an operand, with the registers that its shape admits. -/
def index? : Operand → Option (RegisterChoice × Spanned String)
  | indexed _ r | labelIndexed _ r => some (.either, r)
  | indirectX _ r => some (.x, r)
  | indirectY _ r => some (.y, r)
  | implied | immediate _ | direct _ | label _ | indirect _ => none

/-- The register, if there is one, is one that the shape admits. -/
def Admissible (o : Operand) : Prop :=
  ∀ choice register, o.index? = some (choice, register) → choice.Admits register.val

/-- The number, if there is one, is not above what the shape admits. -/
def InRange : Operand → Prop
  | immediate value | indirectX value _ | indirectY value _ => value.AtMost 0xff
  | direct n | indexed n _ => n ≤ 0xffff
  | indirect value => value.AtMost 0xffff
  | implied | label _ | labelIndexed _ _ => True

/-- The modes in which an operand can be encoded, if the mnemonic has them. -/
inductive Candidate : Operand → AddressingMode → Prop
  | implied : Candidate .implied .implied
  | impliedAccumulator : Candidate .implied .accumulator
  | immediate {value : Expr} : Candidate (.immediate value) .immediate
  | relative {n : UInt32} : Candidate (.direct n) .relative
  | zeroPage {n : UInt32} (h : n ≤ 0xff) : Candidate (.direct n) .zeroPage
  | absolute {n : UInt32} : Candidate (.direct n) .absolute
  | accumulator {name : String} (h : Text.lowercase name = "a") :
      Candidate (.label name) .accumulator
  | labelRelative {name : String} : Candidate (.label name) .relative
  | labelAbsolute {name : String} : Candidate (.label name) .absolute
  | zeroPageX {n : UInt32} {r : Spanned String} (h : n ≤ 0xff)
      (hr : Text.lowercase r.val = "x") : Candidate (.indexed n r) .zeroPageX
  | zeroPageY {n : UInt32} {r : Spanned String} (h : n ≤ 0xff)
      (hr : Text.lowercase r.val = "y") : Candidate (.indexed n r) .zeroPageY
  | absoluteX {n : UInt32} {r : Spanned String} (hr : Text.lowercase r.val = "x") :
      Candidate (.indexed n r) .absoluteX
  | absoluteY {n : UInt32} {r : Spanned String} (hr : Text.lowercase r.val = "y") :
      Candidate (.indexed n r) .absoluteY
  | labelX {name : String} {r : Spanned String} (hr : Text.lowercase r.val = "x") :
      Candidate (.labelIndexed name r) .absoluteX
  | labelY {name : String} {r : Spanned String} (hr : Text.lowercase r.val = "y") :
      Candidate (.labelIndexed name r) .absoluteY
  | indirectX {address : Expr} {r : Spanned String} : Candidate (.indirectX address r) .indirectX
  | indirectY {address : Expr} {r : Spanned String} : Candidate (.indirectY address r) .indirectY
  | indirect {address : Expr} : Candidate (.indirect address) .indirect

open Select in
/-- The modes of an operand in the order in which they are tried. -/
def modes : Operand → List AddressingMode
  | implied => [.implied, .accumulator]
  | immediate _ => [.immediate]
  | direct n => .relative :: ifShort n .zeroPage ++ [.absolute]
  | label name =>
    (if Text.lowercase name = "a" then [.accumulator] else []) ++ [.relative, .absolute]
  | indexed n r =>
    match IndexRegister.ofName? r.val with
    | some i => ifShort n (zeroPageOf i) ++ [absoluteOf i]
    | none => []
  | labelIndexed _ r =>
    match IndexRegister.ofName? r.val with
    | some i => [absoluteOf i]
    | none => []
  | indirectX _ _ => [.indirectX]
  | indirectY _ _ => [.indirectY]
  | indirect _ => [.indirect]

end Operand

/-! ### Registers -/

namespace IndexRegister

/-- The name of a register in small letters. -/
def letter : IndexRegister → String
  | x => "x"
  | y => "y"

theorem ofName?_eq_some_iff {name : String} {r : IndexRegister} :
    ofName? name = some r ↔ Text.lowercase name = r.letter := by
  rw [ofName?]
  split
  · cases r <;> simp [letter, *]
  · split <;> cases r <;> simp [letter, *]

theorem exists_ofName?_iff {name : String} :
    (∃ i, ofName? name = some i) ↔ RegisterChoice.either.Admits name := by
  have hx : ofName? name = some x ↔ Text.lowercase name = "x" := ofName?_eq_some_iff
  have hy : ofName? name = some y ↔ Text.lowercase name = "y" := ofName?_eq_some_iff
  rw [RegisterChoice.Admits, ← hx, ← hy]
  constructor
  · rintro ⟨_ | _, h⟩
    · exact .inl h
    · exact .inr h
  · rintro (h | h) <;> exact ⟨_, h⟩

end IndexRegister

/-! ### The modes that are tried -/

namespace Operand

open Select

theorem mem_ifShort {n : UInt32} {a b : AddressingMode} :
    a ∈ ifShort n b ↔ n ≤ 0xff ∧ a = b := by
  rw [ifShort]
  split <;> simp [*]

/-- The modes that are tried are the candidates. -/
theorem mem_modes_iff {o : Operand} {mode : AddressingMode} :
    mode ∈ o.modes ↔ o.Candidate mode := by
  constructor
  · intro h
    cases o with
    | implied =>
      rcases List.mem_pair.mp h with rfl | rfl
      · exact .implied
      · exact .impliedAccumulator
    | immediate | indirectX | indirectY | indirect =>
      obtain rfl := List.mem_singleton.mp h
      constructor
    | direct n =>
      simp only [modes, List.cons_append, List.mem_cons, List.mem_append, mem_ifShort,
        List.not_mem_nil, or_false] at h
      rcases h with rfl | ⟨hn, rfl⟩ | rfl
      · exact .relative
      · exact .zeroPage hn
      · exact .absolute
    | label name =>
      rcases List.mem_append.mp h with h | h
      · obtain ⟨ha, h⟩ : Text.lowercase name = "a" ∧ mode = .accumulator := by simpa using h
        subst h
        exact .accumulator ha
      · rcases List.mem_pair.mp h with rfl | rfl
        · exact .labelRelative
        · exact .labelAbsolute
    | indexed n r =>
      simp only [modes] at h
      split at h
      · next i hi =>
        cases i with
        | x =>
          have hr := IndexRegister.ofName?_eq_some_iff.mp hi
          rcases List.mem_append.mp h with h | h
          · obtain ⟨hn, rfl⟩ := mem_ifShort.mp h
            exact .zeroPageX hn hr
          · obtain rfl := List.mem_singleton.mp h
            exact .absoluteX hr
        | y =>
          have hr := IndexRegister.ofName?_eq_some_iff.mp hi
          rcases List.mem_append.mp h with h | h
          · obtain ⟨hn, rfl⟩ := mem_ifShort.mp h
            exact .zeroPageY hn hr
          · obtain rfl := List.mem_singleton.mp h
            exact .absoluteY hr
      · cases h
    | labelIndexed name r =>
      simp only [modes] at h
      split at h
      · next i hi =>
        obtain rfl := List.mem_singleton.mp h
        cases i with
        | x => exact .labelX (IndexRegister.ofName?_eq_some_iff.mp hi)
        | y => exact .labelY (IndexRegister.ofName?_eq_some_iff.mp hi)
      · cases h
  · intro h
    have hx {name : String} (hr : Text.lowercase name = "x") :
        IndexRegister.ofName? name = some .x := IndexRegister.ofName?_eq_some_iff.mpr hr
    have hy {name : String} (hr : Text.lowercase name = "y") :
        IndexRegister.ofName? name = some .y := IndexRegister.ofName?_eq_some_iff.mpr hr
    cases h with
    | zeroPage h => simp [modes, ifShort, h]
    | accumulator h => simp [modes, h]
    | zeroPageX h hr => simp [modes, hx hr, ifShort, h, zeroPageOf]
    | zeroPageY h hr => simp [modes, hy hr, ifShort, h, zeroPageOf]
    | absoluteX hr | labelX hr => simp [modes, hx hr, absoluteOf]
    | absoluteY hr | labelY hr => simp [modes, hy hr, absoluteOf]
    | _ => simp [modes]

/-- Shorter modes are tried first. -/
theorem pairwise_modes (o : Operand) : o.modes.Pairwise fun a b => a.size ≤ b.size := by
  cases o with
  | direct n => by_cases h : n ≤ 0xff <;> simp [modes, ifShort, h, AddressingMode.size]
  | label name =>
    by_cases h : Text.lowercase name = "a" <;> simp [modes, h, AddressingMode.size]
  | indexed n r =>
    simp only [modes]
    split
    · next i _ =>
      by_cases h : n ≤ 0xff <;>
        cases i <;> simp [ifShort, h, zeroPageOf, absoluteOf, AddressingMode.size]
    · exact .nil
  | labelIndexed name r => simp only [modes]; split <;> simp
  | _ => simp [modes, AddressingMode.size]

end Operand

namespace Select

theorem encodingIn?_eq_some_iff {name : String} {mode : AddressingMode} {e : Encoding} :
    encodingIn? name mode = some e ↔ e.mode = mode ∧ Opcode.find? mode name = some e.opcode := by
  rw [encodingIn?, Option.map_eq_some_iff]
  constructor
  · rintro ⟨opcode, hopcode, rfl⟩
    exact ⟨rfl, hopcode⟩
  · rintro ⟨rfl, hopcode⟩
    exact ⟨e.opcode, hopcode, rfl⟩

/-- The first mode of a list in order of size is a shortest one. -/
theorem size_le_of_findSome? {name : String} {modes : List AddressingMode}
    (hsorted : modes.Pairwise fun a b => a.size ≤ b.size) {e : Encoding}
    (h : modes.findSome? (encodingIn? name) = some e) {mode : AddressingMode} (hmode : mode ∈ modes)
    (hrow : (Opcode.find? mode name).isSome) : e.size ≤ mode.size := by
  obtain ⟨front, first, rest, rfl, hfirst, hfront⟩ := List.findSome?_eq_some_iff.mp h
  obtain ⟨hmode', -⟩ := encodingIn?_eq_some_iff.mp hfirst
  rw [Encoding.size, hmode']
  rcases List.mem_append.mp hmode with hbefore | hafter
  · -- what is tried before has no row
    have hnone := hfront mode hbefore
    rw [encodingIn?, Option.map_eq_none_iff] at hnone
    rw [hnone] at hrow
    cases hrow
  · rcases List.mem_cons.mp hafter with rfl | hrest
    · exact Nat.le_refl _
    · exact (List.pairwise_cons.mp (List.pairwise_append.mp hsorted).2.1).1 mode hrest

/-! ### One step of selection -/

theorem bind_eq_ok_iff {ε α β : Type} {x : Except ε α} {g : α → Except ε β} {b : β} :
    (x >>= g) = .ok b ↔ ∃ a, x = .ok a ∧ g a = .ok b := by
  cases x <;> simp [bind, Except.bind]

variable {line : Nat} {span : Span} {max : UInt32}

theorem checkNumber_eq_ok_iff {n : UInt32} {u : Unit} :
    checkNumber line span max n = .ok u ↔ n ≤ max := by
  rw [checkNumber]
  split <;> simp [*]

theorem checkExpr_eq_ok_iff {value : Expr} {u : Unit} :
    checkExpr line span max value = .ok u ↔ value.AtMost max := by
  cases value with
  | int n => exact checkNumber_eq_ok_iff
  | name s => exact iff_of_true rfl trivial

theorem anyRegister_eq_ok_iff {register : Spanned String} {r : IndexRegister} :
    anyRegister line register = .ok r ↔ IndexRegister.ofName? register.val = some r := by
  rw [anyRegister]
  split <;> simp [*]

/-- A register that is tested before anything else. -/
theorem expectRegister_bind_eq_ok_iff {α : Type} {register : Spanned String} {r : IndexRegister}
    {rest : Except AsmError α} {a : α} :
    (do expectRegister line register r; rest) = .ok a ↔
      IndexRegister.ofName? register.val = some r ∧ rest = .ok a := by
  unfold expectRegister
  split <;> simp [*, bind, Except.bind]

section

variable {mnemonic : Spanned String} {modes : List AddressingMode} {report : AddressingMode}
  {e : Encoding}

theorem firstOf_eq_ok_iff :
    firstOf line mnemonic modes report = .ok e ↔
      modes.findSome? (encodingIn? (Text.lowercase mnemonic.val)) = some e := by
  rw [firstOf]
  split <;> simp [*]

/-- A number that is tested before the mnemonic is looked up. -/
theorem checkNumber_firstOf_eq_ok_iff {n : UInt32} :
    (do checkNumber line span max n; firstOf line mnemonic modes report) = .ok e ↔
      n ≤ max ∧ modes.findSome? (encodingIn? (Text.lowercase mnemonic.val)) = some e := by
  rw [bind_eq_ok_iff, ← firstOf_eq_ok_iff]
  constructor
  · rintro ⟨_, hcheck, hfirst⟩
    exact ⟨checkNumber_eq_ok_iff.mp hcheck, hfirst⟩
  · rintro ⟨hn, hfirst⟩
    exact ⟨(), checkNumber_eq_ok_iff.mpr hn, hfirst⟩

/-- A value that is tested after the mnemonic was looked up. -/
theorem firstOf_checkExpr_eq_ok_iff {value : Expr} :
    (do
      let found ← firstOf line mnemonic modes report
      checkExpr line span max value
      return found) = .ok e ↔
      value.AtMost max ∧ modes.findSome? (encodingIn? (Text.lowercase mnemonic.val)) = some e := by
  rw [bind_eq_ok_iff]
  constructor
  · rintro ⟨found, hfirst, hrest⟩
    obtain ⟨_, hcheck, hfound⟩ := bind_eq_ok_iff.mp hrest
    obtain rfl := Except.ok.inj hfound
    exact ⟨checkExpr_eq_ok_iff.mp hcheck, firstOf_eq_ok_iff.mp hfirst⟩
  · rintro ⟨hvalue, hfirst⟩
    exact ⟨e, firstOf_eq_ok_iff.mpr hfirst,
      bind_eq_ok_iff.mpr ⟨(), checkExpr_eq_ok_iff.mpr hvalue, rfl⟩⟩

end

end Select

/-! ### Selection -/

open Select

namespace Operand

variable {o : Operand} {choice : RegisterChoice} {register : Spanned String}

theorem admissible_of_index?_eq_none (h : o.index? = none) : o.Admissible := by
  intro choice register hindex
  rw [h] at hindex
  cases hindex

theorem modes_indexed {n : UInt32} {r : IndexRegister}
    (h : IndexRegister.ofName? register.val = some r) :
    (indexed n register).modes = ifShort n (zeroPageOf r) ++ [absoluteOf r] := by
  simp only [modes, h]

theorem modes_labelIndexed {name : String} {r : IndexRegister}
    (h : IndexRegister.ofName? register.val = some r) :
    (labelIndexed name register).modes = [absoluteOf r] := by
  simp only [modes, h]

theorem admissible_iff (h : o.index? = some (choice, register)) :
    o.Admissible ↔ choice.Admits register.val := by
  simp [Admissible, h]

end Operand

namespace Instr

variable {line : Nat} {span : Span}

/-- **Selection succeeds** if register and number pass their tests and some mode has the mnemonic,
and takes the first one. -/
theorem select_eq_ok_iff {i : Instr} {e : Encoding} :
    i.select line span = .ok e ↔ i.operand.Admissible ∧ i.operand.InRange ∧
      i.operand.modes.findSome? (encodingIn? (Text.lowercase i.mnemonic.val)) = some e := by
  obtain ⟨mnemonic, operand⟩ := i
  cases operand with
  | implied | label =>
    rw [and_iff_right (Operand.admissible_of_index?_eq_none rfl)]
    exact firstOf_eq_ok_iff.trans (and_iff_right trivial).symm
  | direct n =>
    rw [and_iff_right (Operand.admissible_of_index?_eq_none rfl)]
    exact checkNumber_firstOf_eq_ok_iff
  | immediate value | indirect value =>
    rw [and_iff_right (Operand.admissible_of_index?_eq_none rfl)]
    exact firstOf_checkExpr_eq_ok_iff
  | indirectX value register =>
    rw [Operand.admissible_iff rfl]
    exact expectRegister_bind_eq_ok_iff.trans
      (and_congr IndexRegister.ofName?_eq_some_iff firstOf_checkExpr_eq_ok_iff)
  | indirectY value register =>
    rw [Operand.admissible_iff rfl]
    exact expectRegister_bind_eq_ok_iff.trans
      (and_congr IndexRegister.ofName?_eq_some_iff firstOf_checkExpr_eq_ok_iff)
  | indexed n register =>
    rw [Operand.admissible_iff rfl, ← IndexRegister.exists_ofName?_iff]
    refine bind_eq_ok_iff.trans ⟨?_, ?_⟩
    · rintro ⟨r, hr, hrest⟩
      have hr := anyRegister_eq_ok_iff.mp hr
      refine ⟨⟨r, hr⟩, ?_⟩
      rw [Operand.modes_indexed hr]
      exact checkNumber_firstOf_eq_ok_iff.mp hrest
    · rintro ⟨⟨r, hr⟩, hrest⟩
      rw [Operand.modes_indexed hr] at hrest
      exact ⟨r, anyRegister_eq_ok_iff.mpr hr, checkNumber_firstOf_eq_ok_iff.mpr hrest⟩
  | labelIndexed name register =>
    rw [Operand.admissible_iff rfl, ← IndexRegister.exists_ofName?_iff]
    refine bind_eq_ok_iff.trans ⟨?_, ?_⟩
    · rintro ⟨r, hr, hrest⟩
      have hr := anyRegister_eq_ok_iff.mp hr
      refine ⟨⟨r, hr⟩, trivial, ?_⟩
      rw [Operand.modes_labelIndexed hr]
      exact firstOf_eq_ok_iff.mp hrest
    · rintro ⟨⟨r, hr⟩, -, hrest⟩
      rw [Operand.modes_labelIndexed hr] at hrest
      exact ⟨r, anyRegister_eq_ok_iff.mpr hr, firstOf_eq_ok_iff.mpr hrest⟩

/-- **A register that is not admitted** is reported, whatever else is wrong. -/
theorem select_of_not_admits {i : Instr} {choice : RegisterChoice} {register : Spanned String}
    (h : i.operand.index? = some (choice, register)) (hregister : ¬choice.Admits register.val) :
    i.select line span = .error ⟨line, register.span, .invalidRegister choice⟩ := by
  obtain ⟨mnemonic, operand⟩ := i
  cases operand with
  | implied | immediate | direct | label | indirect => cases h
  | indexed | labelIndexed =>
    cases h
    have hnone : IndexRegister.ofName? register.val = none := by
      rw [← IndexRegister.exists_ofName?_iff] at hregister
      exact Option.eq_none_iff_forall_ne_some.mpr fun r hr => hregister ⟨r, hr⟩
    have hbad : anyRegister line register =
        .error ⟨line, register.span, .invalidRegister .either⟩ := by
      rw [anyRegister, hnone]
    simp only [select, hbad]
    rfl
  | indirectX =>
    cases h
    have hbad : expectRegister line register .x =
        .error ⟨line, register.span, .invalidRegister .x⟩ :=
      if_neg (mt (IndexRegister.ofName?_eq_some_iff (r := .x)).mp hregister)
    simp only [select, hbad]
    rfl
  | indirectY =>
    cases h
    have hbad : expectRegister line register .y =
        .error ⟨line, register.span, .invalidRegister .y⟩ :=
      if_neg (mt (IndexRegister.ofName?_eq_some_iff (r := .y)).mp hregister)
    simp only [select, hbad]
    rfl

end Instr

/-- **Selection is sound, complete and picks a shortest encoding.** It succeeds exactly if register
and number are admitted and some candidate has the mnemonic. The encoding is then that of a
candidate that has it, and no other one is shorter. A register that is not admitted is reported,
whatever the mnemonic and the number are. -/
theorem select_shortest (line : Nat) (span : Span) (i : Instr) :
    ((∃ e, i.select line span = .ok e) ↔ i.operand.Admissible ∧ i.operand.InRange ∧
      ∃ mode, i.operand.Candidate mode ∧
        (Opcode.find? mode (Text.lowercase i.mnemonic.val)).isSome) ∧
    (∀ e, i.select line span = .ok e →
      Opcode.find? e.mode (Text.lowercase i.mnemonic.val) = some e.opcode ∧
      i.operand.Candidate e.mode ∧
      ∀ mode, i.operand.Candidate mode →
        (Opcode.find? mode (Text.lowercase i.mnemonic.val)).isSome → e.size ≤ mode.size) ∧
    ∀ choice register, i.operand.index? = some (choice, register) → ¬choice.Admits register.val →
      i.select line span = .error ⟨line, register.span, .invalidRegister choice⟩ := by
  refine ⟨⟨?_, ?_⟩, fun e he => ?_, fun choice register => Instr.select_of_not_admits⟩
  · rintro ⟨e, he⟩
    obtain ⟨hregister, hnumber, hfound⟩ := Instr.select_eq_ok_iff.mp he
    obtain ⟨mode, hmode, hrow⟩ := List.exists_of_findSome?_eq_some hfound
    obtain ⟨rfl, hopcode⟩ := encodingIn?_eq_some_iff.mp hrow
    exact ⟨hregister, hnumber, _, Operand.mem_modes_iff.mp hmode, by simp [hopcode]⟩
  · rintro ⟨hregister, hnumber, mode, hmode, hrow⟩
    have hfound : (i.operand.modes.findSome?
        (encodingIn? (Text.lowercase i.mnemonic.val))).isSome := by
      rw [List.findSome?_isSome_iff]
      exact ⟨mode, Operand.mem_modes_iff.mpr hmode, by simpa [encodingIn?] using hrow⟩
    obtain ⟨e, he⟩ := Option.isSome_iff_exists.mp hfound
    exact ⟨e, Instr.select_eq_ok_iff.mpr ⟨hregister, hnumber, he⟩⟩
  · obtain ⟨-, -, hfound⟩ := Instr.select_eq_ok_iff.mp he
    obtain ⟨mode, hmode, hrow⟩ := List.exists_of_findSome?_eq_some hfound
    obtain ⟨rfl, hopcode⟩ := encodingIn?_eq_some_iff.mp hrow
    refine ⟨hopcode, Operand.mem_modes_iff.mp hmode, fun mode hcandidate hmnemonic => ?_⟩
    exact size_le_of_findSome? (Operand.pairwise_modes _) hfound
      (Operand.mem_modes_iff.mpr hcandidate) hmnemonic

example :
    Instr.select 1 ⟨0, 7⟩ ⟨⟨"Lda", ⟨0, 3⟩⟩, .direct 0xff⟩ = .ok ⟨0xA5, .zeroPage⟩ ∧
      Instr.select 1 ⟨0, 8⟩ ⟨⟨"Lda", ⟨0, 3⟩⟩, .direct 0x100⟩ = .ok ⟨0xAD, .absolute⟩ := by
  constructor <;> cbv

end Mos6502
