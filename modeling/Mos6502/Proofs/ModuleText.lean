import Mos6502.IR.Printer
import Mathlib

/-!
# The lines of a module's text

The text of a module is a header and a list of lines. Which lines there are depends on the globals,
functions, blocks and instructions of the module and on nothing that is written in them: names go
through `renderName`, bytes through `renderBytes`, and neither lets a newline through. The name of
the module is the exception. It stands in the header as it is, so each newline in it is one more
line of the text.

## Main results

* `Module.render_eq` — the text is the header, followed by the lines
* `Module.isLine_of_mem_lines` — no line has a newline of its own
* `count_newline_render` — the number of newlines
-/

namespace Mos6502

open Text

/-- A text without a newline. -/
def IsLine (s : String) : Prop :=
  '\n' ∉ s.toList

instance (s : String) : Decidable (IsLine s) :=
  inferInstanceAs (Decidable (¬_))

@[simp] theorem isLine_append {s t : String} : IsLine (s ++ t) ↔ IsLine s ∧ IsLine t := by
  simp [IsLine, not_or]

theorem isLine_join {ss : List String} (h : ∀ s ∈ ss, IsLine s) : IsLine (String.join ss) := by
  induction ss with
  | nil => simp [IsLine]
  | cons s ss ih =>
    rw [String.join_cons, isLine_append]
    exact ⟨h s List.mem_cons_self, ih fun t ht => h t (List.mem_cons_of_mem s ht)⟩

theorem isLine_intercalate {sep : String} (hsep : IsLine sep) {ss : List String}
    (h : ∀ s ∈ ss, IsLine s) : IsLine (sep.intercalate ss) := by
  induction ss with
  | nil => simp [IsLine]
  | cons s ss ih =>
    have hs : IsLine s := h s List.mem_cons_self
    have hss : IsLine (sep.intercalate ss) := ih fun t ht => h t (List.mem_cons_of_mem s ht)
    by_cases hnil : ss = []
    · rw [hnil, String.intercalate_singleton]
      exact hs
    · rw [String.intercalate_cons_of_ne_nil hnil, isLine_append, isLine_append]
      exact ⟨⟨hs, hsep⟩, hss⟩

/-- A number is written with digits only. -/
theorem isDigit_of_mem_repr {n : Nat} {c : Char} (h : c ∈ (Nat.repr n).toList) :
    c.isDigit = true := by
  rw [Nat.toList_repr] at h
  exact Nat.isDigit_of_mem_toDigits (by decide) (by decide) h

theorem isLine_repr (n : Nat) : IsLine (Nat.repr n) :=
  fun h => absurd (isDigit_of_mem_repr h) (by decide)

theorem isLine_decimal (n : Int) : IsLine (decimal n) := by
  cases n with
  | ofNat k => exact isLine_repr k
  | negSucc k => exact isLine_append.mpr ⟨by decide, isLine_repr (k + 1)⟩

/-- Two hexadecimal digits write a byte. -/
theorem toList_hexUpper_two {n : Nat} (h : n < 256) :
    (hexUpper 2 n).toList =
      [(Nat.digitChar (n / 16)).toUpper, (Nat.digitChar (n % 16)).toUpper] := by
  rw [hexUpper, padLeft, Nat.toDigits_eq_if (by decide)]
  by_cases hn : n < 16
  · have hdiv : n / 16 = 0 := by omega
    have hmod : n % 16 = n := by omega
    have hzero : (Nat.digitChar 0).toUpper = '0' := rfl
    rw [if_pos hn, hdiv, hmod, hzero]
    simp
  · have hdiv : n / 16 < 16 := by omega
    rw [if_neg hn, Nat.toDigits_of_lt_base hdiv]
    simp

theorem isLine_hexUpper_two {n : Nat} (h : n < 256) : IsLine (hexUpper 2 n) := by
  have hdigit : ∀ k < 16, (Nat.digitChar k).toUpper ≠ '\n' := by decide
  rw [IsLine, toList_hexUpper_two h]
  simp only [List.mem_cons, List.not_mem_nil, or_false, not_or]
  exact ⟨(hdigit _ (by omega)).symm, (hdigit _ (by omega)).symm⟩

namespace IR

/-! ### What is written in a line -/

theorem isLine_renderByte (b : UInt8) : IsLine (renderByte b) := by
  rw [renderByte]
  split
  · next hb =>
    -- a byte that stands for itself is not below the blank
    have hlow : 0x20 ≤ b.toNat := by
      simp only [isVerbatim, Bool.and_eq_true, decide_eq_true_eq] at hb
      exact UInt8.le_iff_toNat_le.mp hb.1.1.1
    have hb : b.toNat < 256 := b.toNat_lt
    have hvalid : b.toNat.isValidChar := .inl (by omega)
    intro hmem
    rw [String.toList_singleton, List.mem_singleton] at hmem
    have htoNat : '\n'.toNat = b.toNat := by rw [hmem, Char.toNat_ofNat, if_pos hvalid]
    have hten : '\n'.toNat = 10 := rfl
    omega
  · exact isLine_append.mpr ⟨by decide, isLine_hexUpper_two b.toNat_lt⟩

theorem isLine_renderBytes (bs : List UInt8) : IsLine (renderBytes bs) := by
  refine isLine_join fun s hs => ?_
  obtain ⟨b, -, rfl⟩ := List.mem_map.mp hs
  exact isLine_renderByte b

/-- **A name is written on one line**, whatever it is. -/
theorem isLine_renderName {sigil : String} (hsigil : IsLine sigil) (name : String) :
    IsLine (renderName sigil name) := by
  rw [renderName, isLine_append]
  refine ⟨hsigil, ?_⟩
  split
  · next hplain =>
    intro hmem
    rw [isPlain, Bool.and_eq_true] at hplain
    have hchar := List.all_eq_true.mp hplain.2 '\n' hmem
    exact absurd hchar (by decide)
  · rw [isLine_append, isLine_append]
    exact ⟨⟨by decide, isLine_renderBytes _⟩, by decide⟩

theorem isLine_renderInvalid {sigil : String} (hsigil : IsLine sigil) (index : Nat) :
    IsLine (renderInvalid sigil index) := by
  rw [renderInvalid, isLine_append, isLine_append, isLine_append]
  exact ⟨⟨⟨hsigil, by decide⟩, isLine_repr index⟩, by decide⟩

theorem Ty.isLine_render (ty : Ty) : IsLine ty.render := by
  cases ty with
  | bytes n =>
    rw [render, isLine_append, isLine_append]
    exact ⟨⟨by decide, isLine_repr n⟩, by decide⟩
  | void | i1 | i8 | i32 | ptr => decide

theorem isLine_renderConst (ty : Ty) (bits : UInt64) : IsLine (renderConst ty bits) := by
  cases ty with
  | i1 =>
    rw [renderConst]
    split <;> decide
  | i8 | i32 => exact isLine_decimal _
  | void | ptr | bytes => exact isLine_repr _

theorem Linkage.isLine_render (l : Linkage) : IsLine l.render := by
  cases l <;> decide

theorem BinOp.isLine_render (op : BinOp) : IsLine op.render := by
  cases op <;> decide

theorem Predicate.isLine_render (pred : Predicate) : IsLine pred.render := by
  cases pred <;> decide

section

variable (globals : List Global) (f : Function)

theorem Value.isLine_render (v : Value) : IsLine (v.render globals f) := by
  cases v with
  | const ty bits => exact isLine_renderConst ty bits
  | ofLocal i =>
    rw [render]
    split
    · exact isLine_renderName (by decide) _
    · exact isLine_renderInvalid (by decide) i
  | ofGlobal i =>
    rw [render]
    split
    · exact isLine_renderName (by decide) _
    · exact isLine_renderInvalid (by decide) i

theorem Value.isLine_renderTyped (v : Value) : IsLine (v.renderTyped globals f) := by
  rw [renderTyped, isLine_append, isLine_append]
  exact ⟨⟨Ty.isLine_render _, by decide⟩, v.isLine_render globals f⟩

theorem isLine_renderDest (dest : Nat) : IsLine (renderDest globals f dest) :=
  isLine_append.mpr ⟨Value.isLine_render globals f _, by decide⟩

/-- **An instruction is written on one line.** -/
theorem Inst.isLine_render (i : Inst) : IsLine (i.render globals f) := by
  have hdest := isLine_renderDest globals f
  have hvalue := Value.isLine_render globals f
  have htyped := Value.isLine_renderTyped globals f
  have hcomma : IsLine ", " := by decide
  have hblank : IsLine " " := by decide
  cases i with
  | alloca dest ty =>
    have hword : IsLine "alloca " := by decide
    simp [render, hdest, hword, ty.isLine_render]
  | load dest ty ptr =>
    have hword : IsLine "load " := by decide
    simp [render, hdest, hword, ty.isLine_render, hcomma, htyped]
  | store value ptr =>
    have hword : IsLine "store " := by decide
    simp [render, hword, hcomma, htyped]
  | binary dest op lhs rhs =>
    simp [render, hdest, op.isLine_render, hblank, hcomma, hvalue, htyped]
  | icmp dest pred lhs rhs =>
    have hword : IsLine "icmp " := by decide
    simp [render, hdest, hword, pred.isLine_render, hblank, hcomma, hvalue, htyped]
  | br target =>
    rw [render, isLine_append]
    refine ⟨by decide, ?_⟩
    split
    · exact isLine_renderName (by decide) _
    · exact isLine_renderInvalid (by decide) target
  | unreachable =>
    have hword : IsLine "unreachable" := by decide
    exact hword

theorem Function.isLine_renderHead : IsLine f.renderHead := by
  have hparams : IsLine (String.intercalate ", " (f.params.map Ty.render)) := by
    refine isLine_intercalate (by decide) fun s hs => ?_
    obtain ⟨ty, -, rfl⟩ := List.mem_map.mp hs
    exact ty.isLine_render
  have hname : IsLine (renderName "@" f.name) := isLine_renderName (by decide) f.name
  have hoption : ∀ (b : Bool) {s t : String}, IsLine s → IsLine t →
      IsLine (if b then s else t) := by
    intro b s t hs ht
    cases b
    · exact ht
    · exact hs
  simp only [Function.renderHead, isLine_append, and_assoc]
  exact ⟨hoption _ (by decide) (by decide), f.linkage.isLine_render, f.ret.isLine_render,
    by decide, hname, by decide, hparams, by decide, hoption _ (by decide) (by decide),
    hoption _ (by decide) (by decide)⟩

/-! ### The lines -/

/-- Lines, each with the newline that ends it. -/
def unlines (ls : List String) : String :=
  String.join (ls.map (· ++ "\n"))

theorem unlines_append (ls ls' : List String) :
    unlines (ls ++ ls') = unlines ls ++ unlines ls' := by
  rw [unlines, List.map_append, String.join_append]
  rfl

theorem unlines_cons (l : String) (ls : List String) :
    unlines (l :: ls) = l ++ "\n" ++ unlines ls := by
  rw [unlines, List.map_cons, String.join_cons]
  rfl

theorem unlines_flatMap {α : Type} (lines : α → List String) (as : List α) :
    unlines (as.flatMap lines) = String.join (as.map fun a => unlines (lines a)) := by
  induction as with
  | nil => rfl
  | cons a as ih => rw [List.flatMap_cons, unlines_append, ih, List.map_cons, String.join_cons]

/-- The line that names a block. -/
def Block.title (b : Block) : String :=
  renderName "" b.name ++ ":" ++ if b.pinned then " ; entry point" else ""

/-- The lines of a block. -/
def Block.lines (b : Block) : List String :=
  b.title :: b.insts.map fun i => "  " ++ i.render globals f

/-- The lines of a function, the empty one before it included. -/
def Function.lines : List String :=
  if f.isDeclaration then
    ["", f.renderHead]
  else
    ["", f.renderHead ++ " \x7b"] ++ f.blocks.flatMap (Block.lines globals f) ++ ["\x7d"]

/-- The line of a global. -/
def Global.line (g : Global) : String :=
  renderName "@" g.name ++ " = " ++ g.linkage.render ++
    (if g.constant then "constant " else "global ") ++ g.ty.render ++ " c\"" ++
    renderBytes g.init ++ "\""

/-- The lines of a module after its header. -/
def Module.lines (m : Module) : List String :=
  (if m.globals.isEmpty then [] else [""]) ++ m.globals.map Global.line ++
    m.functions.flatMap (Function.lines m.globals)

theorem Block.render_eq (b : Block) : b.render globals f = unlines (b.lines globals f) := by
  rw [lines, unlines_cons, Block.render, title, unlines, List.map_map]
  rfl

theorem Function.render_eq : "\n" ++ f.render globals = unlines (f.lines globals) := by
  rw [Function.render, lines]
  split
  · simp [unlines]
  · have hblocks : f.blocks.map (Block.render globals f) =
        f.blocks.map fun b => unlines (b.lines globals f) :=
      List.map_congr_left fun b _ => b.render_eq globals f
    rw [unlines_append, unlines_append, unlines_flatMap, hblocks]
    simp [unlines, String.append_assoc]

end

theorem Global.render_eq (g : Global) : g.render = g.line ++ "\n" := by
  have hend : "\"\n" = "\"" ++ "\n" := by decide
  rw [Global.render, line, hend, ← String.append_assoc]

/-- **The text of a module** is its header, followed by its lines. -/
theorem Module.render_eq (m : Module) :
    m.render = "; ModuleID = '" ++ m.name ++ "'\n" ++ unlines m.lines := by
  have hglobals : m.globals.map Global.render = (m.globals.map Global.line).map (· ++ "\n") := by
    rw [List.map_map]
    exact List.map_congr_left fun g _ => g.render_eq
  have hfunctions : (m.functions.map fun f => "\n" ++ f.render m.globals) =
      m.functions.map fun f => unlines (f.lines m.globals) :=
    List.map_congr_left fun f _ => f.render_eq m.globals
  have hgap : (if m.globals.isEmpty then "" else "\n") =
      unlines (if m.globals.isEmpty then [] else [""]) := by
    split <;> rfl
  have hlines : unlines m.lines = (if m.globals.isEmpty then "" else "\n") ++
      String.join (m.globals.map Global.render) ++
        String.join (m.functions.map fun f => "\n" ++ f.render m.globals) := by
    rw [lines, unlines_append, unlines_append, unlines_flatMap, hglobals, hfunctions, hgap, unlines,
      unlines]
  simp only [hlines, ← String.append_assoc]
  rfl

/-! ### No line has a newline of its own -/

theorem Block.isLine_of_mem_lines (globals : List Global) (f : Function) (b : Block) :
    ∀ l ∈ b.lines globals f, IsLine l := by
  intro l hl
  rcases List.mem_cons.mp hl with rfl | hl
  · rw [title, isLine_append, isLine_append]
    refine ⟨⟨isLine_renderName (by decide) b.name, by decide⟩, ?_⟩
    split <;> decide
  · obtain ⟨i, -, rfl⟩ := List.mem_map.mp hl
    exact isLine_append.mpr ⟨by decide, i.isLine_render globals f⟩

theorem Function.isLine_of_mem_lines (globals : List Global) (f : Function) :
    ∀ l ∈ f.lines globals, IsLine l := by
  have hempty : IsLine "" := by decide
  have hhead := f.isLine_renderHead
  intro l hl
  rw [lines] at hl
  split at hl
  · simp only [List.mem_cons, List.not_mem_nil, or_false] at hl
    rcases hl with rfl | rfl
    · exact hempty
    · exact hhead
  · simp only [List.mem_append, List.mem_cons, List.not_mem_nil, or_false] at hl
    rcases hl with ((rfl | rfl) | hl) | rfl
    · exact hempty
    · exact isLine_append.mpr ⟨hhead, by decide⟩
    · obtain ⟨b, -, hl⟩ := List.mem_flatMap.mp hl
      exact b.isLine_of_mem_lines globals f l hl
    · decide

theorem Global.isLine_line (g : Global) : IsLine g.line := by
  simp only [line, isLine_append, and_assoc]
  refine ⟨isLine_renderName (by decide) g.name, by decide, g.linkage.isLine_render, ?_,
    g.ty.isLine_render, by decide, isLine_renderBytes g.init, by decide⟩
  split <;> decide

/-- **No line has a newline of its own**, whatever names and bytes the module holds. -/
theorem Module.isLine_of_mem_lines (m : Module) : ∀ l ∈ m.lines, IsLine l := by
  intro l hl
  rcases List.mem_append.mp hl with hl | hl
  · rcases List.mem_append.mp hl with hl | hl
    · split at hl
      · exact absurd hl List.not_mem_nil
      · rw [List.mem_singleton.mp hl]
        decide
    · obtain ⟨g, -, rfl⟩ := List.mem_map.mp hl
      exact g.isLine_line
  · obtain ⟨f, -, hl⟩ := List.mem_flatMap.mp hl
    exact f.isLine_of_mem_lines m.globals l hl

/-! ### Counting -/

/-- There are as many newlines as lines. -/
theorem count_newline_unlines {ls : List String} (h : ∀ l ∈ ls, IsLine l) :
    (unlines ls).toList.count '\n' = ls.length := by
  induction ls with
  | nil => rfl
  | cons l ls ih =>
    have hl : l.toList.count '\n' = 0 := List.count_eq_zero.mpr (h l List.mem_cons_self)
    have hls := ih fun l' hl' => h l' (List.mem_cons_of_mem l hl')
    have hnewline : "\n".toList.count '\n' = 1 := by decide
    rw [unlines_cons, String.toList_append, String.toList_append, List.count_append,
      List.count_append, hl, hnewline, hls, List.length_cons]
    omega

/-- How many lines the structure of a function takes: two for a declaration, with the empty line
before it; for a definition one more, and one for each block and each instruction. -/
def Function.lineCount (f : Function) : Nat :=
  if f.isDeclaration then 2
  else 3 + f.blocks.length + (f.blocks.map fun b => b.insts.length).sum

/-- How many lines the structure of a module takes: one for the header; if there are globals, one
for each of them and an empty one; and those of the functions. -/
def Module.lineCount (m : Module) : Nat :=
  1 + (if m.globals.isEmpty then 0 else 1 + m.globals.length) +
    (m.functions.map Function.lineCount).sum

theorem Function.length_lines (globals : List Global) (f : Function) :
    (f.lines globals).length = f.lineCount := by
  have hblocks : ∀ bs : List Block, (bs.flatMap (Block.lines globals f)).length =
      bs.length + (bs.map fun b => b.insts.length).sum := by
    intro bs
    induction bs with
    | nil => rfl
    | cons b bs ih =>
      rw [List.flatMap_cons, List.length_append, ih, List.map_cons, List.sum_cons, Block.lines,
        List.length_cons, List.length_map, List.length_cons]
      omega
  rw [lines, lineCount]
  split
  · rfl
  · rw [List.length_append, List.length_append, hblocks, List.length_cons, List.length_singleton]
    simp only [List.length_cons, List.length_nil]
    omega

theorem Module.length_lines (m : Module) : m.lines.length + 1 = m.lineCount := by
  have hfunctions : (m.functions.flatMap (Function.lines m.globals)).length =
      (m.functions.map Function.lineCount).sum := by
    rw [List.length_flatMap]
    exact congrArg List.sum (List.map_congr_left fun f _ => f.length_lines m.globals)
  rw [lines, lineCount, List.length_append, List.length_append, List.length_map, hfunctions]
  cases hempty : m.globals with
  | nil => simp; omega
  | cons g gs => simp; omega

end IR

/-- **The newlines of a module's text** are those that its structure takes, and those in the name
of the module. So no other name and no byte of a global adds a line, and the structure alone
decides the number exactly if the name of the module has no newline. -/
theorem count_newline_render (m : IR.Module) :
    m.render.toList.count '\n' = m.lineCount + m.name.toList.count '\n' ∧
      (m.render.toList.count '\n' = m.lineCount ↔ '\n' ∉ m.name.toList) := by
  have hopen : "; ModuleID = '".toList.count '\n' = 0 := by decide
  have hclose : "'\n".toList.count '\n' = 1 := by decide
  have hcount : m.render.toList.count '\n' = m.lineCount + m.name.toList.count '\n' := by
    rw [m.render_eq, ← m.length_lines]
    simp only [String.toList_append, List.count_append]
    rw [hopen, hclose, IR.count_newline_unlines m.isLine_of_mem_lines]
    omega
  refine ⟨hcount, ?_⟩
  rw [hcount, Nat.add_eq_left, List.count_eq_zero]

end Mos6502
