import Mos6502.Proofs.ModuleText
import Mos6502.Proofs.Scanning

/-!
# Names and bytes can be told from the text

What is written of a name, of bytes or of a number determines it, and also where it ends. Escapes
are what makes this work for quoted text: a quote and a backslash are never written as themselves,
so the first quote ends the text and each byte is one character or three. A name without quotes
ends in front of the first character that such a name cannot have.

So each statement here is about texts that go on: `nameChars_append_inj` cancels two names in front
of two other texts.

## Main results

* `renderBytes_append_inj`, `nameChars_append_inj` — bytes and names
* `Global.line_injective`, `Block.title_inj` — lines that hold a name
-/

namespace Mos6502.IR

open Text Scanner

/-! ### Texts that go on -/

/-- A run of a class can be told from what follows it, if that does not continue it. -/
theorem append_inj_of_run {α : Type} {p : α → Bool} {u v x y : List α} (hu : ∀ a ∈ u, p a = true)
    (hv : ∀ a ∈ v, p a = true) (hx : ∀ a ∈ x.head?, p a = false) (hy : ∀ a ∈ y.head?, p a = false)
    (h : u ++ x = v ++ y) : u = v ∧ x = y := by
  have hrun : ∀ {u x : List α}, (∀ a ∈ u, p a = true) → (∀ a ∈ x.head?, p a = false) →
      (u ++ x).takeWhile p = u := by
    intro u x hu hx
    have hnone : x.takeWhile p = [] := by
      cases x with
      | nil => rfl
      | cons a x => exact List.takeWhile_cons_of_neg (by simp [hx a rfl])
    rw [List.takeWhile_append_of_pos hu, hnone, List.append_nil]
  have huv : u = v := by rw [← hrun hu hx, h, hrun hv hy]
  refine ⟨huv, ?_⟩
  rw [huv] at h
  exact List.append_cancel_left h

/-! ### Bytes -/

theorem toList_renderByte_of_isVerbatim {b : UInt8} (h : isVerbatim b = true) :
    (renderByte b).toList = [Char.ofNat b.toNat] := by
  rw [renderByte, if_pos h, String.toList_singleton]

theorem toList_renderByte_of_not {b : UInt8} (h : isVerbatim b ≠ true) :
    (renderByte b).toList =
      ['\\', (Nat.digitChar (b.toNat / 16)).toUpper, (Nat.digitChar (b.toNat % 16)).toUpper] := by
  rw [renderByte, if_neg h, String.toList_append, toList_hexUpper_two b.toNat_lt]
  rfl

theorem toNat_ofNat_byte (b : UInt8) : (Char.ofNat b.toNat).toNat = b.toNat := by
  have hlt : b.toNat < 256 := b.toNat_lt
  rw [Char.toNat_ofNat, if_pos (.inl (by omega))]

/-- Neither a quote nor a backslash stands for itself. -/
theorem ofNat_ne_of_isVerbatim {b : UInt8} (h : isVerbatim b = true) :
    Char.ofNat b.toNat ≠ '"' ∧ Char.ofNat b.toNat ≠ '\\' := by
  have hbyte : ∀ {c : Char}, Char.ofNat b.toNat = c → b = UInt8.ofNat c.toNat := by
    rintro c rfl
    rw [toNat_ofNat_byte, UInt8.ofNat_toNat]
  simp only [isVerbatim, Bool.and_eq_true, bne_iff_ne] at h
  exact ⟨fun heq => h.1.2 (hbyte heq), fun heq => h.2 (hbyte heq)⟩

theorem digitChar_toUpper_inj {k l : Nat} (hk : k < 16) (hl : l < 16)
    (h : (Nat.digitChar k).toUpper = (Nat.digitChar l).toUpper) : k = l := by
  have hdigits : ∀ k < 16, ∀ l < 16,
      (Nat.digitChar k).toUpper = (Nat.digitChar l).toUpper → k = l := by decide
  exact hdigits k hk l hl h

/-- A byte can be told from what follows it. -/
theorem renderByte_append_inj {b c : UInt8} {x y : List Char}
    (h : (renderByte b).toList ++ x = (renderByte c).toList ++ y) : b = c ∧ x = y := by
  by_cases hb : isVerbatim b = true <;> by_cases hc : isVerbatim c = true
  · rw [toList_renderByte_of_isVerbatim hb, toList_renderByte_of_isVerbatim hc] at h
    obtain ⟨hchar, hrest⟩ := List.cons.inj h
    refine ⟨UInt8.toNat_inj.mp ?_, hrest⟩
    rw [← toNat_ofNat_byte b, hchar, toNat_ofNat_byte]
  · rw [toList_renderByte_of_isVerbatim hb, toList_renderByte_of_not hc] at h
    exact absurd (List.cons.inj h).1 (ofNat_ne_of_isVerbatim hb).2
  · rw [toList_renderByte_of_not hb, toList_renderByte_of_isVerbatim hc] at h
    exact absurd (List.cons.inj h).1.symm (ofNat_ne_of_isVerbatim hc).2
  · rw [toList_renderByte_of_not hb, toList_renderByte_of_not hc] at h
    simp only [List.cons_append, List.nil_append, List.cons.injEq, true_and] at h
    have hbyte : b.toNat < 256 := b.toNat_lt
    have hbyte' : c.toNat < 256 := c.toNat_lt
    have hhigh : b.toNat / 16 = c.toNat / 16 := digitChar_toUpper_inj (by omega) (by omega) h.1
    have hlow : b.toNat % 16 = c.toNat % 16 := digitChar_toUpper_inj (by omega) (by omega) h.2.1
    exact ⟨UInt8.toNat_inj.mp (by omega), h.2.2⟩

theorem head?_renderByte_ne (b : UInt8) (x : List Char) :
    ((renderByte b).toList ++ x).head? ≠ some '"' := by
  by_cases hb : isVerbatim b = true
  · rw [toList_renderByte_of_isVerbatim hb]
    exact fun h => (ofNat_ne_of_isVerbatim hb).1 (Option.some.inj h)
  · rw [toList_renderByte_of_not hb]
    exact fun h => absurd (Option.some.inj h) (by decide)

theorem toList_renderBytes_cons (b : UInt8) (bs : List UInt8) :
    (renderBytes (b :: bs)).toList = (renderByte b).toList ++ (renderBytes bs).toList := by
  rw [renderBytes, List.map_cons, String.join_cons, String.toList_append]
  rfl

/-- **Bytes** can be told from the quote that ends them and what follows it. -/
theorem renderBytes_append_inj {bs cs : List UInt8} {x y : List Char}
    (h : (renderBytes bs).toList ++ '"' :: x = (renderBytes cs).toList ++ '"' :: y) :
    bs = cs ∧ x = y := by
  induction bs generalizing cs with
  | nil =>
    cases cs with
    | nil => exact ⟨rfl, (List.cons.inj h).2⟩
    | cons c cs =>
      rw [toList_renderBytes_cons, List.append_assoc] at h
      exact absurd (congrArg List.head? h).symm (head?_renderByte_ne c _)
  | cons b bs ih =>
    cases cs with
    | nil =>
      rw [toList_renderBytes_cons, List.append_assoc] at h
      exact absurd (congrArg List.head? h) (head?_renderByte_ne b _)
    | cons c cs =>
      rw [toList_renderBytes_cons, toList_renderBytes_cons, List.append_assoc,
        List.append_assoc] at h
      obtain ⟨hbyte, hrest⟩ := renderByte_append_inj h
      obtain ⟨hbytes, hend⟩ := ih hrest
      exact ⟨by rw [hbyte, hbytes], hend⟩

/-! ### Names -/

theorem encode_inj {s t : String} (h : encode s = encode t) : s = t := by
  have hbytes : s.toList.utf8Encode = t.toList.utf8Encode := congrArg List.toByteArray h
  have hlists : String.ofList s.toList = String.ofList t.toList := String.toByteArray_inj.mp hbytes
  rwa [String.ofList_toList, String.ofList_toList] at hlists

theorem isPlainChar_of_mem {name : String} (h : isPlain name = true) :
    ∀ c ∈ name.toList, isPlainChar c = true := by
  rw [isPlain, Bool.and_eq_true] at h
  exact List.all_eq_true.mp h.2

/-- A name without quotes starts with one of its characters. -/
theorem head?_ne_of_isPlain {name : String} (h : isPlain name = true) {c : Char}
    (hc : isPlainChar c = false) (x : List Char) : (name.toList ++ x).head? ≠ some c := by
  intro hhead
  have hne : name.toList ≠ [] := by
    rintro hnil
    rw [isPlain, hnil] at h
    cases h
  rw [List.head?_append_of_ne_nil _ hne] at hhead
  rw [isPlainChar_of_mem h c (List.mem_of_mem_head? hhead)] at hc
  cases hc

/-- The characters that write a name after its sign. -/
def nameChars (name : String) : List Char :=
  if isPlain name then name.toList else '"' :: ((renderBytes (encode name)).toList ++ ['"'])

theorem toList_renderName (sigil name : String) :
    (renderName sigil name).toList = sigil.toList ++ nameChars name := by
  rw [renderName, String.toList_append, nameChars]
  split
  · rfl
  · rw [String.toList_append, String.toList_append]
    simp

theorem head?_nameChars_ne {c : Char} (hc : isPlainChar c = false) (hquote : c ≠ '"')
    (name : String) (x : List Char) : (nameChars name ++ x).head? ≠ some c := by
  rw [nameChars]
  split
  · next hplain => exact head?_ne_of_isPlain hplain hc x
  · exact fun h => hquote (Option.some.inj h).symm

/-- **A name** can be told from what follows it, if that does not continue it. -/
theorem nameChars_append_inj {name name' : String} {x y : List Char} (hx : Stops isPlainChar x)
    (hy : Stops isPlainChar y) (h : nameChars name ++ x = nameChars name' ++ y) :
    name = name' ∧ x = y := by
  rw [nameChars, nameChars] at h
  by_cases hplain : isPlain name = true <;> by_cases hplain' : isPlain name' = true
  · rw [if_pos hplain, if_pos hplain'] at h
    obtain ⟨hname, hrest⟩ :=
      append_inj_of_run (isPlainChar_of_mem hplain) (isPlainChar_of_mem hplain') hx hy h
    exact ⟨String.toList_injective hname, hrest⟩
  · rw [if_pos hplain, if_neg hplain'] at h
    exact absurd (congrArg List.head? h) (head?_ne_of_isPlain hplain (by decide) x)
  · rw [if_neg hplain, if_pos hplain'] at h
    exact absurd (congrArg List.head? h).symm (head?_ne_of_isPlain hplain' (by decide) y)
  · rw [if_neg hplain, if_neg hplain'] at h
    simp only [List.cons_append, List.append_assoc, List.nil_append, List.cons.injEq,
      true_and] at h
    obtain ⟨hbytes, hrest⟩ := renderBytes_append_inj h
    exact ⟨encode_inj hbytes, hrest⟩

/-- A name on its own. -/
theorem renderName_inj {sigil name name' : String}
    (h : renderName sigil name = renderName sigil name') : name = name' := by
  have hchars := congrArg String.toList h
  rw [toList_renderName, toList_renderName] at hchars
  have hnames : nameChars name ++ [] = nameChars name' ++ [] := by
    rw [List.append_nil, List.append_nil]
    exact List.append_cancel_left hchars
  exact (nameChars_append_inj stops_nil stops_nil hnames).1

/-! ### Lines that hold a name -/

/-- The line of a global after its name and up to the quote in front of its bytes. -/
def Global.between (g : Global) : List Char :=
  " = ".toList ++ g.linkage.render.toList ++
    (if g.constant then "constant " else "global ").toList ++ g.ty.render.toList ++ " c".toList

theorem Global.toList_line (g : Global) :
    g.line.toList = '@' :: (nameChars g.name ++
      (g.between ++ '"' :: ((renderBytes g.init).toList ++ ['"']))) := by
  rw [line, between]
  simp [toList_renderName]

theorem Global.quote_not_mem_between (g : Global) : '"' ∉ g.between := by
  have hlength : '"' ∉ Nat.toDigits 10 g.init.length := by
    rw [← Nat.toList_repr]
    exact fun h => absurd (isDigit_of_mem_repr h) (by decide)
  have hlinkage : '"' ∉ g.linkage.render.toList := by cases g.linkage <;> decide
  have hconstant : '"' ∉ (if g.constant then "constant " else "global ").toList := by
    cases g.constant <;> decide
  simp [between, Global.ty, Ty.render, hlength, hlinkage, hconstant]

theorem Global.between_inj {g g' : Global} (h : g.between = g'.between) :
    g.linkage = g'.linkage ∧ g.constant = g'.constant := by
  obtain ⟨name, linkage, constant, init⟩ := g
  obtain ⟨name', linkage', constant', init'⟩ := g'
  cases linkage <;> cases constant <;> cases linkage' <;> cases constant' <;>
    simp [between, Linkage.render] at h ⊢

/-- **A global** can be told from its line. -/
theorem Global.line_injective : Function.Injective Global.line := by
  intro g g' h
  have hstops : ∀ (g : Global) (x : List Char), Stops isPlainChar (g.between ++ x) := by
    intro g x
    exact stops_cons.mpr (by decide)
  have hquote : ∀ g : Global, ∀ c ∈ g.between, (c != '"') = true := by
    intro g c hc
    rw [bne_iff_ne]
    rintro rfl
    exact g.quote_not_mem_between hc
  have hchars := congrArg String.toList h
  rw [toList_line, toList_line] at hchars
  obtain ⟨hname, hrest⟩ :=
    nameChars_append_inj (hstops g _) (hstops g' _) (List.cons.inj hchars).2
  obtain ⟨hbetween, hrest⟩ := append_inj_of_run (hquote g) (hquote g')
    (stops_cons.mpr (by decide)) (stops_cons.mpr (by decide)) hrest
  obtain ⟨hinit, -⟩ := renderBytes_append_inj (List.cons.inj hrest).2
  obtain ⟨hlinkage, hconstant⟩ := between_inj hbetween
  cases g
  cases g'
  simp only at hname hlinkage hconstant hinit
  rw [hname, hlinkage, hconstant, hinit]

theorem Block.toList_title (b : Block) :
    b.title.toList =
      nameChars b.name ++ ':' :: (if b.pinned then " ; entry point" else "").toList := by
  rw [title]
  simp [toList_renderName]

/-- **The title of a block** tells its name and whether it is pinned. -/
theorem Block.title_inj {b b' : Block} (h : b.title = b'.title) :
    b.name = b'.name ∧ b.pinned = b'.pinned := by
  have hchars := congrArg String.toList h
  rw [toList_title, toList_title] at hchars
  obtain ⟨hname, hrest⟩ := nameChars_append_inj (stops_cons.mpr (by decide))
    (stops_cons.mpr (by decide)) hchars
  refine ⟨hname, ?_⟩
  have hpinned := (List.cons.inj hrest).2
  cases hb : b.pinned <;> cases hb' : b'.pinned <;> simp [hb, hb'] at hpinned ⊢

end Mos6502.IR
