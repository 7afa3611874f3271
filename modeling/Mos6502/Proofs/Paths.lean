import Mos6502.Cli.Path
import Mathlib

/-!
# Paths along the same names

What leads to a file is the names along a path. Pieces that stay where they are do not matter for
that, wherever they stand. The comparison of paths leaves them out too, but for one: a dot at the
very start of a path counts. So it tells some relative paths apart that lead to the same file, and
exactly those of which one starts with a dot and the other does not.

Replacing the extension of a path only changes its last name, and that is no dot before or
afterwards. So a path and what is derived from it start alike.

## Main definitions

* `namesOf` — the names along a path
* `DotFirst`, `StartAlike` — a path starts with a dot that stays where it is, and two paths agree
  in that
* `SameFile` — relative paths along the same names

## Main results

* `samePath_iff` — which relative paths are compared as equal
* `startAlike_withExtension` — a path starts like what is derived from it
-/

namespace Mos6502.Cli

/-- The names along a path: its pieces without those that stay where they are. -/
def namesOf (path : String) : List String :=
  (pieces path).filter fun piece => !isStay piece

/-- Does the path start where it is used, and not at the root? -/
def IsRelative (path : String) : Prop :=
  path.startsWith "/" = false

instance (path : String) : Decidable (IsRelative path) :=
  inferInstanceAs (Decidable (_ = _))

/-- Does the path start with a dot that stays where it is? -/
def DotFirst (path : String) : Prop :=
  (pieces path).head? = some "."

instance (path : String) : Decidable (DotFirst path) :=
  inferInstanceAs (Decidable (_ = _))

/-- Do both paths start with a dot, or none of them? -/
def StartAlike (p q : String) : Prop :=
  DotFirst p ↔ DotFirst q

instance (p q : String) : Decidable (StartAlike p q) :=
  inferInstanceAs (Decidable (_ ↔ _))

/-- Relative paths that are equal once all pieces that stay where they are have been removed. -/
structure SameFile (p q : String) : Prop where
  isRelative_left : IsRelative p
  isRelative_right : IsRelative q
  namesOf_eq : namesOf p = namesOf q

variable {path p q : String}

/-! ### Pieces -/

theorem piecesOf_eq_splitOn (cs : List Char) : piecesOf cs = cs.splitOn '/' := by
  induction cs with
  | nil => rfl
  | cons c cs ih =>
    rw [piecesOf, ih, List.splitOn_cons_eq_if_modifyHead]
    simp only [beq_iff_eq]
    split
    · rfl
    · cases h : cs.splitOn '/' with
      | nil => exact absurd h (List.splitOn_ne_nil _ _)
      | cons piece ps => rfl

theorem slash_not_mem_of_mem_piecesOf {cs piece : List Char} (h : piece ∈ piecesOf cs) :
    '/' ∉ piece := by
  induction cs generalizing piece with
  | nil =>
    rw [List.mem_singleton.mp h]
    exact List.not_mem_nil
  | cons c cs ih =>
    rw [piecesOf] at h
    split at h
    next =>
      rcases List.mem_cons.mp h with rfl | h
      · exact List.not_mem_nil
      · exact ih h
    next hc =>
      have hcons : ∀ {first : List Char}, '/' ∉ first → '/' ∉ c :: first :=
        List.not_mem_cons_of_ne_of_not_mem (Ne.symm hc)
      split at h
      next =>
        rw [List.mem_singleton.mp h]
        exact hcons List.not_mem_nil
      next first ps hpieces =>
        rw [hpieces] at ih
        rcases List.mem_cons.mp h with rfl | h
        · exact hcons (ih List.mem_cons_self)
        · exact ih (List.mem_cons_of_mem first h)

theorem slash_not_mem_of_mem_pieces {piece : String} (h : piece ∈ pieces path) :
    '/' ∉ piece.toList := by
  obtain ⟨cs, hcs, rfl⟩ := List.mem_map.mp h
  rw [String.toList_ofList]
  exact slash_not_mem_of_mem_piecesOf hcs

theorem pieces_ne_nil (path : String) : pieces path ≠ [] := by
  rw [pieces, piecesOf_eq_splitOn, Ne, List.map_eq_nil_iff]
  exact List.splitOn_ne_nil _ _

theorem exists_pieces_eq_concat (path : String) : ∃ front last, pieces path = front ++ [last] := by
  obtain ⟨front, last, h⟩ :=
    (List.eq_nil_or_concat (pieces path)).resolve_left (pieces_ne_nil path)
  exact ⟨front, last, h.trans List.concat_eq_append⟩

/-- Pieces with slashes between them are taken apart again. -/
theorem pieces_intercalate {ps : List String} (hne : ps ≠ [])
    (h : ∀ piece ∈ ps, '/' ∉ piece.toList) : pieces ("/".intercalate ps) = ps := by
  have hsplit : (['/'].intercalate (ps.map String.toList)).splitOn '/' = ps.map String.toList := by
    refine List.splitOn_intercalate '/' ?_ (by simpa using hne)
    simpa only [List.forall_mem_map] using h
  rw [pieces, piecesOf_eq_splitOn, String.toList_intercalate]
  rw [show "/".toList = ['/'] from rfl, hsplit, List.map_map]
  simp [Function.comp_def]

/-- A relative path whose first piece is empty is empty. -/
theorem eq_empty_of_head?_pieces (h : IsRelative path) (hfirst : (pieces path).head? = some "") :
    path = "" := by
  rw [IsRelative, String.startsWith_string_eq_false_iff] at h
  rw [← String.toList_eq_nil_iff]
  rw [pieces] at hfirst
  cases hpath : path.toList with
  | nil => rfl
  | cons c cs =>
    rw [hpath] at h hfirst
    rw [piecesOf] at hfirst
    split at hfirst
    next hc =>
      subst hc
      exact absurd (List.prefix_append ['/'] cs) h
    next =>
      split at hfirst
      · simp at hfirst
      · simp at hfirst

/-! ### Comparing paths -/

theorem dot_not_mem_namesOf (path : String) : "." ∉ namesOf path := by
  simp [namesOf, isStay]

/-- The components of a relative path are its names, with the dot that it starts with. -/
theorem components_of_isRelative (h : IsRelative path) :
    components path = if DotFirst path then "." :: namesOf path else namesOf path := by
  have hdot : DotFirst path ↔ (pieces path).head? = some "." := Iff.rfl
  rw [components, namesOf, if_congr hdot rfl rfl]
  cases hpieces : pieces path with
  | nil => exact absurd hpieces (pieces_ne_nil path)
  | cons first rest =>
    by_cases hempty : first = ""
    · subst hempty
      obtain rfl := eq_empty_of_head?_pieces h (by rw [hpieces, List.head?_cons])
      obtain rfl : rest = [] := (List.cons.inj (hpieces.symm.trans rfl)).2
      rfl
    · by_cases hdot : first = "."
      · simp [isStay, hdot]
      · simp [isStay, hempty, hdot]

/-- **Which relative paths are compared as equal.** They have the same names and start alike. -/
theorem samePath_iff (hp : IsRelative p) (hq : IsRelative q) :
    samePath p q = true ↔ namesOf p = namesOf q ∧ StartAlike p q := by
  have hdot : ∀ path names, namesOf path ≠ "." :: names := by
    intro path names heq
    exact dot_not_mem_namesOf path (heq ▸ List.mem_cons_self)
  rw [samePath, beq_iff_eq, components_of_isRelative hp, components_of_isRelative hq, StartAlike]
  split_ifs with hp hq hq
  · simp [hp, hq]
  · simp [hp, hq, (hdot _ _).symm]
  · simp [hp, hq, hdot]
  · simp [hp, hq]

/-! ### Replacing the extension -/

theorem mem_of_mem_stem {name : List Char} {c : Char} (h : c ∈ stem name) : c ∈ name := by
  rw [stem] at h
  split at h
  next => exact h
  next =>
    exact List.mem_reverse.mp
      ((List.dropWhile_subset _) (List.mem_of_mem_drop (List.mem_reverse.mp h)))

/-- A file name with its extension replaced. -/
def nameWithExtension (name extension : String) : String :=
  String.ofList (stem name.toList) ++ "." ++ extension

variable {name extension : String}

theorem slash_not_mem_nameWithExtension (hname : '/' ∉ name.toList)
    (hextension : '/' ∉ extension.toList) :
    '/' ∉ (nameWithExtension name extension).toList := by
  simp only [nameWithExtension, String.toList_append, String.toList_ofList, List.mem_append, not_or]
  exact ⟨⟨fun h => hname (mem_of_mem_stem h), by decide⟩, hextension⟩

theorem nameWithExtension_ne_dot (h : extension ≠ "") : nameWithExtension name extension ≠ "." := by
  intro heq
  have hlength := congrArg String.length heq
  simp only [nameWithExtension, String.length_append] at hlength
  have hone : ".".length = 1 := rfl
  exact h (String.length_eq_zero_iff.mp (by omega))

/-- Replacing the extension of a path changes nothing, or its last name and what stands behind. -/
theorem withExtension_cases (path extension : String) :
    withExtension path extension = path ∨
      ∃ front name stays, pieces path = front ++ name :: stays ∧ isStay name = false ∧
        withExtension path extension =
          "/".intercalate (front ++ [nameWithExtension name extension]) := by
  rw [withExtension]
  split
  next => exact .inl rfl
  next name before hlast =>
    split
    next => exact .inl rfl
    next =>
      refine .inr ⟨before.reverse, name, ((pieces path).reverse.takeWhile isStay).reverse, ?_, ?_,
        rfl⟩
      · rw [List.append_cons, ← List.reverse_cons, ← hlast, ← List.reverse_append,
          List.takeWhile_append_dropWhile, List.reverse_reverse]
      · simpa [hlast] using List.head?_dropWhile_not isStay (pieces path).reverse

/-- **A path and what is derived from it** start alike. -/
theorem startAlike_withExtension (hne : extension ≠ "") (hslash : '/' ∉ extension.toList) :
    StartAlike path (withExtension path extension) := by
  rw [StartAlike]
  rcases withExtension_cases path extension with heq | ⟨front, name, stays, hpieces, hstay, heq⟩
  · rw [heq]
  · have hclean : ∀ piece ∈ front ++ name :: stays, '/' ∉ piece.toList := by
      rw [← hpieces]
      exact fun piece hmem => slash_not_mem_of_mem_pieces hmem
    rw [List.forall_mem_append, List.forall_mem_cons] at hclean
    have hpieces' : pieces (withExtension path extension) =
        front ++ [nameWithExtension name extension] := by
      rw [heq]
      refine pieces_intercalate (by simp) (List.forall_mem_append.mpr ⟨hclean.1, ?_⟩)
      simpa using slash_not_mem_nameWithExtension hclean.2.1 hslash
    rw [DotFirst, DotFirst, hpieces, hpieces']
    cases front with
    | nil =>
      have hdot : name ≠ "." := by
        rintro rfl
        exact absurd hstay (by decide)
      simp [hdot, nameWithExtension_ne_dot hne]
    | cons piece ps => rfl

end Mos6502.Cli
