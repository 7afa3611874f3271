import Mos6502.Cli.Files
import Mos6502.Proofs.Selection
import Mathlib.Data.List.Basic
import Mathlib.Tactic.Common

/-!
# Files that were written

A file is put into a directory that is there already. So a write makes no directory and takes none
away, and every walk that led somewhere before leads to the same place afterwards. Only what lies
at the target of the write is another: the way to it now leads to what was written, and every other
way to what it led to before.

## Main definitions

* `Updated` — a tree after contents were written to a path

## Main results

* `get?_put` — what the files of a tree hold after one of them was put there
* `isDir_put_child` — a file that is put into a directory makes no other directory
* `read_put_target` — what was written to a path is what is read from it
* `exists_updated_of_target` — a write updates the tree at its target
-/

namespace Mos6502.Cli.Files

variable {fs fs' : Files} {path : String} {place dir next : Place}

/-! ### What a tree holds -/

theorem lookup_replace_self {entries : List (List String × Contents)} {way : List String}
    {c : Contents} (h : entries.any (fun e => e.1 == way) = true) :
    (entries.map fun e => if e.1 == way then (way, c) else e).lookup way = some c := by
  induction entries with
  | nil => cases h
  | cons e entries ih =>
    rw [List.map_cons]
    by_cases he : e.1 = way
    · rw [if_pos (beq_iff_eq.mpr he), List.lookup_cons_self]
    · rw [List.any_cons, beq_eq_false_iff_ne.mpr he, Bool.false_or] at h
      rw [if_neg (by simpa using he), List.lookup_cons, beq_eq_false_iff_ne.mpr (Ne.symm he)]
      exact ih h

theorem lookup_replace_of_ne (entries : List (List String × Contents)) {way names : List String}
    (c : Contents) (hne : names ≠ way) :
    (entries.map fun e => if e.1 == way then (way, c) else e).lookup names =
      entries.lookup names := by
  induction entries with
  | nil => rfl
  | cons e entries ih =>
    rw [List.map_cons, List.lookup_cons, List.lookup_cons, ih]
    by_cases he : e.1 = way
    · rw [if_pos (beq_iff_eq.mpr he), he]
      simp only [beq_eq_false_iff_ne.mpr hne]
    · rw [if_neg (by simpa using he)]

/-- **One file is changed** by a write, and only if it lies in the tree. -/
theorem get?_put (fs : Files) (place : Place) (c : Contents) (names : List String) :
    (fs.put place c).get? names = if place = .inside names then some c else fs.get? names := by
  cases place with
  | outside way => rfl
  | inside way =>
    simp only [put, get?, Place.inside.injEq]
    by_cases hway : way = names
    · subst hway
      rw [if_pos rfl]
      split
      next hany => exact lookup_replace_self hany
      next hnone =>
        have hfree : fs.entries.lookup way = none := by
          rw [Bool.not_eq_true, List.any_eq_false] at hnone
          refine List.lookup_eq_none_iff.mpr fun e he => bne_iff_ne.mpr fun heq => ?_
          exact hnone e he (beq_iff_eq.mpr heq.symm)
        rw [List.lookup_append, hfree, Option.none_or, List.lookup_cons_self]
    · rw [if_neg hway]
      split
      next => exact lookup_replace_of_ne _ c (Ne.symm hway)
      next =>
        rw [List.lookup_append, List.lookup_cons, beq_eq_false_iff_ne.mpr (Ne.symm hway)]
        exact Option.or_none

/-! ### Directories -/

/-- The ways to the files of a tree. -/
def ways (fs : Files) : List (List String) :=
  fs.entries.map Prod.fst

theorem mem_ways_put {names way : List String} {c : Contents} :
    way ∈ (fs.put (.inside names) c).ways ↔ way ∈ fs.ways ∨ way = names := by
  simp only [ways, put]
  split
  next hany =>
    obtain ⟨e, he, hnames⟩ := List.any_eq_true.mp hany
    have hkeys : (fs.entries.map fun e => if e.1 == names then (names, c) else e).map Prod.fst =
        fs.entries.map Prod.fst := by
      rw [List.map_map]
      refine List.map_congr_left fun e _ => ?_
      rw [Function.comp_apply]
      split
      next h => exact (beq_iff_eq.mp h).symm
      next => rfl
    rw [hkeys]
    refine ⟨.inl, ?_⟩
    rintro (h | rfl)
    · exact h
    · exact List.mem_map.mpr ⟨e, he, beq_iff_eq.mp hnames⟩
  next => rw [List.map_append, List.mem_append, List.map_singleton, List.mem_singleton]

/-- The top of the tree is a directory, and so is what lies on the way to a file. -/
theorem isDir_inside_iff {names : List String} :
    fs.isDir (.inside names) = true ↔
      names = [] ∨ ∃ way ∈ fs.ways, names <+: way ∧ way.length ≠ names.length := by
  simp [isDir, ways]

/-- What lies on the way to a directory is a directory. -/
theorem isDir_of_isPrefix {names names' : List String} (hpre : names' <+: names)
    (hdir : fs.isDir (.inside names) = true) : fs.isDir (.inside names') = true := by
  rw [isDir_inside_iff] at hdir ⊢
  rcases hdir with rfl | ⟨way, hway, hnames, hlen⟩
  · exact .inl (List.prefix_nil.mp hpre)
  · refine .inr ⟨way, hway, hpre.trans hnames, ?_⟩
    have := hpre.length_le
    have := hnames.length_le
    omega

/-- **Directories stay** as they are where a file is put into one of them. -/
theorem isDir_put_child (hdir : fs.isDir dir = true) (name : String) (c : Contents)
    (place : Place) : (fs.put (dir.child name) c).isDir place = fs.isDir place := by
  match dir, place with
  | .outside _, _ => rfl
  | .inside _, .outside [] | .inside _, .outside [_] | .inside _, .outside (_ :: _ :: _) => rfl
  | .inside names, .inside names' =>
    rw [Bool.eq_iff_iff, Place.child, isDir_inside_iff, isDir_inside_iff]
    constructor
    · rintro (hnil | ⟨way, hway, hpre, hlen⟩)
      · exact .inl hnil
      · rcases mem_ways_put.mp hway with hway | rfl
        · exact .inr ⟨way, hway, hpre, hlen⟩
        -- What lies on the way to the new file lies on the way to its directory.
        · rcases List.prefix_concat_iff.mp hpre with rfl | hpre
          · exact absurd rfl hlen
          · exact isDir_inside_iff.mp (isDir_of_isPrefix hpre hdir)
    · rintro (hnil | ⟨way, hway, hsub⟩)
      · exact .inl hnil
      · exact .inr ⟨way, mem_ways_put.mpr (.inl hway), hsub⟩

/-! ### Walks -/

theorem requireDir_eq_ok_iff {u : Unit} :
    fs.requireDir place = .ok u ↔ fs.isDir place = true := by
  rw [requireDir]
  split
  · simp [*]
  · split <;> simp [*]

/-- A step of a walk looks at directories only. -/
theorem follow_of_isDir_eq (hdirs : ∀ place, fs'.isDir place = fs.isDir place) {piece : String}
    (h : fs.follow place piece = .ok next) : fs'.follow place piece = .ok next := by
  obtain ⟨u, hplace, hnext⟩ := Select.bind_eq_ok_iff.mp h
  rw [requireDir_eq_ok_iff, ← hdirs] at hplace
  exact Select.bind_eq_ok_iff.mpr ⟨u, requireDir_eq_ok_iff.mpr hplace, hnext⟩

/-- **Walks stay** the same where directories do. -/
theorem walk_of_isDir_eq (hdirs : ∀ place, fs'.isDir place = fs.isDir place) {ps : List String}
    (h : fs.walk place ps = .ok next) : fs'.walk place ps = .ok next := by
  induction ps generalizing place with
  | nil => exact h
  | cons piece ps ih =>
    rw [walk, List.foldlM_cons] at h ⊢
    obtain ⟨place', hfollow, hwalk⟩ := Select.bind_eq_ok_iff.mp h
    exact Select.bind_eq_ok_iff.mpr ⟨place', follow_of_isDir_eq hdirs hfollow, ih hwalk⟩

/-- A name that is followed leads into the directory. -/
theorem eq_child_of_follow {name : String} (hstay : isStay name = false) (hup : name ≠ "..")
    (h : fs.follow dir name = .ok place) : place = dir.child name := by
  obtain ⟨-, -, h⟩ := Select.bind_eq_ok_iff.mp h
  rw [hstay, if_neg (by decide), if_neg hup] at h
  split at h
  · cases h
  · exact (Except.ok.inj h).symm

/-- Nothing is dropped from the end of a path that ends in a name. -/
theorem pieces_eq_concat {name : String} {before : List String}
    (hlast : (pieces path).reverse.dropWhile (· = "") = name :: before)
    (hend : (pieces path).getLast? ≠ some "") : pieces path = before.reverse ++ [name] := by
  rw [List.getLast?_eq_head?_reverse] at hend
  have hrev : (pieces path).reverse = name :: before := by
    cases hrev : (pieces path).reverse with
    | nil =>
      rw [hrev] at hlast
      cases hlast
    | cons last rest =>
      rw [hrev, List.head?_cons, Ne, Option.some.injEq] at hend
      rwa [hrev, List.dropWhile_cons_of_neg (by simpa using hend)] at hlast
  rw [← List.reverse_reverse (pieces path), hrev, List.reverse_cons]

/-- Where a file is to be put is a place in a directory, and the path leads there. -/
theorem exists_dir_of_target (h : fs.target path = .ok place) :
    ∃ top dir name, start path = .ok top ∧ fs.walk top (pieces path) = .ok place ∧
      place = dir.child name ∧ fs.isDir dir = true ∧ fs.isDir place = false := by
  obtain ⟨top, htop, h⟩ := Select.bind_eq_ok_iff.mp h
  split at h
  next => cases h
  next name before hlast =>
    obtain ⟨dir, hwalk, h⟩ := Select.bind_eq_ok_iff.mp h
    obtain ⟨u, hdir, h⟩ := Select.bind_eq_ok_iff.mp h
    rw [requireDir_eq_ok_iff] at hdir
    split at h
    next => cases h
    next hname =>
      simp only [Bool.or_eq_true, decide_eq_true_eq, not_or, Bool.not_eq_true] at hname
      obtain ⟨⟨hstay, hup⟩, hend⟩ := hname
      obtain ⟨place', hfollow, h⟩ := Select.bind_eq_ok_iff.mp h
      split at h
      next => cases h
      next hfile =>
        obtain rfl : place' = place := Except.ok.inj h
        refine ⟨top, dir, name, htop, ?_, eq_child_of_follow hstay hup hfollow, hdir,
          Bool.eq_false_iff.mpr hfile⟩
        rw [pieces_eq_concat hlast hend, walk, List.foldlM_append]
        refine Select.bind_eq_ok_iff.mpr ⟨dir, hwalk, ?_⟩
        rw [List.foldlM_cons, hfollow]
        rfl

/-- **Reading what was written.** After a text was written to a path that leads into the tree, the
path can be read, and it is that text which is read. -/
theorem read_put_target {names : List String} (h : fs.target path = .ok (.inside names))
    (s : String) : (fs.put (.inside names) (.text s)).read path = .ok s := by
  obtain ⟨top, dir, name, htop, hwalk, hchild, hdir, hfile⟩ := exists_dir_of_target h
  have hdirs : ∀ place, (fs.put (.inside names) (.text s)).isDir place = fs.isDir place := by
    rw [hchild]
    exact isDir_put_child hdir name _
  have hheld : (fs.put (.inside names) (.text s)).contents? (.inside names) = some (.text s) := by
    rw [contents?, get?_put, if_pos rfl]
  rw [← hdirs] at hfile
  refine Select.bind_eq_ok_iff.mpr ⟨top, htop, ?_⟩
  refine Select.bind_eq_ok_iff.mpr ⟨.inside names, walk_of_isDir_eq hdirs hwalk, ?_⟩
  rw [hfile, hheld]
  rfl

/-- The tree after contents were written to a path that leads to the place. They are there, nothing
else has changed, and a text can be read back. -/
structure Updated (fs : Files) (path : String) (place : Place) (c : Contents) (fs' : Files) :
    Prop where
  get?_eq : ∀ names, fs'.get? names = if place = .inside names then some c else fs.get? names
  read_eq : ∀ names s, place = .inside names → c = .text s → fs'.read path = .ok s

/-- **A write** succeeds if its path has a target, and updates the tree there. -/
theorem exists_updated_of_target (h : fs.target path = .ok place) (c : Contents) :
    ∃ fs', fs.write path c = .ok fs' ∧ fs.Updated path place c fs' := by
  refine ⟨fs.put place c, Select.bind_eq_ok_iff.mpr ⟨place, h, rfl⟩, fs.get?_put place c, ?_⟩
  rintro names s rfl rfl
  exact read_put_target h s

end Mos6502.Cli.Files
