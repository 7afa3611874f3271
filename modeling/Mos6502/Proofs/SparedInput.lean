import Mos6502.Proofs.BuildOutput
import Mos6502.Proofs.ModuleText
import Mos6502.Proofs.Paths
import Mathlib

/-!
# Builds onto their input

A build refuses to write onto its input. It decides that by comparing the two paths, and not the
files that they lead to. Relative paths lead to the same file if they have the same names, so what
matters is where the comparison looks at more than names: at a dot that a path starts with.

If both paths start with a dot, or none does, the build is refused and no file changes. That is
always so where the path of the output is derived from that of the input. A path that was given may
start otherwise than the input does; then the build takes it for the path of another file, and the
output replaces the text that it was made from.

## Main definitions

* `NamesFile` — a path has a name at its end, and is not too long

## Main results

* `Files.walk_filter`, `Files.walk_of_filter` — a walk by names alone
* `Files.target_eq_ok_iff` — a path has a target where its walk does not end in a directory
* `Files.target_eq_ok_iff_of_isRelative` — the target of a relative path, by its names
* `Files.target_eq_ok_iff_of_sameFile` — the targets of paths along the same names
* `Command.build_onto_input` — when a build onto its input is refused, and what it does otherwise
-/

namespace Mos6502.Cli

namespace Files

variable {fs : Files} {place dir next : Place} {piece path p q : String} {ps : List String}

/-! ### Walks by names -/

theorem isDir_of_follow (h : fs.follow place piece = .ok next) : fs.isDir place = true := by
  obtain ⟨u, hdir, -⟩ := Select.bind_eq_ok_iff.mp h
  exact requireDir_eq_ok_iff.mp hdir

/-- A piece that stays leads nowhere else. -/
theorem follow_eq_ok_iff_of_isStay (hstay : isStay piece = true) :
    fs.follow place piece = .ok next ↔ fs.isDir place = true ∧ place = next := by
  constructor
  · intro h
    obtain ⟨u, hdir, h⟩ := Select.bind_eq_ok_iff.mp h
    rw [if_pos hstay] at h
    exact ⟨requireDir_eq_ok_iff.mp hdir, Except.ok.inj h⟩
  · rintro ⟨hdir, rfl⟩
    refine Select.bind_eq_ok_iff.mpr ⟨(), requireDir_eq_ok_iff.mpr hdir, ?_⟩
    rw [if_pos hstay]
    rfl

theorem walk_cons_eq_ok_iff :
    fs.walk place (piece :: ps) = .ok next ↔
      ∃ mid, fs.follow place piece = .ok mid ∧ fs.walk mid ps = .ok next := by
  rw [walk, List.foldlM_cons]
  exact Select.bind_eq_ok_iff

theorem walk_concat_eq_ok_iff :
    fs.walk place (ps ++ [piece]) = .ok next ↔
      ∃ mid, fs.walk place ps = .ok mid ∧ fs.follow mid piece = .ok next := by
  rw [walk, List.foldlM_append, Select.bind_eq_ok_iff]
  simp only [List.foldlM_cons, List.foldlM_nil, bind_pure]
  exact Iff.rfl

/-- A walk that ends in a directory starts in one. -/
theorem isDir_of_walk (h : fs.walk place ps = .ok next) (hdir : fs.isDir next = true) :
    fs.isDir place = true := by
  cases ps with
  | nil => rwa [Except.ok.inj h]
  | cons piece ps =>
    obtain ⟨mid, hfollow, -⟩ := walk_cons_eq_ok_iff.mp h
    exact isDir_of_follow hfollow

/-- Pieces that stay can be left out of a walk. -/
theorem walk_filter (h : fs.walk place ps = .ok next) :
    fs.walk place (ps.filter fun piece => !isStay piece) = .ok next := by
  induction ps generalizing place with
  | nil => exact h
  | cons piece ps ih =>
    obtain ⟨mid, hfollow, hwalk⟩ := walk_cons_eq_ok_iff.mp h
    by_cases hstay : isStay piece = true
    · obtain ⟨-, rfl⟩ := (follow_eq_ok_iff_of_isStay hstay).mp hfollow
      rw [List.filter_cons_of_neg (by simp [hstay])]
      exact ih hwalk
    · rw [List.filter_cons_of_pos (by simp [hstay])]
      exact walk_cons_eq_ok_iff.mpr ⟨mid, hfollow, ih hwalk⟩

/-- Pieces that stay can be put into a walk, if it leads to a directory. -/
theorem walk_of_filter (h : fs.walk place (ps.filter fun piece => !isStay piece) = .ok next)
    (hdir : fs.isDir next = true) : fs.walk place ps = .ok next := by
  induction ps generalizing place with
  | nil => exact h
  | cons piece ps ih =>
    by_cases hstay : isStay piece = true
    · rw [List.filter_cons_of_neg (by simp [hstay])] at h
      have hplace := isDir_of_walk h hdir
      exact walk_cons_eq_ok_iff.mpr
        ⟨place, (follow_eq_ok_iff_of_isStay hstay).mpr ⟨hplace, rfl⟩, ih h⟩
    · rw [List.filter_cons_of_pos (by simp [hstay])] at h
      obtain ⟨mid, hfollow, hwalk⟩ := walk_cons_eq_ok_iff.mp h
      exact walk_cons_eq_ok_iff.mpr ⟨mid, hfollow, ih hwalk⟩

/-! ### Targets -/

theorem isDir_parent (h : fs.isDir place = true) : fs.isDir place.parent = true := by
  match place with
  | .inside [] => rfl
  | .inside (name :: names) => exact isDir_of_isPrefix (List.dropLast_prefix _) h
  | .outside [] | .outside [_] => rfl
  | .outside (_ :: _ :: _) => cases h

theorem eq_parent_of_follow (h : fs.follow dir ".." = .ok place) : dir.parent = place := by
  obtain ⟨-, -, h⟩ := Select.bind_eq_ok_iff.mp h
  exact Except.ok.inj h

/-- What is no directory has a name, by which it is reached. -/
theorem isName_of_follow (h : fs.follow dir piece = .ok place) (hfile : fs.isDir place = false) :
    isStay piece = false ∧ piece ≠ ".." := by
  have hdir := isDir_of_follow h
  refine ⟨Bool.eq_false_iff.mpr fun hstay => ?_, ?_⟩
  · obtain ⟨-, rfl⟩ := (follow_eq_ok_iff_of_isStay hstay).mp h
    exact absurd hdir (by rw [hfile]; decide)
  · rintro rfl
    obtain rfl := eq_parent_of_follow h
    exact absurd (isDir_parent hdir) (by rw [hfile]; decide)

/-- **Where a file is to be put** is where the path leads, unless a directory is there. -/
theorem target_eq_ok_iff :
    fs.target path = .ok place ↔
      ∃ top, start path = .ok top ∧ fs.walk top (pieces path) = .ok place ∧
        fs.isDir place = false := by
  constructor
  · intro h
    obtain ⟨top, dir, name, htop, hwalk, -, -, hfile⟩ := exists_dir_of_target h
    exact ⟨top, htop, hwalk, hfile⟩
  · rintro ⟨top, htop, hwalk, hfile⟩
    obtain ⟨before, name, hpieces⟩ := exists_pieces_eq_concat path
    rw [hpieces] at hwalk
    obtain ⟨dir, hbefore, hfollow⟩ := walk_concat_eq_ok_iff.mp hwalk
    have hdir := isDir_of_follow hfollow
    obtain ⟨hstay, hup⟩ := isName_of_follow hfollow hfile
    have hempty : name ≠ "" := by
      rintro rfl
      exact absurd hstay (by decide)
    have hlast : (pieces path).reverse.dropWhile (· = "") = name :: before.reverse := by
      rw [hpieces, List.reverse_append, List.reverse_singleton, List.singleton_append,
        List.dropWhile_cons_of_neg (by simpa using hempty)]
    have hnamed : ¬(isStay name || name = ".." || (pieces path).getLast? = some "") = true := by
      simp [hstay, hup, hpieces, hempty]
    refine Select.bind_eq_ok_iff.mpr ⟨top, htop, ?_⟩
    rw [hlast]
    refine Select.bind_eq_ok_iff.mpr ⟨dir, by rwa [List.reverse_reverse], ?_⟩
    refine Select.bind_eq_ok_iff.mpr ⟨(), requireDir_eq_ok_iff.mpr hdir, ?_⟩
    rw [if_neg hnamed]
    refine Select.bind_eq_ok_iff.mpr ⟨place, hfollow, ?_⟩
    rw [if_neg (by rw [hfile]; decide)]
    rfl

/-- What can be read from a path can be replaced there. -/
theorem exists_target_of_read {text : String} (h : fs.read path = .ok text) :
    ∃ place, fs.target path = .ok place ∧ fs.contents? place = some (.text text) := by
  obtain ⟨top, htop, h⟩ := Select.bind_eq_ok_iff.mp h
  obtain ⟨place, hwalk, h⟩ := Select.bind_eq_ok_iff.mp h
  cases hfile : fs.isDir place with
  | true =>
    simp only [hfile, if_true] at h
    cases h
  | false =>
    simp only [hfile, Bool.false_eq_true, if_false] at h
    refine ⟨place, target_eq_ok_iff.mpr ⟨top, htop, hwalk, hfile⟩, ?_⟩
    split at h
    next s hcontents =>
      obtain rfl : s = text := Except.ok.inj h
      exact hcontents
    next => cases h
    next => cases h

end Files

/-- The path has a name at its end, and is not too long to be followed. -/
structure NamesFile (path : String) : Prop where
  ends_in_name : ∃ front name, pieces path = front ++ [name] ∧ isStay name = false
  lt_pathLimit : path.utf8ByteSize < pathLimit

theorem NamesFile.ne_empty {path : String} (h : NamesFile path) : path ≠ "" := by
  rintro rfl
  obtain ⟨front, name, hpieces, hstay⟩ := h.ends_in_name
  have hlast : (pieces "").getLast? = some name := by rw [hpieces, List.getLast?_concat]
  obtain rfl : "" = name := Option.some.inj hlast
  exact absurd hstay (by decide)

namespace Files

variable {fs : Files} {place place' : Place} {path p q : String}

theorem start_eq_ok_iff (h : IsRelative path) {top : Place} :
    start path = .ok top ↔ path ≠ "" ∧ path.utf8ByteSize < pathLimit ∧ top = .inside [] := by
  rw [start, h, if_neg Bool.false_ne_true]
  split_ifs with hempty hlong
  · simp [hempty]
  · simp [hlong]
  · simp [hempty, Nat.lt_of_not_le hlong, eq_comm]

/-- **The target of a relative path** is where its names lead. The other pieces do not matter, as
long as the path has a name at its end. -/
theorem target_eq_ok_iff_of_isRelative (hrelative : IsRelative path) :
    fs.target path = .ok place ↔
      NamesFile path ∧ fs.walk (.inside []) (namesOf path) = .ok place ∧
        fs.isDir place = false := by
  rw [target_eq_ok_iff]
  obtain ⟨front, name, hpieces⟩ := exists_pieces_eq_concat path
  constructor
  · rintro ⟨top, htop, hwalk, hfile⟩
    obtain ⟨-, hshort, rfl⟩ := (start_eq_ok_iff hrelative).mp htop
    refine ⟨⟨⟨front, name, hpieces, ?_⟩, hshort⟩, walk_filter hwalk, hfile⟩
    rw [hpieces] at hwalk
    obtain ⟨dir, -, hfollow⟩ := walk_concat_eq_ok_iff.mp hwalk
    exact (isName_of_follow hfollow hfile).1
  · rintro ⟨hnamed, hwalk, hfile⟩
    obtain ⟨front, name, hpieces, hstay⟩ := hnamed.ends_in_name
    have hnames : namesOf path = front.filter (fun piece => !isStay piece) ++ [name] := by
      rw [namesOf, hpieces, List.filter_append, List.filter_singleton, hstay]
      rfl
    rw [hnames] at hwalk
    obtain ⟨dir, hfront, hfollow⟩ := walk_concat_eq_ok_iff.mp hwalk
    refine ⟨.inside [], ?_, ?_, hfile⟩
    · exact (start_eq_ok_iff hrelative).mpr ⟨hnamed.ne_empty, hnamed.lt_pathLimit, rfl⟩
    · rw [hpieces]
      exact walk_concat_eq_ok_iff.mpr
        ⟨dir, walk_of_filter hfront (isDir_of_follow hfollow), hfollow⟩

/-- **Paths along the same names** lead to the same place, if they lead to one at all. -/
theorem target_eq_ok_iff_of_sameFile (hsame : SameFile p q) (hp : fs.target p = .ok place) :
    fs.target q = .ok place' ↔ NamesFile q ∧ place' = place := by
  obtain ⟨-, hwalk, hfile⟩ := (target_eq_ok_iff_of_isRelative hsame.isRelative_left).mp hp
  rw [target_eq_ok_iff_of_isRelative hsame.isRelative_right, ← hsame.namesOf_eq, hwalk]
  constructor
  · rintro ⟨hnamed, hplace, -⟩
    exact ⟨hnamed, (Except.ok.inj hplace).symm⟩
  · rintro ⟨hnamed, rfl⟩
    exact ⟨hnamed, rfl, hfile⟩

end Files

/-! ### Builds -/

theorem Format.extension_ne_empty (format : Format) : format.extension ≠ "" := by
  cases format <;> decide

theorem Format.slash_not_mem_extension (format : Format) : '/' ∉ format.extension.toList := by
  cases format <;> decide

/-- An output path that was not given starts like the input. -/
theorem BuildArgs.startAlike_outPath {args : BuildArgs} (input : String) (h : args.out = none) :
    StartAlike input (args.outPath input) := by
  rw [outPath, h]
  exact startAlike_withExtension (Format.extension_ne_empty _) (Format.slash_not_mem_extension _)

/-- What a build says that would write onto its input. -/
theorem build_of_samePath {input : String} {args : BuildArgs} (text : String)
    (h : samePath input (args.outPath input) = true) :
    build input args text =
      .done { code := 1, stderr := "Output file must not be an input file\n" } := by
  rw [build, if_pos h]
  rfl

namespace Command

variable {fs : Files} {input text : String} {args : BuildArgs}

theorem run_build_of_read (h : fs.read input = .ok text) :
    (build input args).run fs = (Cli.build input args text).run fs := by
  rw [run, Command.input, h]
  rfl

theorem samePath_eq_false (hsame : SameFile input (args.outPath input))
    (hstart : ¬StartAlike input (args.outPath input)) :
    samePath input (args.outPath input) = false := by
  rw [Bool.eq_false_iff, Ne, samePath_iff hsame.isRelative_left hsame.isRelative_right]
  exact fun h => hstart h.2

/-- A build that does not see that it writes onto its input replaces it. -/
theorem updated_of_not_startAlike (hread : fs.read input = .ok text)
    (hsame : SameFile input (args.outPath input))
    (hstart : ¬StartAlike input (args.outPath input)) {c : Contents}
    (hyields : args.Yields text c) (hfile : NamesFile (args.outPath input)) :
    ∃ place, fs.target input = .ok place ∧ fs.contents? place = some (.text text) ∧
      fs.Updated input place c ((build input args).run fs).2 := by
  obtain ⟨place, htarget, hcontents⟩ := Files.exists_target_of_read hread
  have htarget' : fs.target (args.outPath input) = .ok place :=
    (Files.target_eq_ok_iff_of_sameFile hsame htarget).mpr ⟨hfile, rfl⟩
  have hwrite : fs.write (args.outPath input) c = fs.write input c := by
    rw [Files.write, Files.write, htarget', htarget]
  obtain ⟨fs', hfs', hupdated⟩ := Files.exists_updated_of_target htarget c
  refine ⟨place, htarget, hcontents, ?_⟩
  obtain ⟨t, -, -, hnone⟩ | ⟨c', written, failed, hbuild, hyields', -⟩ :=
    build_cases text (samePath_eq_false hsame hstart)
  · exact absurd hyields (hnone c)
  · obtain rfl := hyields.unique hyields'
    rw [run_build_of_read hread, hbuild, Step.run, hwrite, hfs']
    exact hupdated

/-- No file changes if there is nothing to write, or nowhere to write it. -/
theorem run_build_of_not_startAlike (hread : fs.read input = .ok text)
    (hsame : SameFile input (args.outPath input))
    (hstart : ¬StartAlike input (args.outPath input))
    (h : (∀ c, ¬args.Yields text c) ∨ ¬NamesFile (args.outPath input)) :
    ((build input args).run fs).2 = fs := by
  obtain ⟨place, htarget, -⟩ := Files.exists_target_of_read hread
  rw [run_build_of_read hread]
  obtain ⟨t, hbuild, -⟩ | ⟨c, written, failed, hbuild, hyields, -⟩ :=
    build_cases text (samePath_eq_false hsame hstart)
  · rw [hbuild]
    rfl
  · have hfile := h.resolve_left fun hnone => hnone c hyields
    rw [hbuild, Step.run, Files.write]
    cases htarget' : fs.target (args.outPath input) with
    | error e => rfl
    | ok place' =>
      exact absurd ((Files.target_eq_ok_iff_of_sameFile hsame htarget).mp htarget').1 hfile

/-- **Builds onto their input.** Where the paths of input and output are relative and the same once
all dots are removed, a build is refused if they start alike, and nothing changes. They do start
alike if the path of the output was not given. If they do not, the output replaces the text that it
was made from, unless there is no output or its path does not name a file. -/
theorem build_onto_input (fs : Files) (input : String) (args : BuildArgs)
    (hsame : SameFile input (args.outPath input)) :
    (args.out = none → StartAlike input (args.outPath input)) ∧
    (∀ e, fs.read input = .error e → (build input args).run fs = (unreadable input e, fs)) ∧
    ∀ text, fs.read input = .ok text →
      (StartAlike input (args.outPath input) →
        (build input args).run fs =
          ({ code := 1, stderr := "Output file must not be an input file\n" }, fs)) ∧
      (¬StartAlike input (args.outPath input) →
        (∀ c, args.Yields text c → NamesFile (args.outPath input) →
          ∃ place, fs.target input = .ok place ∧ fs.contents? place = some (.text text) ∧
            fs.Updated input place c ((build input args).run fs).2) ∧
        ((∀ c, ¬args.Yields text c) ∨ ¬NamesFile (args.outPath input) →
          ((build input args).run fs).2 = fs)) := by
  refine ⟨BuildArgs.startAlike_outPath input, fun e hread => ?_, fun text hread => ⟨?_, ?_⟩⟩
  · rw [run, Command.input, hread]
    rfl
  · intro hstart
    have hpath : samePath input (args.outPath input) = true :=
      (samePath_iff hsame.isRelative_left hsame.isRelative_right).mpr ⟨hsame.namesOf_eq, hstart⟩
    rw [run_build_of_read hread, build_of_samePath text hpath]
    rfl
  · intro hstart
    exact ⟨fun c => updated_of_not_startAlike hread hsame hstart,
      run_build_of_not_startAlike hread hsame hstart⟩

/-- The input by another name. -/
def dottedArgs : BuildArgs :=
  { out := some "./a.s" }

/-- A dot in front of the path is enough to lose the program. -/
theorem build_onto_input_dottedArgs :
    SameFile "a.s" (dottedArgs.outPath "a.s") ∧ treeBefore.read "a.s" = .ok faultyText ∧
      ∃ m, (dottedArgs.output faultyText).module = .ok m ∧
        ((build "a.s" dottedArgs).run treeBefore).2.read "a.s" = .ok m.render ∧
        m.render ≠ faultyText := by
  have hsame : SameFile "a.s" (dottedArgs.outPath "a.s") :=
    ⟨by decide +kernel, by decide +kernel, by decide +kernel⟩
  have hstart : ¬StartAlike "a.s" (dottedArgs.outPath "a.s") := by decide +kernel
  have hread : treeBefore.read "a.s" = .ok faultyText := by cbv
  have hfile : NamesFile (dottedArgs.outPath "a.s") :=
    ⟨⟨["."], "a.s", by decide +kernel, by decide⟩, by decide +kernel⟩
  have hparsed : (parse faultyText.toList).errors = [] := by decide +kernel
  have hok : (dottedArgs.output faultyText).module.isOk = true := by cbv
  refine ⟨hsame, hread, ?_⟩
  cases hm : (dottedArgs.output faultyText).module with
  | error e => simp [hm, Except.isOk, Except.toBool] at hok
  | ok m =>
    have hyields : dottedArgs.Yields faultyText (.text m.render) := ⟨hparsed, m, hm, .module⟩
    obtain ⟨-, -, honto⟩ := build_onto_input treeBefore "a.s" dottedArgs hsame
    obtain ⟨place, htarget, hcontents, hupdated⟩ :=
      ((honto faultyText hread).2 hstart).1 _ hyields hfile
    have hplace : (treeBefore.target "a.s").toOption = some (.inside ["a.s"]) := by decide +kernel
    rw [htarget] at hplace
    refine ⟨m, rfl, hupdated.read_eq _ _ (Option.some.inj hplace) rfl, fun heq => ?_⟩
    -- The text of a module starts with a semicolon.
    have hrendered : m.render.toList.head? = some ';' := by
      rw [IR.Module.render_eq, String.toList_append, String.toList_append, String.toList_append]
      rfl
    have hfaulty : faultyText.toList.head? = some 'r' := by decide +kernel
    rw [heq, hfaulty] at hrendered
    exact absurd hrendered (by decide)

end Command

end Mos6502.Cli
