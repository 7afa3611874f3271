import Mos6502.Cli.Run
import Mos6502.Proofs.WrittenFiles
import Mathlib

/-!
# What a build writes

A build has many ways to end. Before it writes there may be syntax errors, an error that keeps the
module from being made, or an error of the native backend; then there is nothing to write, and the
tree of files stays as it is. Errors that were only collected do not keep the output back: it is
written, and then the build fails.

So two questions are decided apart from each other. Whether there is output depends on the text
alone, and not on what was collected; whether the build succeeds depends on both.

## Main definitions

* `Format.Shows` — the contents that a format has for a module
* `BuildArgs.Yields` — the contents that a text is built to

## Main results

* `BuildArgs.exists_yields_iff` — when there is something to write
* `build_cases` — a build either ends, or writes what its text yields
* `Command.build_commits` — what a build writes, leaves behind and answers
-/

namespace Mos6502.Cli

/-- What a step writes, and where. -/
def Step.output? : Step → Option (String × Contents)
  | done _ => none
  | write path contents _ _ => some (path, contents)

/-- The contents show a module in a format: as its own text, or, if it can be emitted, as the text
or the machine code of its native functions. -/
inductive Format.Shows (m : IR.Module) : Format → Contents → Prop where
  | module : Shows m .module (.text m.render)
  | native {functions : List Native.Function} :
      Native.emit m = .ok functions → Shows m .native (.text (Native.render functions))
  | object {functions : List Native.Function} :
      Native.emit m = .ok functions → Shows m .object (.object (m := m))

theorem map_eq_ok_iff {ε α β : Type} {x : Except ε α} {g : α → β} {b : β} :
    x.map g = .ok b ↔ ∃ a, x = .ok a ∧ g a = b := by
  cases x <;> simp [Except.map]

theorem Format.contents_eq_ok_iff {m : IR.Module} {format : Format} {c : Contents} :
    format.contents m = .ok c ↔ format.Shows m c := by
  constructor
  · intro h
    cases format with
    | module =>
      cases h
      exact .module
    | native =>
      obtain ⟨functions, hemit, rfl⟩ := map_eq_ok_iff.mp h
      exact .native hemit
    | object =>
      obtain ⟨functions, hemit, rfl⟩ := map_eq_ok_iff.mp h
      exact .object hemit
  · intro h
    cases h with
    | module => rfl
    | native hemit => exact map_eq_ok_iff.mpr ⟨_, hemit, rfl⟩
    | object hemit => exact map_eq_ok_iff.mpr ⟨_, hemit, rfl⟩

/-- Every module can be shown as its own text, and in the other formats if it can be emitted. -/
theorem Format.exists_shows_iff {m : IR.Module} {format : Format} :
    (∃ c, format.Shows m c) ↔ format = .module ∨ ∃ functions, Native.emit m = .ok functions := by
  constructor
  · rintro ⟨c, hshows⟩
    cases hshows with
    | module => exact .inl rfl
    | native hemit => exact .inr ⟨_, hemit⟩
    | object hemit => exact .inr ⟨_, hemit⟩
  · rintro (rfl | ⟨functions, hemit⟩)
    · exact ⟨_, .module⟩
    · cases format with
      | module => exact ⟨_, .module⟩
      | native => exact ⟨_, .native hemit⟩
      | object => exact ⟨_, .object hemit⟩

namespace BuildArgs

variable (args : BuildArgs) (text : String)

/-- What a text is compiled to. -/
def output : Output :=
  compile args.options (parse text.toList).stmts

/-- A text is built to contents: it can be read, there is a module, and the contents show it. -/
def Yields (c : Contents) : Prop :=
  (parse text.toList).errors = [] ∧
    ∃ m, (args.output text).module = .ok m ∧ (args.format.getD .module).Shows m c

variable {args text}

/-- **There is output** if there are no syntax errors, there is a module, and the module can be
emitted where the format asks for that. -/
theorem exists_yields_iff :
    (∃ c, args.Yields text c) ↔
      (parse text.toList).errors = [] ∧ ∃ m, (args.output text).module = .ok m ∧
        (args.format.getD .module = .module ∨ ∃ functions, Native.emit m = .ok functions) := by
  constructor
  · rintro ⟨c, hparsed, m, hm, hshows⟩
    exact ⟨hparsed, m, hm, Format.exists_shows_iff.mp ⟨c, hshows⟩⟩
  · rintro ⟨hparsed, m, hm, hemit⟩
    obtain ⟨c, hshows⟩ := Format.exists_shows_iff.mpr hemit
    exact ⟨c, hparsed, m, hm, hshows⟩

/-- A text is built to one output at most. -/
theorem Yields.unique {c c' : Contents} (h : args.Yields text c) (h' : args.Yields text c') :
    c = c' := by
  obtain ⟨-, m, hm, hshows⟩ := h
  obtain ⟨-, m', hm', hshows'⟩ := h'
  obtain rfl : m = m' := Except.ok.inj (hm.symm.trans hm')
  rw [← Format.contents_eq_ok_iff] at hshows hshows'
  exact Except.ok.inj (hshows.symm.trans hshows')

end BuildArgs

/-- **A build** that is not to write onto its input either ends in failure, and its text yields
nothing, or it writes what its text yields. Then it succeeds if nothing was collected. -/
theorem build_cases {input : String} {args : BuildArgs} (text : String)
    (hother : samePath input (args.outPath input) = false) :
    (∃ t, build input args text = .done t ∧ t.code = 1 ∧ ∀ c, ¬args.Yields text c) ∨
      ∃ c written failed, build input args text = .write (args.outPath input) c written failed ∧
        args.Yields text c ∧ (written.code = 0 ↔ (args.output text).errors = []) := by
  simp only [build, hother, Bool.false_eq_true, if_false]
  split
  next hbroken =>
    refine .inl ⟨_, rfl, rfl, fun c hyields => ?_⟩
    rw [hyields.1] at hbroken
    exact absurd hbroken (by decide)
  next hbroken =>
    have hparsed : (parse text.toList).errors = [] := by simpa using hbroken
    split
    next e hfatal =>
      refine .inl ⟨_, rfl, rfl, fun c hyields => ?_⟩
      obtain ⟨-, m, hm, -⟩ := hyields
      rw [BuildArgs.output, hfatal] at hm
      cases hm
    next m hm =>
      split
      next e hemit =>
        refine .inl ⟨_, rfl, rfl, fun c hyields => ?_⟩
        obtain ⟨-, m', hm', hshows⟩ := hyields
        obtain rfl : m = m' := Except.ok.inj (hm.symm.trans hm')
        rw [Format.contents_eq_ok_iff.mpr hshows] at hemit
        cases hemit
      next c hcontents =>
        refine .inr ⟨c, _, _, rfl, ⟨hparsed, m, hm, Format.contents_eq_ok_iff.mp hcontents⟩, ?_⟩
        rw [BuildArgs.output]
        split
        next hclean => exact iff_of_true rfl (List.isEmpty_iff.mp hclean)
        next hclean =>
          exact iff_of_false Nat.one_ne_zero fun hnil => hclean (List.isEmpty_iff.mpr hnil)

/-- **What a build commits.** Let a build read its text, and let its output path be another than
its input path and have a target. Then it writes to that path exactly what its text yields, and
writes nothing else. The text yields something exactly if it has no syntax errors, there is a
module, and the module can be emitted where the format asks for that. What it yields is what the
target holds afterwards, and nothing else has changed; if it yields nothing, then nothing has. The
build succeeds exactly if it wrote its output and no errors were collected. -/
theorem Command.build_commits (fs : Files) (input : String) (args : BuildArgs) (text : String)
    (place : Place) (hread : fs.read input = .ok text)
    (hother : samePath input (args.outPath input) = false)
    (htarget : fs.target (args.outPath input) = .ok place) :
    (∀ path c, ((build input args).step (fs.read input)).output? = some (path, c) ↔
        path = args.outPath input ∧ args.Yields text c) ∧
      ((∃ c, args.Yields text c) ↔
        (parse text.toList).errors = [] ∧ ∃ m, (args.output text).module = .ok m ∧
          (args.format.getD .module = .module ∨ ∃ functions, Native.emit m = .ok functions)) ∧
      (∀ c, args.Yields text c →
        fs.Updated (args.outPath input) place c ((build input args).run fs).2) ∧
      ((∀ c, ¬args.Yields text c) → ((build input args).run fs).2 = fs) ∧
      (((build input args).run fs).1.code = 0 ↔
        (∃ c, args.Yields text c) ∧ (args.output text).errors = []) := by
  have hstep : (build input args).step (fs.read input) = Cli.build input args text := by
    rw [hread]
    rfl
  have hrun : (build input args).run fs = (Cli.build input args text).run fs := by
    rw [← hstep]
    rfl
  rw [hstep, hrun]
  obtain ⟨t, hbuild, hcode, hnone⟩ | ⟨c, written, failed, hbuild, hyields, hcode⟩ :=
    build_cases text hother
  · rw [hbuild]
    refine ⟨fun path c => ?_, BuildArgs.exists_yields_iff, fun c h => absurd h (hnone c),
      fun _ => rfl, ?_⟩
    · exact iff_of_false (by simp [Step.output?]) fun h => hnone c h.2
    · refine iff_of_false ?_ fun h => h.1.elim hnone
      rw [Step.run, hcode]
      decide
  · obtain ⟨fs', hwrite, hupdated⟩ := Files.exists_updated_of_target htarget c
    have hwritten : (Cli.build input args text).run fs = (written, fs') := by
      rw [hbuild, Step.run, hwrite]
    rw [hwritten, hbuild]
    refine ⟨fun path c' => ?_, BuildArgs.exists_yields_iff, fun c' h' => ?_,
      fun h => absurd hyields (h c), ?_⟩
    · simp only [Step.output?, Option.some.injEq, Prod.mk.injEq]
      constructor
      · rintro ⟨rfl, rfl⟩
        exact ⟨rfl, hyields⟩
      · rintro ⟨rfl, h'⟩
        exact ⟨rfl, hyields.unique h'⟩
    · rw [← hyields.unique h']
      exact hupdated
    · exact hcode.trans (and_iff_right ⟨c, hyields⟩).symm

/-- A program with an instruction that there is not. -/
def faultyText : String :=
  "reset: foo\nnmi: org $fffa\n dc.w nmi\n dc.w reset\n dc.w nmi\n"

/-- A tree with the program, and with the output of an earlier build. -/
def treeBefore : Files :=
  ⟨[(["a.s"], .text faultyText), (["lib", "a.ll"], .text "old")]⟩

/-- Where the earlier output is replaced. -/
def libraryArgs : BuildArgs :=
  { out := some "lib/./a.ll", opt := true, moduleName := some "a" }

/-- The output is written although the build fails. -/
theorem Command.build_commits_faultyText :
    treeBefore.read "a.s" = .ok faultyText ∧
      samePath "a.s" (libraryArgs.outPath "a.s") = false ∧
      treeBefore.target (libraryArgs.outPath "a.s") = .ok (.inside ["lib", "a.ll"]) ∧
      ∃ m, (libraryArgs.output faultyText).module = .ok m ∧
        ((build "a.s" libraryArgs).run treeBefore).2.read "lib/./a.ll" = .ok m.render ∧
        ((build "a.s" libraryArgs).run treeBefore).2.get? ["a.s"] = some (.text faultyText) ∧
        ((build "a.s" libraryArgs).run treeBefore).1.code ≠ 0 := by
  have hread : treeBefore.read "a.s" = .ok faultyText := by cbv
  have hother : samePath "a.s" (libraryArgs.outPath "a.s") = false := by decide +kernel
  have htarget :
      treeBefore.target (libraryArgs.outPath "a.s") = .ok (.inside ["lib", "a.ll"]) := by
    have h : (treeBefore.target (libraryArgs.outPath "a.s")).toOption =
        some (.inside ["lib", "a.ll"]) := by decide +kernel
    cases htarget : treeBefore.target (libraryArgs.outPath "a.s") with
    | error e => simp [htarget, Except.toOption] at h
    | ok place => simpa [htarget, Except.toOption] using h
  have hparsed : (parse faultyText.toList).errors = [] := by decide +kernel
  have hok : (libraryArgs.output faultyText).module.isOk = true := by cbv
  have herrors : (libraryArgs.output faultyText).errors.isEmpty = false := by cbv
  cases hm : (libraryArgs.output faultyText).module with
  | error e => simp [hm, Except.isOk, Except.toBool] at hok
  | ok m =>
    have hyields : libraryArgs.Yields faultyText (.text m.render) := ⟨hparsed, m, hm, .module⟩
    obtain ⟨-, -, hupdated, -, hcode⟩ :=
      build_commits treeBefore "a.s" libraryArgs faultyText _ hread hother htarget
    refine ⟨hread, hother, htarget, m, rfl, (hupdated _ hyields).read_eq _ _ rfl rfl, ?_, ?_⟩
    · rw [(hupdated _ hyields).get?_eq, if_neg (by decide)]
      rfl
    · rw [Ne, hcode, not_and, ← List.isEmpty_iff, herrors]
      exact fun _ => Bool.false_ne_true

end Mos6502.Cli
