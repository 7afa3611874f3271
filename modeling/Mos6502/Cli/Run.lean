import Mos6502.Cli.Arguments
import Mos6502.Cli.Files
import Mos6502.Cli.Json
import Mos6502.Cli.Report
import Mos6502.IR.Printer
import Mos6502.Lowering.Compile
import Mos6502.Native.Emit
import Mos6502.Native.Printer

/-!
# Running commands

`build` compiles a file and writes the result next to it or where it is told to; `encode` prints
the encoding of a file. Both report what is wrong with the file on the error stream.

A command reads one file and writes at most one. What it does in between is a function of the
text: it either ends without writing, or it has something to write and knows how it goes on. That
is `Step`; `run` carries the steps out on a tree of files.

A build writes its output whenever there is a module, also if there are errors in the program;
only then it does not succeed.

## Scope

The streams of a command are texts and never terminals. On a terminal a build would print a plain
summary of the module, unless `--json` is given; anywhere else it prints the JSON object, with
`--json` or without. The plain summary is therefore not here, and neither are the colours that
reports have on a terminal: `BuildArgs.json` is read from the command line and makes no
difference afterwards. Messages of the log, of which none is written by default, are left out too.
-/

namespace Mos6502.Cli

/-- What a command leaves behind on its streams, and its exit code. -/
structure Transcript where
  code : Nat := 0
  stdout : String := ""
  stderr : String := ""
deriving DecidableEq

/-- A transcript with more on the error stream at its end. -/
def Transcript.complain (t : Transcript) (message : String) : Transcript :=
  { t with code := 1, stderr := t.stderr ++ message ++ "\n" }

/-- A message with the reason behind it. -/
def withCause (message cause : String) : String :=
  message ++ "\n\nCaused by:\n    " ++ cause

/-- What a command does after it read its input. -/
inductive Step where
  /-- It ends. -/
  | done (t : Transcript)
  /-- It writes a file, and goes on by how that went. -/
  | write (path : String) (contents : Contents) (written : Transcript)
      (failed : IoError → Transcript)

namespace Source

/-- The reports of syntax errors. -/
def syntaxErrors (source : Source) (errors : List SyntaxError) : String :=
  String.join (errors.map fun e => source.report .error "parser" (some e.span) e.message)

/-- The reports of errors. -/
def asmErrors (source : Source) (errors : List AsmError) : String :=
  String.join (errors.map fun e => source.report .error "asm" (some e.span) e.message)

/-- The reports of warnings. -/
def warnings (source : Source) (ws : List Warning) : String :=
  String.join (ws.map fun w => source.report .warning "compile" (some w.span) w.message)

/-- The report of an error that kept the module from being made. -/
def compileError (source : Source) (e : CompileError) : String :=
  source.report .error "compile" e.span? e.message

end Source

/-- What a build writes for a module. -/
def Format.contents (m : IR.Module) : Format → Except Native.EmitError Contents
  | module => .ok (.text m.render)
  | native => (Native.emit m).map fun functions => .text (Native.render functions)
  | object => (Native.emit m).map fun _ => .object (m := m)

/-- Where a build writes to: where it is told to, or next to its input. -/
def BuildArgs.outPath (args : BuildArgs) (input : String) : String :=
  args.out.getD (withExtension input (args.format.getD .module).extension)

/-- The options of a compilation. -/
def BuildArgs.options (args : BuildArgs) : Options :=
  { moduleName := args.moduleName.getD (Options.moduleName {})
    optLevel := if args.opt then .basic else .none }

/-- What a build says about the module it made, on a stream that is not a terminal. -/
def summary (path : String) (m : IR.Module) (o : Output) : String :=
  Json.object 0
    [("block_count", Json.number (m.functions.flatMap IR.Function.blocks).length),
      ("errors", Json.strings 1 (o.errors.map AsmError.message)),
      ("globals", Json.strings 1 (m.globals.map IR.Global.name)),
      ("module_name", Json.string m.name),
      ("module_path", Json.string path),
      ("warnings", Json.strings 1 (o.warnings.map Warning.message))] ++ "\n"

/-- Builds a text that was read from `input`. -/
def build (input : String) (args : BuildArgs) (text : String) : Step :=
  let out := args.outPath input
  if samePath input out then
    .done (({} : Transcript).complain "Output file must not be an input file")
  else
    let source : Source := ⟨input, text.toList⟩
    let parsed := parse text.toList
    if !parsed.errors.isEmpty then
      let reports := source.syntaxErrors parsed.errors ++
        source.asmErrors (Layout.ofStmts parsed.stmts).errors
      .done (({ stderr := reports } : Transcript).complain "Build failed")
    else
      let output := compile args.options parsed.stmts
      let reports := source.warnings output.warnings ++ source.asmErrors output.errors
      match output.module with
      | .error e =>
        let ended : Transcript := { stderr := reports ++ source.compileError e }
        .done (ended.complain "Build failed")
      | .ok m =>
        let begun : Transcript := { stderr := reports }
        match (args.format.getD .module).contents m with
        | .error e => .done (begun.complain e.message)
        | .ok contents =>
          let written := { begun with stdout := summary out m output }
          .write out contents
            (if output.errors.isEmpty then written
              else written.complain "Build finished with errors")
            fun e =>
              begun.complain (withCause ("Failed to write output file `" ++ out ++ "`") e.message)

/-- A line of the listing of a program. -/
def listingLine (source : Source) (e : Encoded) : String :=
  let text := (Text.slice? e.stmt.span.start e.stmt.span.stop source.text).getD []
  Text.padLeft 5 ' ' (Nat.repr e.stmt.line) ++ "  " ++ Text.hexUpper 4 e.address.toNat ++ "  " ++
    Text.hexUpper 2 e.encoding.opcode.toNat ++ "  " ++ Nat.repr e.encoding.size ++ "  " ++
    String.ofList text ++ "\n"

/-- Names and numbers as the fields of an object. -/
def namesJson (b : Bindings String UInt32) : String :=
  Json.object 1
    ((b.sorted fun x y => decide (x ≤ y)).map fun e => (e.1, Json.number e.2.toNat))

/-- An encoded instruction for other programs. -/
def encodedJson (e : Encoded) : String :=
  Json.object 2
    [("address", Json.number e.address.toNat),
      ("line", Json.number e.stmt.line),
      ("opcode", Json.number e.encoding.opcode.toNat),
      ("size", Json.number e.encoding.size)]

/-- The encoding of a program for other programs. -/
def layoutJson (l : Layout) : String :=
  Json.object 0
    [("errors", Json.strings 1 (l.errors.map AsmError.message)),
      ("instructions", Json.array 1 (l.instructions.map encodedJson)),
      ("labels", namesJson l.labels),
      ("variables", namesJson l.vars)] ++ "\n"

/-- Encodes a text that was read from `input`. -/
def encode (input : String) (args : EncodeArgs) (text : String) : Transcript :=
  let source : Source := ⟨input, text.toList⟩
  let parsed := parse text.toList
  if !parsed.errors.isEmpty then
    ({ stderr := source.syntaxErrors parsed.errors } : Transcript).complain "Encoding failed"
  else
    let layout := Layout.ofStmts parsed.stmts
    let listing :=
      if args.json then layoutJson layout
      else String.join (layout.instructions.map (listingLine source))
    let t : Transcript := { stdout := listing, stderr := source.asmErrors layout.errors }
    if layout.errors.isEmpty then t else t.complain "Encoding failed"

/-- What is said if the input of a command cannot be read. -/
def unreadable (input : String) (e : IoError) : Transcript :=
  ({} : Transcript).complain
    (withCause ("Failed to read assembly code from `" ++ input ++ "`") e.message)

/-- The input file of a command. -/
def Command.input : Command → String
  | build input _ | encode input _ => input

/-- What a command does once its input is read, or could not be read. -/
def Command.step (c : Command) (text : Except IoError String) : Step :=
  match text with
  | .error e => .done (unreadable c.input e)
  | .ok text =>
    match c with
    | build input args => Cli.build input args text
    | encode input args => .done (Cli.encode input args text)

/-- What is said about a command line that is not carried out. Asking for help is no failure. -/
def Refusal.transcript : Refusal → Transcript
  | help topic => { stdout := topic.text }
  | r =>
    { code := 1
      stderr := r.text ++ "\nRun " ++ programName ++ " --help for more information.\n" }

/-- What a command line asks for: a command, or only some text. -/
def request (args : List String) : Except Transcript Command :=
  match readInvocation args with
  | .error r => .error r.transcript
  | .ok i =>
    if i.version then .error { stdout := versionText }
    else match i.command with
      | some c => .ok c
      | none =>
        .error (({} : Transcript).complain
          ("No command specified, see `" ++ programName ++ " --help`"))

/-- Carries out a step on a tree of files. -/
def Step.run (fs : Files) : Step → Transcript × Files
  | done t => (t, fs)
  | write path contents written failed =>
    match fs.write path contents with
    | .ok fs' => (written, fs')
    | .error e => (failed e, fs)

/-- Carries out a command on a tree of files. -/
def Command.run (c : Command) (fs : Files) : Transcript × Files :=
  (c.step (fs.read c.input)).run fs

/-- Carries out a command line on a tree of files. -/
def run (args : List String) (fs : Files) : Transcript × Files :=
  match request args with
  | .error t => (t, fs)
  | .ok c => c.run fs

end Mos6502.Cli
