/-!
# Arguments

The command line is read from left to right. Arguments that start with a dash are options, up to
`--`, after which everything is taken as it stands. The first other argument is the command, and
the rest of the line belongs to it. Options and the input file of a command may come in any order.

`help`, with or without dashes, asks for help on what was read up to there; no option may follow
it. Help for a command is also given if it was asked for before the command.

An option with a value takes the next argument, whatever that is, and may be given once. A switch
may be repeated.
-/

namespace Mos6502.Cli

/-- What a build writes. -/
inductive Format where
  /-- The text of the module. -/
  | module
  /-- The text of its native functions. -/
  | native
  /-- Machine code. -/
  | object
deriving DecidableEq

/-- The format of a name. -/
def Format.ofName? : String → Option Format
  | "ll" => some module
  | "clif" => some native
  | "obj" => some object
  | _ => none

/-- The extension of files in a format. -/
def Format.extension : Format → String
  | module => "ll"
  | native => "clif"
  | object => "o"

/-- What was said about a build so far. -/
structure BuildArgs where
  input : Option String := none
  out : Option String := none
  opt : Bool := false
  moduleName : Option String := none
  format : Option Format := none
  /-- Asks for the summary as JSON, which it is anyway where the output is not a terminal. -/
  json : Bool := false
deriving DecidableEq

/-- What was said about an encoding so far. -/
structure EncodeArgs where
  input : Option String := none
  json : Bool := false
deriving DecidableEq

/-- A command with its input file. -/
inductive Command where
  | build (input : String) (args : BuildArgs)
  | encode (input : String) (args : EncodeArgs)
deriving DecidableEq

/-- A command line. -/
structure Invocation where
  version : Bool
  command : Option Command
deriving DecidableEq

/-- What help can be given on. -/
inductive Topic where
  | program
  | build
  | encode
deriving DecidableEq

/-- Why a command line is not carried out. -/
inductive Refusal where
  | help (topic : Topic)
  | unrecognized (arg : String)
  | missingInput
  | missingValue (option : String)
  | badValue (option value reason : String)
  | afterHelp
deriving DecidableEq

/-- What the arguments of a command mean, on the way to a value of type `σ`. -/
structure Grammar (σ : Type) where
  /-- The switches. -/
  switch? : String → Option (σ → σ)
  /-- The options with a value; a value may be refused, for a reason. -/
  option? : String → Option (String → σ → Except String σ)
  /-- Arguments that are no options, as long as there is room for one. -/
  positional? : String → σ → Option σ

/-- Does the argument ask for help? -/
def asksHelp (arg : String) : Bool :=
  arg == "--help" || arg == "help"

/-- Is the argument an option? -/
def isOption (arg : String) : Bool :=
  arg.toList.head? == some '-'

/-- Reads the arguments of a command. `ended` tells that options are over. The result also tells
whether help was asked for. -/
def readArgs {σ : Type} (g : Grammar σ) (help ended : Bool) (s : σ) :
    List String → Except Refusal (σ × Bool)
  | [] => .ok (s, help)
  | arg :: rest =>
    if asksHelp arg && !ended then readArgs g true ended s rest
    else if isOption arg && !ended then
      if arg = "--" then readArgs g help true s rest
      else if help then .error .afterHelp
      else match g.switch? arg with
        | some f => readArgs g help ended (f s) rest
        | none =>
          match g.option? arg, rest with
          | none, _ => .error (.unrecognized arg)
          | some _, [] => .error (.missingValue arg)
          | some f, value :: rest' =>
            match f value s with
            | .ok s' => readArgs g help ended s' rest'
            | .error reason => .error (.badValue arg value reason)
    else match g.positional? arg s with
      | some s' => readArgs g help ended s' rest
      | none => .error (.unrecognized arg)

/-- Sets an option that may be given once. -/
def setOnce {α σ : Type} (old : Option α) (new : Except String α) (put : α → σ) :
    Except String σ :=
  match old with
  | some _ => .error "duplicate values provided"
  | none => new.map put

/-- The arguments of `build`. -/
def buildGrammar : Grammar BuildArgs where
  switch?
    | "--opt" => some fun s => { s with opt := true }
    | "--json" => some fun s => { s with json := true }
    | _ => none
  option?
    | "-o" | "--out" => some fun v s => setOnce s.out (.ok v) fun v => { s with out := some v }
    | "--module-name" =>
      some fun v s => setOnce s.moduleName (.ok v) fun v => { s with moduleName := some v }
    | "--emit" =>
      some fun v s =>
        let format := match Format.ofName? v with
          | some f => .ok f
          | none => .error ("unknown output format `" ++ v ++ "`")
        setOnce s.format format fun f => { s with format := some f }
    | _ => none
  positional? v s := if s.input.isNone then some { s with input := some v } else none

/-- The arguments of `encode`. -/
def encodeGrammar : Grammar EncodeArgs where
  switch?
    | "--json" => some fun s => { s with json := true }
    | _ => none
  option? _ := none
  positional? v s := if s.input.isNone then some { s with input := some v } else none

/-- Reads the rest of a command line after `build`. -/
def readBuild (help : Bool) (args : List String) : Except Refusal Command := do
  let (s, help) ← readArgs buildGrammar help false {} args
  if help then .error (.help .build)
  else match s.input with
    | some input => .ok (.build input s)
    | none => .error .missingInput

/-- Reads the rest of a command line after `encode`. -/
def readEncode (help : Bool) (args : List String) : Except Refusal Command := do
  let (s, help) ← readArgs encodeGrammar help false {} args
  if help then .error (.help .encode)
  else match s.input with
    | some input => .ok (.encode input s)
    | none => .error .missingInput

/-- Reads a command line from where help or the version may have been asked for. -/
def readFrom (help ended version : Bool) : List String → Except Refusal Invocation
  | [] => if help then .error (.help .program) else .ok ⟨version, none⟩
  | arg :: rest =>
    if asksHelp arg && !ended then readFrom true ended version rest
    else if isOption arg && !ended then
      if arg = "--" then readFrom help true version rest
      else if help then .error .afterHelp
      else if arg = "-v" || arg = "--version" then readFrom help ended true rest
      else .error (.unrecognized arg)
    else if arg = "build" then do
      return ⟨version, some (← readBuild help rest)⟩
    else if arg = "encode" then do
      return ⟨version, some (← readEncode help rest)⟩
    else .error (.unrecognized arg)

/-- Reads a command line. -/
def readInvocation (args : List String) : Except Refusal Invocation :=
  readFrom false false false args

/-! ### Texts -/

/-- The name of the program. -/
def programName : String :=
  "asm6502c"

/-- The name and the version of the program. -/
def versionText : String :=
  programName ++ " 0.1.0\n"

/-- The text of help. -/
def Topic.text : Topic → String
  | program =>
    "Usage: asm6502c [-v] [<command>] [<args>]\n\n" ++
    "6502 assembly compiler\n\n" ++
    "Options:\n" ++
    "  -v, --version     print version information and exit\n" ++
    "  --help, help      display usage information\n\n" ++
    "Commands:\n" ++
    "  build             Compiles an .s file into a textual IR module\n" ++
    "  encode            Prints the flat encoding of an .s file\n\n"
  | build =>
    "Usage: asm6502c build [-o <out>] [--opt] [--module-name <module-name>] [--emit <emit>] " ++
      "[--json] [--] <input>\n\n" ++
    "Compiles an .s file into a textual IR module\n\n" ++
    "Positional Arguments:\n" ++
    "  input             path to the input file with assembly code\n\n" ++
    "Options:\n" ++
    "  -o, --out         optional path to the output file\n" ++
    "  --opt             prune blocks which are never entered\n" ++
    "  --module-name     name of the produced module\n" ++
    "  --emit            output format: `ll` (default), `clif` or `obj`\n" ++
    "  --json            output build info as JSON by default\n" ++
    "  --help, help      display usage information\n\n"
  | encode =>
    "Usage: asm6502c encode [--json] [--] <input>\n\n" ++
    "Prints the flat encoding of an .s file\n\n" ++
    "Positional Arguments:\n" ++
    "  input             path to the input file with assembly code\n\n" ++
    "Options:\n" ++
    "  --json            output the listing as JSON\n" ++
    "  --help, help      display usage information\n\n"

/-- The text of a refusal. -/
def Refusal.text : Refusal → String
  | help topic => topic.text
  | unrecognized arg => "Unrecognized argument: " ++ arg ++ "\n"
  | missingInput => "Required positional arguments not provided:\n    input\n"
  | missingValue option => "No value provided for option '" ++ option ++ "'.\n"
  | badValue option value reason =>
    "Error parsing option '" ++ option ++ "' with value '" ++ value ++ "': " ++ reason ++ "\n"
  | afterHelp => "Trailing arguments are not allowed after `help`."

end Mos6502.Cli
