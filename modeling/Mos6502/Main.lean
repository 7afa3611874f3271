import Mos6502.Cli.Run

/-!
# The program

Reads the input of a command from the file system, lets the command decide what to do, and does
it.
-/

namespace Mos6502.Cli

/-- The reason behind an error of the system, told apart by its number where one kind of error
covers several of them. -/
def IoError.ofSystem (e : IO.Error) : IoError :=
  match e with
  | .noFileOrDirectory _ _ _ => .notFound
  | .inappropriateType _ code _ => if code = 20 then .notDirectory else .isDirectory
  | .invalidArgument _ code _ => if code = 36 then .nameTooLong else .other (toString e)
  | _ => .other (toString e)

/-- Reads a file as text. -/
def readText (path : String) : IO (Except IoError String) := do
  try
    let bytes ← IO.FS.readBinFile path
    match String.fromUTF8? bytes with
    | some s => return .ok s
    | none => return .error .notText
  catch e =>
    return .error (.ofSystem e)

/-- Writes a file. Machine code is left to the native backend, which takes the place of the mark
that is written here. -/
def writeContents (path : String) (contents : Contents) : IO (Except IoError Unit) := do
  try
    match contents with
    | .text s => IO.FS.writeFile path s
    | .binary | .object => IO.FS.writeFile path "<object>"
    return .ok ()
  catch e =>
    return .error (.ofSystem e)

/-- Carries out a step on the file system. -/
def Step.perform : Step → IO Transcript
  | done t => return t
  | write path contents written failed => do
    match ← writeContents path contents with
    | .ok () => return written
    | .error e => return failed e

end Mos6502.Cli

open Mos6502.Cli in
/-- Runs a command line and ends with its exit code. -/
def main (args : List String) : IO UInt32 := do
  let t ← match request args with
    | .error t => pure t
    | .ok c => (c.step (← readText c.input)).perform
  (← IO.getStdout).putStr t.stdout
  (← IO.getStderr).putStr t.stderr
  return t.code.toUInt32
