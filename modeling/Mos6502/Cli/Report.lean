import Mos6502.Text.Position
import Mos6502.Text.Span
import Mos6502.Text.Width

/-!
# Reports

A diagnostic is shown with the line it is about and an underline below the offending part. Spans
are byte offsets, while the underline counts columns, so both the text before the part and the
part itself are measured by their display width. The line is shown without the blanks at its end,
and a part that reaches into them, or beyond the line, is cut there; at least one column is
underlined.

A diagnostic whose span is not in the text is shown without an excerpt.

## Scope

Paddings and underlines are as long as what they stand under, with no bound. A formatter that
keeps widths chosen at run time in 16 bits gives up on a report that needs more than 65535
columns; that limit is one of the formatter and not of the report, and it is not modelled. It
concerns `Excerpt.render` alone: where an excerpt is cut does not depend on how wide it is.
-/

namespace Mos6502.Cli

open Text

/-- How bad it is. -/
inductive Severity where
  | error
  | warning
deriving DecidableEq

/-- What stands in front of a message: how bad it is, and which part of the program says so. -/
def Severity.tag (severity : Severity) (origin : String) : String :=
  (match severity with
    | error => "error["
    | warning => "warning[") ++ origin ++ "]: "

/-- A line of the text, cut around the part that is shown. -/
structure Excerpt where
  before : List Char
  marked : List Char
  after : List Char
deriving DecidableEq

/-- Cuts the line of a position around the part up to another position. There is no result where a
cut would fall inside a character. -/
def Excerpt.of? (text : List Char) (start stop : Position) : Option Excerpt := do
  let line := dropWhileEnd isBlank (← slice? start.lineStart start.lineEnd text)
  let length := byteLength line
  let first := min start.character length
  let last := if stop.line = start.line then stop.character else length
  let (before, rest) ← splitAtByte? first line
  let (marked, after) ← splitAtByte? (min (max last first) length - first) rest
  return ⟨before, marked, after⟩

/-- Spaces to fill columns with, however many these are. -/
def spaces (n : Nat) : String :=
  String.ofList (List.replicate n ' ')

/-- The line of an excerpt and the underline below it. No width is too large for it. -/
def Excerpt.render (e : Excerpt) (file : String) (start : Position) : String :=
  let number := Nat.repr (start.line + 1)
  let margin := spaces number.length
  let underline := String.ofList (List.replicate (max (width e.marked) 1) '^')
  margin ++ "--> " ++ file ++ ":" ++ number ++ ":" ++ Nat.repr (start.character + 1) ++ "\n" ++
    margin ++ " |\n" ++
    number ++ " | " ++ String.ofList (e.before ++ e.marked ++ e.after) ++ "\n" ++
    margin ++ " | " ++ spaces (width e.before) ++ underline ++ "\n" ++
    margin ++ " |"

/-- A text and the file it came from. -/
structure Source where
  file : String
  text : List Char

namespace Source

/-- The excerpt that a diagnostic is shown with. -/
def excerpt? (source : Source) (span : Span) : Option (Position × Excerpt) := do
  let lines := LineIndex.ofText source.text
  let start ← lines.position? span.start
  let stop ← lines.position? span.stop
  return (start, ← Excerpt.of? source.text start stop)

/-- A diagnostic as it is shown, with an empty line after it. -/
def report (source : Source) (severity : Severity) (origin : String) (span? : Option Span)
    (message : String) : String :=
  severity.tag origin ++ message ++ "\n" ++
    (match span?.bind source.excerpt? with
      | some (start, e) => e.render source.file start ++ "\n"
      | none => "") ++ "\n"

end Source

end Mos6502.Cli
