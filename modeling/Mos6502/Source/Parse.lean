import Mos6502.Diagnostic
import Mos6502.Source.Line

/-!
# Reading a text

The text is cut into lines, each line is read on its own, and what it yields is moved to its place
in the text. A line with a syntax error yields that error and no statements, and has no influence
on any other line.

A line ends after its newline. The newline and all carriage returns before it are no part of what
is read, so texts with either kind of line ending read the same.
-/

namespace Mos6502

/-- The lines of a text, each with the newline that ends it. -/
def rawLines : List Char → List (List Char)
  | [] => []
  | c :: cs =>
    if c = '\n' then [c] :: rawLines cs
    else match rawLines cs with
      | [] => [[c]]
      | l :: ls => (c :: l) :: ls

/-- A line without what ends it. -/
def withoutLineEnd (line : List Char) : List Char :=
  Text.dropWhileEnd (fun c => c == '\r' || c == '\n') line

/-- A character at which its line should have ended. -/
structure SyntaxError where
  line : Nat
  span : Span
  found : Char
deriving DecidableEq

namespace SyntaxError

/-- What was found and what could have stood there. -/
def describe (e : SyntaxError) : String :=
  "found '" ++ String.singleton e.found ++ "' expected inline whitespace, ';', or end of input"

/-- The text of a syntax error. -/
def message (e : SyntaxError) : String :=
  atLine e.line e.describe

/-- The same error, `bytes` and `lines` further into the text. -/
def shift (bytes lines : Nat) (e : SyntaxError) : SyntaxError :=
  ⟨e.line + lines, e.span.shift bytes, e.found⟩

end SyntaxError

/-- What a text says, and the lines on which it says nothing that can be read. -/
structure Parsed where
  stmts : List Stmt := []
  errors : List SyntaxError := []
deriving DecidableEq

namespace Parsed

/-- Both parts, one after the other. -/
def append (p q : Parsed) : Parsed :=
  ⟨p.stmts ++ q.stmts, p.errors ++ q.errors⟩

/-- Everything `bytes` and `lines` further into the text. -/
def shift (bytes lines : Nat) (p : Parsed) : Parsed :=
  ⟨p.stmts.map (Stmt.shift bytes lines), p.errors.map (SyntaxError.shift bytes lines)⟩

/-- What one line says, as if it were the line before the first. -/
def ofLine (cs : List Char) : Parsed :=
  match Line.readLine (withoutLineEnd cs) with
  | .ok stmts => ⟨stmts, []⟩
  | .error e => ⟨[], [⟨0, ⟨e.pos, e.pos + e.found.utf8Size⟩, e.found⟩]⟩

/-- What lines say that start `bytes` into the text, the first of which has the number `line`. -/
def ofLinesFrom (bytes line : Nat) : List (List Char) → Parsed
  | [] => {}
  | l :: ls =>
    ((ofLine l).shift bytes line).append (ofLinesFrom (bytes + Text.byteLength l) (line + 1) ls)

end Parsed

/-- Reads a whole text. -/
def parse (text : List Char) : Parsed :=
  Parsed.ofLinesFrom 0 1 (rawLines text)

end Mos6502
