import Mos6502.Text.Numeral

/-!
# JSON text

The form in which results are printed for other programs: one value a line, indented by two
spaces, nothing between the brackets of an empty list. Only what has to be escaped is escaped.

The functions take the depth of what they write, so that inner values can be written first.
-/

namespace Mos6502.Cli.Json

/-- How a character is written inside a string. -/
def escape (c : Char) : String :=
  if c = '"' then "\\\""
  else if c = '\\' then "\\\\"
  else if c = '\n' then "\\n"
  else if c = '\r' then "\\r"
  else if c = '\t' then "\\t"
  else if c.toNat = 8 then "\\b"
  else if c.toNat = 12 then "\\f"
  else if c.toNat < 0x20 then "\\u" ++ Text.hex 4 c.toNat
  else String.singleton c

/-- A string. -/
def string (s : String) : String :=
  "\"" ++ String.join (s.toList.map escape) ++ "\""

/-- A number. -/
def number (n : Nat) : String :=
  Nat.repr n

/-- The indentation of a depth. -/
def indent (depth : Nat) : String :=
  String.ofList (List.replicate (2 * depth) ' ')

/-- Entries between brackets, one a line. -/
def bracket (opening closing : String) (depth : Nat) (entries : List String) : String :=
  if entries.isEmpty then opening ++ closing
  else
    opening ++ "\n" ++
      String.intercalate ",\n" (entries.map fun e => indent (depth + 1) ++ e) ++ "\n" ++
      indent depth ++ closing

/-- A list of values. -/
def array (depth : Nat) (values : List String) : String :=
  bracket "[" "]" depth values

/-- An object; the caller gives its fields in the order of their names. -/
def object (depth : Nat) (fields : List (String × String)) : String :=
  bracket "\x7b" "\x7d" depth (fields.map fun f => string f.1 ++ ": " ++ f.2)

/-- A list of strings. -/
def strings (depth : Nat) (values : List String) : String :=
  array depth (values.map string)

end Mos6502.Cli.Json
