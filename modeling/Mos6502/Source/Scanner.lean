import Mos6502.Text.Bytes
import Mos6502.Text.Identifier
import Mos6502.Text.Span

/-!
# Scanners

A scanner reads something off the front of a line, or fails. Choice is ordered and committed:
`p <|> q` takes `p` where `p` succeeds and never comes back to it, and a scanner that fails leaves
nothing consumed. Runs of characters are always read as far as they go.

The cursor carries the byte offset of what is left, so that `spanned` can tell which bytes a
scanner read.

## Main definitions

* `Scanner`, with its monad and ordered choice;
* `Scanner.run`, `Scanner.run₁`, `Scanner.char`: the primitives that consume characters;
* `Scanner.ident`, `Scanner.word`, `Scanner.digits`, `Scanner.number`: the tokens of the language.
-/

namespace Mos6502

/-- What is left of a line, and the byte offset at which it starts. -/
structure Cursor where
  pos : Nat
  rest : List Char
deriving DecidableEq

/-- Reads a value off the front of a line, or fails. -/
def Scanner (α : Type) : Type :=
  Cursor → Option (α × Cursor)

namespace Scanner

variable {α β : Type}

/-- Reads nothing. -/
def pure (a : α) : Scanner α :=
  fun c => some (a, c)

/-- Reads one thing after the other. -/
def bind (p : Scanner α) (f : α → Scanner β) : Scanner β :=
  fun c => match p c with
    | none => none
    | some (a, c') => f a c'

/-- The first scanner if it succeeds, else the second. -/
def orElse (p : Scanner α) (q : Unit → Scanner α) : Scanner α :=
  fun c => match p c with
    | none => q () c
    | some r => some r

/-- Never succeeds. -/
def fail : Scanner α :=
  fun _ => none

instance : Monad Scanner where
  pure := Scanner.pure
  bind := Scanner.bind

instance : OrElse (Scanner α) :=
  ⟨Scanner.orElse⟩

@[simp] theorem pure_apply (a : α) (c : Cursor) : (Pure.pure a : Scanner α) c = some (a, c) :=
  rfl

theorem bind_apply (p : Scanner α) (f : α → Scanner β) (c : Cursor) :
    (p >>= f) c = match p c with
      | none => none
      | some (a, c') => f a c' :=
  rfl

theorem orElse_apply (p q : Scanner α) (c : Cursor) :
    (p <|> q) c = match p c with
      | none => q c
      | some r => some r :=
  rfl

/-- Reads the value if it can be read; an optional part that fails consumes nothing. -/
def optional (p : Scanner α) : Scanner (Option α) :=
  (do return some (← p)) <|> Pure.pure none

/-- What the scanner reads, with the bytes it was read from. -/
def spanned (p : Scanner α) : Scanner (Spanned α) :=
  fun c => match p c with
    | none => none
    | some (a, c') => some (⟨a, ⟨c.pos, c'.pos⟩⟩, c')

/-- The longest run of characters of a class, possibly empty. -/
def run (p : Char → Bool) : Scanner (List Char) :=
  fun c =>
    let taken := c.rest.takeWhile p
    some (taken, ⟨c.pos + Text.byteLength taken, c.rest.dropWhile p⟩)

/-- The longest run of characters of a class, at least one. -/
def run₁ (p : Char → Bool) : Scanner (List Char) := do
  let taken ← run p
  if taken.isEmpty then fail else return taken

/-- One character of a class. -/
def satisfy (p : Char → Bool) : Scanner Char :=
  fun c => match c.rest with
    | [] => none
    | x :: rest => if p x then some (x, ⟨c.pos + x.utf8Size, rest⟩) else none

/-- The given character. -/
def char (x : Char) : Scanner Unit := do
  let _ ← satisfy (· == x)

/-- Spaces and tabs between the parts of a line, possibly none. -/
def blanks : Scanner Unit := do
  let _ ← run fun c => c == ' ' || c == '\t'

/-- A scanner with blanks allowed on both sides. -/
def padded (p : Scanner α) : Scanner α := do
  blanks
  let a ← p
  blanks
  return a

/-- Items up to the first place where no separator followed by an item stands. The `rounds` bound
their number. -/
def moreItems (item : Scanner α) (separator : Scanner Unit) : (rounds : Nat) → Scanner (List α)
  | 0 => Pure.pure []
  | rounds + 1 =>
    (do
      separator
      let a ← item
      let as ← moreItems item separator rounds
      return a :: as)
    <|> Pure.pure []

/-- One item or more, with separators between them. A separator takes at least one character, so
the characters that are left bound the number of items. -/
def sepBy₁ (item : Scanner α) (separator : Scanner Unit) : Scanner (List α) := do
  let a ← item
  let as ← fun c => moreItems item separator c.rest.length c
  return a :: as

/-! ### Tokens -/

/-- An identifier, as long as it goes. -/
def ident : Scanner String := do
  let first ← satisfy Text.isIdentStart
  let others ← run Text.isIdentContinue
  return String.ofList (first :: others)

/-- The characters of directive words. -/
def isWordChar (c : Char) : Bool :=
  c.isAlphanum || c == '_' || c == '.'

/-- One of the given words, in any case of its letters. The whole run of word characters has to be
that word. -/
def word (names : List String) : Scanner Unit := do
  let w ← run₁ isWordChar
  if Text.lowercase (String.ofList w) ∈ names then return () else fail

/-- The value of a digit, up to sixteen of them. -/
def digitValue (c : Char) : Nat :=
  if c.isDigit then c.toNat - '0'.toNat
  else if 'a' ≤ c && c ≤ 'f' then c.toNat - 'a'.toNat + 10
  else if 'A' ≤ c && c ≤ 'F' then c.toNat - 'A'.toNat + 10
  else 16

/-- The number written by a list of digits. -/
def ofDigits (radix : Nat) (ds : List Char) : Nat :=
  ds.foldl (fun n d => n * radix + digitValue d) 0

/-- A run of digits; a number of 2³² or more is none. -/
def digits (radix : Nat) : Scanner UInt32 := do
  let ds ← run₁ fun c => decide (digitValue c < radix)
  let n := ofDigits radix ds
  if n < UInt32.size then return UInt32.ofNat n else fail

/-- A number: `$` or `0x` and hexadecimal, `%` and binary, or decimal digits. -/
def number : Scanner UInt32 :=
  (do char '$'; digits 16)
  <|> (do char '0'; char 'x'; digits 16)
  <|> (do char '%'; digits 2)
  <|> digits 10

end Scanner

end Mos6502
