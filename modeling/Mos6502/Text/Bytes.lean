/-!
# Characters and their bytes

Text is handled as a list of characters, while spans count bytes of its UTF-8 encoding. This
module holds the few functions that relate the two: the length of a text in bytes, its encoding,
and cutting a text at a byte offset. A cut that would fall inside a character does not exist, so
`splitAtByte?` and `slice?` are partial in their result and never round an offset.

Letter case is only ever compared for ASCII letters; `lowercase` leaves every other character
alone.
-/

namespace Mos6502.Text

/-- Length in bytes of the UTF-8 encoding. -/
def byteLength : List Char → Nat
  | [] => 0
  | c :: cs => c.utf8Size + byteLength cs

@[simp] theorem byteLength_nil : byteLength [] = 0 :=
  rfl

@[simp] theorem byteLength_cons (c : Char) (cs : List Char) :
    byteLength (c :: cs) = c.utf8Size + byteLength cs :=
  rfl

@[simp] theorem byteLength_append (xs ys : List Char) :
    byteLength (xs ++ ys) = byteLength xs + byteLength ys := by
  induction xs with
  | nil => simp
  | cons c cs ih => simp [ih, Nat.add_assoc]

/-- The UTF-8 encoding of a text. -/
def encode (s : String) : List UInt8 :=
  s.toList.flatMap String.utf8EncodeChar

theorem length_encode (s : String) : (encode s).length = byteLength s.toList := by
  rw [encode]
  induction s.toList with
  | nil => rfl
  | cons c cs ih => simp [ih]

/-- Cuts a text after its first `n` bytes, if a character ends there. -/
def splitAtByte? : Nat → List Char → Option (List Char × List Char)
  | 0, cs => some ([], cs)
  | _ + 1, [] => none
  | n + 1, c :: cs =>
    if c.utf8Size ≤ n + 1 then
      (splitAtByte? (n + 1 - c.utf8Size) cs).map fun r => (c :: r.1, r.2)
    else
      none

/-- The part of a text between two byte offsets, if both are character boundaries in order. -/
def slice? (start stop : Nat) (cs : List Char) : Option (List Char) :=
  if start ≤ stop then do
    let (_, rest) ← splitAtByte? start cs
    let (part, _) ← splitAtByte? (stop - start) rest
    return part
  else
    none

/-- The text with its ASCII capitals replaced by small letters. -/
def lowercase (s : String) : String :=
  String.ofList (s.toList.map Char.toLower)

/-- White space in the sense of the Unicode property of that name. -/
def isBlank (c : Char) : Bool :=
  let n := c.toNat
  (9 ≤ n && n ≤ 13) || n == 0x20 || n == 0x85 || n == 0xA0 || n == 0x1680 ||
    (0x2000 ≤ n && n ≤ 0x200A) || n == 0x2028 || n == 0x2029 || n == 0x202F || n == 0x205F ||
    n == 0x3000

/-- The text without the longest run of characters satisfying `p` at its end. -/
def dropWhileEnd (p : Char → Bool) (cs : List Char) : List Char :=
  (cs.reverse.dropWhile p).reverse

end Mos6502.Text
