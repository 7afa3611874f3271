/-!
# Spans

Everything the assembler reports is tied to a place in the source text. A place is a half-open
range of byte offsets of the UTF-8 encoded text, so that it can be cut out of a file without
decoding what stands before it. `Spanned` attaches such a range to a value.

Lines are read on their own and then moved to their place in the text; `Span.shift` is that move.
-/

namespace Mos6502

/-- A half-open range `start ≤ · < stop` of byte offsets. -/
structure Span where
  start : Nat
  stop : Nat
deriving DecidableEq

namespace Span

/-- The span moved `bytes` further into the text. -/
def shift (bytes : Nat) (s : Span) : Span :=
  ⟨s.start + bytes, s.stop + bytes⟩

@[simp] theorem shift_start (bytes : Nat) (s : Span) : (s.shift bytes).start = s.start + bytes :=
  rfl

@[simp] theorem shift_stop (bytes : Nat) (s : Span) : (s.shift bytes).stop = s.stop + bytes :=
  rfl

@[simp] theorem shift_zero (s : Span) : s.shift 0 = s :=
  rfl

theorem shift_shift (a b : Nat) (s : Span) : (s.shift a).shift b = s.shift (a + b) := by
  simp [shift, Nat.add_assoc]

end Span

/-- A value together with the place it was read from. -/
structure Spanned (α : Type) where
  val : α
  span : Span
deriving DecidableEq

/-- The same value, read `bytes` further into the text. -/
def Spanned.shift {α : Type} (bytes : Nat) (x : Spanned α) : Spanned α :=
  { x with span := x.span.shift bytes }

@[simp] theorem Spanned.shift_val {α : Type} (bytes : Nat) (x : Spanned α) :
    (x.shift bytes).val = x.val :=
  rfl

end Mos6502
