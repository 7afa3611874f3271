import Mos6502.Text.Columns
import Mos6502.Text.Emoji
import Mos6502.Text.Ligature

/-!
# Display width

A report underlines the offending text, so it has to know how many columns a text fills. Most
characters fill as many as they fill alone, but some of them melt together with what follows: a
carriage return with a line feed, the letters of a ligature, a symbol with its variation selector,
the parts of a flag, the members of an emoji that is glued from several.

All of these are decided by what follows, so a text is measured from its end. `Context` is what is
remembered of the part that was measured already, and `Context.step` says what a character adds in
front of it. A character can also take columns back that were counted before it was seen, so the
sum runs over the integers.
-/

namespace Mos6502.Text

/-- What follows a character, as far as the character can melt together with it. A letter is
`joined` once a zero width joiner stands in front of it. -/
inductive Following where
  /-- Nothing of interest. -/
  | plain
  | lineFeed
  | arabicAlef
  | hebrewLamed (joined : Bool)
  | bugineseYa (joined : Bool)
  /-- The vowel sign in front of a joined ya. -/
  | bugineseSign
  | tifinaghConsonant (joined : Bool)
  /-- The consonant joiner in front of a consonant. -/
  | tifinaghJoiner
  | lisuTone
  | oldTurkicLetter (joined : Bool)
  | khmerLetter
  | emoji
  /-- A skin tone. -/
  | modifier
  /-- One regional indicator. -/
  | regionalIndicator
  /-- Two of them or more. -/
  | regionalIndicators
  /-- A zero width joiner and an emoji. -/
  | joinedEmoji
  /-- A keycap mark in front of a joined emoji. -/
  | joinedKeycap
  /-- One regional indicator in front of a joined emoji. -/
  | joinedIndicator
  /-- An even number of regional indicators in front of a joined emoji. -/
  | joinedFlags
  /-- An odd number of them, three or more. -/
  | joinedFlagsAndHalf
  /-- The tags that end the name of a region, so many letters in front. -/
  | tagLetters (count : Nat)
  /-- The same, where the last tag seen is the last of so many digits. -/
  | tagDigits (count : Nat)
deriving DecidableEq

namespace Following

/-- Can it be the second part of a ligature? Variation selectors do not come in its way. -/
def isLigature : Following → Bool
  | arabicAlef | hebrewLamed _ | bugineseYa _ | bugineseSign | tifinaghConsonant _
  | tifinaghJoiner | lisuTone | oldTurkicLetter _ | khmerLetter => true
  | _ => false

/-- Is it a ligature across which invisible marks may stand? -/
def isOpen : Following → Bool
  | arabicAlef => false
  | f => f.isLigature

/-- Is an emoji in front of it glued to it? -/
def isJoined : Following → Bool
  | joinedEmoji | joinedKeycap => true
  | _ => false

/-- What a zero width joiner makes of a ligature. -/
def join : Following → Following
  | hebrewLamed _ => hebrewLamed true
  | bugineseYa _ => bugineseYa true
  | tifinaghConsonant _ => tifinaghConsonant true
  | oldTurkicLetter _ => oldTurkicLetter true
  | f => f

/-- What a character is for the one in front of it, when nothing else plays a part. -/
def ofChar (c : Char) : Following :=
  if c.toNat = 0x5DC then hebrewLamed false
  else if isAlef c then arabicAlef
  else if isKhmerSubscript c then khmerLetter
  else if c.toNat = 0x1A10 then bugineseYa false
  else if isTifinaghConsonant c then tifinaghConsonant false
  else if isLisuSecondTone c then lisuTone
  else if c.toNat = 0x10C03 then oldTurkicLetter false
  else if isRegionalIndicator c then regionalIndicator
  else if isModifier c then modifier
  else if isEmoji c then emoji
  else plain

/-- The columns that a character adds when it melts together with what follows, and what the two
are for the character in front of them. There is no result where it stands for itself. -/
def melt? (f : Following) (c : Char) : Option (Int × Following) :=
  match f with
  | arabicAlef =>
    if isLam c then some (0, plain)
    else if isTransparent c then some (0, arabicAlef)
    else none
  | hebrewLamed true => if c.toNat = 0x5D0 then some (0, plain) else none
  | khmerLetter => if c.toNat = 0x17D2 then some (-1, plain) else none
  | bugineseYa true => if c.toNat = 0x1A17 then some (0, bugineseSign) else none
  | bugineseSign => if c.toNat = 0x1A15 then some (0, plain) else none
  | tifinaghConsonant joined =>
    if c.toNat = 0x2D7F then some (1, tifinaghJoiner)
    else if joined && isTifinaghConsonant c then some (0, plain)
    else none
  | tifinaghJoiner => if isTifinaghConsonant c then some (-1, plain) else none
  | lisuTone => if isLisuFirstTone c then some (0, plain) else none
  | oldTurkicLetter true => if c.toNat = 0x10C32 then some (0, plain) else none
  | emoji => if c = zeroWidthJoiner then some (0, joinedEmoji) else none
  | modifier =>
    if isModifierBase c then some (0, emoji)
    else if c = zeroWidthJoiner then some (0, joinedEmoji)
    else none
  | regionalIndicator => if isRegionalIndicator c then some (1, regionalIndicators) else none
  | regionalIndicators =>
    if isRegionalIndicator c then some (1, regionalIndicators)
    else if c = zeroWidthJoiner then some (0, joinedEmoji)
    else none
  | joinedEmoji =>
    if c = keycapMark then some (0, joinedKeycap)
    else if isRegionalIndicator c then some (1, joinedIndicator)
    else if isModifier c then some (0, modifier)
    else if isCancelTag c then some (0, tagLetters 0)
    else if isEmoji c then some (0, emoji)
    else none
  | joinedIndicator => if isRegionalIndicator c then some (-1, joinedFlags) else none
  | joinedFlags =>
    if isRegionalIndicator c then some (3, joinedFlagsAndHalf)
    else if c = zeroWidthJoiner then some (0, joinedEmoji)
    else none
  | joinedFlagsAndHalf =>
    if isRegionalIndicator c then some (-1, joinedFlags)
    else if c = zeroWidthJoiner then some (0, joinedEmoji)
    else none
  | tagLetters n =>
    if isTagLetter c && n < 6 then some (0, tagLetters (n + 1))
    else if isTagDigit c && n < 5 then some (0, tagDigits 1)
    else if isBlackFlag c && 3 ≤ n then some (0, emoji)
    else none
  | tagDigits n =>
    if isTagDigit c && n < 3 then some (0, tagDigits (n + 1))
    else if isBlackFlag c && n = 3 then some (0, emoji)
    else none
  | plain | lineFeed | hebrewLamed false | bugineseYa false | oldTurkicLetter false
  | joinedKeycap => none

end Following

/-- The form that a variation selector asks for. -/
inductive Form where
  | text
  | emoji
deriving DecidableEq

/-- What is remembered of the text after a character. -/
structure Context where
  following : Following := .plain
  /-- The form that is asked for, if a variation selector comes first. -/
  form : Option Form := none
deriving DecidableEq

namespace Context

/-- What follows, once the character in front of it is known not to be a symbol that the selector
in between could change. -/
def ignoreForm (k : Context) : Following :=
  if k.form = some .emoji ∧ k.following.isLigature = false then .plain else k.following

/-- A selector for the plain form in front of what follows. -/
def askText (f : Following) : Context :=
  ⟨if f.isLigature then f else .plain, some .text⟩

/-- A selector for the coloured form in front of what follows. -/
def askEmoji (f : Following) : Context :=
  ⟨if f.isLigature || f.isJoined then f else .plain, some .emoji⟩

/-- The columns that a character adds to the text after it, and what is to be remembered of the
two. -/
def step (k : Context) (c : Char) : Int × Context :=
  let f := k.ignoreForm
  if k.form = some .emoji ∧ hasTwoForms c = true then
    (if k.following.isJoined then 0 else 2, ⟨.emoji, none⟩)
  else if c.toNat ≤ 0xA0 then
    if c = '\n' then (1, ⟨.lineFeed, none⟩)
    else if c = '\r' ∧ f = .lineFeed then (0, {})
    else (1, {})
  else if c = emojiSelector then (0, askEmoji f)
  else if c = textSelector then (0, askText f)
  else if k.form = some .text ∧ hasNarrowForm c = true then (1, {})
  else if f.isOpen ∧ c = zeroWidthJoiner then (0, ⟨f.join, none⟩)
  else if f.isOpen ∧ isInvisible c = true then (0, ⟨f, none⟩)
  else
    match f.melt? c with
    | some (columns, f') => (columns, ⟨f', none⟩)
    | none => (charWidth c, ⟨.ofChar c, none⟩)

/-- The columns that a text fills, and what a character in front of it has to know of it. -/
def measure (cs : List Char) : Int × Context :=
  cs.foldr (fun c r => ((r.2.step c).1 + r.1, (r.2.step c).2)) (0, {})

@[simp]
theorem measure_nil : measure [] = (0, {}) :=
  rfl

@[simp]
theorem measure_cons (c : Char) (cs : List Char) :
    measure (c :: cs) =
      (((measure cs).2.step c).1 + (measure cs).1, ((measure cs).2.step c).2) :=
  rfl

end Context

/-- Number of columns a text fills. -/
def width (cs : List Char) : Nat :=
  (Context.measure cs).1.toNat

end Mos6502.Text
