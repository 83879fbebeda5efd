import HiddenSteps.Text.Regex
import Mathlib.Algebra.Group.Nat.Defs

/-!
# CharClasses — Unicode-aware classes, caseless literals and decimal numerals

The tables behind `\d`, `\w` and `\s` are data of the regex engine, so they are a parameter here:
a `UnicodeClasses` carries the three predicates together with what is relied on about them, namely
their values on ASCII and that every decimal digit is a word character.
-/

namespace HiddenSteps
namespace Text

/-- The character sets of `\d`, `\w` and `\s` in Unicode mode. -/
structure UnicodeClasses where
  isDecimal : Char → Bool
  isWord : Char → Bool
  isSpace : Char → Bool
  decimal_ascii : ∀ c, c.toNat < 128 → isDecimal c = c.isDigit
  word_ascii : ∀ c, c.toNat < 128 → isWord c = (c.isAlphanum || c == '_')
  space_ascii : ∀ c, c.toNat < 128 →
    isSpace c = (c == ' ' || (9 ≤ c.toNat && c.toNat ≤ 13))
  word_of_decimal : ∀ c, isDecimal c = true → isWord c = true

namespace UnicodeClasses

/-- The Arabic-Indic digits U+0660 to U+0669. -/
def isArabicIndicDigit (c : Char) : Bool :=
  0x660 ≤ c.toNat && c.toNat ≤ 0x669

/-- The classes restricted to ASCII and the Arabic-Indic digits: on texts made of these characters
they are those of the full tables. -/
def asciiAndArabicIndic : UnicodeClasses where
  isDecimal c := c.isDigit || isArabicIndicDigit c
  isWord c := c.isAlphanum || c == '_' || isArabicIndicDigit c
  isSpace c := c == ' ' || (9 ≤ c.toNat && c.toNat ≤ 13)
  decimal_ascii c hc := by
    have h : isArabicIndicDigit c = false := by simp [isArabicIndicDigit]; omega
    simp [h]
  word_ascii c hc := by
    have h : isArabicIndicDigit c = false := by simp [isArabicIndicDigit]; omega
    simp [h]
  space_ascii _ _ := rfl
  word_of_decimal c hc := by
    rcases Bool.or_eq_true _ _ ▸ hc with h | h
    · simp [Char.isAlphanum, h]
    · simp [h]

end UnicodeClasses

/-! ## Caseless literals -/

/-- `d` matches the literal `c` under `(?i)`.  Besides ASCII case, simple case folding identifies
the long s with `s` and the Kelvin sign with `k`. -/
def caselessEq (c d : Char) : Bool :=
  d.toLower == c.toLower ||
    (c.toLower == 's' && d.toNat == 0x17F) || (c.toLower == 'k' && d.toNat == 0x212A)

namespace Pattern

/-- The characters of a string under `(?i)`. -/
def caseless (s : String) : Pattern :=
  cat (s.toList.map fun c => cls (caselessEq c))

end Pattern

/-! ## Decimal numerals -/

/-- `char::to_digit(10)` -/
def toDigit (c : Char) : Option Nat :=
  if c.isDigit then some (c.toNat - '0'.toNat) else none

/-- `str::parse::<u32>` -/
def parseU32 (s : List Char) : Option Nat :=
  -- a plus sign is accepted, a lone one is not
  let digits := if s.head? = some '+' then s.tail else s
  if digits.isEmpty || digits.any fun c => !c.isDigit then none
  else
    let n := digits.foldl (fun n c => 10 * n + (c.toNat - '0'.toNat)) 0
    if n < 2 ^ 32 then some n else none

end Text
end HiddenSteps
