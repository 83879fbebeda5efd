import HiddenSteps.Text.CharClasses

/-!
# Validate — occurrence counts mentioned in a narrative
-/

namespace HiddenSteps
namespace Recommendations

open Text

section Patterns

open Text.Pattern

variable (u : UnicodeClasses)

/-- One of a list of words, in any letter case. -/
def anyWord (w : String) (ws : List String) : Text.Pattern :=
  any (caseless w) (ws.map caseless)

def occurrenceKeyword (i : Nat) : Text.Pattern :=
  group i (anyWord "times" ["occurrences", "instances"])

def onesWords : List String :=
  ["two", "three", "four", "five", "six", "seven", "eight", "nine"]

def teenWords : List String :=
  ["ten", "eleven", "twelve", "thirteen", "fourteen", "fifteen", "sixteen", "seventeen",
    "eighteen", "nineteen"]

def tensWords : List String :=
  ["thirty", "forty", "fifty", "sixty", "seventy", "eighty", "ninety"]

/-- A decimal numeral and a keyword. -/
def occurrenceMention : Text.Pattern :=
  cat [wordBoundary u.isWord, group 1 (atLeast 1 (cls u.isDecimal)), star (cls u.isSpace),
    occurrenceKeyword 2, wordBoundary u.isWord]

/-- Two number words joined by a hyphen or a space, and a keyword. -/
def spelledCompound : Text.Pattern :=
  cat [wordBoundary u.isWord, group 1 (anyWord "twenty" tensWords),
    cls fun c => c == '-' || c == ' ', group 2 (anyWord "one" onesWords),
    star (cls u.isSpace), occurrenceKeyword 3, wordBoundary u.isWord]

/-- One number word and a keyword. -/
def spelledSingle : Text.Pattern :=
  cat [wordBoundary u.isWord,
    group 1 (anyWord "one" (onesWords ++ teenWords ++ "twenty" :: tensWords)),
    star (cls u.isSpace), occurrenceKeyword 2, wordBoundary u.isWord]

def onceOrTwice : Text.Pattern :=
  alt (cat [wordBoundary u.isWord, caseless "once", wordBoundary u.isWord])
    (cat [wordBoundary u.isWord, caseless "twice", wordBoundary u.isWord])

end Patterns

/-! ## Number words -/

/-- `str::to_ascii_lowercase` -/
def lowercased (word : List Char) : List Char := word.map Char.toLower

/-- The value of a word in a list of words that count up from a value by a step. -/
def wordValue (words : List String) (first step : Nat) (word : List Char) : Option Nat :=
  (words.findIdx? fun w => w.toList == lowercased word).map fun i => first + step * i

def onesWordValue (word : List Char) : Option Nat :=
  wordValue ("one" :: onesWords ++ teenWords) 1 1 word

def tensWordValue (word : List Char) : Option Nat :=
  wordValue ("twenty" :: tensWords) 20 10 word

/-! ## Mentions -/

/-- A mentioned count and the span of the text that mentions it. -/
structure Mention where
  span : Span
  count : Nat
  deriving DecidableEq

/-- The text of a capture group. -/
def groupText (text : List Char) (m : Match) (i : Nat) : Option (List Char) :=
  (m.get i).bind fun s => slice text s.start s.stop

def mentionsInDigits (u : UnicodeClasses) (text : List Char) : List Mention :=
  (findIter (occurrenceMention u) text).filterMap fun m =>
    ((groupText text m 1).bind parseU32).map fun n => ⟨m.span, n⟩

def mentionsInCompounds (u : UnicodeClasses) (text : List Char) : List Mention :=
  (findIter (spelledCompound u) text).filterMap fun m =>
    ((groupText text m 1).bind tensWordValue).bind fun tens =>
      ((groupText text m 2).bind onesWordValue).map fun ones => ⟨m.span, tens + ones⟩

/-- Single words, except inside a mention already found. -/
def mentionsInSingles (u : UnicodeClasses) (text : List Char) (mentions : List Mention) :
    List Mention :=
  (findIter (spelledSingle u) text).foldl (fun mentions m =>
    -- the second word of a compound is no count of its own
    if mentions.any fun k => k.span.start ≤ m.span.start && m.span.stop ≤ k.span.stop then
      mentions
    else
      match (groupText text m 1).bind fun w => (onesWordValue w).or (tensWordValue w) with
      | some n => mentions ++ [⟨m.span, n⟩]
      | none => mentions) mentions

def mentionsOfOnceOrTwice (u : UnicodeClasses) (text : List Char) : List Mention :=
  (findIter (onceOrTwice u) text).map fun m =>
    let once := (slice text m.span.start m.span.stop).map lowercased == some "once".toList
    ⟨m.span, if once then 1 else 2⟩

def mentionedCounts (u : UnicodeClasses) (text : List Char) : List Mention :=
  mentionsInSingles u text (mentionsInDigits u text ++ mentionsInCompounds u text) ++
    mentionsOfOnceOrTwice u text

def contradictsOccurrenceCount (u : UnicodeClasses) (text : String) (actualCount : Nat) : Bool :=
  (mentionedCounts u text.toList).any fun m => m.count != actualCount

example : contradictsOccurrenceCount .asciiAndArabicIndic "Thirty-one times, not twice" 31 =
    true := by decide +kernel

end Recommendations
end HiddenSteps
