import HiddenSteps.Text.CharClasses
import HiddenSteps.Text.Panic
import HiddenSteps.Redaction.Entropy

/-!
# Detectors — what the redaction engine looks for

`detectAll` runs a dozen patterns over a text and returns the detections ordered by where they
start.  Every slice it takes on the text or on a capture may panic; a panic is `none`.

The Unicode tables of the regex engine and the floating-point comparison `shannon_entropy(t) >= 4.0`
are the two parameters of a `Scanner`.
-/

namespace HiddenSteps
namespace Redaction

open Text

inductive Category where
  | apiKeyOrToken
  | password
  | privateKey
  | email
  | creditCard
  | governmentId
  | medical
  | ambiguousSecret
  deriving DecidableEq, Repr

def Category.label : Category → String
  | apiKeyOrToken => "api_key_or_token"
  | password => "password"
  | privateKey => "private_key"
  | email => "email"
  | creditCard => "credit_card"
  | governmentId => "government_id"
  | medical => "medical"
  | ambiguousSecret => "ambiguous_secret"

inductive Confidence where
  | high
  | ambiguous
  deriving DecidableEq, Repr

structure Detection where
  start : Nat
  stop : Nat
  category : Category
  confidence : Confidence
  deriving DecidableEq, Repr

namespace Detection

/-- The bytes of the text the detection covers. -/
def span (d : Detection) : Span := ⟨d.start, d.stop⟩

/-- A detection of a whole span. -/
def ofSpan (s : Span) (category : Category) (confidence : Confidence) : Detection :=
  ⟨s.start, s.stop, category, confidence⟩

@[simp] theorem span_ofSpan (s : Span) (category : Category) (confidence : Confidence) :
    (ofSpan s category confidence).span = s := rfl

end Detection

/-- What the detectors take from outside the repository. -/
structure Scanner where
  classes : UnicodeClasses
  /-- `shannon_entropy(token) >= 4.0` -/
  highEntropy : List Char → Bool

/-- The scanner with exact entropy and the classes of ASCII and the Arabic-Indic digits. -/
def Scanner.reference : Scanner where
  classes := .asciiAndArabicIndic
  highEntropy token := entropyAtLeastFour (utf8Bytes token)

/-! ## Patterns -/

section Patterns

open Pattern

variable (u : UnicodeClasses)

/-- `\b` -/
def wordBound : Text.Pattern := wordBoundary u.isWord

/-- `\d` -/
def digit : Text.Pattern := cls u.isDecimal

/-- `\s*` -/
def spaces : Text.Pattern := star (cls u.isSpace)

/-- A character of a list. -/
def oneOf (cs : List Char) : Text.Pattern := cls fun c => cs.contains c

def awsAccessKey : Text.Pattern :=
  cat [wordBound u, lit "AKIA", exactly 16 (cls fun c => c.isDigit || c.isUpper), wordBound u]

def githubToken : Text.Pattern :=
  cat [wordBound u, lit "gh", oneOf ['p', 'o', 'u', 's', 'r'], lit "_",
    atLeast 36 (cls Char.isAlphanum), wordBound u]

def slackToken : Text.Pattern :=
  cat [wordBound u, lit "xox", oneOf ['b', 'a', 'p', 'r', 's'], lit "-",
    atLeast 10 (cls fun c => c.isAlphanum || c == '-'), wordBound u]

def jwt : Text.Pattern :=
  let part := atLeast 10 (cls fun c => c.isAlphanum || c == '_' || c == '-')
  cat [wordBound u, lit "ey", part, lit ".", part, lit ".", part, wordBound u]

def pemPrivateKey : Text.Pattern :=
  let label := star (cls fun c => c.isUpper || c == ' ')
  cat [lit "-----BEGIN ", label, lit "PRIVATE KEY-----", lazyStar (cls fun _ => true),
    lit "-----END ", label, lit "PRIVATE KEY-----"]

/-- The apostrophe and the double quote. -/
def quotes : List Char := [ '\x27', '\x22']

/-- `\s*[:=]\s*['"]?([^\s'",;]{n,})['"]?` -/
def assigned (n : Nat) : Text.Pattern :=
  cat [spaces u, oneOf [':', '='], spaces u, opt (oneOf quotes),
    group 1 (atLeast n (cls fun c =>
      !(u.isSpace c || quotes.contains c || c == ',' || c == ';'))),
    opt (oneOf quotes)]

def keyValueSecret : Text.Pattern :=
  let dash := opt (oneOf ['_', '-'])
  seq
    (any (caseless "password") [caseless "passwd", caseless "pwd",
      cat [caseless "api", dash, caseless "key"], caseless "apikey", caseless "secret",
      cat [caseless "access", dash, caseless "key"], cat [caseless "auth", dash, caseless "token"],
      caseless "bearer"])
    (assigned u 4)

def email : Text.Pattern :=
  cat [wordBound u,
    atLeast 1 (cls fun c => c.isAlphanum || ['.', '_', '%', '+', '-'].contains c), lit "@",
    atLeast 1 (cls fun c => c.isAlphanum || c == '.' || c == '-'), lit ".",
    atLeast 2 (cls Char.isAlpha), wordBound u]

/-- Three groups of digits with a separator. -/
def ssnSeparated (sep : String) : Text.Pattern :=
  cat [wordBound u, group 1 (exactly 3 (digit u)), lit sep, group 2 (exactly 2 (digit u)), lit sep,
    group 3 (exactly 4 (digit u)), wordBound u]

def ssnDashed : Text.Pattern := ssnSeparated u "-"

def ssnSpaced : Text.Pattern := ssnSeparated u " "

def ssnDashless : Text.Pattern :=
  cat [wordBound u, group 1 (exactly 9 (digit u)), wordBound u]

def creditCardCandidate : Text.Pattern :=
  cat [wordBound u, between 13 19 (seq (digit u) (opt (oneOf [' ', '-']))), wordBound u]

def medicalKeyValue : Text.Pattern :=
  seq
    (any (caseless "diagnosis")
      [cat [caseless "patient", opt (cat [opt (oneOf ['_', ' ']), caseless "id"])],
        caseless "mrn", caseless "prescription",
        cat [caseless "medical", oneOf ['_', ' '], caseless "record"]])
    (assigned u 2)

def highEntropyCandidate : Text.Pattern :=
  cat [wordBound u,
    atLeast 20 (cls fun c => c.isAlphanum || ['+', '/', '_', '=', '.', '-'].contains c),
    wordBound u]

end Patterns

/-! ## Social security numbers -/

def isPlausibleSsn (area group serial : List Char) : Bool :=
  -- a numeral that does not parse counts as zero
  let area := (parseU32 area).getD 0
  let group := (parseU32 group).getD 0
  let serial := (parseU32 serial).getD 0
  area != 0 && area != 666 && decide (area < 900) && group != 0 && serial != 0

/-- The text of a capture group, `none` when the group did not take part. -/
def capture (text : List Char) (m : Match) (i : Nat) : Option (List Char) :=
  (m.get i).bind fun s => slice text s.start s.stop

/-- The detection of a whole match as a government id, when the three numbers are plausible. -/
def governmentId (m : Match) (area group serial : List Char) : Option Detection :=
  if isPlausibleSsn area group serial then
    some (.ofSpan m.span .governmentId .high)
  else
    none

def separatedSsn (text : List Char) (m : Match) : Option (Option Detection) := do
  let area ← capture text m 1
  let group ← capture text m 2
  let serial ← capture text m 3
  some (governmentId m area group serial)

def dashlessSsn (text : List Char) (m : Match) : Option (Option Detection) := do
  let digits ← capture text m 1
  -- fixed byte offsets, whatever the digits are
  let area ← slice digits 0 3
  let group ← slice digits 3 5
  let serial ← slice digits 5 9
  some (governmentId m area group serial)

/-! ## Card numbers -/

/-- The summand of the digit at position `i` from the right. -/
def luhnTerm (i d : Nat) : Nat :=
  if i % 2 = 1 then
    let doubled := d * 2
    if doubled > 9 then doubled - 9 else doubled
  else d

/-- The summands added up as a `u32`, which wraps. -/
def luhnSum (digits : List Nat) : Nat :=
  (digits.reverse.mapIdx luhnTerm).foldl (fun sum term => (sum + term) % 2 ^ 32) 0

def luhnValid (digits : List Char) : Bool :=
  let digits := digits.filterMap toDigit
  if digits.length < 13 then false else luhnSum digits % 10 == 0

/-- The characters of a text with their byte offsets, from `start` on. -/
def charIndices (start : Nat) : List Char → List (Char × Nat)
  | [] => []
  | c :: cs => (c, start) :: charIndices (start + c.utf8Size) cs

def luhnWindow (positions : List (Char × Nat)) (len i : Nat) : Option (Option Span) := do
  let window ← windowAt positions i len
  if luhnValid (window.map Prod.fst) then
    let first ← window.head?
    let last ← window.getLast?
    -- digits of a window are ASCII
    some (some ⟨first.2, last.2 + 1⟩)
  else
    some none

def findLuhnValidWindow (candidate : List Char) (candidateStart : Nat) : Option (Option Span) :=
  let positions := (charIndices candidateStart candidate).filter fun p => p.1.isDigit
  let total := positions.length
  if total < 13 then some none
  else
    -- the longest window first, down to one digit less
    let maxLen := min total 19
    let minLen := max (maxLen - 1) 13
    firstOf (fun len => do
      let lastStart ← checkedSub positions.length len
      firstOf (luhnWindow positions len) (List.range (lastStart + 1)))
      (List.range' minLen (maxLen + 1 - minLen)).reverse

def cardNumber (text : List Char) (m : Match) : Option (Option Detection) := do
  let candidate ← slice text m.span.start m.span.stop
  let window ← findLuhnValidWindow candidate m.span.start
  some (window.map fun s => .ofSpan s .creditCard .high)

/-! ## All detectors -/

def pushMatches (text : List Char) (pattern : Text.Pattern) (category : Category)
    (confidence : Confidence) : List Detection :=
  (findIter pattern text).map fun m => .ofSpan m.span category confidence

/-- The value captured by a key/value pattern. -/
def pushValues (text : List Char) (pattern : Text.Pattern) (category : Category) :
    List Detection :=
  (findIter pattern text).filterMap fun m => (m.get 1).map fun v => .ofSpan v category .high

def rangesOverlap (aStart aStop bStart bStop : Nat) : Bool :=
  decide (aStart < bStop) && decide (bStart < aStop)

/-- Add a high-entropy candidate that no earlier detection claims. -/
def pushAmbiguous (sc : Scanner) (text : List Char) (detections : List Detection) (m : Match) :
    Option (List Detection) :=
  if detections.any fun d => rangesOverlap d.start d.stop m.span.start m.span.stop then
    some detections
  else do
    let token ← slice text m.span.start m.span.stop
    if looksLikeCommonHexId token then some detections
    else
      let hasLetter := token.any fun c => c.isAlpha
      let hasDigitOrSymbol := token.any fun c => !c.isAlpha
      if hasLetter && hasDigitOrSymbol && sc.highEntropy token then
        some (detections ++ [.ofSpan m.span .ambiguousSecret .ambiguous])
      else
        some detections

/-- The detections of the format-specific patterns, in the order the detectors run. -/
def highConfidence (sc : Scanner) (text : List Char) : Option (List Detection) := do
  let u := sc.classes
  let formats :=
    pushMatches text pemPrivateKey .privateKey .high ++
    pushMatches text (awsAccessKey u) .apiKeyOrToken .high ++
    pushMatches text (githubToken u) .apiKeyOrToken .high ++
    pushMatches text (slackToken u) .apiKeyOrToken .high ++
    pushMatches text (jwt u) .apiKeyOrToken .high ++
    pushValues text (keyValueSecret u) .password ++
    pushValues text (medicalKeyValue u) .medical ++
    pushMatches text (email u) .email .high
  let dashed ← collect (separatedSsn text) (findIter (ssnDashed u) text)
  let spaced ← collect (separatedSsn text) (findIter (ssnSpaced u) text)
  let dashless ← collect (dashlessSsn text) (findIter (ssnDashless u) text)
  let cards ← collect (cardNumber text) (findIter (creditCardCandidate u) text)
  some (formats ++ dashed ++ spaced ++ dashless ++ cards)

/-- `detections.sort_by_key(|d| d.start)`, which is stable. -/
def sortByStart (detections : List Detection) : List Detection :=
  detections.insertionSort fun a b => a.start ≤ b.start

def detectAll (sc : Scanner) (text : List Char) : Option (List Detection) := do
  let high ← highConfidence sc text
  let all ← (findIter (highEntropyCandidate sc.classes) text).foldlM (pushAmbiguous sc text) high
  some (sortByStart all)

end Redaction
end HiddenSteps
