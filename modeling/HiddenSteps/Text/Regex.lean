import HiddenSteps.Text.Utf8
import HiddenSteps.Text.Spans

/-!
# Regex — leftmost-first pattern matching

Patterns with character classes, word boundaries, alternation, greedy and lazy bounded repetition
and numbered capture groups.  `run p c` lists the cursors at which `p` can stop when it starts at
cursor `c`, in order of preference: the head of the list is the match a backtracking engine
reports first.  `findIter` reports the successive non-overlapping matches in a text, scanning from
left to right, with byte offsets.

A pattern holds its classes as predicates on characters, so that Unicode-aware classes are a
parameter of the pattern and not of the matcher.
-/

namespace HiddenSteps
namespace Text

/-! ## Syntax -/

inductive Pattern where
  | eps
  | cls (p : Char → Bool)
  | wordBoundary (w : Char → Bool)
  | seq (a b : Pattern)
  | alt (a b : Pattern)
  | rep (greedy : Bool) (lo : Nat) (hi : Option Nat) (a : Pattern)
  | group (i : Nat) (a : Pattern)

namespace Pattern

/-- Concatenation of a list of patterns. -/
def cat : List Pattern → Pattern
  | [] => eps
  | [p] => p
  | p :: ps => seq p (cat ps)

/-- Alternation of a non-empty list of patterns, first to last. -/
def any (p : Pattern) : List Pattern → Pattern
  | [] => p
  | q :: qs => alt p (any q qs)

/-- The characters of a string, one after the other. -/
def lit (s : String) : Pattern :=
  cat (s.toList.map fun c => cls fun d => d == c)

/-- `p?` -/
def opt (p : Pattern) : Pattern := rep true 0 (some 1) p

/-- `p*` -/
def star (p : Pattern) : Pattern := rep true 0 none p

/-- `p*?` -/
def lazyStar (p : Pattern) : Pattern := rep false 0 none p

/-- `p{n,}` -/
def atLeast (n : Nat) (p : Pattern) : Pattern := rep true n none p

/-- `p{n}` -/
def exactly (n : Nat) (p : Pattern) : Pattern := rep true n (some n) p

/-- `p{m,n}` -/
def between (m n : Nat) (p : Pattern) : Pattern := rep true m (some n) p

end Pattern

/-! ## Matching from a cursor -/

/-- A position in a text: the character before it, the characters from it on, its byte offset and
the capture groups closed so far, latest first. -/
structure Cursor where
  prev : Option Char
  rest : List Char
  offset : Nat
  groups : List (Nat × Span)

namespace Cursor

/-- The position after `pre` in the text `pre ++ rest`. -/
def after (pre rest : List Char) : Cursor :=
  { prev := pre.getLast?, rest := rest, offset := byteLen pre, groups := [] }

/-- Exactly one of the two neighbouring characters is a word character. -/
def atBoundary (w : Char → Bool) (c : Cursor) : Bool :=
  c.prev.any w != c.rest.head?.any w

/-- Consume one character of a class. -/
def consume (p : Char → Bool) (c : Cursor) : List Cursor :=
  match c.rest with
  | [] => []
  | x :: xs =>
      if p x then
        [{ c with prev := some x, rest := xs, offset := c.offset + x.utf8Size }]
      else
        []

/-- Close group `i`, opened at byte offset `start`. -/
def close (i start : Nat) (c : Cursor) : Cursor :=
  { c with groups := (i, ⟨start, c.offset⟩) :: c.groups }

end Cursor

/-- `n` steps in a row. -/
def times (step : Cursor → List Cursor) : Nat → Cursor → List Cursor
  | 0, c => [c]
  | n + 1, c => (step c).flatMap (times step n)

/-- Up to `n` further steps, each of which has to advance. -/
def upTo (step : Cursor → List Cursor) (greedy : Bool) : Nat → Cursor → List Cursor
  | 0, c => [c]
  | n + 1, c =>
      -- an iteration that consumes nothing ends the repetition
      let more := ((step c).filter fun d => c.offset < d.offset).flatMap (upTo step greedy n)
      if greedy then more ++ [c] else c :: more

/-- Where a pattern can stop, most preferred first. -/
def run : Pattern → Cursor → List Cursor
  | .eps, c => [c]
  | .cls p, c => c.consume p
  | .wordBoundary w, c => if c.atBoundary w then [c] else []
  | .seq a b, c => (run a c).flatMap (run b)
  | .alt a b, c => run a c ++ run b c
  | .rep greedy lo hi a, c =>
      (times (run a) lo c).flatMap fun d =>
        -- an unbounded repetition advances at most once for each character left
        upTo (run a) greedy (match hi with | some n => n - lo | none => d.rest.length) d
  | .group i a, c => (run a c).map (Cursor.close i c.offset)

/-! ## Matches in a text -/

/-- A match: its span and the spans of its capture groups. -/
structure Match where
  span : Span
  groups : List (Nat × Span)
  deriving DecidableEq, Repr

namespace Match

/-- The span of capture group `i`, where it took part in the match. -/
def get (m : Match) (i : Nat) : Option Span :=
  (m.groups.find? fun g => g.1 == i).map Prod.snd

/-- The match that starts at byte `start` and stops at a cursor. -/
def upToCursor (start : Nat) (d : Cursor) : Match :=
  { span := ⟨start, d.offset⟩, groups := d.groups }

end Match

/-- The preferred match of a pattern at a position. -/
def matchAt (p : Pattern) (prev : Option Char) (rest : List Char) (offset : Nat) : Option Match :=
  (run p { prev := prev, rest := rest, offset := offset, groups := [] }).head?.map
    (Match.upToCursor offset)

/-- The match reported at a position when the last one ended at `last`: none inside the last
match, and no empty one directly after it. -/
def attempt (p : Pattern) (last : Option Nat) (prev : Option Char) (rest : List Char)
    (offset : Nat) : Option Match :=
  if last.any (offset < ·) then none
  else (matchAt p prev rest offset).filter fun m => last != some m.span.stop

/-- The matches in the rest of a text, left to right. -/
def scan (p : Pattern) : Option Nat → Option Char → List Char → Nat → List Match
  | last, prev, [], offset => (attempt p last prev [] offset).toList
  | last, prev, c :: cs, offset =>
      match attempt p last prev (c :: cs) offset with
      | some m => m :: scan p (some m.span.stop) (some c) cs (offset + c.utf8Size)
      | none => scan p last (some c) cs (offset + c.utf8Size)

/-- The successive non-overlapping matches of a pattern in a text. -/
def findIter (p : Pattern) (text : List Char) : List Match :=
  scan p none none text 0

end Text
end HiddenSteps
