import Mathlib.Data.Bool.AllAny
import Mathlib.Data.List.Basic

/-!
# JsonText — the grammar of JSON texts

The productions of RFC 8259 on lists of characters.  A text of nesting `n` has at most `n` objects
inside one another; arrays are not counted.
-/

namespace HiddenSteps
namespace JsonText

def Whitespace (s : List Char) : Prop :=
  ∀ c ∈ s, c ∈ [' ', '\t', '\n', '\r']

def Digits (s : List Char) : Prop :=
  s ≠ [] ∧ ∀ c ∈ s, c.isDigit = true

/-- An integer part: no leading zero. -/
def IntText (s : List Char) : Prop :=
  s = ['0'] ∨ ∃ first rest, s = first :: rest ∧ first.isDigit = true ∧ first ≠ '0' ∧
    ∀ c ∈ rest, c.isDigit = true

def FracText (s : List Char) : Prop :=
  ∃ digits, s = '.' :: digits ∧ Digits digits

def ExpText (s : List Char) : Prop :=
  ∃ e sign digits, s = e :: sign ++ digits ∧ e ∈ ['e', 'E'] ∧ sign ∈ [[], ['+'], ['-']] ∧
    Digits digits

def NumberText (s : List Char) : Prop :=
  ∃ minus int frac exp, s = minus ++ int ++ frac ++ exp ∧ minus ∈ [[], ['-']] ∧ IntText int ∧
    (frac = [] ∨ FracText frac) ∧ (exp = [] ∨ ExpText exp)

def isHexDigit (c : Char) : Bool :=
  c.isDigit || ('a' ≤ c && c ≤ 'f') || ('A' ≤ c && c ≤ 'F')

/-- One character of a string. -/
inductive CharText : List Char → Prop where
  | unescaped {c : Char} (hcontrol : 0x20 ≤ c.toNat) (hquote : c ≠ '\x22') (hescape : c ≠ '\\') :
      CharText [c]
  | escaped {c : Char} (h : c ∈ ['\x22', '\\', '/', 'b', 'f', 'n', 'r', 't']) : CharText ['\\', c]
  | unicode {a b c d : Char} (ha : isHexDigit a = true) (hb : isHexDigit b = true)
      (hc : isHexDigit c = true) (hd : isHexDigit d = true) : CharText ['\\', 'u', a, b, c, d]

inductive CharsText : List Char → Prop where
  | nil : CharsText []
  | cons {c s : List Char} (hc : CharText c) (hs : CharsText s) : CharsText (c ++ s)

def StringText (s : List Char) : Prop :=
  ∃ chars, s = '\x22' :: chars ++ ['\x22'] ∧ CharsText chars

mutual

inductive ValueText : Nat → List Char → Prop where
  | word {n : Nat} {s : List Char} (h : s ∈ ["false".toList, "null".toList, "true".toList]) :
      ValueText n s
  | number {n : Nat} {s : List Char} (h : NumberText s) : ValueText n s
  | string {n : Nat} {s : List Char} (h : StringText s) : ValueText n s
  | emptyArray {n : Nat} {ws : List Char} (h : Whitespace ws) : ValueText n ('[' :: ws ++ [']'])
  | array {n : Nat} {s : List Char} (h : ValuesText n s) : ValueText n ('[' :: s ++ [']'])
  | object {n : Nat} {s : List Char} (h : ObjectText n s) : ValueText n s

/-- Values with commas between them. -/
inductive ValuesText : Nat → List Char → Prop where
  | last {n : Nat} {ws value ws' : List Char} (hws : Whitespace ws) (hvalue : ValueText n value)
      (hws' : Whitespace ws') : ValuesText n (ws ++ value ++ ws')
  | more {n : Nat} {ws value ws' values : List Char} (hws : Whitespace ws)
      (hvalue : ValueText n value) (hws' : Whitespace ws') (hvalues : ValuesText n values) :
      ValuesText n (ws ++ value ++ ws' ++ ',' :: values)

/-- An object, from its opening to its closing brace. -/
inductive ObjectText : Nat → List Char → Prop where
  | empty {n : Nat} {ws : List Char} (h : Whitespace ws) :
      ObjectText (n + 1) ('\x7b' :: ws ++ ['\x7d'])
  | members {n : Nat} {s : List Char} (h : MembersText n s) :
      ObjectText (n + 1) ('\x7b' :: s ++ ['\x7d'])

/-- Members with commas between them. -/
inductive MembersText : Nat → List Char → Prop where
  | last {n : Nat} {s : List Char} (h : MemberText n s) : MembersText n s
  | more {n : Nat} {s members : List Char} (h : MemberText n s) (hmembers : MembersText n members) :
      MembersText n (s ++ ',' :: members)

inductive MemberText : Nat → List Char → Prop where
  | mk {n : Nat} {ws₁ name ws₂ ws₃ value ws₄ : List Char} (h₁ : Whitespace ws₁)
      (hname : StringText name) (h₂ : Whitespace ws₂) (h₃ : Whitespace ws₃)
      (hvalue : ValueText n value) (h₄ : Whitespace ws₄) :
      MemberText n (ws₁ ++ name ++ ws₂ ++ ':' :: ws₃ ++ value ++ ws₄)

end

end JsonText
end HiddenSteps
