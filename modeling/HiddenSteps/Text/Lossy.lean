import Mathlib.Data.List.Basic
import Mathlib.Tactic.Common
import Mathlib.Tactic.IntervalCases

/-!
# Lossy — texts out of bytes that need not encode one

`from_utf8_lossy` and `from_utf16_lossy` put a replacement character in the place of what is no
encoding; the bytes of a text give the text back.
-/

namespace HiddenSteps
namespace Text

/-- `char::REPLACEMENT_CHARACTER` -/
def replacement : Char := Char.ofNat 0xFFFD

theorem ofNat_val (c : Char) : Char.ofNat c.val.toNat = c := Char.ofNat_toNat c

/-! ## UTF-8 -/

/-- A character of which some bytes have been read: how many are missing, the bounds of the next
one, and the bits so far. -/
structure Pending where
  left : Nat
  low : Nat
  high : Nat
  code : Nat
  deriving DecidableEq

/-- A byte where a character begins. -/
def leadByte (b : Nat) : List Char × Option Pending :=
  if b < 0x80 then ([Char.ofNat b], none)
  -- overlong encodings have no first byte
  else if b < 0xC2 then ([replacement], none)
  else if b < 0xE0 then ([], some ⟨1, 0x80, 0xBF, b - 0xC0⟩)
  else if b = 0xE0 then ([], some ⟨2, 0xA0, 0xBF, 0⟩)
  -- the second byte keeps the surrogates out
  else if b = 0xED then ([], some ⟨2, 0x80, 0x9F, 0xD⟩)
  else if b < 0xF0 then ([], some ⟨2, 0x80, 0xBF, b - 0xE0⟩)
  else if b = 0xF0 then ([], some ⟨3, 0x90, 0xBF, 0⟩)
  else if b < 0xF4 then ([], some ⟨3, 0x80, 0xBF, b - 0xF0⟩)
  else if b = 0xF4 then ([], some ⟨3, 0x80, 0x8F, 4⟩)
  else ([replacement], none)

/-- A byte inside a character.  One that does not go on with it begins another. -/
def Pending.next (p : Pending) (b : Nat) : List Char × Option Pending :=
  if p.low ≤ b ∧ b ≤ p.high then
    let code := p.code * 64 + (b - 0x80)
    if p.left = 1 then ([Char.ofNat code], none)
    else ([], some ⟨p.left - 1, 0x80, 0xBF, code⟩)
  else
    (replacement :: (leadByte b).1, (leadByte b).2)

def decodeLossy : Option Pending → List Nat → List Char
  | none, [] => []
  | some _, [] => [replacement]
  | none, b :: bytes => (leadByte b).1 ++ decodeLossy (leadByte b).2 bytes
  | some p, b :: bytes => (p.next b).1 ++ decodeLossy (p.next b).2 bytes

/-- `String::from_utf8_lossy` -/
def fromUtf8Lossy (bytes : List UInt8) : String :=
  String.ofList (decodeLossy none (bytes.map UInt8.toNat))

section Decode

variable {left low high code b : Nat} {rest : List Nat}

theorem leadByte_three {n : Nat} (hn : n < 16) :
    leadByte (n + 0xE0) =
      ([], some ⟨2, if n = 0 then 0xA0 else 0x80, if n = 0xD then 0x9F else 0xBF, n⟩) := by
  interval_cases n <;> rfl

theorem leadByte_four {n : Nat} (hn : n < 5) :
    leadByte (n + 0xF0) =
      ([], some ⟨3, if n = 0 then 0x90 else 0x80, if n = 4 then 0x8F else 0xBF, n⟩) := by
  interval_cases n <;> rfl

theorem decodeLossy_lead {p : Pending} (h : leadByte b = ([], some p)) :
    decodeLossy none (b :: rest) = decodeLossy (some p) rest := by
  simp only [decodeLossy, h, List.nil_append]

/-- A byte within its bounds, which is not the last one. -/
theorem decodeLossy_more (hlow : low ≤ b) (hhigh : b ≤ high) :
    decodeLossy (some ⟨left + 2, low, high, code⟩) (b :: rest) =
      decodeLossy (some ⟨left + 1, 0x80, 0xBF, code * 64 + (b - 0x80)⟩) rest := by
  simp [decodeLossy, Pending.next, hlow, hhigh]

theorem decodeLossy_last (hlow : low ≤ b) (hhigh : b ≤ high) :
    decodeLossy (some ⟨1, low, high, code⟩) (b :: rest) =
      Char.ofNat (code * 64 + (b - 0x80)) :: decodeLossy none rest := by
  simp [decodeLossy, Pending.next, hlow, hhigh]

end Decode

/-- The bytes of a character are decoded to it. -/
theorem decodeLossy_char (c : Char) (rest : List Nat) :
    decodeLossy none ((String.utf8EncodeChar c).map UInt8.toNat ++ rest) =
      c :: decodeLossy none rest := by
  have hvalid := c.valid
  have hback := ofNat_val c
  rw [UInt32.isValidChar, Nat.isValidChar] at hvalid
  unfold String.utf8EncodeChar
  simp only
  generalize c.val.toNat = v at hvalid hback ⊢
  split
  · rename_i hone
    have hbyte : (UInt8.ofNat v).toNat = v := by simp; omega
    have hlead : leadByte v = ([c], none) := by rw [leadByte, if_pos (by omega), hback]
    simp only [List.map_cons, List.map_nil, List.cons_append, List.nil_append, hbyte,
      decodeLossy, hlead]
  · split
    · rename_i htwo
      have hfirst : (UInt8.ofNat (v / 64 % 0x20 + 0xC0)).toNat = v / 64 + 0xC0 := by simp; omega
      have hlast : (UInt8.ofNat (v % 0x40 + 0x80)).toNat = v % 64 + 0x80 := by simp; omega
      have hlead : leadByte (v / 64 + 0xC0) = ([], some ⟨1, 0x80, 0xBF, v / 64⟩) := by
        rw [leadByte, if_neg (by omega), if_neg (by omega), if_pos (by omega),
          Nat.add_sub_cancel]
      simp only [List.map_cons, List.map_nil, List.cons_append, List.nil_append, hfirst, hlast]
      rw [decodeLossy_lead hlead, decodeLossy_last (by omega) (by omega), Nat.add_sub_cancel,
        Nat.div_add_mod', hback]
    · split
      · rename_i hthree
        have hfirst : (UInt8.ofNat (v / 4096 % 0x10 + 0xE0)).toNat = v / 4096 + 0xE0 := by
          simp; omega
        have hsecond : (UInt8.ofNat (v / 64 % 0x40 + 0x80)).toNat = v / 64 % 64 + 0x80 := by
          simp; omega
        have hlast : (UInt8.ofNat (v % 0x40 + 0x80)).toNat = v % 64 + 0x80 := by simp; omega
        have hcode : (v / 4096 * 64 + v / 64 % 64) * 64 + v % 64 = v := by omega
        simp only [List.map_cons, List.map_nil, List.cons_append, List.nil_append, hfirst,
          hsecond, hlast]
        -- an overlong encoding or a surrogate would be out of the bounds of the second byte
        rw [decodeLossy_lead (leadByte_three (by omega)),
          decodeLossy_more (by split <;> omega) (by split <;> omega), Nat.add_sub_cancel,
          decodeLossy_last (by omega) (by omega), Nat.add_sub_cancel, hcode, hback]
      · have hfirst : (UInt8.ofNat (v / 262144 % 0x08 + 0xF0)).toNat = v / 262144 + 0xF0 := by
          simp; omega
        have hsecond : (UInt8.ofNat (v / 4096 % 0x40 + 0x80)).toNat = v / 4096 % 64 + 0x80 := by
          simp; omega
        have hthird : (UInt8.ofNat (v / 64 % 0x40 + 0x80)).toNat = v / 64 % 64 + 0x80 := by
          simp; omega
        have hlast : (UInt8.ofNat (v % 0x40 + 0x80)).toNat = v % 64 + 0x80 := by simp; omega
        have hcode : ((v / 262144 * 64 + v / 4096 % 64) * 64 + v / 64 % 64) * 64 + v % 64 = v := by
          omega
        simp only [List.map_cons, List.map_nil, List.cons_append, List.nil_append, hfirst,
          hsecond, hthird, hlast]
        rw [decodeLossy_lead (leadByte_four (by omega)),
          decodeLossy_more (by split <;> omega) (by split <;> omega), Nat.add_sub_cancel,
          decodeLossy_more (by omega) (by omega), Nat.add_sub_cancel,
          decodeLossy_last (by omega) (by omega), Nat.add_sub_cancel, hcode, hback]

/-- The bytes of a text are decoded to the text. -/
theorem fromUtf8Lossy_encode (text : List Char) :
    fromUtf8Lossy (text.flatMap String.utf8EncodeChar) = String.ofList text := by
  unfold fromUtf8Lossy
  congr 1
  induction text with
  | nil => rfl
  | cons c text ih => rw [List.flatMap_cons, List.map_append, decodeLossy_char, ih]

/-! ## UTF-16 -/

/-- A unit where a character begins: one, or the first of a pair. -/
def leadUnit (u : Nat) : List Char × Option Nat :=
  if u < 0xD800 ∨ 0xE000 ≤ u then ([Char.ofNat u], none)
  else if 0xDC00 ≤ u then ([replacement], none)
  else ([], some u)

/-- A surrogate that is not one of a pair is replaced. -/
def decodeUnits : Option Nat → List Nat → List Char
  | none, [] => []
  | some _, [] => [replacement]
  | none, u :: units => (leadUnit u).1 ++ decodeUnits (leadUnit u).2 units
  | some high, u :: units =>
      if 0xDC00 ≤ u ∧ u < 0xE000 then
        Char.ofNat ((high - 0xD800) * 1024 + (u - 0xDC00) + 0x10000) :: decodeUnits none units
      else
        replacement :: (leadUnit u).1 ++ decodeUnits (leadUnit u).2 units

/-- `String::from_utf16_lossy` -/
def fromUtf16Lossy (units : List UInt16) : String :=
  String.ofList (decodeUnits none (units.map UInt16.toNat))

/-- The units of a character. -/
def utf16EncodeChar (c : Char) : List UInt16 :=
  let v := c.val.toNat
  if v < 0x10000 then [.ofNat v]
  else [.ofNat ((v - 0x10000) / 1024 + 0xD800), .ofNat ((v - 0x10000) % 1024 + 0xDC00)]

theorem utf16EncodeChar_ne_nil (c : Char) : utf16EncodeChar c ≠ [] := by
  unfold utf16EncodeChar
  simp only
  split <;> simp

theorem decodeUnits_single {u : Nat} {rest : List Nat} (h : u < 0xD800 ∨ 0xE000 ≤ u) :
    decodeUnits none (u :: rest) = Char.ofNat u :: decodeUnits none rest := by
  have hlead : leadUnit u = ([Char.ofNat u], none) := if_pos h
  simp only [decodeUnits, hlead, List.cons_append, List.nil_append]

theorem decodeUnits_pair {high low : Nat} {rest : List Nat}
    (hhigh : 0xD800 ≤ high ∧ high < 0xDC00) (hlow : 0xDC00 ≤ low ∧ low < 0xE000) :
    decodeUnits none (high :: low :: rest) =
      Char.ofNat ((high - 0xD800) * 1024 + (low - 0xDC00) + 0x10000) :: decodeUnits none rest := by
  have hlead : leadUnit high = ([], some high) := by
    rw [leadUnit, if_neg (by omega), if_neg (by omega)]
  simp only [decodeUnits, hlead, if_pos hlow, List.nil_append]

theorem decodeUnits_char (c : Char) (rest : List Nat) :
    decodeUnits none ((utf16EncodeChar c).map UInt16.toNat ++ rest) =
      c :: decodeUnits none rest := by
  have hvalid := c.valid
  have hback := ofNat_val c
  rw [UInt32.isValidChar, Nat.isValidChar] at hvalid
  unfold utf16EncodeChar
  simp only
  generalize c.val.toNat = v at hvalid hback ⊢
  split
  · have hunit : (UInt16.ofNat v).toNat = v := by simp; omega
    simp only [List.map_cons, List.map_nil, List.cons_append, List.nil_append, hunit]
    -- a character is not a surrogate
    rw [decodeUnits_single (by omega), hback]
  · obtain ⟨high, hhigh⟩ : ∃ high, high = (v - 0x10000) / 1024 + 0xD800 := ⟨_, rfl⟩
    obtain ⟨low, hlow⟩ : ∃ low, low = (v - 0x10000) % 1024 + 0xDC00 := ⟨_, rfl⟩
    have hfirst : (UInt16.ofNat high).toNat = high := by simp; omega
    have hsecond : (UInt16.ofNat low).toNat = low := by simp; omega
    have hcode : (high - 0xD800) * 1024 + (low - 0xDC00) + 0x10000 = v := by omega
    rw [← hhigh, ← hlow]
    simp only [List.map_cons, List.map_nil, List.cons_append, List.nil_append, hfirst, hsecond]
    rw [decodeUnits_pair (by omega) (by omega), hcode, hback]

/-- The units of a text are decoded to the text. -/
theorem fromUtf16Lossy_encode (text : List Char) :
    fromUtf16Lossy (text.flatMap utf16EncodeChar) = String.ofList text := by
  unfold fromUtf16Lossy
  congr 1
  induction text with
  | nil => rfl
  | cons c text ih => rw [List.flatMap_cons, List.map_append, decodeUnits_char, ih]

end Text
end HiddenSteps
