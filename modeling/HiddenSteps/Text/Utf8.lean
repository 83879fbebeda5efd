import Mathlib.Data.Bool.AllAny
import Mathlib.Data.List.Basic
import Mathlib.Tactic.Common

/-!
# Utf8 — byte offsets into a list of characters

A UTF-8 string is modelled by its list of Unicode scalar values.  Offsets into it count *bytes*,
so an offset may fall inside a character.  `slice t a b` is the substring between two byte offsets
and is `none` exactly where slicing the string would panic: an offset out of range, an offset that
is not on a character boundary, or `b < a`.
-/

namespace HiddenSteps
namespace Text

/-- Number of bytes the characters take in UTF-8. -/
def byteLen : List Char → Nat
  | [] => 0
  | c :: cs => c.utf8Size + byteLen cs

@[simp] theorem byteLen_nil : byteLen [] = 0 := rfl

@[simp] theorem byteLen_cons (c : Char) (cs : List Char) :
    byteLen (c :: cs) = c.utf8Size + byteLen cs := rfl

@[simp] theorem byteLen_append (a b : List Char) :
    byteLen (a ++ b) = byteLen a + byteLen b := by
  induction a with
  | nil => simp
  | cons c cs ih => simp [ih, Nat.add_assoc]

theorem length_le_byteLen (t : List Char) : t.length ≤ byteLen t := by
  induction t with
  | nil => simp
  | cons c cs ih =>
      have hpos := c.utf8Size_pos
      simp only [List.length_cons, byteLen_cons]
      omega

theorem byteLen_eq_zero {t : List Char} (h : byteLen t = 0) : t = [] := by
  have hlen := length_le_byteLen t
  exact List.length_eq_zero_iff.1 (by omega)

/-- Split a text at a byte offset; `none` when the offset is not a character boundary. -/
def splitAtByte : List Char → Nat → Option (List Char × List Char)
  | t, 0 => some ([], t)
  | [], _ + 1 => none
  | c :: cs, n + 1 =>
      if c.utf8Size ≤ n + 1 then
        (splitAtByte cs (n + 1 - c.utf8Size)).map fun p => (c :: p.1, p.2)
      -- the offset lies inside this character
      else
        none

@[simp] theorem splitAtByte_zero (t : List Char) : splitAtByte t 0 = some ([], t) := by
  cases t <;> rfl

theorem splitAtByte_append (a b : List Char) :
    splitAtByte (a ++ b) (byteLen a) = some (a, b) := by
  induction a with
  | nil => simp
  | cons c cs ih =>
      obtain ⟨n, hn⟩ : ∃ n, byteLen (c :: cs) = n + 1 := by
        have hpos := c.utf8Size_pos
        exact ⟨byteLen (c :: cs) - 1, by simp only [byteLen_cons]; omega⟩
      have hle : c.utf8Size ≤ n + 1 := by
        rw [← hn]; simp
      have hsub : n + 1 - c.utf8Size = byteLen cs := by
        rw [← hn]; simp
      simp [hn, splitAtByte, hle, hsub, ih]

theorem splitAtByte_eq_some {t : List Char} {n : Nat} {a b : List Char}
    (h : splitAtByte t n = some (a, b)) : t = a ++ b ∧ byteLen a = n := by
  induction t generalizing n a b with
  | nil =>
      cases n with
      | zero => simp_all
      | succ n => simp [splitAtByte] at h
  | cons c cs ih =>
      cases n with
      | zero => simp_all
      | succ n =>
          simp only [splitAtByte] at h
          split at h
          case isFalse => cases h
          case isTrue hle =>
            rcases Option.map_eq_some_iff.1 h with ⟨⟨a', b'⟩, hsplit, heq⟩
            rcases ih hsplit with ⟨rfl, hlen⟩
            cases heq
            refine ⟨rfl, ?_⟩
            simp only [byteLen_cons]
            omega

theorem splitAtByte_isSome_iff {t : List Char} {n : Nat} :
    (splitAtByte t n).isSome ↔ ∃ a b, t = a ++ b ∧ byteLen a = n := by
  constructor
  · intro h
    rcases Option.isSome_iff_exists.1 h with ⟨⟨a, b⟩, hsplit⟩
    exact ⟨a, b, splitAtByte_eq_some hsplit⟩
  · rintro ⟨a, b, rfl, rfl⟩
    simp [splitAtByte_append]

/-- The text between two byte offsets, `none` where the slice panics. -/
def slice (t : List Char) (a b : Nat) : Option (List Char) :=
  if a ≤ b then
    (splitAtByte t a).bind fun p => (splitAtByte p.2 (b - a)).map Prod.fst
  else
    none

/-- The text from a byte offset to its end. -/
def sliceFrom (t : List Char) (a : Nat) : Option (List Char) :=
  (splitAtByte t a).map Prod.snd

theorem slice_append (a b c : List Char) :
    slice (a ++ b ++ c) (byteLen a) (byteLen (a ++ b)) = some b := by
  have hle : byteLen a ≤ byteLen (a ++ b) := by simp
  have hsub : byteLen (a ++ b) - byteLen a = byteLen b := by simp
  simp only [slice, if_pos hle, hsub, List.append_assoc, splitAtByte_append, Option.bind_some,
    Option.map_some]

theorem slice_eq_some {t : List Char} {m n : Nat} {b : List Char} (h : slice t m n = some b) :
    ∃ a c, t = a ++ b ++ c ∧ byteLen a = m ∧ byteLen (a ++ b) = n := by
  unfold slice at h
  split at h
  case isFalse => cases h
  case isTrue hle =>
    rcases Option.bind_eq_some_iff.1 h with ⟨⟨a, r⟩, hsplit, hrest⟩
    rcases Option.map_eq_some_iff.1 hrest with ⟨⟨b', c⟩, hsplit', heq⟩
    rcases splitAtByte_eq_some hsplit with ⟨rfl, ha⟩
    rcases splitAtByte_eq_some hsplit' with ⟨hr, hb⟩
    cases heq
    refine ⟨a, c, by simp [← hr], ha, ?_⟩
    simp only [byteLen_append]
    omega

/-- A slice of a part of a text is a slice of the text. -/
theorem slice_inside {t : List Char} {m n : Nat} {b : List Char} (h : slice t m n = some b)
    (pre post : List Char) :
    slice (pre ++ t ++ post) (byteLen pre + m) (byteLen pre + n) = some b := by
  rcases slice_eq_some h with ⟨a, c, rfl, rfl, rfl⟩
  have happend := slice_append (pre ++ a) b (c ++ post)
  simpa [Nat.add_assoc] using happend

/-- Of two ways to cut a text, the one at the smaller offset cuts off a part of the other. -/
theorem append_of_byteLen_le {l r l' r' : List Char} (h : l ++ r = l' ++ r')
    (hle : byteLen l ≤ byteLen l') : ∃ t, l' = l ++ t ∧ r = t ++ r' := by
  rcases List.append_eq_append_iff.1 h with ⟨t, hl, hr⟩ | ⟨t, hl, hr⟩
  · exact ⟨t, hl, hr⟩
  · have ht : t = [] := by
      apply byteLen_eq_zero
      rw [hl, byteLen_append] at hle
      omega
    subst ht
    exact ⟨[], by simpa using hl.symm, by simpa using hr.symm⟩

/-- A byte offset cuts a text in one way only. -/
theorem append_inj_of_byteLen {l r l' r' : List Char} (h : l ++ r = l' ++ r')
    (hlen : byteLen l = byteLen l') : l = l' ∧ r = r' := by
  have hsplit := splitAtByte_append l r
  rw [h, hlen, splitAtByte_append] at hsplit
  cases hsplit
  exact ⟨rfl, rfl⟩

/-- A stretch between the offsets of another one is a part of it. -/
theorem inside_of_byteLen_le {b v a pre w post : List Char} (h : b ++ v ++ a = pre ++ w ++ post)
    (hstart : byteLen pre ≤ byteLen b) (hstop : byteLen (b ++ v) ≤ byteLen (pre ++ w)) :
    ∃ p s, b = pre ++ p ∧ w = p ++ v ++ s ∧ a = s ++ post := by
  rcases append_of_byteLen_le h hstop with ⟨s, hw, rfl⟩
  have htext : pre ++ w = b ++ (v ++ s) := by rw [hw, List.append_assoc]
  rcases append_of_byteLen_le htext hstart with ⟨p, rfl, rfl⟩
  exact ⟨p, s, rfl, by simp, rfl⟩

/-- A stretch that covers the first byte of a character holds the character. -/
theorem mem_of_covers {b r pre v post : List Char} {c : Char} (h : b ++ c :: r = pre ++ v ++ post)
    (hstart : byteLen pre ≤ byteLen b) (hstop : byteLen b < byteLen (pre ++ v)) : c ∈ v := by
  have htext : pre ++ (v ++ post) = b ++ c :: r := by rw [h, List.append_assoc]
  rcases append_of_byteLen_le htext hstart with ⟨t, rfl, ht⟩
  simp only [byteLen_append] at hstop
  rcases append_of_byteLen_le ht.symm (by omega) with ⟨t', rfl, hr⟩
  cases t' with
  | nil => simp at hstop
  | cons d t' =>
      cases hr
      simp

/-! ## Bytes -/

/-- The UTF-8 encoding of a text. -/
def utf8Bytes (t : List Char) : List UInt8 :=
  t.flatMap String.utf8EncodeChar

@[simp] theorem utf8Bytes_append (a b : List Char) :
    utf8Bytes (a ++ b) = utf8Bytes a ++ utf8Bytes b := by
  simp [utf8Bytes]

@[simp] theorem length_utf8Bytes (t : List Char) : (utf8Bytes t).length = byteLen t := by
  induction t with
  | nil => rfl
  | cons c cs ih =>
      have hcons : utf8Bytes (c :: cs) = String.utf8EncodeChar c ++ utf8Bytes cs := rfl
      simp [hcons, ih]

/-- The bytes of a slice are the bytes of the text between the two offsets. -/
theorem utf8Bytes_slice {t : List Char} {m n : Nat} {b : List Char} (h : slice t m n = some b) :
    utf8Bytes b = ((utf8Bytes t).drop m).take (n - m) := by
  rcases slice_eq_some h with ⟨a, c, rfl, rfl, rfl⟩
  have hdrop : (utf8Bytes (a ++ b ++ c)).drop (byteLen a) = utf8Bytes b ++ utf8Bytes c := by
    rw [List.append_assoc, utf8Bytes_append, utf8Bytes_append]
    exact List.drop_left' (length_utf8Bytes a)
  have hlen : byteLen (a ++ b) - byteLen a = (utf8Bytes b).length := by simp
  rw [hdrop, hlen, List.take_left']
  rfl

theorem utf8Bytes_sliceFrom {t : List Char} {m : Nat} {b : List Char}
    (h : sliceFrom t m = some b) : utf8Bytes b = (utf8Bytes t).drop m := by
  rcases Option.map_eq_some_iff.1 h with ⟨⟨a, b'⟩, hsplit, rfl⟩
  rcases splitAtByte_eq_some hsplit with ⟨rfl, rfl⟩
  rw [utf8Bytes_append, List.drop_left' (length_utf8Bytes a)]

/-! ## Substrings at byte offsets -/

/-- The offsets `m ≤ n` cut the text at character boundaries. -/
def Cuts (t : List Char) (m n : Nat) : Prop :=
  ∃ a b c, t = a ++ b ++ c ∧ byteLen a = m ∧ byteLen (a ++ b) = n

theorem Cuts.slice_isSome {t : List Char} {m n : Nat} (h : Cuts t m n) :
    (slice t m n).isSome := by
  rcases h with ⟨a, b, c, rfl, rfl, rfl⟩
  rw [slice_append]
  rfl

theorem Cuts.le {t : List Char} {m n : Nat} (h : Cuts t m n) : m ≤ n := by
  rcases h with ⟨a, b, c, rfl, rfl, rfl⟩
  simp

theorem Cuts.stop_le {t : List Char} {m n : Nat} (h : Cuts t m n) : n ≤ byteLen t := by
  rcases h with ⟨a, b, c, rfl, rfl, rfl⟩
  simp

theorem Cuts.start_isSome {t : List Char} {m n : Nat} (h : Cuts t m n) :
    (splitAtByte t m).isSome := by
  rcases h with ⟨a, b, c, rfl, rfl, rfl⟩
  rw [List.append_assoc, splitAtByte_append]
  rfl

theorem Cuts.stop_isSome {t : List Char} {m n : Nat} (h : Cuts t m n) :
    (splitAtByte t n).isSome := by
  rcases h with ⟨a, b, c, rfl, rfl, rfl⟩
  rw [splitAtByte_append]
  rfl

/-- Two boundaries in order cut the text. -/
theorem cuts_of_boundaries {t : List Char} {m n : Nat} (hmn : m ≤ n)
    (hm : (splitAtByte t m).isSome) (hn : (splitAtByte t n).isSome) : Cuts t m n := by
  rcases splitAtByte_isSome_iff.1 hm with ⟨a, r, rfl, rfl⟩
  rcases splitAtByte_isSome_iff.1 hn with ⟨d, c, hd, rfl⟩
  obtain ⟨b, rfl⟩ | ⟨b, rfl⟩ : (∃ b, d = a ++ b) ∨ ∃ b, a = d ++ b := by
    rcases List.append_eq_append_iff.1 hd with ⟨b, hb, _⟩ | ⟨b, hb, _⟩
    · exact Or.inl ⟨b, hb⟩
    · exact Or.inr ⟨b, hb⟩
  · exact ⟨a, b, c, hd, rfl, rfl⟩
  · -- the later offset is a prefix of the earlier one, so the two coincide
    have hb : b = [] := by
      apply byteLen_eq_zero
      simp only [byteLen_append] at hmn
      omega
    subst hb
    exact ⟨d, [], r, by simp, by simp, by simp⟩

theorem slice_isSome_iff {t : List Char} {m n : Nat} : (slice t m n).isSome ↔ Cuts t m n := by
  constructor
  · intro h
    rcases Option.isSome_iff_exists.1 h with ⟨b, hb⟩
    rcases slice_eq_some hb with ⟨a, c, rfl, ha, hab⟩
    exact ⟨a, b, c, rfl, ha, hab⟩
  · exact Cuts.slice_isSome

theorem Cuts.append_left {t : List Char} {m n : Nat} (h : Cuts t m n) (pre : List Char) :
    Cuts (pre ++ t) (byteLen pre + m) (byteLen pre + n) := by
  rcases h with ⟨a, b, c, rfl, rfl, rfl⟩
  exact ⟨pre ++ a, b, c, by simp, by simp, by simp⟩

theorem Cuts.append_right {t : List Char} {m n : Nat} (h : Cuts t m n) (post : List Char) :
    Cuts (t ++ post) m n := by
  rcases h with ⟨a, b, c, rfl, rfl, rfl⟩
  exact ⟨a, b, c ++ post, by simp, rfl, rfl⟩

end Text
end HiddenSteps
