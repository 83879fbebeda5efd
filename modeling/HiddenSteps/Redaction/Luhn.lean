import HiddenSteps.Redaction.Detectors
import HiddenSteps.Systems.CheckDigits
import Mathlib.Data.ZMod.Basic

/-!
# Luhn — what the checksum of card numbers detects

Weighing every digit of a string by its position gives a code with one check digit that detects a
wrong digit and a swap of neighbours other than 0 and 9.  The program adds the weights up as a
`u32`: this is the same checksum as long as the sum cannot reach 2³², and no longer.
-/

namespace HiddenSteps
namespace Redaction

open Text Systems.CheckDigits

def DigitString (s : List Char) : Prop :=
  ∀ c ∈ s, c.isDigit = true

/-- What a digit adds to the sum at position `i` from the right. -/
def luhnWeight (i : Nat) (c : Char) : Nat :=
  luhnTerm i (c.toNat - '0'.toNat)

/-- The weight modulo ten. -/
def luhnResidue (i : Nat) (c : Char) : ZMod 10 :=
  luhnWeight i c

/-! ## The weights of one position -/

theorem digit_bounds {c : Char} (h : c.isDigit = true) : 48 ≤ c.toNat ∧ c.toNat - 48 < 10 := by
  have hbounds : (decide ('0'.val ≤ c.val) && decide (c.val ≤ '9'.val)) = true := h
  have hzero : 48 ≤ c.toNat :=
    UInt32.le_iff_toNat_le.1 (of_decide_eq_true (Bool.and_eq_true_iff.1 hbounds).1)
  have hnine : c.toNat ≤ 57 :=
    UInt32.le_iff_toNat_le.1 (of_decide_eq_true (Bool.and_eq_true_iff.1 hbounds).2)
  omega

/-- Only the parity of the position matters. -/
theorem luhnTerm_mod_two (i d : Nat) : luhnTerm (i % 2) d = luhnTerm i d := by
  rw [luhnTerm, luhnTerm, Nat.mod_mod]

theorem luhnTerm_le {d : Nat} (i : Nat) (hd : d < 10) : luhnTerm i d ≤ 9 := by
  have hall : ∀ i : Fin 2, ∀ d : Fin 10, luhnTerm i d ≤ 9 := by decide
  rw [← luhnTerm_mod_two]
  exact hall ⟨i % 2, Nat.mod_lt _ (by decide)⟩ ⟨d, hd⟩

/-- Doubling and casting out nines maps the digits one to one. -/
theorem luhnTerm_inj {d e : Nat} (i : Nat) (hd : d < 10) (he : e < 10)
    (h : luhnTerm i d = luhnTerm i e) : d = e := by
  have hall : ∀ i : Fin 2, ∀ d e : Fin 10, luhnTerm i d = luhnTerm i e → d = e := by decide
  rw [← luhnTerm_mod_two i d, ← luhnTerm_mod_two i e] at h
  exact congrArg Fin.val (hall ⟨i % 2, Nat.mod_lt _ (by decide)⟩ ⟨d, hd⟩ ⟨e, he⟩ h)

/-- Of two neighbouring positions one is doubled, and only 0 and 9 weigh the same in both. -/
theorem luhnTerm_swap {d e : Nat} (i : Nat) (hd : d < 10) (he : e < 10)
    (h : (luhnTerm (i + 1) d + luhnTerm i e) % 10 = (luhnTerm (i + 1) e + luhnTerm i d) % 10) :
    d = e ∨ (d = 0 ∧ e = 9) ∨ (d = 9 ∧ e = 0) := by
  have hall : ∀ i : Fin 2, ∀ d e : Fin 10,
      (luhnTerm (i + 1) d + luhnTerm i e) % 10 = (luhnTerm (i + 1) e + luhnTerm i d) % 10 →
        d = e ∨ (d = 0 ∧ e = 9) ∨ (d = 9 ∧ e = 0) := by decide
  have hparity : ∀ d, luhnTerm (i % 2 + 1) d = luhnTerm (i + 1) d := by
    intro d
    rw [← luhnTerm_mod_two, ← luhnTerm_mod_two (i + 1), Nat.mod_add_mod]
  rw [← luhnTerm_mod_two i d, ← luhnTerm_mod_two i e, ← hparity d, ← hparity e] at h
  have hcase := hall ⟨i % 2, Nat.mod_lt _ (by decide)⟩ ⟨d, hd⟩ ⟨e, he⟩ h
  simpa [Fin.ext_iff] using hcase

theorem luhnWeight_le (i : Nat) {c : Char} (h : c.isDigit = true) : luhnWeight i c ≤ 9 :=
  luhnTerm_le i (digit_bounds h).2

theorem exists_luhnWeight (i : Nat) {r : Nat} (hr : r ≤ 9) :
    ∃ c, c.isDigit = true ∧ luhnWeight i c = r := by
  have hall : ∀ i : Fin 2, ∀ r : Fin 10, ∃ d : Fin 10,
      (Char.ofNat (48 + d)).isDigit = true ∧ luhnWeight i (Char.ofNat (48 + d)) = r := by decide
  obtain ⟨d, hdigit, hweight⟩ :=
    hall ⟨i % 2, Nat.mod_lt _ (by decide)⟩ ⟨r, Nat.lt_succ_of_le hr⟩
  refine ⟨Char.ofNat (48 + d), hdigit, ?_⟩
  rw [luhnWeight, ← luhnTerm_mod_two]
  exact hweight

theorem char_eq_of_digit {c d : Char} (hc : c.isDigit = true) (hd : d.isDigit = true)
    (h : c.toNat - 48 = d.toNat - 48) : c = d := by
  have hc' := digit_bounds hc
  have hd' := digit_bounds hd
  exact Char.toNat_inj.1 (by omega)

theorem injOn_luhnResidue (i : Nat) :
    Set.InjOn (luhnResidue i) {c | c.isDigit = true} := by
  intro c hc d hd h
  have hmod : luhnWeight i c % 10 = luhnWeight i d % 10 := (ZMod.natCast_eq_natCast_iff' ..).1 h
  have hc' := luhnWeight_le i hc
  have hd' := luhnWeight_le i hd
  exact char_eq_of_digit hc hd
    (luhnTerm_inj i (digit_bounds hc).2 (digit_bounds hd).2
      (show luhnWeight i c = luhnWeight i d by omega))

theorem bijOn_luhnResidue (i : Nat) :
    Set.BijOn (luhnResidue i) {c | c.isDigit = true} Set.univ := by
  refine ⟨fun _ _ => Set.mem_univ _, injOn_luhnResidue i, ?_⟩
  intro r _
  obtain ⟨c, hc, hweight⟩ := exists_luhnWeight i (Nat.le_of_lt_succ (ZMod.val_lt r))
  exact ⟨c, hc, by rw [luhnResidue, hweight, ZMod.natCast_zmod_val]⟩

/-! ## The check of the program -/

theorem filterMap_toDigit {s : List Char} (h : DigitString s) :
    s.filterMap toDigit = s.map fun c => c.toNat - '0'.toNat := by
  rw [← List.filterMap_eq_map]
  refine List.filterMap_congr fun c hc => ?_
  rw [toDigit, if_pos (h c hc)]
  rfl

theorem foldl_wrapping (terms : List Nat) (acc : Nat) :
    terms.foldl (fun sum term => (sum + term) % 2 ^ 32) (acc % 2 ^ 32) =
      (acc + terms.sum) % 2 ^ 32 := by
  induction terms generalizing acc with
  | nil => rfl
  | cons term terms ih =>
      rw [List.foldl_cons, Nat.mod_add_mod, ih, List.sum_cons, Nat.add_assoc]

theorem luhnSum_eq (digits : List Nat) : luhnSum digits = checksum luhnTerm digits % 2 ^ 32 := by
  have hsum : checksum luhnTerm digits = (digits.reverse.mapIdx luhnTerm).sum := by
    simpa only [Nat.zero_add] using checksumFrom_eq_sum luhnTerm 0 digits
  have hloop := foldl_wrapping (digits.reverse.mapIdx luhnTerm) 0
  rw [Nat.zero_add, ← hsum] at hloop
  exact hloop

theorem luhnValid_iff {s : List Char} (h : DigitString s) :
    luhnValid s = true ↔ 13 ≤ s.length ∧ checksum luhnWeight s % 2 ^ 32 % 10 = 0 := by
  simp only [luhnValid, filterMap_toDigit h, List.length_map, luhnSum_eq, checksumFrom_map]
  split
  · rename_i hshort
    simp [Nat.not_le.2 hshort]
  · rename_i hlong
    simp only [Nat.not_lt.1 hlong, true_and, beq_iff_eq]
    rfl

/-- As long as the sum stays below 2³², the check is a checksum modulo ten. -/
theorem luhnValid_iff_checksum {s : List Char} (h : DigitString s) (hlen : 9 * s.length < 2 ^ 32) :
    luhnValid s = true ↔ 13 ≤ s.length ∧ checksum luhnResidue s = 0 := by
  have hle : checksum luhnWeight s ≤ 9 * s.length :=
    checksumFrom_le (fun i _ => luhnWeight_le i) 0 h
  have hcast : checksum luhnResidue s = ((checksum luhnWeight s : Nat) : ZMod 10) :=
    (map_checksumFrom luhnWeight (Nat.castAddMonoidHom (ZMod 10)) 0 s).symm
  rw [luhnValid_iff h, Nat.mod_eq_of_lt (Nat.lt_of_le_of_lt hle hlen), hcast,
    ZMod.natCast_eq_zero_iff, Nat.dvd_iff_mod_eq_zero]

/-! ## Detected errors -/

/-- For the strings of `n` digits: one more digit is the check digit, accepted strings differ in two
places, and a swap of neighbours that are not 0 and 9 is noticed. -/
structure GenuineLuhn (n : Nat) : Prop where
  check : 12 ≤ n → ∀ s : List Char, s.length = n → DigitString s →
    ∃! c : Char, c.isDigit = true ∧ luhnValid (s ++ [c]) = true
  apart : ∀ s t : List Char, s.length = n → t.length = n → DigitString s → DigitString t →
    luhnValid s = true → luhnValid t = true → s ≠ t → 2 ≤ distance s t
  swap : ∀ (u v : List Char) (a b : Char), (u ++ a :: b :: v).length = n →
    DigitString (u ++ a :: b :: v) → a ≠ b → ¬ (a = '0' ∧ b = '9') → ¬ (a = '9' ∧ b = '0') →
      luhnValid (u ++ a :: b :: v) = true → luhnValid (u ++ b :: a :: v) = false

/-- Whether a swap of two digits leaves the residue of the sum as it is. -/
theorem luhnResidue_swap {a b : Char} (i : Nat) (ha : a.isDigit = true) (hb : b.isDigit = true)
    (h : luhnResidue (i + 1) a + luhnResidue i b = luhnResidue (i + 1) b + luhnResidue i a) :
    a = b ∨ (a = '0' ∧ b = '9') ∨ (a = '9' ∧ b = '0') := by
  simp only [luhnResidue, ← Nat.cast_add, ZMod.natCast_eq_natCast_iff'] at h
  rcases luhnTerm_swap i (digit_bounds ha).2 (digit_bounds hb).2 h with
    heq | ⟨hzero, hnine⟩ | ⟨hnine, hzero⟩
  · exact Or.inl (char_eq_of_digit ha hb heq)
  · exact Or.inr (Or.inl ⟨char_eq_of_digit ha (by decide) hzero,
      char_eq_of_digit hb (by decide) hnine⟩)
  · exact Or.inr (Or.inr ⟨char_eq_of_digit ha (by decide) hnine,
      char_eq_of_digit hb (by decide) hzero⟩)

/-- Below 2³² the program computes the Luhn checksum. -/
theorem genuineLuhn_of_lt {n : Nat} (h : 9 * (n + 1) < 2 ^ 32) : GenuineLuhn n where
  check := by
    intro hn s hs hdigits
    have hiff : ∀ c : Char, (c.isDigit = true ∧ luhnValid (s ++ [c]) = true) ↔
        (c ∈ {c : Char | c.isDigit = true} ∧ checksum luhnResidue (s ++ [c]) = 0) := by
      intro c
      refine and_congr_right fun hc => ?_
      have hall : DigitString (s ++ [c]) :=
        List.forall_mem_append.2 ⟨hdigits, List.forall_mem_singleton.2 hc⟩
      have hlength : (s ++ [c]).length = n + 1 := by rw [List.length_append, hs]; rfl
      rw [luhnValid_iff_checksum hall (by rw [hlength]; exact h), hlength]
      exact and_iff_right (by omega)
    simp only [hiff]
    exact existsUnique_check (bijOn_luhnResidue 0) s
  apart := by
    intro s t hs ht hsdigits htdigits hsvalid htvalid hne
    rw [luhnValid_iff_checksum hsdigits (by rw [hs]; omega)] at hsvalid
    rw [luhnValid_iff_checksum htdigits (by rw [ht]; omega)] at htvalid
    exact two_le_distance injOn_luhnResidue hsdigits htdigits (hs.trans ht.symm)
      (hsvalid.2.trans htvalid.2.symm) hne
  swap := by
    intro u v a b hlen hdigits hne h09 h90 hvalid
    have hperm : (u ++ b :: a :: v).Perm (u ++ a :: b :: v) :=
      (List.Perm.swap a b v).append_left u
    have hdigits' : DigitString (u ++ b :: a :: v) :=
      fun c hc => hdigits c (hperm.mem_iff.1 hc)
    have hlen' : (u ++ b :: a :: v).length = n := hperm.length_eq.trans hlen
    rw [luhnValid_iff_checksum hdigits (by rw [hlen]; omega)] at hvalid
    rw [← Bool.not_eq_true, luhnValid_iff_checksum hdigits' (by rw [hlen']; omega)]
    rintro ⟨-, hzero⟩
    have hsame := (checksum_swap_iff 0 u v a b).1 (hvalid.2.trans hzero.symm)
    rcases luhnResidue_swap _ (hdigits a (by simp)) (hdigits b (by simp)) hsame with h | h | h
    · exact hne h
    · exact h09 h
    · exact h90 h

/-- A string has two check digits when its sum with 0 is the last multiple of ten below 2³²: with 6
the sum is 2³² itself, which wraps to zero. -/
theorem two_checks {s : List Char} (hlen : 12 ≤ s.length) (hdigits : DigitString s)
    (hsum : checksumFrom luhnWeight 1 s = 2 ^ 32 - 6) :
    luhnValid (s ++ ['0']) = true ∧ luhnValid (s ++ ['6']) = true := by
  have hvalid : ∀ c : Char, c.isDigit = true →
      (2 ^ 32 - 6 + luhnWeight 0 c) % 2 ^ 32 % 10 = 0 → luhnValid (s ++ [c]) = true := by
    intro c hc hzero
    have hall : DigitString (s ++ [c]) :=
      List.forall_mem_append.2 ⟨hdigits, List.forall_mem_singleton.2 hc⟩
    have htotal : checksum luhnWeight (s ++ [c]) = 2 ^ 32 - 6 + luhnWeight 0 c := by
      rw [checksum, checksumFrom_append, List.length_singleton, hsum]
      rfl
    rw [luhnValid_iff hall, htotal, List.length_append]
    exact ⟨Nat.succ_le_succ hlen, hzero⟩
  exact ⟨hvalid '0' (by decide) (by decide), hvalid '6' (by decide) (by decide)⟩

/-- From 2³² on some string has two check digits. -/
theorem not_genuineLuhn_of_le {n : Nat} (hn : 12 ≤ n) (h : 2 ^ 32 ≤ 9 * (n + 1)) :
    ¬ GenuineLuhn n := by
  intro hgenuine
  obtain ⟨s, hlen, hdigits, hsum⟩ : ∃ s : List Char, s.length = n ∧
      (∀ c ∈ s, c ∈ {c : Char | c.isDigit = true}) ∧
        checksumFrom luhnWeight 1 s = 2 ^ 32 - 6 :=
    exists_checksum (fun i r hr => exists_luhnWeight i hr) 1 n (by omega)
  obtain ⟨_, _, hunique⟩ := hgenuine.check hn s hlen hdigits
  rcases two_checks (by rw [hlen]; exact hn) hdigits hsum with ⟨hzero, hsix⟩
  have hsame := (hunique '0' ⟨by decide, hzero⟩).trans (hunique '6' ⟨by decide, hsix⟩).symm
  exact absurd hsame (by decide)

/-- The sums of the strings of `n + 1` digits stay below 2³² exactly when the check is genuine. -/
theorem genuineLuhn_iff (n : Nat) : GenuineLuhn n ↔ n < 12 ∨ 9 * (n + 1) < 2 ^ 32 := by
  constructor
  · intro h
    by_contra hnot
    exact not_genuineLuhn_of_le (by omega) (by omega) h
  · rintro (hshort | hlong)
    · exact genuineLuhn_of_lt (by omega)
    · exact genuineLuhn_of_lt hlong

theorem checksum_nines (k n : Nat) :
    checksumFrom luhnWeight k (List.replicate n '9') = 9 * n := by
  induction n with
  | zero => rfl
  | succ n ih =>
      have hnine : ∀ i, luhnWeight i '9' = 9 := by
        intro i
        rw [luhnWeight, luhnTerm]
        split <;> rfl
      rw [List.replicate_succ, checksumFrom_cons, hnine, ih]
      omega

/-- A seven and 477218587 nines have the check digits 0 and 6. -/
theorem long_string_two_checks :
    let s := '7' :: List.replicate 477218587 '9'
    s.length = 477218588 ∧ DigitString s ∧ luhnValid (s ++ ['0']) = true ∧
      luhnValid (s ++ ['6']) = true ∧ ¬ GenuineLuhn s.length := by
  intro s
  have hlen : s.length = 477218588 := by
    rw [List.length_cons, List.length_replicate]
  have hdigits : DigitString s := by
    refine List.forall_mem_cons.2 ⟨by decide, fun c hc => ?_⟩
    rw [List.eq_of_mem_replicate hc]
    decide
  have hsum : checksumFrom luhnWeight 1 s = 2 ^ 32 - 6 := by
    rw [checksumFrom_cons, checksum_nines, List.length_replicate]
    decide
  rcases two_checks (by rw [hlen]; decide) hdigits hsum with ⟨hzero, hsix⟩
  refine ⟨hlen, hdigits, hzero, hsix, ?_⟩
  rw [hlen]
  exact not_genuineLuhn_of_le (by decide) (by decide)

end Redaction
end HiddenSteps
