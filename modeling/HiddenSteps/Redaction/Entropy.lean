import Mathlib.Analysis.SpecialFunctions.Log.Base
import Mathlib.Data.List.Dedup

/-!
# Entropy — Shannon entropy of a token and the shape of common hex ids

`shannonEntropy` is the entropy in bits per byte, taken exactly.  The detector only asks whether it
is at least 4, and that question is decidable: `entropyAtLeastFour` compares two natural numbers.
-/

namespace HiddenSteps
namespace Redaction

/-- Relative frequency of a byte. -/
noncomputable def frequency (s : List UInt8) (b : UInt8) : ℝ :=
  s.count b / s.length

/-- Shannon entropy in bits per byte. -/
noncomputable def shannonEntropy (s : List UInt8) : ℝ :=
  (s.dedup.map fun b => -(frequency s b) * Real.logb 2 (frequency s b)).sum

/-- `shannonEntropy s ≥ 4`, cleared of logarithms and fractions. -/
def entropyAtLeastFour (s : List UInt8) : Bool :=
  !s.isEmpty && decide (16 ^ s.length * (s.dedup.map fun b => s.count b ^ s.count b).prod
    ≤ s.length ^ s.length)

/-- Hex strings of the lengths of git hashes, MD5, SHA-1 and SHA-256 digests. -/
def looksLikeCommonHexId (s : List Char) : Bool :=
  let hexLen := (s.filter fun c => c.isDigit || ('a' ≤ c && c ≤ 'f') || ('A' ≤ c && c ≤ 'F')).length
  -- the length in bytes
  let len := (s.map Char.utf8Size).sum
  hexLen == len && [7, 8, 32, 40, 64].contains len

/-! ## The decidable criterion -/

private theorem count_sum (s : List UInt8) : (s.dedup.map s.count).sum = s.length :=
  List.sum_map_count_dedup_eq_length s

private theorem logb_prod_pow (l : List ℕ) (hl : ∀ c ∈ l, 0 < c) :
    Real.logb 2 ((l.map fun c => c ^ c).prod : ℕ) =
      (l.map fun c : ℕ => (c : ℝ) * Real.logb 2 (c : ℝ)).sum := by
  induction l with
  | nil => simp
  | cons c l ih =>
      have hc : (0 : ℝ) < c := by exact_mod_cast hl c List.mem_cons_self
      have htail : ∀ c ∈ l, 0 < c := fun d hd => hl d (List.mem_cons_of_mem _ hd)
      have hprod : (0 : ℝ) < ((l.map fun c => c ^ c).prod : ℕ) := by
        have hpos : 0 < (l.map fun c => c ^ c).prod := by
          apply List.prod_pos
          intro x hx
          rcases List.mem_map.1 hx with ⟨d, hd, rfl⟩
          exact Nat.pow_pos (htail d hd)
        exact_mod_cast hpos
      rw [List.map_cons, List.prod_cons, Nat.cast_mul, Nat.cast_pow,
        Real.logb_mul (by positivity) hprod.ne', Real.logb_pow, ih htail, List.map_cons,
        List.sum_cons]

private theorem sum_map_sub {α : Type} (l : List α) (f g : α → ℝ) :
    (l.map fun a => f a - g a).sum = (l.map f).sum - (l.map g).sum := by
  induction l with
  | nil => simp
  | cons a l ih =>
      simp only [List.map_cons, List.sum_cons, ih]
      ring

private theorem length_mul_entropy {s : List UInt8} (hs : s ≠ []) :
    s.length * shannonEntropy s =
      s.length * Real.logb 2 s.length -
        (s.dedup.map fun b => (s.count b : ℝ) * Real.logb 2 (s.count b)).sum := by
  have hn : (0 : ℝ) < s.length := by exact_mod_cast List.length_pos_iff.2 hs
  have hterm : ∀ b ∈ s.dedup,
      (s.length : ℝ) * (-(frequency s b) * Real.logb 2 (frequency s b)) =
        s.count b * Real.logb 2 s.length - s.count b * Real.logb 2 (s.count b) := by
    intro b hb
    have hc : (0 : ℝ) < s.count b := by
      exact_mod_cast List.count_pos_iff.2 (List.mem_dedup.1 hb)
    rw [frequency, Real.logb_div hc.ne' hn.ne']
    field_simp
    ring
  calc
    s.length * shannonEntropy s
        = (s.dedup.map fun b =>
            (s.length : ℝ) * (-(frequency s b) * Real.logb 2 (frequency s b))).sum := by
          rw [shannonEntropy, List.sum_map_mul_left]
    _ = (s.dedup.map fun b =>
            (s.count b : ℝ) * Real.logb 2 s.length -
              s.count b * Real.logb 2 (s.count b)).sum := by
          rw [List.map_congr_left hterm]
    _ = (s.dedup.map fun b => (s.count b : ℝ) * Real.logb 2 s.length).sum -
          (s.dedup.map fun b => (s.count b : ℝ) * Real.logb 2 (s.count b)).sum :=
          sum_map_sub ..
    _ = s.length * Real.logb 2 s.length -
          (s.dedup.map fun b => (s.count b : ℝ) * Real.logb 2 (s.count b)).sum := by
          have hcast : (s.dedup.map fun b => (s.count b : ℝ)).sum = s.length := by
            rw [← count_sum s, Nat.cast_list_sum, List.map_map]
            rfl
          rw [List.sum_map_mul_right, hcast]

/-- The integer comparison decides whether the entropy reaches 4 bits per byte. -/
theorem entropyAtLeastFour_iff (s : List UInt8) :
    entropyAtLeastFour s = true ↔ 4 ≤ shannonEntropy s := by
  by_cases hs : s = []
  · subst hs
    simp [entropyAtLeastFour, shannonEntropy]
  have hn : (0 : ℝ) < s.length := by exact_mod_cast List.length_pos_iff.2 hs
  have hpos : ∀ c ∈ s.dedup.map s.count, 0 < c := by
    intro c hc
    rcases List.mem_map.1 hc with ⟨b, hb, rfl⟩
    exact List.count_pos_iff.2 (List.mem_dedup.1 hb)
  -- take logarithms on both sides of the integer comparison
  have hlog := logb_prod_pow (s.dedup.map s.count) hpos
  rw [List.map_map, List.map_map] at hlog
  have hprod : (0 : ℝ) < ((s.dedup.map fun b => s.count b ^ s.count b).prod : ℕ) := by
    have : 0 < (s.dedup.map fun b => s.count b ^ s.count b).prod := by
      apply List.prod_pos
      intro x hx
      rcases List.mem_map.1 hx with ⟨b, hb, rfl⟩
      exact Nat.pow_pos (hpos _ (List.mem_map_of_mem hb))
    exact_mod_cast this
  have hlog16 : Real.logb 2 16 = 4 := by
    rw [show (16 : ℝ) = 2 ^ (4 : ℕ) by norm_num, Real.logb_pow, Real.logb_self_eq_one (by norm_num)]
    norm_num
  have hleft : Real.logb 2
      ((16 ^ s.length * (s.dedup.map fun b => s.count b ^ s.count b).prod : ℕ) : ℝ) =
        4 * s.length +
          (s.dedup.map fun b => (s.count b : ℝ) * Real.logb 2 (s.count b)).sum := by
    rw [Nat.cast_mul, Real.logb_mul (by positivity) hprod.ne', Nat.cast_pow, Real.logb_pow]
    have h16 : Real.logb 2 ((16 : ℕ) : ℝ) = 4 := by exact_mod_cast hlog16
    rw [h16, mul_comm]
    exact congrArg _ hlog
  have hright : Real.logb 2 ((s.length ^ s.length : ℕ) : ℝ) = s.length * Real.logb 2 s.length := by
    rw [Nat.cast_pow, Real.logb_pow]
  have hnat : 16 ^ s.length * (s.dedup.map fun b => s.count b ^ s.count b).prod
      ≤ s.length ^ s.length ↔
      4 * (s.length : ℝ) ≤ s.length * shannonEntropy s := by
    rw [← Nat.cast_le (α := ℝ), ← Real.logb_le_logb (b := 2) (by norm_num)
      (by rw [Nat.cast_mul]; positivity) (by rw [Nat.cast_pow]; positivity), hleft, hright,
      length_mul_entropy hs]
    constructor <;> intro h <;> linarith
  simp only [entropyAtLeastFour, Bool.and_eq_true, decide_eq_true_eq, hnat]
  rw [mul_comm (4 : ℝ), mul_le_mul_iff_right₀ hn]
  simp [hs]

end Redaction
end HiddenSteps
