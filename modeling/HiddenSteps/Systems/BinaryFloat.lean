import Mathlib.Algebra.Order.Field.Rat
import Mathlib.Algebra.Order.Field.Power
import Mathlib.Algebra.Order.Floor.Ring
import Mathlib.Data.Int.Log
import Mathlib.Data.Rat.Floor
import Mathlib.Tactic.FieldSimp
import Mathlib.Tactic.Linarith
import Mathlib.Tactic.NormNum
import Mathlib.Tactic.Positivity
import Mathlib.Tactic.Ring

/-!
# BinaryFloat — finite binary floating-point numbers and rounding to them

A number of precision `p` and least exponent `least` is an integer of less than `p` bits times a
power of two no smaller than `2 ^ least`.  There is no greatest exponent: nothing here overflows.
Rounding goes to the nearest number, from halfway to the even one, and keeps the numbers themselves.
-/

namespace HiddenSteps
namespace Systems
namespace BinaryFloat

def IsFloat (p : Nat) (least : Int) (q : ℚ) : Prop :=
  ∃ m e : Int, |m| < 2 ^ p ∧ least ≤ e ∧ q = m * 2 ^ e

theorem IsFloat.mono {p p' : Nat} {least least' : Int} {q : ℚ} (hp : p ≤ p') (hl : least' ≤ least)
    (h : IsFloat p least q) : IsFloat p' least' q := by
  rcases h with ⟨m, e, hm, he, hq⟩
  exact ⟨m, e, hm.trans_le (pow_le_pow_right₀ (by norm_num) hp), hl.trans he, hq⟩

/-! ## Rounding to an integer -/

def nearestEven (q : ℚ) : Int :=
  let rest := q - ⌊q⌋
  if rest < 1 / 2 then ⌊q⌋
  else if 1 / 2 < rest then ⌊q⌋ + 1
  else if ⌊q⌋ % 2 = 0 then ⌊q⌋ else ⌊q⌋ + 1

theorem nearestEven_intCast (n : Int) : nearestEven n = n := by
  rw [nearestEven, Int.floor_intCast, sub_self, if_pos (by norm_num)]

/-- Rounding stays between integers. -/
theorem nearestEven_bounds {q : ℚ} {n : Int} (h : |q| ≤ n) : |nearestEven q| ≤ n := by
  rw [abs_le] at h ⊢
  have hlow : -n ≤ ⌊q⌋ := Int.le_floor.2 (by exact_mod_cast h.1)
  have hfloor : ⌊q⌋ ≤ n := Int.cast_le.1 ((Int.floor_le q).trans h.2)
  -- a number with a rest is below `n`, so its successor is at most `n`
  have hup : ¬ q - ⌊q⌋ < 1 / 2 → ⌊q⌋ + 1 ≤ n := by
    intro hrest
    have hlt : (⌊q⌋ : ℚ) < n := by linarith [h.2]
    exact Int.cast_lt.1 hlt
  unfold nearestEven
  dsimp only
  split_ifs with hrest hhalf heven
  · exact ⟨hlow, hfloor⟩
  · exact ⟨by omega, hup hrest⟩
  · exact ⟨hlow, hfloor⟩
  · exact ⟨by omega, hup hrest⟩

/-! ## Rounding to a precision -/

/-- The exponent of the last place of a number. -/
def lastPlace (p : Nat) (least : Int) (q : ℚ) : Int :=
  max least (Int.log 2 |q| + 1 - p)

def round (p : Nat) (least : Int) (q : ℚ) : ℚ :=
  nearestEven (q / 2 ^ lastPlace p least q) * 2 ^ lastPlace p least q

theorem two_zpow_pos (e : Int) : (0 : ℚ) < 2 ^ e :=
  zpow_pos (by norm_num) e

/-- Counted in last places, a number has no more than `p` bits. -/
theorem abs_div_lastPlace_le (p : Nat) (least : Int) (q : ℚ) :
    |q / 2 ^ lastPlace p least q| ≤ ((2 ^ p : Int) : ℚ) := by
  rw [abs_div, abs_of_pos (two_zpow_pos _), div_le_iff₀ (two_zpow_pos _)]
  have hlog : |q| < (2 : ℚ) ^ (Int.log 2 |q| + 1) :=
    Int.lt_zpow_succ_log_self (by norm_num) |q|
  have hplace : Int.log 2 |q| + 1 ≤ p + lastPlace p least q := by
    have := le_max_right least (Int.log 2 |q| + 1 - p)
    rw [lastPlace]
    omega
  calc
    |q| ≤ (2 : ℚ) ^ (Int.log 2 |q| + 1) := hlog.le
    _ ≤ (2 : ℚ) ^ (p + lastPlace p least q) := zpow_le_zpow_right₀ (by norm_num) hplace
    _ = ((2 ^ p : Int) : ℚ) * 2 ^ lastPlace p least q := by
      rw [zpow_add₀ (by norm_num), zpow_natCast]
      push_cast
      rfl

theorem isFloat_round {p : Nat} (hp : 0 < p) (least : Int) (q : ℚ) :
    IsFloat p least (round p least q) := by
  have hplace : least ≤ lastPlace p least q := le_max_left ..
  have hle := nearestEven_bounds (abs_div_lastPlace_le p least q)
  rcases hle.lt_or_eq with hlt | heq
  · exact ⟨_, _, hlt, hplace, rfl⟩
  · -- the carry gives one bit more, which the exponent takes
    obtain ⟨n, rfl⟩ : ∃ n, p = n + 1 := ⟨p - 1, by omega⟩
    have hcarry : ∀ s : Int, |s| = 1 →
        nearestEven (q / 2 ^ lastPlace (n + 1) least q) = s * 2 ^ (n + 1) →
          IsFloat (n + 1) least (round (n + 1) least q) := by
      intro s hs hround
      refine ⟨s * 2 ^ n, lastPlace (n + 1) least q + 1, ?_, by omega, ?_⟩
      · rw [abs_mul, hs, one_mul, abs_of_pos (by positivity)]
        exact pow_lt_pow_right₀ (by norm_num) (Nat.lt_succ_self n)
      · rw [round, hround, zpow_add₀ (by norm_num), zpow_one]
        push_cast
        ring
    rcases abs_eq (by positivity : (0 : Int) ≤ 2 ^ (n + 1)) |>.1 heq with hpos | hneg
    · exact hcarry 1 (by norm_num) (by rw [hpos, one_mul])
    · exact hcarry (-1) (by norm_num) (by rw [hneg, neg_one_mul])

/-- The last place of a number is no coarser than an exponent it can be written with. -/
theorem lastPlace_le {p : Nat} {least m e : Int} (hm : |m| < 2 ^ p) (he : least ≤ e)
    (hne : m ≠ 0) : lastPlace p least (m * 2 ^ e) ≤ e := by
  have habs : |(m : ℚ) * 2 ^ e| = |(m : ℚ)| * 2 ^ e := by
    rw [abs_mul, abs_of_pos (two_zpow_pos e)]
  have hpos : 0 < |(m : ℚ) * 2 ^ e| := by
    rw [habs]
    exact mul_pos (abs_pos.2 (Int.cast_ne_zero.2 hne)) (two_zpow_pos e)
  have hlog : (2 : ℚ) ^ Int.log 2 |(m : ℚ) * 2 ^ e| ≤ |(m : ℚ) * 2 ^ e| :=
    Int.zpow_log_le_self (by norm_num) hpos
  have hm' : |(m : ℚ)| < 2 ^ p := by exact_mod_cast hm
  have hlt : (2 : ℚ) ^ Int.log 2 |(m : ℚ) * 2 ^ e| < 2 ^ (p + e) := by
    calc
      (2 : ℚ) ^ Int.log 2 |(m : ℚ) * 2 ^ e| ≤ |(m : ℚ)| * 2 ^ e := habs ▸ hlog
      _ < 2 ^ p * 2 ^ e := mul_lt_mul_of_pos_right hm' (two_zpow_pos e)
      _ = 2 ^ (p + e) := by rw [zpow_add₀ (by norm_num), zpow_natCast]
  have hexp : Int.log 2 |(m : ℚ) * 2 ^ e| < p + e :=
    (zpow_lt_zpow_iff_right₀ (by norm_num : (1 : ℚ) < 2)).1 hlt
  exact max_le he (by omega)

/-- A number of the format is rounded to itself. -/
theorem round_eq_self {p : Nat} {least : Int} {q : ℚ} (h : IsFloat p least q) :
    round p least q = q := by
  rcases h with ⟨m, e, hm, he, rfl⟩
  by_cases hzero : m = 0
  · have hq : (m : ℚ) * 2 ^ e = 0 := by rw [hzero, Int.cast_zero, zero_mul]
    have hnear : nearestEven 0 = 0 := nearestEven_intCast 0
    rw [hq, round, zero_div, hnear, Int.cast_zero, zero_mul]
  · obtain ⟨k, hk⟩ : ∃ k : Nat, e = lastPlace p least (m * 2 ^ e) + k :=
      ⟨(e - lastPlace p least (m * 2 ^ e)).toNat, by have := lastPlace_le hm he hzero; omega⟩
    -- counted in last places the number is an integer
    have hscaled : (m : ℚ) * 2 ^ e / 2 ^ lastPlace p least (m * 2 ^ e) =
        ((m * 2 ^ k : Int) : ℚ) := by
      have hsplit : (2 : ℚ) ^ e = 2 ^ lastPlace p least (m * 2 ^ e) * 2 ^ k := by
        conv_lhs => rw [hk, zpow_add₀ (by norm_num), zpow_natCast]
      rw [div_eq_iff (two_zpow_pos _).ne']
      push_cast
      rw [mul_assoc, mul_comm ((2 : ℚ) ^ k), ← hsplit]
    rw [round, hscaled, nearestEven_intCast, ← hscaled, div_mul_cancel₀ _ (two_zpow_pos _).ne']

/-! ## Two formats -/

/-- A number of a format. -/
structure Number (p : Nat) (least : Int) where
  value : ℚ
  isFloat : IsFloat p least value
  deriving DecidableEq

abbrev F32 := Number 24 (-149)

abbrev F64 := Number 53 (-1074)

namespace Number

def ofRat {p : Nat} {least : Int} (hp : 0 < p) (q : ℚ) : Number p least :=
  ⟨round p least q, isFloat_round hp least q⟩

/-- `f64::from` -/
def toF64 (x : F32) : F64 :=
  ⟨x.value, x.isFloat.mono (by decide) (by decide)⟩

/-- `as f32` -/
def toF32 (x : F64) : F32 :=
  ofRat (by decide) x.value

/-- `as f64` -/
def ofInt (n : Int) : F64 :=
  ofRat (by decide) n

@[simp] theorem toF32_toF64 (x : F32) : x.toF64.toF32 = x := by
  obtain ⟨q, hq⟩ := x
  simp only [toF64, toF32, ofRat, round_eq_self hq]

end Number

end BinaryFloat
end Systems
end HiddenSteps
