import HiddenSteps.Domain.TimeFmt
import Mathlib.Algebra.Ring.Nat
import Mathlib.Order.Basic
import Mathlib.Order.Monotone.Basic
import Mathlib.Tactic.Common

/-!
# TimeOrder — the order of the texts of instants

The texts of two instants compare like the instants, with one exception: within a second, a fraction
that continues another one makes the later instant and the smaller text, because the final `Z` is
larger than every digit.
-/

namespace HiddenSteps
namespace TimeFmt

/-! ## Bytewise order -/

theorem textLe_cons {a b : Char} {s t : List Char} :
    textLe (a :: s) (b :: t) = true ↔ a.toNat < b.toNat ∨ (a = b ∧ textLe s t = true) := by
  simp [textLe]

theorem textLe_cons_same (a : Char) (s t : List Char) :
    textLe (a :: s) (a :: t) = textLe s t := by
  simp [textLe]

theorem textLe_refl (s : List Char) : textLe s s = true := by
  induction s with
  | nil => rfl
  | cons a s ih => rw [textLe_cons_same, ih]

theorem textLe_total (s t : List Char) : textLe s t = true ∨ textLe t s = true := by
  induction s generalizing t with
  | nil => exact Or.inl rfl
  | cons a s ih =>
      cases t with
      | nil => exact Or.inr rfl
      | cons b t =>
          rw [textLe_cons, textLe_cons]
          rcases Nat.lt_trichotomy a.toNat b.toNat with hlt | heq | hgt
          · exact Or.inl (Or.inl hlt)
          ·
            -- equal first characters leave the rest to decide
            have hab : a = b := Char.toNat_inj.1 heq
            rcases ih t with h | h
            · exact Or.inl (Or.inr ⟨hab, h⟩)
            · exact Or.inr (Or.inr ⟨hab.symm, h⟩)
          · exact Or.inr (Or.inl hgt)

theorem textLe_trans {s t u : List Char} (hst : textLe s t = true) (htu : textLe t u = true) :
    textLe s u = true := by
  induction s generalizing t u with
  | nil => rfl
  | cons a s ih =>
      cases t with
      | nil => cases hst
      | cons b t =>
          cases u with
          | nil => cases htu
          | cons c u =>
              rw [textLe_cons] at hst htu ⊢
              rcases hst with hab | ⟨rfl, hst⟩
              · rcases htu with hbc | ⟨rfl, -⟩
                · exact Or.inl (Nat.lt_trans hab hbc)
                · exact Or.inl hab
              · rcases htu with hac | ⟨rfl, htu⟩
                · exact Or.inl hac
                · exact Or.inr ⟨rfl, ih hst htu⟩

theorem textLe_append_left (p s t : List Char) : textLe (p ++ s) (p ++ t) = textLe s t := by
  induction p with
  | nil => rfl
  | cons a p ih => rw [List.cons_append, List.cons_append, textLe_cons_same, ih]

/-- Texts that differ before the end of both are not told apart by what follows. -/
theorem textLe_append {p q : List Char} (hpq : ¬ p <+: q) (hqp : ¬ q <+: p) (s t : List Char) :
    textLe (p ++ s) (q ++ t) = textLe p q := by
  induction p generalizing q with
  | nil => exact absurd List.nil_prefix hpq
  | cons a p ih =>
      cases q with
      | nil => exact absurd List.nil_prefix hqp
      | cons b q =>
          by_cases hab : a = b
          · subst hab
            rw [List.cons_append, List.cons_append, textLe_cons_same, textLe_cons_same]
            apply ih
            · exact fun h => hpq (List.cons_prefix_cons.2 ⟨rfl, h⟩)
            · exact fun h => hqp (List.cons_prefix_cons.2 ⟨rfl, h⟩)
          · have hbeq : (a == b) = false := beq_eq_false_iff_ne.2 hab
            simp [textLe, hbeq]

/-! ## Decimals of a fixed width -/

theorem length_padded (n x : Nat) : (padded n x).length = n := by
  induction n generalizing x with
  | zero => rfl
  | succ n ih => rw [padded, List.length_append, ih, List.length_singleton]

theorem toNat_digitChar_lt_iff {d e : Nat} (hd : d < 10) (he : e < 10) :
    (Nat.digitChar d).toNat < (Nat.digitChar e).toNat ↔ d < e := by
  rw [Nat.toNat_digitChar_of_lt_ten hd, Nat.toNat_digitChar_of_lt_ten he]
  omega

theorem digitChar_inj {d e : Nat} (hd : d < 10) (he : e < 10) :
    Nat.digitChar d = Nat.digitChar e ↔ d = e := by
  rw [← Char.toNat_inj, Nat.toNat_digitChar_of_lt_ten hd, Nat.toNat_digitChar_of_lt_ten he]
  omega

/-- Numbers of one width compare before what follows them. -/
theorem textLe_padded {n x y : Nat} (hx : x < 10 ^ n) (hy : y < 10 ^ n) (s t : List Char) :
    textLe (padded n x ++ s) (padded n y ++ t) = true ↔
      x < y ∨ (x = y ∧ textLe s t = true) := by
  induction n generalizing x y s t with
  | zero =>
      obtain rfl : x = 0 := Nat.lt_one_iff.1 hx
      obtain rfl : y = 0 := Nat.lt_one_iff.1 hy
      simp [padded]
  | succ n ih =>
      -- the number without its last digit has the smaller width
      have hx' : x / 10 < 10 ^ n := Nat.div_lt_of_lt_mul (by rwa [Nat.pow_succ'] at hx)
      have hy' : y / 10 < 10 ^ n := Nat.div_lt_of_lt_mul (by rwa [Nat.pow_succ'] at hy)
      have hxd : x % 10 < 10 := Nat.mod_lt _ (by decide)
      have hyd : y % 10 < 10 := Nat.mod_lt _ (by decide)
      rw [padded, padded, List.append_assoc, List.append_assoc, ih hx' hy', List.singleton_append,
        List.singleton_append, textLe_cons, toNat_digitChar_lt_iff hxd hyd, digitChar_inj hxd hyd]
      constructor
      · rintro (hlt | ⟨heq, hlt | ⟨hdigit, hst⟩⟩)
        · exact Or.inl (by omega)
        · exact Or.inl (by omega)
        · exact Or.inr ⟨by omega, hst⟩
      · rintro (hlt | ⟨rfl, hst⟩)
        · omega
        · exact Or.inr ⟨rfl, Or.inr ⟨rfl, hst⟩⟩

theorem padded_injective {n x y : Nat} (hx : x < 10 ^ n) (hy : y < 10 ^ n)
    (h : padded n x = padded n y) : x = y := by
  have hle : textLe (padded n x ++ []) (padded n y ++ []) = true := by rw [h]; exact textLe_refl _
  have hge : textLe (padded n y ++ []) (padded n x ++ []) = true := by rw [h]; exact textLe_refl _
  rw [textLe_padded hx hy] at hle
  rw [textLe_padded hy hx] at hge
  omega

/-! ## The calendar -/

/-- The year of a day in its cycle of 400 years. -/
def yearOfEra (dayOfEra : Nat) : Nat :=
  (dayOfEra - dayOfEra / 1460 + dayOfEra / 36524 - dayOfEra / 146096) / 365

/-- The first day of a year in its cycle. -/
def yearStart (year : Nat) : Nat := 365 * year + year / 4 - year / 100

theorem yearOfEra_monotone : Monotone yearOfEra := by
  apply monotone_nat_of_le_succ
  intro d
  -- the numerator grows part by part
  have hyears : d - d / 1460 ≤ (d + 1) - (d + 1) / 1460 := by omega
  have hcenturies : d / 36524 - d / 146096 ≤ (d + 1) / 36524 - (d + 1) / 146096 := by omega
  have hle : d / 146096 ≤ d / 36524 := by omega
  have hle' : (d + 1) / 146096 ≤ (d + 1) / 36524 := by omega
  unfold yearOfEra
  exact Nat.div_le_div_right (by omega)

/-- The first and the last day of every year of a cycle. -/
theorem yearOfEra_yearStart : ∀ year < 400,
    yearOfEra (yearStart year) = year ∧ yearOfEra (yearStart (year + 1) - 1) = year := by
  decide +kernel

theorem yearStart_step (year : Nat) :
    yearStart year < yearStart (year + 1) ∧ yearStart (year + 1) ≤ yearStart year + 366 := by
  unfold yearStart
  omega

theorem dayOfYear_bounds {d : Nat} (hd : d < 146097) :
    yearOfEra d ≤ 399 ∧ yearStart (yearOfEra d) ≤ d ∧ d ≤ yearStart (yearOfEra d) + 365 := by
  have hyear : yearOfEra d ≤ 399 := by
    have hmono := yearOfEra_monotone (show d ≤ 146096 by omega)
    have hlast : yearOfEra 146096 = 399 := by decide
    omega
  refine ⟨hyear, ?_, ?_⟩
  ·
    -- otherwise the day lies in the year before
    by_contra hlt
    have hpos : 1 ≤ yearOfEra d := by
      by_contra hzero
      have hzero : yearOfEra d = 0 := by omega
      rw [hzero] at hlt
      exact hlt (Nat.zero_le d)
    have hprevious := (yearOfEra_yearStart (yearOfEra d - 1) (by omega)).2
    rw [Nat.sub_add_cancel hpos] at hprevious
    have hmono := yearOfEra_monotone (show d ≤ yearStart (yearOfEra d) - 1 by omega)
    omega
  ·
    -- otherwise it lies in the year after
    by_contra hgt
    have hstep := yearStart_step (yearOfEra d)
    by_cases hlast : yearOfEra d = 399
    · rw [hlast] at hgt
      have hstart : yearStart 399 = 145731 := by decide
      omega
    · have hnext := (yearOfEra_yearStart (yearOfEra d + 1) (by omega)).1
      have hmono := yearOfEra_monotone (show yearStart (yearOfEra d + 1) ≤ d by omega)
      omega

/-- The day of the year of a day in its cycle. -/
def dayOfYear (dayOfEra : Nat) : Nat := dayOfEra - yearStart (yearOfEra dayOfEra)

/-- The month of a day of a year, counted from March. -/
def monthOfYear (dayOfYear : Nat) : Nat := (5 * dayOfYear + 2) / 153

/-- The first day of a month. -/
def monthStart (month : Nat) : Nat := (153 * month + 2) / 5

theorem monthOfYear_bounds {d : Nat} (hd : d ≤ 365) :
    monthOfYear d ≤ 11 ∧ monthStart (monthOfYear d) ≤ d ∧
      d ≤ monthStart (monthOfYear d) + 30 := by
  unfold monthStart monthOfYear
  omega

/-- A day by its cycle, the months before it in the cycle and the day of the month. -/
def monthCount (days : Int) : Int :=
  let dayOfEra := ((days + 719468) % 146097).toNat
  12 * ((days + 719468) / 146097 * 400 + yearOfEra dayOfEra) + monthOfYear (dayOfYear dayOfEra)

def dayOfMonth (days : Int) : Nat :=
  let dayOfYear := dayOfYear ((days + 719468) % 146097).toNat
  dayOfYear - monthStart (monthOfYear dayOfYear)

/-- Later days are in a later month, or later in the same one. -/
theorem monthCount_lt {days days' : Int} (h : days < days') :
    monthCount days < monthCount days' ∨
      (monthCount days = monthCount days' ∧ dayOfMonth days < dayOfMonth days') := by
  unfold monthCount dayOfMonth dayOfYear
  simp only
  generalize hera : (days + 719468) / 146097 = era
  generalize hera' : (days' + 719468) / 146097 = era'
  generalize hd : ((days + 719468) % 146097).toNat = d
  generalize hd' : ((days' + 719468) % 146097).toNat = d'
  -- a later day lies in a later cycle or further on in the same one
  have hlt : era < era' ∨ (era = era' ∧ d < d') := by omega
  rcases dayOfYear_bounds (show d < 146097 by omega) with ⟨hyear, hstart, hend⟩
  rcases dayOfYear_bounds (show d' < 146097 by omega) with ⟨hyear', hstart', hend'⟩
  rcases monthOfYear_bounds (show d - yearStart (yearOfEra d) ≤ 365 by omega) with
    ⟨hmonth, hmonthStart, -⟩
  rcases monthOfYear_bounds (show d' - yearStart (yearOfEra d') ≤ 365 by omega) with
    ⟨hmonth', hmonthStart', -⟩
  rcases hlt with hlt | ⟨rfl, hlt⟩
  · exact Or.inl (by omega)
  -- within a cycle the year decides, then the month, then the day
  · rcases Nat.lt_or_eq_of_le (yearOfEra_monotone (Nat.le_of_lt hlt)) with hyears | hyears
    · exact Or.inl (by omega)
    · rw [hyears] at hstart hmonthStart hmonth ⊢
      have hmonths : monthOfYear (d - yearStart (yearOfEra d')) ≤
          monthOfYear (d' - yearStart (yearOfEra d')) := by
        unfold monthOfYear
        omega
      rcases Nat.lt_or_eq_of_le hmonths with hmonths | hmonths
      · exact Or.inl (by omega)
      · rw [hmonths] at hmonthStart ⊢
        exact Or.inr ⟨rfl, by omega⟩

theorem civilFromDays_eq (days : Int) :
    civilFromDays days =
      let dayOfEra := ((days + 719468) % 146097).toNat
      let mp := monthOfYear (dayOfYear dayOfEra)
      let month := if mp < 10 then mp + 3 else mp - 9
      ((yearOfEra dayOfEra : Int) + (days + 719468) / 146097 * 400 + (if month ≤ 2 then 1 else 0),
        month, dayOfYear dayOfEra - monthStart mp + 1) := rfl

/-- The date of a day, by its months. -/
theorem civilFromDays_spec (days : Int) :
    1 ≤ (civilFromDays days).2.1 ∧ (civilFromDays days).2.1 ≤ 12 ∧
      12 * (civilFromDays days).1 + (civilFromDays days).2.1 = monthCount days + 3 ∧
      (civilFromDays days).2.2 = dayOfMonth days + 1 ∧ dayOfMonth days ≤ 30 := by
  rw [civilFromDays_eq]
  unfold monthCount dayOfMonth
  simp only
  have hday : ((days + 719468) % 146097).toNat < 146097 := by omega
  generalize ((days + 719468) % 146097).toNat = d at hday ⊢
  rcases dayOfYear_bounds hday with ⟨-, -, hend⟩
  have hyear : dayOfYear d ≤ 365 := by
    unfold dayOfYear
    omega
  rcases monthOfYear_bounds hyear with ⟨hmonth, -, hmonthEnd⟩
  refine ⟨?_, ?_, ?_, trivial, by omega⟩ <;> split <;> (try split) <;> omega

/-! ## Instants of four-digit years -/

/-- The instants of the years 0 to 9999. -/
def InYears (t : Timestamp) : Prop :=
  -62167219200 * 1000000000 ≤ t ∧ t < 253402300800 * 1000000000

instance (t : Timestamp) : Decidable (InYears t) := inferInstanceAs (Decidable (_ ∧ _))

/-- The second of an instant. -/
def secondsOf (t : Timestamp) : Int := t / 1000000000

/-- The day of an instant. -/
def dayOf (t : Timestamp) : Int := t / 1000000000 / 86400

/-- The second of the day of an instant. -/
def secondOf (t : Timestamp) : Nat := (t / 1000000000 % 86400).toNat

/-- The part of a second of an instant. -/
def nanosOf (t : Timestamp) : Nat := (t % 1000000000).toNat

theorem InYears.year_bounds {t : Timestamp} (h : InYears t) :
    0 ≤ (civilFromDays (dayOf t)).1 ∧ (civilFromDays (dayOf t)).1 ≤ 9999 := by
  have hfirst : -719528 ≤ dayOf t := by
    have hmin : (-62167219200 * 1000000000 : Int) ≤ t := h.1
    unfold dayOf
    omega
  have hlast : dayOf t < 2932897 := by
    have hmax : (253402300800 * 1000000000 : Int) > t := h.2
    unfold dayOf
    omega
  have hspec := civilFromDays_spec (dayOf t)
  -- the months of the first day of year 0 and of the first day of year 10000
  have hzero : monthCount (-719528) = -2 := by decide
  have hend : monthCount 2932897 = 119998 := by decide
  have hendDay : dayOfMonth 2932897 = 0 := by decide
  rcases monthCount_lt hlast with hlt | ⟨-, hlt⟩
  · rcases Int.lt_or_eq_of_le hfirst with hgt | heq
    · rcases monthCount_lt hgt with hgt | ⟨hgt, -⟩ <;> omega
    · rw [← heq] at hspec hlt ⊢
      omega
  · omega

/-- The text of an instant, by its day, its second and its fraction. -/
theorem toRfc3339_eq (t : Timestamp) :
    toRfc3339 t =
      padded 4 (civilFromDays (dayOf t)).1.toNat ++ ('-' ::
        (padded 2 (civilFromDays (dayOf t)).2.1 ++ ('-' ::
          (padded 2 (civilFromDays (dayOf t)).2.2 ++ ('T' ::
            (padded 2 (secondOf t / 3600) ++ (':' ::
              (padded 2 (secondOf t / 60 % 60) ++ (':' ::
                (padded 2 (secondOf t % 60) ++ (fraction (nanosOf t) ++ ['Z']))))))))))) := by
  simp only [toRfc3339, dayOf, secondOf, nanosOf, List.append_assoc, List.cons_append]

/-- Dates of four-digit years compare like their days. -/
theorem textLe_date {a b : Timestamp} (ha : InYears a) (hb : InYears b) (s t : List Char) :
    textLe
        (padded 4 (civilFromDays (dayOf a)).1.toNat ++ ('-' ::
          (padded 2 (civilFromDays (dayOf a)).2.1 ++ ('-' ::
            (padded 2 (civilFromDays (dayOf a)).2.2 ++ ('T' :: s))))))
        (padded 4 (civilFromDays (dayOf b)).1.toNat ++ ('-' ::
          (padded 2 (civilFromDays (dayOf b)).2.1 ++ ('-' ::
            (padded 2 (civilFromDays (dayOf b)).2.2 ++ ('T' :: t)))))) = true ↔
      dayOf a < dayOf b ∨ (dayOf a = dayOf b ∧ textLe s t = true) := by
  have hyear := ha.year_bounds
  have hyear' := hb.year_bounds
  have hspec := civilFromDays_spec (dayOf a)
  have hspec' := civilFromDays_spec (dayOf b)
  have hy : (civilFromDays (dayOf a)).1.toNat < 10 ^ 4 := by omega
  have hy' : (civilFromDays (dayOf b)).1.toNat < 10 ^ 4 := by omega
  have hm : (civilFromDays (dayOf a)).2.1 < 10 ^ 2 := by omega
  have hm' : (civilFromDays (dayOf b)).2.1 < 10 ^ 2 := by omega
  have hd : (civilFromDays (dayOf a)).2.2 < 10 ^ 2 := by omega
  have hd' : (civilFromDays (dayOf b)).2.2 < 10 ^ 2 := by omega
  rw [textLe_padded hy hy', textLe_cons_same, textLe_padded hm hm', textLe_cons_same,
    textLe_padded hd hd', textLe_cons_same]
  -- year, month and day of the month compare like the count of months and the day in it
  rcases lt_trichotomy (dayOf a) (dayOf b) with hlt | heq | hgt
  · have hmonths := monthCount_lt hlt
    refine iff_of_true ?_ (Or.inl hlt)
    by_cases hyears : (civilFromDays (dayOf a)).1.toNat < (civilFromDays (dayOf b)).1.toNat
    · exact Or.inl hyears
    · refine Or.inr ⟨by omega, ?_⟩
      by_cases hmonth : (civilFromDays (dayOf a)).2.1 < (civilFromDays (dayOf b)).2.1
      · exact Or.inl hmonth
      · exact Or.inr ⟨by omega, Or.inl (by omega)⟩
  · simp only [heq, lt_irrefl, true_and, false_or]
  · have hmonths := monthCount_lt hgt
    refine iff_of_false ?_ (by omega)
    rintro (hyears | ⟨hyears, hmonth | ⟨hmonth, hday | ⟨hday, -⟩⟩⟩) <;> omega

/-- Times of day compare like their seconds. -/
theorem textLe_timeOfDay {a b : Nat} (ha : a < 86400) (hb : b < 86400) (s t : List Char) :
    textLe
        (padded 2 (a / 3600) ++ (':' :: (padded 2 (a / 60 % 60) ++ (':' :: (padded 2 (a % 60) ++ s)))))
        (padded 2 (b / 3600) ++ (':' :: (padded 2 (b / 60 % 60) ++ (':' :: (padded 2 (b % 60) ++ t))))) =
          true ↔
      a < b ∨ (a = b ∧ textLe s t = true) := by
  have hh : a / 3600 < 10 ^ 2 := by omega
  have hh' : b / 3600 < 10 ^ 2 := by omega
  have hm : a / 60 % 60 < 10 ^ 2 := by omega
  have hm' : b / 60 % 60 < 10 ^ 2 := by omega
  have hs : a % 60 < 10 ^ 2 := by omega
  have hs' : b % 60 < 10 ^ 2 := by omega
  rw [textLe_padded hh hh', textLe_cons_same, textLe_padded hm hm', textLe_cons_same,
    textLe_padded hs hs']
  constructor
  · rintro (hhour | ⟨hhour, hminute | ⟨hminute, hsecond | ⟨hsecond, hst⟩⟩⟩)
    · exact Or.inl (by omega)
    · exact Or.inl (by omega)
    · exact Or.inl (by omega)
    · exact Or.inr ⟨by omega, hst⟩
  · rintro (hlt | ⟨rfl, hst⟩)
    · by_cases hhour : a / 3600 < b / 3600
      · exact Or.inl hhour
      · refine Or.inr ⟨by omega, ?_⟩
        by_cases hminute : a / 60 % 60 < b / 60 % 60
        · exact Or.inl hminute
        · exact Or.inr ⟨by omega, Or.inl (by omega)⟩
    · exact Or.inr ⟨rfl, Or.inr ⟨rfl, Or.inr ⟨rfl, hst⟩⟩⟩

/-- The texts of two instants compare like their seconds, and within a second by the fractions. -/
theorem textLe_toRfc3339_iff {a b : Timestamp} (ha : InYears a) (hb : InYears b) :
    textLe (toRfc3339 a) (toRfc3339 b) = true ↔
      secondsOf a < secondsOf b ∨
        (secondsOf a = secondsOf b ∧
          textLe (fraction (nanosOf a) ++ ['Z']) (fraction (nanosOf b) ++ ['Z']) = true) := by
  have hseconds : ∀ t : Timestamp, secondsOf t = 86400 * dayOf t + secondOf t ∧
      secondOf t < 86400 := by
    intro t
    unfold secondsOf dayOf secondOf
    omega
  rcases hseconds a with ⟨hsecond, hlt⟩
  rcases hseconds b with ⟨hsecond', hlt'⟩
  rw [toRfc3339_eq, toRfc3339_eq, textLe_date ha hb, textLe_timeOfDay hlt hlt', hsecond, hsecond']
  constructor
  · rintro (hday | ⟨hday, hof | ⟨hof, hfraction⟩⟩)
    · exact Or.inl (by omega)
    · exact Or.inl (by omega)
    · exact Or.inr ⟨by omega, hfraction⟩
  · rintro (hlt | ⟨heq, hfraction⟩)
    · by_cases hday : dayOf a < dayOf b
      · exact Or.inl hday
      · exact Or.inr ⟨by omega, Or.inl (by omega)⟩
    · exact Or.inr ⟨by omega, Or.inr ⟨by omega, hfraction⟩⟩

/-! ## Fractions of a second -/

theorem toNat_of_mem_padded {n x : Nat} {c : Char} (h : c ∈ padded n x) :
    48 ≤ c.toNat ∧ c.toNat < 58 := by
  induction n generalizing x with
  | zero => cases h
  | succ n ih =>
      rcases List.mem_append.1 h with h | h
      · exact ih h
      · have hdigit : x % 10 < 10 := Nat.mod_lt _ (by decide)
        rw [List.mem_singleton.1 h, Nat.toNat_digitChar_of_lt_ten hdigit]
        omega

/-- The digits of a fraction without trailing zeros. -/
def trimmed (nanos : Nat) : List Char := ((padded 9 nanos).reverse.dropWhile (· == '0')).reverse

theorem fraction_of_ne_zero {nanos : Nat} (h : nanos ≠ 0) :
    fraction nanos = '.' :: trimmed nanos := by
  rw [fraction, if_neg h]
  rfl

/-- What has been trimmed is a number of zeros. -/
theorem padded_eq_trimmed (nanos : Nat) :
    ∃ zeros, padded 9 nanos = trimmed nanos ++ List.replicate zeros '0' := by
  have hsplit : (padded 9 nanos).reverse.takeWhile (· == '0') ++
      (padded 9 nanos).reverse.dropWhile (· == '0') = (padded 9 nanos).reverse :=
    List.takeWhile_append_dropWhile
  -- what `trim_end_matches` takes off is made of one character
  have hzeros : (padded 9 nanos).reverse.takeWhile (· == '0') =
      List.replicate ((padded 9 nanos).reverse.takeWhile (· == '0')).length '0' := by
    apply List.eq_replicate_of_mem
    intro c hc
    exact beq_iff_eq.1 (List.all_eq_true.1 List.all_takeWhile c hc)
  refine ⟨((padded 9 nanos).reverse.takeWhile (· == '0')).length, ?_⟩
  calc
    padded 9 nanos
        = ((padded 9 nanos).reverse.takeWhile (· == '0') ++
            (padded 9 nanos).reverse.dropWhile (· == '0')).reverse := by
          rw [hsplit, List.reverse_reverse]
    _ = trimmed nanos ++ (List.replicate _ '0').reverse := by
          rw [List.reverse_append, ← hzeros]
          rfl
    _ = trimmed nanos ++ List.replicate _ '0' := by rw [List.reverse_replicate]

theorem toNat_of_mem_fraction {nanos : Nat} {c : Char} (h : c ∈ fraction nanos) :
    c.toNat < 58 := by
  by_cases hzero : nanos = 0
  · rw [hzero] at h
    cases h
  · rw [fraction_of_ne_zero hzero] at h
    rcases List.mem_cons.1 h with rfl | h
    · decide
    · rcases padded_eq_trimmed nanos with ⟨zeros, hpadded⟩
      have hmem : c ∈ padded 9 nanos := by
        rw [hpadded]
        exact List.mem_append_left _ h
      exact (toNat_of_mem_padded hmem).2

theorem fraction_injective {x y : Nat} (hx : x < 10 ^ 9) (hy : y < 10 ^ 9)
    (h : fraction x = fraction y) : x = y := by
  by_cases hx0 : x = 0
  · by_contra hne
    rw [fraction_of_ne_zero (by omega : y ≠ 0), hx0] at h
    cases h
  · by_cases hy0 : y = 0
    · rw [fraction_of_ne_zero hx0, hy0] at h
      cases h
    · rw [fraction_of_ne_zero hx0, fraction_of_ne_zero hy0] at h
      have htrimmed : trimmed x = trimmed y := List.tail_eq_of_cons_eq h
      rcases padded_eq_trimmed x with ⟨zeros, hpadded⟩
      rcases padded_eq_trimmed y with ⟨zeros', hpadded'⟩
      -- both have nine digits, so as many zeros have been trimmed
      have hlength := congrArg List.length hpadded
      have hlength' := congrArg List.length hpadded'
      rw [length_padded, List.length_append, List.length_replicate, htrimmed] at hlength
      rw [length_padded, List.length_append, List.length_replicate] at hlength'
      have hzeros : zeros = zeros' := by omega
      exact padded_injective hx hy (by rw [hpadded, hpadded', htrimmed, hzeros])

/-- A fraction that continues another one. -/
def Continues (x y : Nat) : Prop := fraction x <+: fraction y ∧ x ≠ y

instance (x y : Nat) : Decidable (Continues x y) :=
  inferInstanceAs (Decidable (_ <+: _ ∧ _))

theorem textLe_replicate_zero {s : List Char} (h : ∀ c ∈ s, 48 ≤ c.toNat) :
    textLe (List.replicate s.length '0') s = true := by
  induction s with
  | nil => rfl
  | cons c s ih =>
      rcases List.forall_mem_cons.1 h with ⟨hc, hs⟩
      rw [List.length_cons, List.replicate_succ, textLe_cons]
      have hzero : '0'.toNat = 48 := rfl
      rcases Nat.lt_or_eq_of_le hc with hlt | heq
      · exact Or.inl (by omega)
      · exact Or.inr ⟨Char.toNat_inj.1 (by omega), ih hs⟩

/-- The continued fraction is the smaller number. -/
theorem Continues.lt {x y : Nat} (hx : x < 10 ^ 9) (hy : y < 10 ^ 9) (h : Continues x y) :
    x < y := by
  rcases h with ⟨hcontinues, hne⟩
  by_cases hx0 : x = 0
  · omega
  · by_cases hy0 : y = 0
    · rw [fraction_of_ne_zero hx0, hy0] at hcontinues
      exact absurd (List.prefix_nil.1 hcontinues) (List.cons_ne_nil _ _)
    · rw [fraction_of_ne_zero hx0, fraction_of_ne_zero hy0] at hcontinues
      rcases (List.cons_prefix_cons.1 hcontinues).2 with ⟨more, hmore⟩
      rcases padded_eq_trimmed x with ⟨zeros, hpadded⟩
      rcases padded_eq_trimmed y with ⟨zeros', hpadded'⟩
      rw [← hmore, List.append_assoc] at hpadded'
      have hlength := congrArg List.length hpadded
      have hlength' := congrArg List.length hpadded'
      simp only [length_padded, List.length_append, List.length_replicate] at hlength hlength'
      have hzeros : zeros = (more ++ List.replicate zeros' '0').length := by
        rw [List.length_append, List.length_replicate]
        omega
      -- where one fraction goes on, the other has been padded with zeros
      have hle : textLe (padded 9 x ++ []) (padded 9 y ++ []) = true := by
        rw [List.append_nil, List.append_nil, hpadded, hpadded', textLe_append_left, hzeros]
        apply textLe_replicate_zero
        intro c hc
        have hmem : c ∈ padded 9 y := by
          rw [hpadded']
          exact List.mem_append_right _ hc
        exact (toNat_of_mem_padded hmem).1
      rw [textLe_padded hx hy] at hle
      omega

/-- The final `Z` is larger than the digit by which a fraction continues another one. -/
theorem Continues.textLe_eq_false {x y : Nat} (hx : x < 10 ^ 9) (hy : y < 10 ^ 9)
    (h : Continues x y) :
    textLe (fraction x ++ ['Z']) (fraction y ++ ['Z']) = false := by
  rcases h with ⟨⟨more, hmore⟩, hne⟩
  cases more with
  | nil =>
      rw [List.append_nil] at hmore
      exact absurd (fraction_injective hx hy hmore) hne
  | cons c more =>
      -- the next character of the longer fraction is a digit or the point
      have hc : c.toNat < 58 := by
        apply toNat_of_mem_fraction
        rw [← hmore]
        exact List.mem_append_right _ List.mem_cons_self
      rw [← hmore, List.append_assoc, textLe_append_left, List.cons_append]
      apply Bool.eq_false_iff.2
      rw [Ne, textLe_cons]
      rintro (hlt | ⟨rfl, -⟩)
      · have hz : 'Z'.toNat = 90 := rfl
        omega
      · exact absurd hc (by decide)

/-- Fractions that part before the end of both compare like the numbers. -/
theorem textLe_fraction_of_parts {x y : Nat} (hx : x < 10 ^ 9) (hy : y < 10 ^ 9)
    (hxy : ¬ fraction x <+: fraction y) (hyx : ¬ fraction y <+: fraction x) :
    textLe (fraction x ++ ['Z']) (fraction y ++ ['Z']) = true ↔ x ≤ y := by
  have hx0 : x ≠ 0 := fun h => hxy (by rw [h]; exact List.nil_prefix)
  have hy0 : y ≠ 0 := fun h => hyx (by rw [h]; exact List.nil_prefix)
  rw [fraction_of_ne_zero hx0, fraction_of_ne_zero hy0] at *
  have hxy' : ¬ trimmed x <+: trimmed y := fun h => hxy (List.cons_prefix_cons.2 ⟨rfl, h⟩)
  have hyx' : ¬ trimmed y <+: trimmed x := fun h => hyx (List.cons_prefix_cons.2 ⟨rfl, h⟩)
  rcases padded_eq_trimmed x with ⟨zeros, hpadded⟩
  rcases padded_eq_trimmed y with ⟨zeros', hpadded'⟩
  -- what comes after the parting does not count, trailing zeros or the final letter
  have htrimmed : textLe (trimmed x) (trimmed y) = textLe (padded 9 x) (padded 9 y) := by
    rw [hpadded, hpadded', textLe_append hxy' hyx']
  have hnumbers := textLe_padded hx hy [] []
  rw [List.append_nil, List.append_nil, ← htrimmed] at hnumbers
  rw [textLe_append hxy hyx, textLe_cons_same, hnumbers]
  constructor
  · rintro (hlt | ⟨rfl, -⟩)
    · exact hlt.le
    · exact le_rfl
  · intro hle
    rcases hle.lt_or_eq with hlt | rfl
    · exact Or.inl hlt
    · exact Or.inr ⟨rfl, rfl⟩

/-- The texts of two fractions compare like the fractions, unless one continues the other. -/
theorem textLe_fraction {x y : Nat} (hx : x < 10 ^ 9) (hy : y < 10 ^ 9) :
    textLe (fraction x ++ ['Z']) (fraction y ++ ['Z']) = true ↔
      (x ≤ y ∧ ¬ Continues x y) ∨ Continues y x := by
  by_cases hne : x = y
  · subst hne
    have hself : ¬ Continues x x := fun h => h.2 rfl
    exact iff_of_true (textLe_refl _) (Or.inl ⟨le_rfl, hself⟩)
  · by_cases hxy : fraction x <+: fraction y
    · have hcontinues : Continues x y := ⟨hxy, hne⟩
      have hlt := hcontinues.lt hx hy
      refine iff_of_false ?_ ?_
      · rw [hcontinues.textLe_eq_false hx hy]
        exact Bool.false_ne_true
      · rintro (⟨-, hnot⟩ | hback)
        · exact hnot hcontinues
        · exact absurd (hback.lt hy hx) (Nat.lt_asymm hlt)
    · by_cases hyx : fraction y <+: fraction x
      · have hcontinues : Continues y x := ⟨hyx, Ne.symm hne⟩
        refine iff_of_true ?_ (Or.inr hcontinues)
        rcases textLe_total (fraction x ++ ['Z']) (fraction y ++ ['Z']) with hle | hge
        · exact hle
        · rw [hcontinues.textLe_eq_false hy hx] at hge
          cases hge
      · rw [textLe_fraction_of_parts hx hy hxy hyx]
        constructor
        · exact fun hle => Or.inl ⟨hle, fun h => hxy h.1⟩
        · rintro (⟨hle, -⟩ | hback)
          · exact hle
          · exact absurd hback.1 hyx

/-! ## Instants -/

/-- Two instants of one second, the fraction of the second one continuing the fraction of the
first. -/
def Truncates (a b : Timestamp) : Prop :=
  secondsOf a = secondsOf b ∧ Continues (nanosOf a) (nanosOf b)

instance (a b : Timestamp) : Decidable (Truncates a b) :=
  inferInstanceAs (Decidable (_ ∧ _))

theorem nanosOf_lt (t : Timestamp) : nanosOf t < 10 ^ 9 := by
  unfold nanosOf
  omega

/-- Instants compare by their seconds, then by the parts of a second. -/
theorem le_iff_seconds_nanos (a b : Timestamp) :
    a ≤ b ↔ secondsOf a < secondsOf b ∨ (secondsOf a = secondsOf b ∧ nanosOf a ≤ nanosOf b) := by
  have hint : ∀ s t : Int, s ≤ t ↔ s / 1000000000 < t / 1000000000 ∨
      (s / 1000000000 = t / 1000000000 ∧
        (s % 1000000000).toNat ≤ (t % 1000000000).toNat) := by
    intro s t
    omega
  exact hint a b

theorem Truncates.lt {a b : Timestamp} (h : Truncates a b) : a < b := by
  have hlt := h.2.lt (nanosOf_lt a) (nanosOf_lt b)
  rw [← not_le, le_iff_seconds_nanos]
  rintro (hseconds | ⟨-, hnanos⟩)
  · exact absurd h.1 hseconds.ne'
  · exact absurd hlt hnanos.not_gt

/-- The texts of two instants compare like the instants, unless one truncates the other. -/
theorem textLe_toRfc3339 {a b : Timestamp} (ha : InYears a) (hb : InYears b) :
    textLe (toRfc3339 a) (toRfc3339 b) = true ↔ (a ≤ b ∧ ¬ Truncates a b) ∨ Truncates b a := by
  rw [textLe_toRfc3339_iff ha hb, textLe_fraction (nanosOf_lt a) (nanosOf_lt b),
    le_iff_seconds_nanos]
  constructor
  · rintro (hlt | ⟨heq, ⟨hle, hnot⟩ | hback⟩)
    · exact Or.inl ⟨Or.inl hlt, fun h => absurd h.1 hlt.ne⟩
    · exact Or.inl ⟨Or.inr ⟨heq, hle⟩, fun h => hnot h.2⟩
    · exact Or.inr ⟨heq.symm, hback⟩
  · rintro (⟨hlt | ⟨heq, hle⟩, hnot⟩ | ⟨heq, hback⟩)
    · exact Or.inl hlt
    · exact Or.inr ⟨heq, Or.inl ⟨hle, fun h => hnot ⟨heq, h⟩⟩⟩
    · exact Or.inr ⟨heq.symm, Or.inr hback⟩

end TimeFmt
end HiddenSteps
