import HiddenSteps.Redaction.CardNumbers

/-!
# PlainCards — card numbers written without separators

A card number that stands alone is caught.  The digits of a neighbour that stands one space or one
hyphen away are glued to it, and with two of them or more the Luhn search no longer looks at the
card number.  With a single digit in front of the card number, or at the start of its own run, the
search can stop at another window that happens to pass.
-/

namespace HiddenSteps
namespace Redaction

open Text Pipeline

/-- Thirteen to nineteen digits that pass the Luhn check. -/
structure IsCard (D : List Char) : Prop where
  digits : Digits D
  lower : 13 ≤ D.length
  upper : D.length ≤ 19
  luhn : luhnValid D = true

theorem stretchRemoved_of_cardCovered {sc : Scanner} {b D a : List Char} (hD : D ≠ [])
    (h : CardCovered sc b D a) (htails : SkippedTailsClosed sc (b ++ D ++ a)) :
    StretchRemoved sc b D a := by
  rcases h with ⟨ds, hds, d, hd, -, hstart, hstop⟩
  refine stretchRemoved_of_covered hD hds (fun i hi hi' => ?_) htails
  exact ⟨d.span, List.mem_map_of_mem hd, Nat.le_trans hstart hi, Nat.lt_of_lt_of_le hi' hstop⟩

/-- A plainly written card number is covered by a card detection exactly when the first window of
its candidate that passes holds it.  No scan returns it then, unless the engine leaves the tail of a
detection that it skips. -/
theorem plainCard_removed_iff {sc : Scanner} {b D a : List Char} (hcard : IsCard D)
    (hrun : Isolated sc.classes b D a) :
    (CardCovered sc b D a ↔ NineDigitRunsCut sc.classes (b ++ D ++ a) ∧
      ∀ x y, Glues sc.classes b D a x y → FirstWindowHolds x D y) ∧
    (NineDigitRunsCut sc.classes (b ++ D ++ a) →
      (∀ x y, Glues sc.classes b D a x y → FirstWindowHolds x D y) →
      SkippedTailsClosed sc (b ++ D ++ a) → StretchRemoved sc b D a) := by
  have hrun' : Isolated sc.classes b ([] ++ D ++ []) a := by simpa using hrun
  have hiff := isolatedRun_covered_iff hrun' hcard.digits (by simpa using hcard.lower)
  simp only [List.append_nil, List.nil_append, hcard.upper, true_and] at hiff
  refine ⟨hiff, fun hcut hholds htails => ?_⟩
  exact stretchRemoved_of_cardCovered hcard.digits.ne_nil (hiff.2 ⟨hcut, hholds⟩) htails

/-- The card number of an ordinary sentence is removed. -/
theorem card_on_file_removed :
    StretchRemoved .reference "card ".toList "4532015112830366".toList " on file".toList := by
  have hds : detectAll .reference "card 4532015112830366 on file".toList =
      some [⟨5, 21, .creditCard, .high⟩] := by decide +kernel
  have hdigits : Digits "4532015112830366".toList :=
    ⟨by decide, List.all_iff_forall_prop.1 (by decide)⟩
  have hrun : Isolated Scanner.reference.classes "card ".toList "4532015112830366".toList
      " on file".toList := ⟨hdigits, by decide, by decide⟩
  have hiff := plainCard_removed_iff ⟨hdigits, by decide, by decide, by decide +kernel⟩ hrun
  have hcovered : CardCovered .reference "card ".toList "4532015112830366".toList " on file".toList :=
    ⟨_, hds, _, List.mem_singleton_self _, rfl, by decide, by decide⟩
  have htails : SkippedTailsClosed .reference "card 4532015112830366 on file".toList := by
    intro ds hds' _
    obtain rfl := Option.some.inj (hds'.symm.trans hds)
    decide
  exact hiff.2 (hiff.1.1 hcovered).1 (hiff.1.1 hcovered).2 htails

/-- A card number with an expiry date behind it: eighteen digits are glued, and no window of
eighteen or seventeen of them passes. -/
theorem expiry_hides_card :
    IsCard "4111111111111111".toList ∧
      Isolated Scanner.reference.classes [] "4111111111111111".toList " 12/28".toList ∧
      RedactionEngine.scan .reference "4111111111111111 12/28".toList =
        some (.clean "4111111111111111 12/28".toList) ∧
      ¬ StretchRemoved .reference [] "4111111111111111".toList " 12/28".toList := by
  have hscan : RedactionEngine.scan .reference "4111111111111111 12/28".toList =
      some (.clean "4111111111111111 12/28".toList) := by decide +kernel
  have hdigits : Digits "4111111111111111".toList :=
    ⟨by decide, List.all_iff_forall_prop.1 (by decide)⟩
  refine ⟨⟨hdigits, by decide, by decide, by decide +kernel⟩, ⟨hdigits, by decide, by decide⟩,
    hscan, fun hremoved => ?_⟩
  exact hremoved.not_clean _ hscan

/-- A card number that stands apart from other digits is caught. -/
theorem plainCard_covered_of_apart {sc : Scanner} {b D a : List Char} (hcard : IsCard D)
    (hrun : Isolated sc.classes b D a) (hapart : Apart sc.classes b a)
    (hcut : NineDigitRunsCut sc.classes (b ++ D ++ a)) : CardCovered sc b D a := by
  refine (cardCovered_iff hcard.digits).2 ⟨hcut, ?_⟩
  rcases exists_glues hrun hcard.lower hcard.upper with ⟨x, y, hglues⟩
  rcases hglues.eq_nil_of_apart hrun hapart with ⟨rfl, rfl⟩
  exact ⟨[], [], hglues, Or.inl (by simpa using hcard.luhn)⟩

/-! ## A stray digit -/

/-- A card number with one more digit, in front of it (`l`) or behind it (`r`). -/
structure StrayDigit (u : UnicodeClasses) (b l D r a : List Char) : Prop where
  card : IsCard D
  run : Isolated u b (l ++ D ++ r) a
  stray : (l ++ r).length = 1

/-- A card number with a stray digit is covered exactly when the run has nineteen digits at most and
the first window of its candidate that passes holds the card number. -/
theorem strayDigit_covered_iff {sc : Scanner} {b l D r a : List Char}
    (h : StrayDigit sc.classes b l D r a) :
    CardCovered sc (b ++ l) D (r ++ a) ↔
      NineDigitRunsCut sc.classes (b ++ (l ++ D ++ r) ++ a) ∧ D.length ≤ 18 ∧
        ∀ x y, Glues sc.classes b (l ++ D ++ r) a x y →
          FirstWindowHolds (x ++ l) D (r ++ y) := by
  have hlen : (l ++ D ++ r).length = D.length + 1 := by
    have hstray := h.stray
    simp only [List.length_append] at hstray ⊢
    omega
  have hlo := h.card.lower
  rw [isolatedRun_covered_iff h.run h.card.digits (by omega), hlen, Nat.succ_le_succ_iff]

/-- The window without the last digit is found first, and holds the card number. -/
theorem trailing_digit_window : FirstWindowHolds [] "4532015112830366".toList ['1'] ∧
    ∀ x y, Glues Scanner.reference.classes "card ".toList "45320151128303661".toList
      " on file".toList x y → FirstWindowHolds x "4532015112830366".toList ('1' :: y) := by
  have hds : detectAll .reference "card 45320151128303661 on file".toList =
      some [⟨5, 21, .creditCard, .high⟩] := by decide +kernel
  have hcovered : CardCovered .reference "card ".toList "4532015112830366".toList
      "1 on file".toList :=
    ⟨_, hds, _, List.mem_singleton_self _, rfl, by decide, by decide⟩
  have hstray : StrayDigit Scanner.reference.classes "card ".toList [] "4532015112830366".toList
      ['1'] " on file".toList :=
    ⟨⟨⟨by decide, List.all_iff_forall_prop.1 (by decide)⟩, by decide, by decide, by decide +kernel⟩,
      ⟨⟨by decide, List.all_iff_forall_prop.1 (by decide)⟩, by decide, by decide⟩, by decide⟩
  have hholds := ((strayDigit_covered_iff hstray).1 hcovered).2.2
  refine ⟨by decide +kernel, fun x y hglues => ?_⟩
  simpa using hholds x y hglues

/-- The `7` in front makes the sixteen digits from it on pass, which leaves out the last digit of
the card number. -/
theorem stray_digit_hides_card :
    StrayDigit Scanner.reference.classes [] ['7'] "4111111111111111".toList [] [] ∧
      ¬ CardCovered .reference ['7'] "4111111111111111".toList [] := by
  have hds : detectAll .reference "74111111111111111".toList =
      some [⟨0, 16, .creditCard, .high⟩] := by decide +kernel
  refine ⟨⟨⟨⟨by decide, List.all_iff_forall_prop.1 (by decide)⟩, by decide, by decide,
    by decide +kernel⟩, ⟨⟨by decide, List.all_iff_forall_prop.1 (by decide)⟩, by decide, by decide⟩,
    by decide⟩, ?_⟩
  rintro ⟨ds, hds', d, hd, -, -, hstop⟩
  obtain rfl := Option.some.inj (hds'.symm.trans hds)
  rcases List.mem_singleton.1 hd with rfl
  exact absurd hstop (by decide)

/-- A digit behind a card number that stands apart does no harm up to eighteen digits. -/
theorem trailing_digit_covered_of_apart {sc : Scanner} {b D r a : List Char}
    (h : StrayDigit sc.classes b [] D r a) (hapart : Apart sc.classes b a) (hlen : D.length ≤ 18)
    (hcut : NineDigitRunsCut sc.classes (b ++ (D ++ r) ++ a)) : CardCovered sc b D (r ++ a) := by
  have hiff := isolatedRun_covered_iff h.run h.card.digits (by
    have hlo := h.card.lower
    simp only [List.length_append]
    omega)
  rw [List.append_nil] at hiff
  have hr : r.length = 1 := by simpa using h.stray
  refine hiff.2 ⟨hcut, by simp only [List.nil_append, List.length_append]; omega, ?_⟩
  intro x y hglues
  rcases hglues.eq_nil_of_apart h.run hapart with ⟨rfl, rfl⟩
  obtain ⟨z, rfl⟩ := List.length_eq_one_iff.1 hr
  -- the window without the last digit is the card number itself
  cases hall : luhnValid (D ++ [z]) with
  | true => exact Or.inl (by simpa using hall)
  | false => exact Or.inr (Or.inl ⟨by simpa using h.card.luhn, by simp⟩)

end Redaction
end HiddenSteps
