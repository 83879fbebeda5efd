import HiddenSteps.Redaction.CardWindows

/-!
# WindowSearch — the search for a card number among any number of digits

The search tries the runs of at most nineteen digits and then those one digit shorter, each length
from left to right.  It never panics, and it returns the bytes of the first run that passes.
-/

namespace HiddenSteps
namespace Redaction

open Text

/-! ## The windows that are tried -/

/-- The lengths that are tried on a candidate with `n` digits. -/
def Tried (n k : Nat) : Prop :=
  k = min n 19 ∨ k = max 13 (min n 19 - 1)

/-- The `k` digits from the `i`th on pass. -/
def PassesAt (positions : List (Char × Nat)) (k i : Nat) : Prop :=
  i + k ≤ positions.length ∧ luhnValid (((positions.drop i).take k).map Prod.fst) = true

/-- The search over the windows of one length. -/
def searchLength (positions : List (Char × Nat)) (len : Nat) : Option (Option Span) := do
  let lastStart ← checkedSub positions.length len
  firstOf (luhnWindow positions len) (List.range (lastStart + 1))

section Search

variable {positions : List (Char × Nat)} {k n : Nat}

/-- One length: the leftmost window that passes. -/
theorem searchLength_first (hk : 0 < k) (hle : k ≤ positions.length) :
    (searchLength positions k = some none ∧ ∀ i, ¬ PassesAt positions k i) ∨
      ∃ i, PassesAt positions k i ∧ (∀ j, PassesAt positions k j → i ≤ j) ∧
        searchLength positions k = some (some (windowSpan ((positions.drop i).take k))) := by
  have hloop : searchLength positions k =
      firstOf (luhnWindow positions k) (List.range (positions.length - k + 1)) := by
    rw [searchLength, checkedSub, if_pos hle]
    rfl
  have hstep : ∀ i, i + k ≤ positions.length → luhnWindow positions k i =
      if luhnValid (((positions.drop i).take k).map Prod.fst) then
        some (some (windowSpan ((positions.drop i).take k)))
      else some none := fun i hi => luhnWindow_eq hk hi
  have hmem : ∀ i, i ∈ List.range (positions.length - k + 1) ↔ i + k ≤ positions.length := by
    intro i
    rw [List.mem_range]
    omega
  have hfails : ∀ i, luhnWindow positions k i = some none → ¬ PassesAt positions k i := by
    rintro i hnone ⟨hi, hvalid⟩
    rw [hstep i hi, if_pos hvalid] at hnone
    cases hnone
  rw [hloop]
  rcases firstOf_first List.pairwise_lt_range (fun _ _ => Nat.lt_asymm)
      (fun i hi => luhnWindow_isSome hk ((hmem i).1 hi)) with
    ⟨hnone, hall⟩ | ⟨i, hi, span, hfound, hfirst, hbefore⟩
  · refine Or.inl ⟨hnone, fun i hpass => ?_⟩
    exact hfails i (hall i ((hmem i).2 hpass.1)) hpass
  · have hle' := (hmem i).1 hi
    rw [hstep i hle'] at hfound
    split at hfound
    · rename_i hvalid
      cases hfound
      refine Or.inr ⟨i, ⟨hle', hvalid⟩, fun j hpass => ?_, hfirst⟩
      by_contra hlt
      exact hfails j (hbefore j ((hmem j).2 hpass.1) (Nat.not_le.1 hlt)) hpass
    · cases hfound

theorem mem_lengths_iff (hn : 13 ≤ n) :
    k ∈ (List.range' (max (min n 19 - 1) 13) (min n 19 + 1 - max (min n 19 - 1) 13)).reverse ↔
      Tried n k := by
  rw [List.mem_reverse, List.mem_range'_1, Tried]
  omega

theorem Tried.bounds (hn : 13 ≤ n) (h : Tried n k) : 13 ≤ k ∧ k ≤ n := by
  unfold Tried at h
  omega

end Search

/-- The longest length with a window that passes, and its leftmost such window. -/
theorem findLuhnValidWindow_first (candidate : List Char) (start : Nat) :
    let positions := digitPositions candidate start
    (findLuhnValidWindow candidate start = some none ∧ (13 ≤ positions.length →
        ∀ k i, Tried positions.length k → ¬ PassesAt positions k i)) ∨
      (13 ≤ positions.length ∧ ∃ k i, Tried positions.length k ∧ PassesAt positions k i ∧
        (∀ k' j, Tried positions.length k' → PassesAt positions k' j → k' ≤ k) ∧
        (∀ j, PassesAt positions k j → i ≤ j) ∧
        findLuhnValidWindow candidate start =
          some (some (windowSpan ((positions.drop i).take k)))) := by
  intro positions
  by_cases hshort : positions.length < 13
  · refine Or.inl ⟨?_, fun hlong => absurd hshort (Nat.not_lt.2 hlong)⟩
    unfold findLuhnValidWindow
    exact if_pos hshort
  have hlong : 13 ≤ positions.length := Nat.not_lt.1 hshort
  have hloop : findLuhnValidWindow candidate start = firstOf (searchLength positions)
      (List.range' (max (min positions.length 19 - 1) 13)
        (min positions.length 19 + 1 - max (min positions.length 19 - 1) 13)).reverse := by
    unfold findLuhnValidWindow
    exact if_neg hshort
  have hcases := fun k (hk : Tried positions.length k) =>
    searchLength_first (Nat.lt_of_lt_of_le (by decide) (hk.bounds hlong).1) (hk.bounds hlong).2
  have hfails : ∀ k j, Tried positions.length k → searchLength positions k = some none →
      ¬ PassesAt positions k j := by
    intro k j hk hstep
    rcases hcases k hk with ⟨_, hnone⟩ | ⟨_, _, _, hsome⟩
    · exact hnone j
    · rw [hstep] at hsome
      cases hsome
  have htotal : ∀ k, Tried positions.length k → (searchLength positions k).isSome := by
    intro k hk
    rcases hcases k hk with ⟨hnone, _⟩ | ⟨_, _, _, hsome⟩
    · rw [hnone]
      rfl
    · rw [hsome]
      rfl
  rw [hloop]
  -- the longest length comes first
  rcases firstOf_first (r := fun a b => b < a)
      (List.pairwise_reverse.2 List.pairwise_lt_range') (fun _ _ => Nat.lt_asymm)
      (fun k hk => htotal k ((mem_lengths_iff hlong).1 hk)) with
    ⟨hnone, hall⟩ | ⟨k, hk, span, hfound, hfirst, hbefore⟩
  · exact Or.inl ⟨hnone, fun _ k i hk =>
      hfails k i hk (hall k ((mem_lengths_iff hlong).2 hk))⟩
  · rw [mem_lengths_iff hlong] at hk
    rcases hcases k hk with ⟨hnone, _⟩ | ⟨i, hpass, hleft, hsome⟩
    · rw [hfound] at hnone
      cases hnone
    · refine Or.inr ⟨hlong, k, i, hk, hpass, ?_, hleft, ?_⟩
      · intro k' j hk' hpass'
        by_contra hlt
        have hstep := hbefore k' ((mem_lengths_iff hlong).2 hk') (Nat.not_le.1 hlt)
        exact hfails k' j hk' hstep hpass'
      · rw [hfirst, ← hfound, hsome]

/-! ## Runs of digits -/

/-- A stretch of a candidate from a digit to a digit, with `k` digits in it. -/
structure DigitRun (candidate : List Char) (k : Nat) (before window behind : List Char) : Prop where
  split : candidate = before ++ window ++ behind
  starts : ∃ c cs, window = c :: cs ∧ c.isDigit = true
  ends : ∃ cs c, window = cs ++ [c] ∧ c.isDigit = true
  length : (asciiDigits window).length = k

/-- The digits of a run pass. -/
structure LuhnRun (candidate : List Char) (k : Nat) (before window behind : List Char) : Prop
    extends DigitRun candidate k before window behind where
  valid : luhnValid (asciiDigits window) = true

/-- A text with more than `i` digits has a digit with `i` digits in front of it. -/
theorem exists_split_at_digit {t : List Char} {i : Nat} (hi : i < (asciiDigits t).length) :
    ∃ before c behind, t = before ++ c :: behind ∧ c.isDigit = true ∧
      (asciiDigits before).length = i := by
  induction t generalizing i with
  | nil => simp [asciiDigits] at hi
  | cons c t ih =>
      by_cases hc : c.isDigit = true
      · have hcons : asciiDigits (c :: t) = c :: asciiDigits t := List.filter_cons_of_pos hc
        cases i with
        | zero => exact ⟨[], c, t, rfl, hc, rfl⟩
        | succ i =>
            rw [hcons, List.length_cons, Nat.succ_lt_succ_iff] at hi
            obtain ⟨before, d, behind, rfl, hd, hlen⟩ := ih hi
            refine ⟨c :: before, d, behind, rfl, hd, ?_⟩
            rw [asciiDigits, List.filter_cons_of_pos hc, List.length_cons]
            exact congrArg Nat.succ hlen
      · have hcons : asciiDigits (c :: t) = asciiDigits t := List.filter_cons_of_neg hc
        rw [hcons] at hi
        obtain ⟨before, d, behind, rfl, hd, hlen⟩ := ih hi
        refine ⟨c :: before, d, behind, rfl, hd, ?_⟩
        rw [asciiDigits, List.filter_cons_of_neg hc]
        exact hlen

theorem exists_digitRun {candidate : List Char} {k i : Nat} (hk : 0 < k)
    (hi : i + k ≤ (asciiDigits candidate).length) :
    ∃ before window behind, DigitRun candidate k before window behind ∧
      (asciiDigits before).length = i := by
  obtain ⟨before, c, rest, rfl, hc, hbefore⟩ := exists_split_at_digit (t := candidate) (i := i)
    (by omega)
  have hrest : k - 1 < (asciiDigits (c :: rest)).length := by
    rw [asciiDigits_append, List.length_append] at hi
    omega
  obtain ⟨middle, d, behind, hsplit, hd, hmiddle⟩ := exists_split_at_digit hrest
  refine ⟨before, middle ++ [d], behind, ⟨?_, ?_, ⟨middle, d, rfl, hd⟩, ?_⟩, hbefore⟩
  · rw [hsplit]
    simp
  · -- the run starts with the digit behind `before`
    cases middle with
    | nil => exact ⟨d, [], rfl, hd⟩
    | cons e middle =>
        obtain ⟨rfl, _⟩ := List.cons.inj hsplit
        exact ⟨c, middle ++ [d], rfl, hc⟩
  · have hlast : asciiDigits [d] = [d] := List.filter_cons_of_pos hd
    rw [asciiDigits_append, List.length_append, hmiddle, hlast, List.length_singleton]
    omega

namespace DigitRun

variable {candidate before window behind : List Char} {k : Nat}

/-- The run as a window of the digits. -/
theorem window_positions (h : DigitRun candidate k before window behind) (start : Nat) :
    ((digitPositions candidate start).drop (asciiDigits before).length).take k =
      digitPositions window (start + byteLen before) := by
  rw [h.split, digitPositions_append, digitPositions_append, List.append_assoc,
    ← length_digitPositions before start, List.drop_left, ← h.length,
    ← length_digitPositions window (start + byteLen before), List.take_left]

/-- The window spans the run. -/
theorem windowSpan_eq (h : DigitRun candidate k before window behind) (start : Nat) :
    windowSpan (digitPositions window start) = ⟨start, start + byteLen window⟩ := by
  have hhead : (digitPositions window start).head?.map Prod.snd = some start := by
    obtain ⟨c, cs, rfl, hc⟩ := h.starts
    simp [digitPositions, charIndices, hc]
  have hlast : ((digitPositions window start).getLast?.map Prod.snd).getD 0 + 1 =
      start + byteLen window := by
    obtain ⟨cs, c, rfl, hc⟩ := h.ends
    rw [digitPositions_append]
    simp [digitPositions, charIndices, hc, utf8Size_of_isDigit hc, Nat.add_assoc]
  rw [windowSpan, hhead, hlast]
  rfl

theorem passesAt_iff (h : DigitRun candidate k before window behind) (start : Nat) :
    PassesAt (digitPositions candidate start) k (asciiDigits before).length ↔
      luhnValid (asciiDigits window) = true := by
  have hle : (asciiDigits before).length + k ≤ (digitPositions candidate start).length := by
    rw [length_digitPositions, h.split, asciiDigits_append, asciiDigits_append,
      List.length_append, List.length_append, h.length]
    omega
  rw [PassesAt, h.window_positions, map_fst_digitPositions]
  exact and_iff_right hle

/-- A run with no fewer digits in front of it does not start earlier. -/
theorem byteLen_le {before' window' behind' : List Char} {k' : Nat}
    (h : DigitRun candidate k before window behind)
    (h' : DigitRun candidate k' before' window' behind')
    (hle : (asciiDigits before).length ≤ (asciiDigits before').length) :
    byteLen before ≤ byteLen before' := by
  by_contra hlt
  have hsplit : before' ++ (window' ++ behind') = before ++ (window ++ behind) := by
    rw [← List.append_assoc, ← List.append_assoc, ← h.split, ← h'.split]
  obtain ⟨middle, hbefore, hrest⟩ := append_of_byteLen_le hsplit (by omega)
  obtain ⟨c, cs, rfl, hc⟩ := h'.starts
  cases middle with
  | nil =>
      rw [List.append_nil] at hbefore
      exact hlt (by rw [hbefore])
  | cons d middle =>
      -- the digit at which the other run starts stands in front of this one
      obtain ⟨rfl, _⟩ := List.cons.inj hrest
      have hdigit : asciiDigits (c :: middle) = c :: asciiDigits middle :=
        List.filter_cons_of_pos hc
      rw [hbefore, asciiDigits_append, hdigit, List.length_append, List.length_cons] at hle
      omega

end DigitRun

/-- The search returns on every candidate.  It finds a run exactly if there are thirteen digits and
some run of a length that is tried passes, and returns the bytes of the leftmost of the longest. -/
theorem findLuhnValidWindow_exact (candidate : List Char) (start : Nat) :
    ∃ result, findLuhnValidWindow candidate start = some result ∧
      (result.isSome = true ↔ 13 ≤ (asciiDigits candidate).length ∧
        ∃ k before window behind, Tried (asciiDigits candidate).length k ∧
          LuhnRun candidate k before window behind) ∧
      ∀ span, result = some span → ∃ k before window behind,
        Tried (asciiDigits candidate).length k ∧ LuhnRun candidate k before window behind ∧
        span = ⟨start + byteLen before, start + byteLen (before ++ window)⟩ ∧
        ∀ k' before' window' behind', Tried (asciiDigits candidate).length k' →
          LuhnRun candidate k' before' window' behind' →
            k' ≤ k ∧ (k' = k → byteLen before ≤ byteLen before') := by
  rw [← length_digitPositions candidate start]
  rcases findLuhnValidWindow_first candidate start with
    ⟨hnone, hfails⟩ | ⟨hlong, k, i, hk, hpass, hlongest, hleft, hfound⟩
  · refine ⟨none, hnone, ⟨fun h => (by cases h), ?_⟩, fun span h => (by cases h)⟩
    rintro ⟨hlong, k, before, window, behind, hk, hrun⟩
    exact absurd ((hrun.passesAt_iff start).2 hrun.valid) (hfails hlong k _ hk)
  · obtain ⟨before, window, behind, hrun, rfl⟩ := exists_digitRun
      (Nat.lt_of_lt_of_le (by decide) (hk.bounds hlong).1)
      (length_digitPositions candidate start ▸ hpass.1)
    have hvalid : LuhnRun candidate k before window behind :=
      ⟨hrun, (hrun.passesAt_iff start).1 hpass⟩
    refine ⟨_, hfound, ⟨fun _ => ⟨hlong, k, before, window, behind, hk, hvalid⟩, fun _ => rfl⟩, ?_⟩
    rintro _ ⟨⟩
    refine ⟨k, before, window, behind, hk, hvalid, ?_, ?_⟩
    · rw [hrun.window_positions, hrun.windowSpan_eq, byteLen_append, Nat.add_assoc]
    · intro k' before' window' behind' hk' hrun'
      have hpass' := (hrun'.passesAt_iff start).2 hrun'.valid
      refine ⟨hlongest k' _ hk' hpass', ?_⟩
      rintro rfl
      exact hrun.byteLen_le hrun'.toDigitRun (hleft _ hpass')

end Redaction
end HiddenSteps
