import HiddenSteps.Redaction.CardWindows
import HiddenSteps.Redaction.Coverage
import HiddenSteps.Pipeline.Totality
import HiddenSteps.Text.Language

/-!
# CardNumbers — which card numbers the card detector catches

The candidate pattern glues digit groups that stand one space or one hyphen apart, up to nineteen
digits, and the Luhn search then tries three windows of what was glued.

* `reads_creditCardCandidate`: what the pattern reads;
* `exists_glues`, `Glues.unique`: a run of thirteen to nineteen digits lies in exactly one candidate;
* `isolatedRun_covered_iff`: when a stretch of the digits of a run is covered by a card detection.
-/

namespace HiddenSteps
namespace Redaction

open Text Pipeline

variable {u : UnicodeClasses} {b a pre w post : List Char} {gs : List (Nat × Span)}

/-! ## What the candidate pattern reads -/

/-- `\d[ -]?` -/
def cardDigit (u : UnicodeClasses) : Text.Pattern :=
  .seq (digit u) (.opt (oneOf [' ', '-']))

/-- Decimal digits, each with at most one space or hyphen behind it. -/
inductive SpacedDigits (u : UnicodeClasses) : Nat → List Char → Prop where
  | nil : SpacedDigits u 0 []
  | digit {n : Nat} {x : Char} {w : List Char} :
      u.isDecimal x = true → SpacedDigits u n w → SpacedDigits u (n + 1) (x :: w)
  | separated {n : Nat} {x s : Char} {w : List Char} :
      u.isDecimal x = true → s = ' ' ∨ s = '-' → SpacedDigits u n w →
        SpacedDigits u (n + 1) (x :: s :: w)

theorem reads_cardDigit :
    Reads (cardDigit u) pre w post gs ↔
      gs = [] ∧ ∃ x, u.isDecimal x = true ∧ (w = [x] ∨ ∃ s, (s = ' ' ∨ s = '-') ∧ w = [x, s]) := by
  constructor
  · rintro ⟨_, v, _, gv, rfl, rfl, ⟨x, hx, rfl, rfl⟩, hv⟩
    rcases reads_opt.1 hv with ⟨rfl, rfl⟩ | ⟨-, s, hs, rfl, rfl⟩
    · exact ⟨rfl, x, hx, Or.inl rfl⟩
    · exact ⟨rfl, x, hx, Or.inr ⟨s, by simpa using hs, rfl⟩⟩
  · rintro ⟨rfl, x, hx, rfl | ⟨s, hs, rfl⟩⟩
    · exact ⟨[x], [], [], [], rfl, rfl, ⟨x, hx, rfl, rfl⟩, reads_opt.2 (Or.inl ⟨rfl, rfl⟩)⟩
    · refine ⟨[x], [s], [], [], rfl, rfl, ⟨x, hx, rfl, rfl⟩, reads_opt.2 (Or.inr ⟨?_, ?_⟩)⟩
      · exact List.cons_ne_nil _ _
      · exact ⟨s, by simpa using hs, rfl, rfl⟩

theorem advancing_cardDigit : (Reads (cardDigit u)).advancing = Reads (cardDigit u) := by
  funext pre w post gs
  refine propext (and_iff_right_of_imp fun h => ?_)
  rcases reads_cardDigit.1 h with ⟨-, x, -, rfl | ⟨s, -, rfl⟩⟩
  · exact List.cons_ne_nil _ _
  · exact List.cons_ne_nil _ _

theorem iterate_cardDigit_iff {n : Nat} :
    (Reads (cardDigit u)).iterate n pre w post gs ↔ SpacedDigits u n w ∧ gs = [] := by
  induction n generalizing pre w gs with
  | zero =>
      constructor
      · rintro ⟨rfl, rfl⟩
        exact ⟨.nil, rfl⟩
      · rintro ⟨h, rfl⟩
        cases h
        exact ⟨rfl, rfl⟩
  | succ n ih =>
      constructor
      · rintro ⟨v, w, gv, gw, rfl, rfl, hv, hw⟩
        rcases ih.1 hw with ⟨hspaced, rfl⟩
        rcases reads_cardDigit.1 hv with ⟨rfl, x, hx, rfl | ⟨s, hs, rfl⟩⟩
        · exact ⟨.digit hx hspaced, rfl⟩
        · exact ⟨.separated hx hs hspaced, rfl⟩
      · rintro ⟨h, rfl⟩
        cases h with
        | @digit _ x w hx hw =>
            exact ⟨[x], w, [], [], rfl, rfl, reads_cardDigit.2 ⟨rfl, x, hx, Or.inl rfl⟩,
              ih.2 ⟨hw, rfl⟩⟩
        | @separated _ x s w hx hs hw =>
            exact ⟨[x, s], w, [], [], rfl, rfl,
              reads_cardDigit.2 ⟨rfl, x, hx, Or.inr ⟨s, hs, rfl⟩⟩, ih.2 ⟨hw, rfl⟩⟩

/-- The pattern reads thirteen to nineteen digits between two word boundaries. -/
theorem reads_creditCardCandidate :
    Reads (creditCardCandidate u) pre w post gs ↔
      gs = [] ∧ (∃ n, 13 ≤ n ∧ n ≤ 19 ∧ SpacedDigits u n w) ∧
        pre.getLast?.any u.isWord ≠ (w ++ post).head?.any u.isWord ∧
        (pre ++ w).getLast?.any u.isWord ≠ post.head?.any u.isWord := by
  have hbetween : ∀ {pre w post gs},
      Reads (.between 13 19 (cardDigit u)) pre w post gs ↔
        (∃ n, 13 ≤ n ∧ n ≤ 19 ∧ SpacedDigits u n w) ∧ gs = [] := by
    intro pre w post gs
    rw [Pattern.between, reads_rep advancing_cardDigit]
    constructor
    · rintro ⟨n, hlo, hhi, hw⟩
      have hle : n - 13 ≤ 19 - 13 := hhi 19 rfl
      rcases iterate_cardDigit_iff.1 hw with ⟨hspaced, rfl⟩
      exact ⟨⟨n, hlo, by omega, hspaced⟩, rfl⟩
    · rintro ⟨⟨n, hlo, hhi, hw⟩, rfl⟩
      refine ⟨n, hlo, ?_, iterate_cardDigit_iff.2 ⟨hw, rfl⟩⟩
      intro k hk
      cases hk
      omega
  constructor
  · rintro ⟨_, w', _, gw', rfl, rfl, ⟨⟨rfl, rfl⟩, hstart⟩, v, _, gv, _, rfl, rfl, hv, ⟨rfl, rfl⟩,
      hstop⟩
    rcases hbetween.1 hv with ⟨hspaced, rfl⟩
    exact ⟨rfl, by simpa using hspaced, by simpa using hstart, by simpa using hstop⟩
  · rintro ⟨rfl, hw, hstart, hstop⟩
    refine ⟨[], w, [], [], rfl, rfl, ⟨⟨rfl, rfl⟩, hstart⟩, w, [], [], [], by simp, rfl, ?_, ⟨rfl, rfl⟩,
      by simpa using hstop⟩
    exact hbetween.2 ⟨hw, rfl⟩

namespace SpacedDigits

theorem length_asciiDigits_le {n : Nat} (h : SpacedDigits u n w) : (asciiDigits w).length ≤ n := by
  have hcons : ∀ (c : Char) (t : List Char),
      (asciiDigits (c :: t)).length ≤ (asciiDigits t).length + 1 := by
    intro c t
    simp only [asciiDigits, List.filter_cons]
    split <;> simp
  induction h with
  | nil => exact Nat.le_refl _
  | @digit n x w hx _ ih =>
      have hx := hcons x w
      omega
  | @separated n x s w hx hs _ ih =>
      -- a separator is no digit
      have hsep : asciiDigits (s :: w) = asciiDigits w := by
        rcases hs with rfl | rfl <;> rfl
      have hx := hcons x (s :: w)
      rw [hsep] at hx
      omega

theorem head {n : Nat} (h : SpacedDigits u (n + 1) w) : ∃ x ∈ w.head?, u.isDecimal x = true := by
  cases h with
  | digit hx _ => exact ⟨_, rfl, hx⟩
  | separated hx _ _ => exact ⟨_, rfl, hx⟩

theorem of_decimals (h : ∀ c ∈ w, u.isDecimal c = true) : SpacedDigits u w.length w := by
  induction w with
  | nil => exact .nil
  | cons x w ih =>
      exact .digit (h x List.mem_cons_self) (ih fun c hc => h c (List.mem_cons_of_mem _ hc))

end SpacedDigits

/-! ## The candidate around a run of digits -/

/-- The detector takes `w` for a candidate. -/
def IsCandidate (u : UnicodeClasses) (pre w post : List Char) : Prop :=
  Match.ofReading pre w [] ∈ findIter (creditCardCandidate u) (pre ++ w ++ post)

/-- The candidate around `run` glues the digits `x` in front of it and `y` behind it. -/
def Glues (u : UnicodeClasses) (b run a x y : List Char) : Prop :=
  ∃ pre p s post, b = pre ++ p ∧ a = s ++ post ∧ IsCandidate u pre (p ++ run ++ s) post ∧
    x = asciiDigits p ∧ y = asciiDigits s

/-- Digits with no word character on either side. -/
structure Isolated (u : UnicodeClasses) (b run a : List Char) : Prop where
  digits : Digits run
  before : b.getLast?.any u.isWord = false
  behind : a.head?.any u.isWord = false

theorem Digits.decimal {run : List Char} (h : Digits run) (u : UnicodeClasses) :
    ∀ c ∈ run, u.isDecimal c = true := by
  intro c hc
  have hdigit := h.digit c hc
  have hsize := utf8Size_of_isDigit hdigit
  rw [u.decimal_ascii c, hdigit]
  rw [Char.utf8Size_eq_one_iff] at hsize
  exact Nat.lt_of_le_of_lt (UInt32.le_iff_toNat_le.1 hsize) (by decide)

theorem Digits.byteLen_pos {run : List Char} (h : Digits run) : 0 < byteLen run :=
  Nat.lt_of_lt_of_le (List.length_pos_iff.2 h.ne_nil) (length_le_byteLen run)

theorem IsCandidate.reads (h : IsCandidate u pre w post) :
    Reads (creditCardCandidate u) pre w post [] := by
  rcases reads_of_mem_findIter h with ⟨pre', w', post', gs, htext, hm, hw⟩
  simp only [Match.ofReading, Match.mk.injEq, Span.mk.injEq] at hm
  rcases hm with ⟨⟨hpre, hstop⟩, rfl⟩
  rcases append_inj_of_byteLen htext hstop with ⟨hcut, rfl⟩
  rcases append_inj_of_byteLen hcut hpre with ⟨rfl, rfl⟩
  exact hw

theorem candidate_of_mem {m : Match} {text : List Char}
    (h : m ∈ findIter (creditCardCandidate u) text) :
    ∃ pre w post, text = pre ++ w ++ post ∧ m = .ofReading pre w [] ∧ IsCandidate u pre w post := by
  rcases reads_of_mem_findIter h with ⟨pre, w, post, gs, rfl, rfl, hw⟩
  obtain rfl := (reads_creditCardCandidate.1 hw).1
  exact ⟨pre, w, post, rfl, rfl, h⟩

theorem IsCandidate.length_asciiDigits_le (h : IsCandidate u pre w post) :
    (asciiDigits w).length ≤ 19 := by
  rcases reads_creditCardCandidate.1 h.reads with ⟨-, ⟨n, -, hn, hw⟩, -⟩
  exact Nat.le_trans hw.length_asciiDigits_le hn

/-- A candidate that touches an isolated run holds all of it. -/
theorem IsCandidate.glues {run : List Char} (hrun : Isolated u b run a) (h : IsCandidate u pre w post)
    (htext : b ++ run ++ a = pre ++ w ++ post) (hbefore : byteLen pre < byteLen (b ++ run))
    (hbehind : byteLen b < byteLen (pre ++ w)) :
    ∃ p s, b = pre ++ p ∧ w = p ++ run ++ s ∧ a = s ++ post := by
  have hword : ∀ c ∈ run, u.isWord c = true := fun c hc =>
    u.word_of_decimal c (hrun.digits.decimal u c hc)
  rcases reads_creditCardCandidate.1 h.reads with ⟨-, -, hstart, hstop⟩
  exact holds_of_touches hword htext hstart hstop hbefore hbehind

/-- A run of thirteen to nineteen digits lies in a candidate. -/
theorem exists_glues {run : List Char} (h : Isolated u b run a) (hlo : 13 ≤ run.length)
    (hhi : run.length ≤ 19) : ∃ x y, Glues u b run a x y := by
  have hdecimal := h.digits.decimal u
  have hword : ∀ c ∈ run, u.isWord c = true := fun c hc => u.word_of_decimal c (hdecimal c hc)
  have hpos := h.digits.byteLen_pos
  -- the pattern can read the run itself
  have hreads : Reads (creditCardCandidate u) b run a [] := by
    obtain ⟨c, cs, hcs⟩ := List.exists_cons_of_ne_nil h.digits.ne_nil
    obtain ⟨l, hl⟩ : ∃ l, run.getLast? = some l :=
      Option.isSome_iff_exists.1 (List.getLast?_isSome.2 h.digits.ne_nil)
    have hc : u.isWord c = true := hword c (by rw [hcs]; exact List.mem_cons_self)
    have hlast : u.isWord l = true := hword l (List.mem_of_getLast? hl)
    refine reads_creditCardCandidate.2 ⟨rfl, ⟨_, hlo, hhi, .of_decimals hdecimal⟩, ?_, ?_⟩
    · rw [h.before, hcs]
      simp [hc]
    · rw [h.behind, List.getLast?_append, hl]
      simp [hlast]
  obtain ⟨m, hm⟩ := Option.isSome_iff_exists.1 (matchAt_isSome_of_reads hreads)
  rcases reads_of_matchAt hm with ⟨w, post, gs, hrest, rfl, hw⟩
  have hwpos : 0 < byteLen w := by
    rcases reads_creditCardCandidate.1 hw with ⟨-, ⟨n, hn, -, hw⟩, -⟩
    obtain ⟨k, rfl⟩ := Nat.exists_eq_add_of_le' (Nat.lt_of_lt_of_le (Nat.zero_lt_succ 12) hn)
    rcases hw.head with ⟨x, hx, -⟩
    cases w with
    | nil => cases hx
    | cons y w =>
        have hy := y.utf8Size_pos
        rw [byteLen_cons]
        omega
  -- a candidate starts at the run or runs over its start, and touches it in both cases
  have htouch : ∃ m ∈ findIter (creditCardCandidate u) (b ++ run ++ a),
      m.span.start ≤ byteLen b ∧ byteLen b < m.span.stop := by
    have hne : byteLen b < (Match.ofReading b w gs).span.stop := by
      simp only [Match.ofReading, byteLen_append]
      omega
    rcases findIter_complete hm hne with hmem | ⟨m', hmem, hin⟩
    · rw [← List.append_assoc] at hmem
      exact ⟨_, hmem, Nat.le_refl _, hne⟩
    · rw [← List.append_assoc] at hmem
      exact ⟨m', hmem, Nat.le_of_lt hin.1, hin.2⟩
  rcases htouch with ⟨m', hmem, hstart, hstop⟩
  rcases candidate_of_mem hmem with ⟨pre, w', post', htext, rfl, hcandidate⟩
  have hbefore : byteLen pre < byteLen (b ++ run) := by
    have hstart : byteLen pre ≤ byteLen b := hstart
    rw [byteLen_append]
    omega
  rcases hcandidate.glues h htext hbefore hstop with ⟨p, s, rfl, rfl, rfl⟩
  exact ⟨_, _, pre, p, s, post', rfl, rfl, hcandidate, rfl, rfl⟩

/-- There is one candidate around a run at most. -/
theorem Glues.unique {run x y x' y' : List Char} (hrun : Digits run) (h : Glues u b run a x y)
    (h' : Glues u b run a x' y') : x = x' ∧ y = y' := by
  rcases h with ⟨pre, p, s, post, rfl, rfl, hc, rfl, rfl⟩
  rcases h' with ⟨pre', p', s', post', hb, ha, hc', rfl, rfl⟩
  have hpos := hrun.byteLen_pos
  have hblen := congrArg byteLen hb
  simp only [byteLen_append] at hblen
  -- both candidates cover the first byte of the run
  have htext : pre' ++ (p' ++ run ++ s') ++ post' = pre ++ (p ++ run ++ s) ++ post := by
    calc
      pre' ++ (p' ++ run ++ s') ++ post' = (pre' ++ p') ++ run ++ (s' ++ post') := by simp
      _ = (pre ++ p) ++ run ++ (s ++ post) := by rw [hb, ha]
      _ = pre ++ (p ++ run ++ s) ++ post := by simp
  have hmem := hc'
  rw [IsCandidate, htext] at hmem
  have heq : Match.ofReading pre (p ++ run ++ s) [] = .ofReading pre' (p' ++ run ++ s') [] := by
    refine eq_of_mem_findIter hc hmem (i := byteLen (pre ++ p)) ?_ ?_
    · simp only [Match.ofReading, Span.Covers, byteLen_append]
      omega
    · simp only [Match.ofReading, Span.Covers, byteLen_append]
      omega
  simp only [Match.ofReading, Match.mk.injEq, Span.mk.injEq, and_true] at heq
  rcases append_inj_of_byteLen hb heq.1 with ⟨rfl, rfl⟩
  simp only [byteLen_append] at heq
  rcases append_inj_of_byteLen ha (by omega) with ⟨rfl, rfl⟩
  exact ⟨rfl, rfl⟩

theorem Glues.length_le {run x y : List Char} (hrun : Digits run) (h : Glues u b run a x y) :
    run.length ≤ 19 := by
  rcases h with ⟨pre, p, s, post, rfl, rfl, hc, rfl, rfl⟩
  have hle := hc.length_asciiDigits_le
  rw [asciiDigits_append, asciiDigits_append, hrun.asciiDigits] at hle
  simp only [List.length_append] at hle
  omega

/-- What is glued to a part of a run is what is glued to the run and the rest of it. -/
theorem glues_part_iff {l D r x y : List Char} (hrun : Isolated u b (l ++ D ++ r) a)
    (hD : Digits D) :
    Glues u (b ++ l) D (r ++ a) x y ↔
      ∃ x' y', Glues u b (l ++ D ++ r) a x' y' ∧ x = x' ++ l ∧ y = r ++ y' := by
  have hl : asciiDigits l = l := List.filter_eq_self.2 fun c hc => hrun.digits.digit c (by simp [hc])
  have hr : asciiDigits r = r := List.filter_eq_self.2 fun c hc => hrun.digits.digit c (by simp [hc])
  constructor
  · rintro ⟨pre, p, s, post, hb, ha, hc, rfl, rfl⟩
    have htext : b ++ (l ++ D ++ r) ++ a = pre ++ (p ++ D ++ s) ++ post := by
      calc
        b ++ (l ++ D ++ r) ++ a = (b ++ l) ++ D ++ (r ++ a) := by simp
        _ = pre ++ (p ++ D ++ s) ++ post := by rw [hb, ha]; simp
    have hblen := congrArg byteLen hb
    have hpos := hD.byteLen_pos
    simp only [byteLen_append] at hblen
    rcases hc.glues hrun htext (by simp only [byteLen_append]; omega)
      (by simp only [byteLen_append]; omega) with ⟨p', s', rfl, hw, rfl⟩
    rw [hw] at hc
    have hp : p = p' ++ l := by simpa using hb.symm
    have hs : s = r ++ s' := by
      rw [hp] at hw
      simpa using hw
    exact ⟨_, _, ⟨pre, p', s', post, rfl, rfl, hc, rfl, rfl⟩, by rw [hp, asciiDigits_append, hl],
      by rw [hs, asciiDigits_append, hr]⟩
  · rintro ⟨_, _, ⟨pre, p, s, post, rfl, rfl, hc, rfl, rfl⟩, rfl, rfl⟩
    refine ⟨pre, p ++ l, r ++ s, post, by simp, by simp, by simpa using hc, ?_, ?_⟩
    · rw [asciiDigits_append, hl]
    · rw [asciiDigits_append, hr]

/-! ## Card detections -/

section Detections

variable {sc : Scanner} {text : List Char} {ds : List Detection} {d : Detection}

/-- The detections of category `creditCard` are those of the card loop. -/
theorem mem_detectAll_card (h : detectAll sc text = some ds) :
    (d ∈ ds ∧ d.category = .creditCard) ↔
      ∃ m ∈ findIter (creditCardCandidate sc.classes) text, cardNumber text m = some (some d) := by
  rcases detectAll_eq_some h with ⟨high, hhigh, hkept, hback⟩
  constructor
  · rintro ⟨hd, hcategory⟩
    have hmem := hback d hd (by rw [hcategory]; decide)
    rcases source_of_highConfidence hhigh hmem with hvalue | hcard | ⟨-, hne⟩
    · rcases List.mem_filterMap.1 hvalue with ⟨m, _, hvalue⟩
      rcases Option.map_eq_some_iff.1 hvalue with ⟨v, _, rfl⟩
      cases hcategory
    · exact hcard
    · exact absurd hcategory hne
  · rintro ⟨m, hm, hcard⟩
    simp only [highConfidence, bind, Option.bind_eq_some_iff, Option.some.injEq] at hhigh
    rcases hhigh with ⟨dashed, _, spaced, _, dashless, _, cards, hcards, rfl⟩
    have hmem := hkept d (List.mem_append_right _ (mem_collect hcards hm hcard))
    rcases Option.bind_eq_some_iff.1 hcard with ⟨candidate, _, hcard⟩
    rcases Option.bind_eq_some_iff.1 hcard with ⟨window, _, hcard⟩
    rcases Option.map_eq_some_iff.1 (Option.some.inj hcard) with ⟨s, _, rfl⟩
    exact ⟨hmem, rfl⟩

/-- The card loop reports the window found in a candidate. -/
theorem cardNumber_of_candidate (h : IsCandidate u pre w post) :
    cardNumber (pre ++ w ++ post) (.ofReading pre w []) =
      some ((firstLuhnWindow (digitPositions w (byteLen pre))).map
        fun s => .ofSpan s .creditCard .high) := by
  simp only [cardNumber, Match.ofReading, slice_append,
    findLuhnValidWindow_eq h.length_asciiDigits_le, bind, Option.bind_some]

end Detections

/-- Some card detection covers all of `D`. -/
def CardCovered (sc : Scanner) (b D a : List Char) : Prop :=
  ∃ ds, detectAll sc (b ++ D ++ a) = some ds ∧
    ∃ d ∈ ds, d.category = .creditCard ∧ Holds d.span (byteLen b) (byteLen (b ++ D))

/-- Digits are covered when the window found in the candidate around them holds them. -/
theorem cardCovered_iff {sc : Scanner} {D : List Char} (hD : Digits D) :
    CardCovered sc b D a ↔
      NineDigitRunsCut sc.classes (b ++ D ++ a) ∧
        ∃ x y, Glues sc.classes b D a x y ∧ FirstWindowHolds x D y := by
  rw [← detectAll_isSome_iff_nineDigitRunsCut]
  constructor
  · rintro ⟨ds, hds, d, hd, hcategory, hstart, hstop⟩
    refine ⟨Option.isSome_iff_exists.2 ⟨ds, hds⟩, ?_⟩
    rcases (mem_detectAll_card hds).1 ⟨hd, hcategory⟩ with ⟨m, hm, hcard⟩
    rcases candidate_of_mem hm with ⟨pre, w, post, htext, rfl, hc⟩
    rw [htext, cardNumber_of_candidate hc, Option.some.injEq] at hcard
    rcases Option.map_eq_some_iff.1 hcard with ⟨s, hs, rfl⟩
    -- the window lies in the candidate, so the candidate holds `D`
    rcases cuts_of_findLuhnValidWindow
      ((findLuhnValidWindow_eq hc.length_asciiDigits_le).trans (congrArg some hs)) with
      ⟨hle, hle', hcuts⟩
    have hin := hcuts.stop_le
    simp only [Detection.span_ofSpan, byteLen_append] at hstart hstop
    rcases inside_of_byteLen_le htext (by omega) (by simp only [byteLen_append]; omega) with
      ⟨p, s', rfl, rfl, rfl⟩
    refine ⟨_, _, ⟨pre, p, s', post, rfl, rfl, hc, rfl, rfl⟩, ?_⟩
    refine (holds_window_iff hD (byteLen pre)).1 ⟨s, hs, ?_, ?_⟩
    · simpa using hstart
    · simpa [Nat.add_assoc] using hstop
  · rintro ⟨hsome, _, _, ⟨pre, p, s, post, rfl, rfl, hc, rfl, rfl⟩, hholds⟩
    rcases Option.isSome_iff_exists.1 hsome with ⟨ds, hds⟩
    rcases (holds_window_iff hD (byteLen pre)).2 hholds with ⟨span, hspan, hstart, hstop⟩
    have htext : pre ++ p ++ D ++ (s ++ post) = pre ++ (p ++ D ++ s) ++ post := by simp
    have hcard := cardNumber_of_candidate hc
    rw [hspan, Option.map_some, ← htext] at hcard
    have hmem := hc
    rw [IsCandidate, ← htext] at hmem
    rcases (mem_detectAll_card hds).2 ⟨_, hmem, hcard⟩ with ⟨hd, hcategory⟩
    refine ⟨ds, hds, _, hd, hcategory, ?_, ?_⟩
    · simpa using hstart
    · simpa [Nat.add_assoc] using hstop

/-- A stretch of an isolated run of at least thirteen digits is covered when the run has nineteen
digits at most and the first window that passes holds the stretch. -/
theorem isolatedRun_covered_iff {sc : Scanner} {l D r : List Char}
    (hrun : Isolated sc.classes b (l ++ D ++ r) a) (hD : Digits D)
    (hlo : 13 ≤ (l ++ D ++ r).length) :
    CardCovered sc (b ++ l) D (r ++ a) ↔
      NineDigitRunsCut sc.classes (b ++ (l ++ D ++ r) ++ a) ∧ (l ++ D ++ r).length ≤ 19 ∧
        ∀ x y, Glues sc.classes b (l ++ D ++ r) a x y → FirstWindowHolds (x ++ l) D (r ++ y) := by
  have htext : b ++ l ++ D ++ (r ++ a) = b ++ (l ++ D ++ r) ++ a := by simp
  rw [cardCovered_iff hD, htext]
  refine and_congr_right fun _ => ?_
  constructor
  · rintro ⟨_, _, hglues, hholds⟩
    rcases (glues_part_iff hrun hD).1 hglues with ⟨x, y, hrunGlues, rfl, rfl⟩
    refine ⟨hrunGlues.length_le hrun.digits, fun x' y' hglues' => ?_⟩
    rcases hrunGlues.unique hrun.digits hglues' with ⟨rfl, rfl⟩
    exact hholds
  · rintro ⟨hhi, hholds⟩
    rcases exists_glues hrun hlo hhi with ⟨x, y, hglues⟩
    exact ⟨_, _, (glues_part_iff hrun hD).2 ⟨x, y, hglues, rfl, rfl⟩, hholds x y hglues⟩

/-! ## Runs that stand apart -/

/-- A character of spaced digits that is no digit follows one, and a digit follows it, if anything. -/
theorem SpacedDigits.around_separator {n : Nat} {s t : List Char} {c : Char}
    (h : SpacedDigits u n (s ++ c :: t)) (hc : u.isDecimal c = false) :
    (∃ s' x, s = s' ++ [x] ∧ u.isDecimal x = true) ∧ (c = ' ' ∨ c = '-') ∧
      ∀ y ∈ t.head?, u.isDecimal y = true := by
  generalize hw : s ++ c :: t = w at h
  induction h generalizing s with
  | nil => simp at hw
  | @digit n x w hx h ih =>
      cases s with
      | nil =>
          cases hw
          rw [hx] at hc
          cases hc
      | cons x' s =>
          cases hw
          rcases ih rfl with ⟨⟨s', y, rfl, hy⟩, hrest⟩
          exact ⟨⟨x :: s', y, rfl, hy⟩, hrest⟩
  | @separated n x c' w hx hc' h ih =>
      cases s with
      | nil =>
          cases hw
          rw [hx] at hc
          cases hc
      | cons x' s =>
          cases s with
          | nil =>
              cases hw
              refine ⟨⟨[], x, rfl, hx⟩, hc', fun y hy => ?_⟩
              cases h with
              | nil => cases hy
              | digit hy' _ =>
                  cases hy
                  exact hy'
              | separated hy' _ _ =>
                  cases hy
                  exact hy'
          | cons c'' s =>
              cases hw
              rcases ih rfl with ⟨⟨s', y, rfl, hy⟩, hrest⟩
              exact ⟨⟨x :: c' :: s', y, rfl, hy⟩, hrest⟩

/-- No digit stands a single space or hyphen away from the run. -/
structure Apart (u : UnicodeClasses) (b a : List Char) : Prop where
  before : ∀ b' x s, b = b' ++ [x, s] → s = ' ' ∨ s = '-' → u.isDecimal x = false
  behind : ∀ s y a', a = s :: y :: a' → s = ' ' ∨ s = '-' → u.isDecimal y = false

/-- Nothing is glued to a run that stands apart. -/
theorem Glues.eq_nil_of_apart {run x y : List Char} (hrun : Isolated u b run a) (hapart : Apart u b a)
    (h : Glues u b run a x y) : x = [] ∧ y = [] := by
  rcases h with ⟨pre, p, s, post, rfl, rfl, hc, rfl, rfl⟩
  rcases reads_creditCardCandidate.1 hc.reads with ⟨-, ⟨n, -, -, hspaced⟩, -⟩
  -- a neighbour of the run is no word character, hence no digit
  have hneighbour : ∀ c, u.isWord c = false → u.isDecimal c = false := by
    intro c hword
    cases hdecimal : u.isDecimal c with
    | false => rfl
    | true => rw [u.word_of_decimal c hdecimal] at hword; cases hword
  constructor
  · rcases List.eq_nil_or_concat p with rfl | ⟨p, c, rfl⟩
    · rfl
    · exfalso
      rw [List.concat_eq_append] at hspaced hapart hrun
      have hc : u.isDecimal c = false := hneighbour c (by simpa using hrun.before)
      have hcut : p ++ [c] ++ run ++ s = p ++ c :: (run ++ s) := by simp
      rw [hcut] at hspaced
      rcases hspaced.around_separator hc with ⟨⟨p, d, rfl, hd⟩, hsep, -⟩
      rw [hapart.before (pre ++ p) d c (by simp) hsep] at hd
      cases hd
  · cases s with
    | nil => rfl
    | cons c s =>
        have hc : u.isDecimal c = false := hneighbour c (by simpa using hrun.behind)
        rcases hspaced.around_separator hc with ⟨-, hsep, hnext⟩
        cases s with
        | nil => rcases hsep with rfl | rfl <;> rfl
        | cons d s =>
            have hd := hnext d rfl
            rw [hapart.behind c d (s ++ post) rfl hsep] at hd
            cases hd

end Redaction
end HiddenSteps
