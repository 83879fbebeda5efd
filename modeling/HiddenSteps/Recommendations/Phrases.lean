import HiddenSteps.Recommendations.Passages

/-!
# Phrases — what an occurrence phrase mentions

A phrase taken by itself mentions the number it denotes (`Phrase.counted_iff`), unless that is a
numeral beyond 32 bits: such a numeral is read and then dropped.
-/

namespace HiddenSteps
namespace Recommendations

open Text

/-! ## Numerals -/

/-- The number a decimal numeral denotes. -/
def decimalValue (digits : List Char) : Nat :=
  digits.foldl (fun n c => 10 * n + (c.toNat - '0'.toNat)) 0

theorem parseU32_digits {x : List Char} (hne : x ≠ []) (hx : ∀ c ∈ x, c.isDigit = true) :
    parseU32 x = if decimalValue x < 2 ^ 32 then some (decimalValue x) else none := by
  have hplus : x.head? ≠ some '+' := by
    intro hhead
    have hdigit := hx '+' (List.mem_of_head? hhead)
    cases hdigit
  have hany : (x.any fun c => !c.isDigit) = false :=
    List.any_eq_false.2 fun c hc => by simp [hx c hc]
  have hempty : x.isEmpty = false := List.isEmpty_eq_false_iff.2 hne
  simp only [parseU32, if_neg hplus, hany, hempty, Bool.or_self, decimalValue]
  rfl

variable {u : UnicodeClasses}

theorem numeral_of_digits {x : List Char} (hne : x ≠ []) (hx : ∀ c ∈ x, c.isDigit = true) :
    Numeral u x := by
  refine ⟨hne, fun c hc => ?_⟩
  have hdigit := hx c hc
  have hascii : c.toNat < 128 := by
    simp only [Char.isDigit, Bool.and_eq_true, decide_eq_true_eq] at hdigit
    have hle : c.toNat ≤ '9'.toNat := UInt32.le_iff_toNat_le.1 hdigit.2
    have hnine : '9'.toNat = 57 := rfl
    omega
  rw [u.decimal_ascii c hascii]
  exact hdigit

theorem ValueWord.head (hu : WordTable u) {x : List Char} (hne : x ≠ []) (h : ValueWord x) :
    Head u x := by
  rcases h with hx | ⟨n, hx⟩
  · exact (numeral_of_digits hne hx).head
  · exact hx.head spelledNumbers_subset hu

/-! ## Phrases -/

/-- A phrase that says how often something occurred, and the number it denotes. -/
inductive Phrase (u : UnicodeClasses) : List Char → Nat → Prop
  | numeral {digits gap k : List Char} (hne : digits ≠ [])
      (hdigits : ∀ c ∈ digits, c.isDigit = true) (hgap : ∀ c ∈ gap, u.isSpace c = true)
      (hk : Keyword k) : Phrase u (digits ++ gap ++ k) (decimalValue digits)
  | word {x gap k : List Char} {n : Nat} (hx : NumberWord spelledNumbers x n) (hne : gap ≠ [])
      (hgap : ∀ c ∈ gap, u.isSpace c = true) (hk : Keyword k) : Phrase u (x ++ gap ++ k) n
  | compound {T x gap k : List Char} {j : Char} {tens ones : Nat}
      (hT : NumberWord tensNumbers T tens) (hj : Joiner j) (hx : NumberWord unitNumbers x ones)
      (hne : gap ≠ []) (hgap : ∀ c ∈ gap, u.isSpace c = true) (hk : Keyword k) :
      Phrase u (T ++ [j] ++ x ++ gap ++ k) (tens + ones)
  | adverb {w : List Char} {n : Nat} (hw : NumberWord adverbNumbers w n) : Phrase u w n

variable {pre x s k post pre' x' s' k' post' w : List Char}

/-- A text that ends in a keyword ends in no value. -/
theorem Pair.closed (hu : WordTable u) (h : Pair u pre x s k []) :
    Closed u (pre ++ x ++ s ++ k) := by
  intro pre' w g htext hw hg hvalue
  have hhead := hvalue.head hu hw.ne_nil
  have htext' : pre ++ x ++ s ++ k ++ [] = pre' ++ w ++ g := by rw [List.append_nil, htext]
  have hkeyword : ∀ {t : List Char}, g ≠ t ++ k := by
    rintro t rfl
    obtain ⟨c, hc⟩ := List.exists_mem_of_ne_nil _ h.keyword.ne_nil
    have hfalse := hg c (List.mem_append_right _ hc)
    rw [h.keyword.word hu c hc] at hfalse
    cases hfalse
  cases h.place hu hw htext' with
  | whole hs hpre hword => exact hhead.apart k h.keyword ⟨x, hword.symm⟩
  | head hs hpre hword =>
      subst hpre hword
      apply hkeyword (t := s)
      simpa using htext.symm
  | keyword hs hpre hword => exact hhead.apart k h.keyword (hword ▸ List.suffix_refl _)
  | before t ht =>
      apply hkeyword (t := t ++ x ++ s)
      rw [ht] at htext
      simpa using htext.symm
  | behind t ht =>
      rw [ht] at htext
      simp [hw.ne_nil] at htext

/-- The only pair of a pair is the pair. -/
theorem Pair.eq_whole (hu : WordTable u) (h : Pair u [] x s k [])
    (h' : Pair u pre' x' s' k' post') (htext : x ++ s ++ k = pre' ++ x' ++ s' ++ k' ++ post') :
    pre' = [] ∧ x' = x ∧ s' = s ∧ k' = k := by
  have htext' : [] ++ x ++ s ++ k ++ [] = pre' ++ x' ++ s' ++ k' ++ post' := by simpa using htext
  rcases h.eq_or_apart hu h' htext' with hsame | ⟨t, ht⟩ | ⟨t, rfl⟩
  · exact hsame
  · have hne := h'.head.ne_nil
    simp [hne] at ht
  · have hne := h'.head.ne_nil
    simp [hne] at htext

/-- A word that no keyword ends holds no pair. -/
theorem Pair.not_in_head (hu : WordTable u) (h : Pair u pre x s k post) (hw : Head u w) :
    w ≠ pre ++ x ++ s ++ k ++ post := by
  intro htext
  by_cases hs : s = []
  · subst hs
    have hwhole := (h.stands_whole hu).eq_whole (by simpa [htext] using hw.word)
    rw [hwhole.1, hwhole.2] at htext
    exact hw.apart k h.keyword ⟨x, by simpa using htext.symm⟩
  · have hwhole := (h.stands_head hu hs).eq_whole (by simpa [htext] using hw.word)
    simp [hs] at hwhole

/-- Once and twice are no part of a pair, except in its head. -/
theorem Pair.not_adverb (hu : WordTable u) (h : Pair u pre x s k [])
    (hw : Stands u.isWord pre' w post') (htext : pre ++ x ++ s ++ k = pre' ++ w ++ post') {n : Nat}
    (hadverb : NumberWord adverbNumbers w n) (hx : x ≠ w) : ∃ t, pre = pre' ++ w ++ t := by
  have hhead := hadverb.head adverbNumbers_subset hu
  have htext' : pre ++ x ++ s ++ k ++ [] = pre' ++ w ++ post' := by rw [List.append_nil, htext]
  cases h.place hu hw htext' with
  | whole hs hpre hword => exact absurd ⟨x, hword.symm⟩ (hhead.apart k h.keyword)
  | head hs hpre hword => exact absurd hword.symm hx
  | keyword hs hpre hword =>
      exact absurd (hword ▸ List.suffix_refl _) (hhead.apart k h.keyword)
  | before t ht => exact ⟨t, ht⟩
  | behind t ht =>
      rw [ht] at htext
      simp [hw.ne_nil] at htext

/-- The numerals and words that a text of a single pair counts by. -/
theorem Pair.counted_iff (hu : WordTable u) (h : Pair u [] x s k [])
    (hx : ∀ n, ¬ NumberWord adverbNumbers x n) {n : Nat} :
    Counted u (x ++ s ++ k) n ↔ HeadCount u [] x n := by
  constructor
  · intro hn
    cases hn with
    | pair htext h' hx' =>
        rcases h.eq_whole hu h' htext with ⟨rfl, rfl, -, -⟩
        exact hx'
    | adverb htext hstands hw =>
        have hne : x ≠ _ := fun heq => hx n (heq ▸ hw)
        rcases h.not_adverb hu hstands htext hw hne with ⟨t, ht⟩
        have hne := hstands.ne_nil
        simp [hne] at ht
  · intro hx
    exact .pair (by simp) h hx

theorem not_endsInTens_nil {tens : Nat} : ¬ EndsInTens u [] tens := by
  rintro ⟨pre', T, j, hpre, -⟩
  simp at hpre

/-- The number of tens in front of a joiner is the word there. -/
theorem endsInTens_iff (hu : WordTable u) {T : List Char} {j : Char} {tens tens' : Nat}
    (hT : NumberWord tensNumbers T tens) (hj : Joiner j) :
    EndsInTens u (T ++ [j]) tens' ↔ tens' = tens := by
  constructor
  · rintro ⟨pre', T', j', hpre, hT', -, hbefore⟩
    have hsub : tensNumbers ⊆ spelledNumbers ++ adverbNumbers := fun e he =>
      List.mem_append_left _ (List.mem_append_right _ he)
    rcases List.append_inj' hpre rfl with ⟨hends, -⟩
    have hhead := hT.head tensNumbers_subset hu
    have hhead' := hT'.head tensNumbers_subset hu
    have hstands : Stands u.isWord pre' T' [] := ⟨hhead'.ne_nil, hhead'.word, hbefore, rfl⟩
    rcases hstands.eq_whole (by rw [List.append_nil, ← hends]; exact hhead.word) with ⟨rfl, -⟩
    have hsame : T = T' := hends
    exact hT'.unique (hsame ▸ hT) hsub
  · rintro rfl
    exact ⟨[], T, j, rfl, hT, hj, rfl⟩

/-- The only pair of a compound is its own. -/
theorem Compound.eq_whole (hu : WordTable u) {T : List Char} {j : Char}
    (h : Compound u [] T j x s k []) (h' : Pair u pre' x' s' k' post')
    (htext : T ++ [j] ++ x ++ s ++ k = pre' ++ x' ++ s' ++ k' ++ post') :
    pre' = T ++ [j] ∧ x' = x ∧ s' = s ∧ k' = k := by
  have htext' : [] ++ T ++ [j] ++ x ++ s ++ k ++ [] = pre' ++ x' ++ s' ++ k' ++ post' := by
    simpa using htext
  refine h.pair_of_inside hu h' htext' (Nat.zero_le _) ?_
  rw [List.nil_append, htext, byteLen_append (pre' ++ x' ++ s' ++ k')]
  exact Nat.le_add_right _ _

/-- Once and twice are no part of a compound. -/
theorem Compound.not_adverb (hu : WordTable u) {T : List Char} {j : Char}
    (h : Compound u [] T j x s k []) {tens ones n : Nat} (hT : NumberWord tensNumbers T tens)
    (hx : NumberWord unitNumbers x ones) (hw : Stands u.isWord pre' w post')
    (htext : T ++ [j] ++ x ++ s ++ k = pre' ++ w ++ post') : ¬ NumberWord adverbNumbers w n := by
  intro hadverb
  have hspelled : ∀ {y : List Char} {m : Nat}, NumberWord spelledNumbers y m → y ≠ w := by
    rintro y m hy rfl
    exact hy.not_adverb hadverb
  have hx' : x ≠ w := hspelled (hx.of_subset fun e he =>
    List.mem_append_left _ (List.mem_append_left _ he))
  rcases h.pair.not_adverb hu hw (by simpa using htext) hadverb hx' with ⟨t, ht⟩
  have htens : [] ++ T ++ ([j] ++ x ++ s ++ k ++ []) = pre' ++ w ++ post' := by simpa using htext
  rcases h.stands_tens.eq_or_apart hw htens with ⟨-, rfl, -⟩ | ⟨t', ht'⟩ | ⟨t', rfl⟩
  · exact hspelled (hT.of_subset (List.subset_append_right _ _)) rfl
  · have hne := hw.ne_nil
    simp [hne] at ht'
  · -- there is only the joiner behind the tens
    have hj : [j] = t' ++ w ++ t := by simpa using ht
    obtain ⟨c, hc⟩ := List.exists_mem_of_ne_nil _ hw.ne_nil
    have hmem : c ∈ [j] := by
      rw [hj]
      simp [hc]
    have hfalse := h.joiner.apart u
    rw [← List.mem_singleton.1 hmem, hw.word c hc] at hfalse
    cases hfalse

theorem NumberWord.lt {numbers : List (String × Nat)} {n : Nat} (h : NumberWord numbers w n)
    (hsub : numbers ⊆ spelledNumbers ++ adverbNumbers) : n < 100 := by
  have htable : ∀ e ∈ spelledNumbers ++ adverbNumbers, e.2 < 100 := by decide
  rcases h with ⟨e, he, rfl, -⟩
  exact htable e (hsub he)

section Shapes

variable {T gap : List Char} {j : Char} {tens ones n : Nat}

theorem pair_of_numeral (hne : x ≠ []) (hx : ∀ c ∈ x, c.isDigit = true)
    (hgap : ∀ c ∈ gap, u.isSpace c = true) (hk : Keyword k) : Pair u [] x gap k [] :=
  ⟨(numeral_of_digits hne hx).head, hgap, hk, rfl, rfl⟩

theorem pair_of_word (hu : WordTable u) (hx : NumberWord spelledNumbers x n)
    (hgap : ∀ c ∈ gap, u.isSpace c = true) (hk : Keyword k) : Pair u [] x gap k [] :=
  ⟨hx.head spelledNumbers_subset hu, hgap, hk, rfl, rfl⟩

theorem compound_of_words (hu : WordTable u) (hT : NumberWord tensNumbers T tens) (hj : Joiner j)
    (hx : NumberWord unitNumbers x ones) (hgap : ∀ c ∈ gap, u.isSpace c = true)
    (hk : Keyword k) : Compound u [] T j x gap k [] where
  tens := hT.head tensNumbers_subset hu
  joiner := hj
  pair := ⟨hx.head unitNumbers_subset hu, hgap, hk, by simpa using hj.apart u, rfl⟩
  before := rfl

end Shapes

/-! ## Counts of phrases -/

section HeadCounts

variable {T : List Char} {j : Char} {tens ones m n : Nat}

theorem headCount_of_digits (hne : x ≠ []) (hx : ∀ c ∈ x, c.isDigit = true) :
    HeadCount u [] x m ↔ decimalValue x < 2 ^ 32 ∧ m = decimalValue x := by
  have hnumeral : Numeral u x := numeral_of_digits hne hx
  have hparse := parseU32_digits hne hx
  constructor
  · intro h
    cases h with
    | numeral hx hm =>
        rw [hparse] at hm
        split at hm
        · rename_i hlt
          exact ⟨hlt, (Option.some.inj hm).symm⟩
        · cases hm
    | compound htens hx => exact absurd htens not_endsInTens_nil
    | single hx hnot => exact absurd hnumeral (hx.not_numeral spelledNumbers_subset)
  · rintro ⟨hlt, rfl⟩
    exact .numeral hnumeral (by rw [hparse, if_pos hlt])

theorem headCount_of_word (hx : NumberWord spelledNumbers x n) : HeadCount u [] x m ↔ m = n := by
  constructor
  · intro h
    cases h with
    | numeral hx' hm => exact absurd hx' (hx.not_numeral spelledNumbers_subset)
    | compound htens hx' => exact absurd htens not_endsInTens_nil
    | single hx' hnot => exact hx'.unique hx (List.subset_append_left _ _)
  · rintro rfl
    exact .single hx fun tens ones htens => absurd htens not_endsInTens_nil

theorem headCount_of_compound (hu : WordTable u) (hT : NumberWord tensNumbers T tens)
    (hj : Joiner j) (hx : NumberWord unitNumbers x ones) :
    HeadCount u (T ++ [j]) x m ↔ m = tens + ones := by
  have hends : ∀ {tens' : Nat}, EndsInTens u (T ++ [j]) tens' ↔ tens' = tens :=
    endsInTens_iff hu hT hj
  constructor
  · intro h
    cases h with
    | numeral hnumeral hm => exact absurd hnumeral (hx.not_numeral unitNumbers_subset)
    | compound htens hx' =>
        rw [hends.1 htens, hx'.unique hx fun e he =>
          List.mem_append_left _ (unitNumbers_spelled he)]
    | single hx' hnot => exact absurd hx (hnot tens ones (hends.2 rfl))
  · rintro rfl
    exact .compound (hends.2 rfl) hx

/-- What a text of a single compound counts by. -/
theorem Compound.counted_iff (hu : WordTable u) (h : Compound u [] T j x s k [])
    (hT : NumberWord tensNumbers T tens) (hx : NumberWord unitNumbers x ones) :
    Counted u (T ++ [j] ++ x ++ s ++ k) m ↔ HeadCount u (T ++ [j]) x m := by
  constructor
  · intro hm
    cases hm with
    | pair htext h' hm =>
        rcases h.eq_whole hu h' htext with ⟨rfl, rfl, -, -⟩
        exact hm
    | adverb htext hw hn => exact absurd hn (h.not_adverb hu hT hx hw htext)
  · intro hm
    exact .pair (by simp) h.pair hm

theorem counted_of_adverb (hu : WordTable u) (hw : NumberWord adverbNumbers w n) :
    Counted u w m ↔ m = n := by
  have hhead := hw.head adverbNumbers_subset hu
  constructor
  · intro hm
    cases hm with
    | pair htext h' hm => exact absurd htext (h'.not_in_head hu hhead)
    | adverb htext h' hm =>
        have hwhole := h'.eq_whole (by rw [← htext]; exact hhead.word)
        rw [hwhole.1, hwhole.2, List.append_nil, List.nil_append] at htext
        subst htext
        exact hm.unique hw (List.subset_append_right _ _)
  · rintro rfl
    have hstands : Stands u.isWord [] w [] := ⟨hhead.ne_nil, hhead.word, rfl, rfl⟩
    exact .adverb (by simp) hstands hw

end HeadCounts

/-- A phrase mentions the number it denotes, if that has 32 bits. -/
theorem Phrase.counted_iff (hu : WordTable u) {n m : Nat} (h : Phrase u w n) :
    Counted u w m ↔ n < 2 ^ 32 ∧ m = n := by
  have hsmall : ∀ {n : Nat}, n < 200 → (m = n ↔ n < 2 ^ 32 ∧ m = n) := by
    intro n hlt
    rw [and_iff_right (by omega)]
  have hspelled : spelledNumbers ⊆ spelledNumbers ++ adverbNumbers := List.subset_append_left _ _
  cases h with
  | numeral hne hdigits hgap hk =>
      rw [(pair_of_numeral hne hdigits hgap hk).counted_iff hu fun n hn =>
        hn.not_numeral (u := u) adverbNumbers_subset (numeral_of_digits hne hdigits)]
      exact headCount_of_digits hne hdigits
  | word hx hne hgap hk =>
      have hlt := hx.lt hspelled
      rw [(pair_of_word hu hx hgap hk).counted_iff hu fun n hn => hx.not_adverb hn,
        headCount_of_word hx]
      exact hsmall (by omega)
  | compound hT hj hx hne hgap hk =>
      have htens := hT.lt fun e he => hspelled (tensNumbers_spelled he)
      have hones := hx.lt fun e he => hspelled (unitNumbers_spelled he)
      rw [(compound_of_words hu hT hj hx hgap hk).counted_iff hu hT hx,
        headCount_of_compound hu hT hj hx]
      exact hsmall (by omega)
  | adverb hw =>
      have hlt := hw.lt (List.subset_append_right _ _)
      rw [counted_of_adverb hu hw]
      exact hsmall (by omega)

end Recommendations
end HiddenSteps
