import HiddenSteps.Recommendations.Phrases

/-!
# Narrative — when the validator reads a narrative correctly

A `Passage` is prose with occurrence phrases in it.  The validator reads the phrases
(`passage_counted_iff`), but it drops numerals beyond 32 bits, and it takes a number word that is run
together with a keyword for a phrase.
-/

namespace HiddenSteps
namespace Recommendations

open Text

variable {u : UnicodeClasses} {text p w rest l r : List Char}

/-! ## Passages -/

/-- Prose without digits, number words and the words once and twice.  Only whole words count, so
`someone` is prose. -/
structure Prose (u : UnicodeClasses) (p : List Char) : Prop where
  no_digit : ∀ c ∈ p, c.isDigit = false
  no_number : ∀ pre w post, p = pre ++ w ++ post → Stands u.isWord pre w post →
    ∀ n, ¬ NumberWord (spelledNumbers ++ adverbNumbers) w n

/-- Prose with phrases in it as separate words, and the numbers they denote. -/
inductive Passage (u : UnicodeClasses) : List Char → List Nat → Prop
  | prose {p : List Char} (hp : Prose u p) : Passage u p []
  | phrase {p w rest : List Char} {n : Nat} {ns : List Nat} (hp : Prose u p) (hw : Phrase u w n)
      (hrest : Passage u rest ns) (hbefore : p.getLast?.any u.isWord = false)
      (hbehind : rest.head?.any u.isWord = false) : Passage u (p ++ (w ++ rest)) (n :: ns)

/-- A number word and a keyword stand in the text as one word. -/
def Glued (u : UnicodeClasses) (text : List Char) (n : Nat) : Prop :=
  ∃ pre x k post, text = pre ++ (x ++ k) ++ post ∧ Stands u.isWord pre (x ++ k) post ∧
    NumberWord spelledNumbers x n ∧ Keyword k

/-- A text in which no word for a number occurs at all is prose. -/
theorem prose_of_not_infix (hdigit : ∀ c ∈ p, c.isDigit = false)
    (hnumber : ∀ e ∈ spelledNumbers ++ adverbNumbers, ¬ e.1.toList <:+: lowercased p) :
    Prose u p := by
  refine ⟨hdigit, ?_⟩
  rintro pre w post rfl - n ⟨e, he, -, hw⟩
  apply hnumber e he
  rw [← hw]
  exact ⟨lowercased pre, lowercased post, by simp [lowercased]⟩

theorem Glued.pair (hu : WordTable u) {n : Nat} (h : Glued u text n) :
    ∃ pre x k post, text = pre ++ x ++ [] ++ k ++ post ∧ Pair u pre x [] k post ∧
      NumberWord spelledNumbers x n := by
  rcases h with ⟨pre, x, k, post, htext, hstands, hx, hk⟩
  exact ⟨pre, x, k, post, by simpa using htext,
    ⟨hx.head spelledNumbers_subset hu, by simp, hk, hstands.before, hstands.behind⟩, hx⟩

theorem glued_append (hbreak : Break u.isWord l r) {n : Nat} :
    Glued u (l ++ r) n ↔ Glued u l n ∨ Glued u r n := by
  constructor
  · rintro ⟨pre, x, k, post, htext, h, hx, hk⟩
    rcases h.cut htext.symm hbreak with ⟨t, hl, rfl⟩ | ⟨t, rfl, hr⟩
    · exact Or.inl ⟨pre, x, k, t, hl, (Stands.append_iff (by rw [← hl]; exact hbreak)).1 h, hx, hk⟩
    · rw [List.append_assoc] at hr
      have hbreak' := hbreak
      rw [hr] at hbreak'
      exact Or.inr ⟨t, x, k, post, by simp [hr], (Stands.prepend_iff hbreak').1 h, hx, hk⟩
  · rintro (⟨pre, x, k, post, rfl, h, hx, hk⟩ | ⟨pre, x, k, post, rfl, h, hx, hk⟩)
    · exact ⟨pre, x, k, post ++ r, by simp, (Stands.append_iff hbreak).2 h, hx, hk⟩
    · rw [List.append_assoc] at hbreak
      exact ⟨l ++ pre, x, k, post, by simp, (Stands.prepend_iff hbreak).2 h, hx, hk⟩

/-! ## Prose -/

theorem Prose.not_valueWord (h : Prose u p) {pre post : List Char} (htext : p = pre ++ w ++ post)
    (hw : Stands u.isWord pre w post) : ¬ ValueWord w := by
  rintro (hdigits | ⟨n, hn⟩)
  · obtain ⟨c, hc⟩ := List.exists_mem_of_ne_nil _ hw.ne_nil
    have hfalse := h.no_digit c (by rw [htext]; simp [hc])
    rw [hdigits c hc] at hfalse
    cases hfalse
  · exact h.no_number pre w post htext hw n (hn.of_subset (List.subset_append_left _ _))

/-- There is no number of tens in front of a pair in prose. -/
theorem Prose.not_endsInTens (hu : WordTable u) (h : Prose u p) {pre x s k post : List Char}
    {tens : Nat} (htext : p = pre ++ x ++ s ++ k ++ post) (hpair : Pair u pre x s k post) :
    ¬ EndsInTens u pre tens := by
  intro htens
  rcases htens.compound hu hpair with ⟨pre', T, j, rfl, hT, hcompound⟩
  exact h.not_valueWord (by simpa using htext) hcompound.stands_tens
    (Or.inr ⟨tens, hT.of_subset tensNumbers_spelled⟩)

/-- Prose mentions only what is run together in it. -/
theorem Prose.counted_iff (hu : WordTable u) (h : Prose u p) {n : Nat} :
    Counted u p n ↔ Glued u p n := by
  constructor
  · intro hn
    cases hn with
    | @pair pre x s k post _ htext hpair hx =>
        by_cases hs : s = []
        · subst hs
          have htext' : p = pre ++ (x ++ k) ++ post := by simpa using htext
          cases hx with
          | numeral hnumeral hn =>
              rcases valueWord_of_parse hnumeral hn with hdigits | ⟨m, hm⟩
              · obtain ⟨c, hc⟩ := List.exists_mem_of_ne_nil _ hnumeral.1
                have hfalse := h.no_digit c (by rw [htext]; simp [hc])
                rw [hdigits c hc] at hfalse
                cases hfalse
              · exact absurd hnumeral (hm.not_numeral spelledNumbers_subset)
          | compound htens hones => exact absurd htens (h.not_endsInTens hu htext hpair)
          | single hx hnot =>
              exact ⟨pre, x, k, post, htext', hpair.stands_whole hu, hx, hpair.keyword⟩
        · exact absurd hx.valueWord
            (h.not_valueWord (by simpa using htext) (hpair.stands_head hu hs))
    | adverb htext hw hn =>
        exact absurd (hn.of_subset (List.subset_append_right _ _)) (h.no_number _ _ _ htext hw n)
  · intro hn
    rcases hn.pair hu with ⟨pre, x, k, post, htext, hpair, hx⟩
    exact .pair htext hpair (.single hx fun tens ones htens =>
      absurd htens (h.not_endsInTens hu htext hpair))

theorem Prose.closed (h : Prose u p) : Closed u p :=
  fun _ _ _ htext hw _ => h.not_valueWord htext hw

/-! ## Phrases -/

theorem Phrase.closed (hu : WordTable u) {n : Nat} (h : Phrase u w n) : Closed u w := by
  cases h with
  | numeral hne hdigits hgap hk => exact (pair_of_numeral hne hdigits hgap hk).closed hu
  | word hx hne hgap hk => exact (pair_of_word hu hx hgap hk).closed hu
  | compound hT hj hx hne hgap hk => exact (compound_of_words hu hT hj hx hgap hk).pair.closed hu
  | adverb hw =>
      intro pre y g htext hy hg hvalue
      have hhead := hw.head adverbNumbers_subset hu
      have hwhole := hy.eq_whole (by rw [← htext]; exact hhead.word)
      rw [hwhole.1, hwhole.2, List.append_nil, List.nil_append] at htext
      subst htext
      rcases hvalue with hdigits | ⟨n, hn⟩
      · exact hw.not_numeral (u := u) adverbNumbers_subset (numeral_of_digits hhead.ne_nil hdigits)
      · exact hn.not_adverb hw

theorem Phrase.not_glued (hu : WordTable u) {n m : Nat} (h : Phrase u w n) : ¬ Glued u w m := by
  intro hglued
  rcases hglued.pair hu with ⟨pre', x', k', post', htext, h', hx'⟩
  cases h with
  | numeral hne hdigits hgap hk =>
      have hpair : Pair u [] _ _ _ [] := pair_of_numeral hne hdigits hgap hk
      rcases hpair.eq_whole hu h' htext with ⟨-, rfl, -, -⟩
      exact hx'.not_numeral (u := u) spelledNumbers_subset (numeral_of_digits hne hdigits)
  | word hx hne hgap hk =>
      have hpair := pair_of_word hu hx hgap hk
      exact hne (hpair.eq_whole hu h' htext).2.2.1.symm
  | compound hT hj hx hne hgap hk =>
      have hcompound := compound_of_words hu hT hj hx hgap hk
      exact hne (hcompound.eq_whole hu h' htext).2.2.1.symm
  | adverb hw => exact h'.not_in_head hu (hw.head adverbNumbers_subset hu) htext

/-! ## Narratives -/

/-- A passage mentions the numbers of 32 bits that its phrases denote, and what is run together. -/
theorem passage_counted_iff (hu : WordTable u) {ns : List Nat} (h : Passage u text ns) {m : Nat} :
    Counted u text m ↔ (m ∈ ns ∧ m < 2 ^ 32) ∨ Glued u text m := by
  induction h with
  | prose hp => simp [hp.counted_iff hu]
  | @phrase p w rest n ns hp hw hrest hbefore hbehind ih =>
      have hbreak : Break u.isWord p (w ++ rest) := Or.inl hbefore
      have hbreak' : Break u.isWord w rest := Or.inr hbehind
      have hnot := hw.not_glued hu (m := m)
      rw [counted_append hu hbreak hp.closed, counted_append hu hbreak' (hw.closed hu),
        glued_append hbreak, glued_append hbreak', hp.counted_iff hu, hw.counted_iff hu, ih,
        List.mem_cons]
      constructor
      · rintro (hg | ⟨hlt, rfl⟩ | ⟨hmem, hlt⟩ | hg)
        · exact Or.inr (Or.inl hg)
        · exact Or.inl ⟨Or.inl rfl, hlt⟩
        · exact Or.inl ⟨Or.inr hmem, hlt⟩
        · exact Or.inr (Or.inr (Or.inr hg))
      · rintro (⟨rfl | hmem, hlt⟩ | hg | hg | hg)
        · exact Or.inr (Or.inl ⟨hlt, rfl⟩)
        · exact Or.inr (Or.inr (Or.inl ⟨hmem, hlt⟩))
        · exact Or.inl hg
        · exact absurd hg hnot
        · exact Or.inr (Or.inr (Or.inr hg))

theorem contradictsOccurrenceCount_iff (hu : WordTable u) {text : String} {c : Nat} :
    contradictsOccurrenceCount u text c = true ↔ ∃ n, Counted u text.toList n ∧ n ≠ c := by
  simp only [contradictsOccurrenceCount, List.any_eq_true, bne_iff_ne, ← mentionedCounts_iff hu]
  constructor
  · rintro ⟨k, hk, hne⟩
    exact ⟨k.count, ⟨k, hk, rfl⟩, hne⟩
  · rintro ⟨n, ⟨k, hk, rfl⟩, hne⟩
    exact ⟨k, hk, hne⟩

/-- When the validator reads a passage correctly.  It does not see numerals beyond 32 bits, and it
takes words that are run together for phrases.  So unless a smaller number differs from the count,
the text must have both or neither. -/
theorem contradiction_read_iff (hu : WordTable u) {text : String} {ns : List Nat}
    (h : Passage u text.toList ns) {c : Nat} (hc : c < 2 ^ 32) :
    (contradictsOccurrenceCount u text c = true ↔ ∃ n ∈ ns, n ≠ c) ↔
      (∃ n ∈ ns, n < 2 ^ 32 ∧ n ≠ c) ∨
        ((∃ n ∈ ns, 2 ^ 32 ≤ n) ↔ ∃ n, Glued u text.toList n ∧ n ≠ c) := by
  have hfound : contradictsOccurrenceCount u text c = true ↔
      (∃ n ∈ ns, n < 2 ^ 32 ∧ n ≠ c) ∨ ∃ n, Glued u text.toList n ∧ n ≠ c := by
    rw [contradictsOccurrenceCount_iff hu]
    simp only [passage_counted_iff hu h, or_and_right, exists_or, and_assoc]
  have hdenoted : (∃ n ∈ ns, n ≠ c) ↔
      (∃ n ∈ ns, n < 2 ^ 32 ∧ n ≠ c) ∨ ∃ n ∈ ns, 2 ^ 32 ≤ n := by
    constructor
    · rintro ⟨n, hn, hne⟩
      rcases Nat.lt_or_ge n (2 ^ 32) with hlt | hle
      · exact Or.inl ⟨n, hn, hlt, hne⟩
      · exact Or.inr ⟨n, hn, hle⟩
    · rintro (⟨n, hn, -, hne⟩ | ⟨n, hn, hle⟩)
      · exact ⟨n, hn, hne⟩
      · exact ⟨n, hn, by omega⟩
  rw [hfound, hdenoted]
  by_cases hsmall : ∃ n ∈ ns, n < 2 ^ 32 ∧ n ≠ c
  · simp only [hsmall, true_or]
  · simp only [hsmall, false_or]
    exact iff_comm

/-- A narrative that the validator reads correctly. -/
theorem thirty_one_not_twice : contradictsOccurrenceCount asciiAndLongS
    "It ran 31 times, not twice." 31 = true ↔ ∃ n ∈ [31, 2], n ≠ 31 := by
  have hnone : ∀ p ∈ ["It ran ", ", not ", "."], ∀ e ∈ spelledNumbers ++ adverbNumbers,
      ¬ e.1.toList <:+: lowercased p.toList := by decide +kernel
  have hran : Prose asciiAndLongS "It ran ".toList :=
    prose_of_not_infix (List.all_iff_forall_prop.1 (by decide)) (hnone _ (by simp))
  have hnot : Prose asciiAndLongS ", not ".toList :=
    prose_of_not_infix (List.all_iff_forall_prop.1 (by decide)) (hnone _ (by simp))
  have hend : Prose asciiAndLongS ".".toList :=
    prose_of_not_infix (List.all_iff_forall_prop.1 (by decide)) (hnone _ (by simp))
  have htimes : Phrase asciiAndLongS ("31".toList ++ " ".toList ++ "times".toList) 31 :=
    .numeral (by decide) (List.all_iff_forall_prop.1 (by decide))
      (List.all_iff_forall_prop.1 (by decide)) ⟨"times", by decide, by decide⟩
  have htwice : Phrase asciiAndLongS "twice".toList 2 :=
    .adverb ⟨("twice", 2), by decide, rfl, by decide⟩
  have hpassage : Passage asciiAndLongS "It ran 31 times, not twice.".toList [31, 2] :=
    .phrase hran htimes (.phrase hnot htwice (.prose hend) (by decide) (by decide))
      (by decide) (by decide)
  exact (contradiction_read_iff wordTable_asciiAndLongS hpassage (by decide)).2
    (Or.inl ⟨2, by simp, by decide, by decide⟩)

/-- A numeral beyond 32 bits contradicts every count, and the validator passes over it. -/
theorem large_numeral_passes : Passage asciiAndLongS "4294967296 times".toList [4294967296] ∧
    ¬ (contradictsOccurrenceCount asciiAndLongS "4294967296 times" 1 = true ↔
      ∃ n ∈ [4294967296], n ≠ 1) := by
  have hprose : Prose asciiAndLongS [] :=
    prose_of_not_infix (by simp) (by decide)
  have htimes : Phrase asciiAndLongS ("4294967296".toList ++ " ".toList ++ "times".toList)
      (decimalValue "4294967296".toList) :=
    .numeral (by decide) (List.all_iff_forall_prop.1 (by decide))
      (List.all_iff_forall_prop.1 (by decide)) ⟨"times", by decide, by decide⟩
  have hvalue : decimalValue "4294967296".toList = 4294967296 := by decide
  have hpasses : contradictsOccurrenceCount asciiAndLongS "4294967296 times" 1 = false := by
    decide +kernel
  constructor
  · have hpassage := Passage.phrase hprose htimes (.prose hprose) rfl rfl
    rw [hvalue] at hpassage
    exact hpassage
  · simp [hpasses]

end Recommendations
end HiddenSteps
