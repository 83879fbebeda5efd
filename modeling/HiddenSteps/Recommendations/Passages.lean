import HiddenSteps.Recommendations.Counts

/-!
# Passages — the counts of a text taken apart

A text that breaks between words, with no number in front of the break, mentions what its two parts
mention (`counted_append`).
-/

namespace HiddenSteps
namespace Recommendations

open Text

/-- A word with a value: a numeral or a number word. -/
def ValueWord (w : List Char) : Prop :=
  (∀ c ∈ w, c.isDigit = true) ∨ ∃ n, NumberWord spelledNumbers w n

/-- The last word of the text has no value. -/
def Closed (u : UnicodeClasses) (l : List Char) : Prop :=
  ∀ pre w g, l = pre ++ w ++ g → Stands u.isWord pre w g → (∀ c ∈ g, u.isWord c = false) →
    ¬ ValueWord w

variable {u : UnicodeClasses} {l r pre x s k post : List Char}

namespace Pair

/-- Behind a break the text does not matter. -/
theorem append_iff (hu : WordTable u) {t : List Char}
    (hbreak : Break u.isWord (pre ++ x ++ s ++ k ++ t) r) :
    Pair u pre x s k (t ++ r) ↔ Pair u pre x s k t := by
  constructor
  · intro h
    have hlast := any_getLast_append (l := pre ++ x ++ s) h.keyword.ne_nil (h.keyword.word hu)
    exact ⟨h.head, h.spaces, h.keyword, h.before,
      (head_any_before_break hlast hbreak).symm.trans h.behind⟩
  · intro h
    have hlast := any_getLast_append (l := pre ++ x ++ s) h.keyword.ne_nil (h.keyword.word hu)
    exact ⟨h.head, h.spaces, h.keyword, h.before,
      (head_any_before_break hlast hbreak).trans h.behind⟩

/-- In front of a break the text does not matter. -/
theorem prepend_iff {t : List Char} (hbreak : Break u.isWord l (t ++ (x ++ r))) :
    Pair u (l ++ t) x s k post ↔ Pair u t x s k post := by
  constructor
  · intro h
    have hhead := any_head_append (r := r) h.head.ne_nil h.head.word
    exact ⟨h.head, h.spaces, h.keyword,
      (getLast_any_behind_break hhead hbreak).symm.trans h.before, h.behind⟩
  · intro h
    have hhead := any_head_append (r := r) h.head.ne_nil h.head.word
    exact ⟨h.head, h.spaces, h.keyword,
      (getLast_any_behind_break hhead hbreak).trans h.before, h.behind⟩

/-- A pair with a value lies on one side of a break that has no value in front of it. -/
theorem cut (hu : WordTable u) (h : Pair u pre x s k post)
    (htext : l ++ r = pre ++ x ++ s ++ k ++ post) (hx : ValueWord x)
    (hbreak : Break u.isWord l r) (hclosed : Closed u l) :
    (∃ t, l = pre ++ x ++ s ++ k ++ t ∧ post = t ++ r) ∨
      ∃ t, pre = l ++ t ∧ r = t ++ x ++ s ++ k ++ post := by
  by_cases hs : s = []
  · have htext' : pre ++ (x ++ k) ++ post = l ++ r := by simp [htext, hs]
    rcases (h.stands_whole hu).cut htext' hbreak with ⟨t, hl, hpost⟩ | ⟨t, hpre, hr⟩
    · exact Or.inl ⟨t, by simp [hl, hs], hpost⟩
    · exact Or.inr ⟨t, hpre, by simp [hr, hs]⟩
  · have htext' : pre ++ x ++ (s ++ k ++ post) = l ++ r := by simp [htext]
    have hhead := h.stands_head hu hs
    rcases hhead.cut htext' hbreak with ⟨t, hl, hpost⟩ | ⟨t, hpre, hr⟩
    · rcases (h.stands_keyword hu hs).cut htext.symm hbreak with ⟨t', hl', hpost'⟩ | ⟨t', hpre, -⟩
      · exact Or.inl ⟨t', hl', hpost'⟩
      · -- the break would lie in the spaces, with the head in front of it
        have hgap : s = t ++ t' := by
          rw [hl] at hpre
          simpa using hpre
        refine absurd hx (hclosed pre x t hl ?_ ?_)
        · rw [hpost] at hhead
          exact (Stands.append_iff (by rw [← hl]; exact hbreak)).1 hhead
        · intro c hc
          exact h.apart_of_mem hu c (by rw [hgap]; exact List.mem_append_left _ hc)
    · exact Or.inr ⟨t, hpre, by simp [hr]⟩

end Pair

/-- A number of tens stays in front of what follows on its side of the break. -/
theorem endsInTens_append_iff (hu : WordTable u) {t v : List Char} {tens : Nat}
    (hr : r = t ++ v) (hbreak : Break u.isWord l r) (hclosed : Closed u l) :
    EndsInTens u (l ++ t) tens ↔ EndsInTens u t tens := by
  constructor
  · rintro ⟨pre', T, j, hpre, hT, hj, hbefore⟩
    have hhead := hT.head tensNumbers_subset hu
    have hvalue : ValueWord T :=
      Or.inr ⟨tens, hT.of_subset (List.subset_append_right _ _)⟩
    have hstands : Stands u.isWord pre' T ([j] ++ v) :=
      ⟨hhead.ne_nil, hhead.word, hbefore, by simpa using hj.apart u⟩
    have htext : pre' ++ T ++ ([j] ++ v) = l ++ r := by
      rw [hr, ← List.append_assoc l, hpre]
      simp
    rcases hstands.cut htext hbreak with ⟨g, hl, hg⟩ | ⟨g, hpre', hr'⟩
    · -- the number would be the last word in front of the break
      have hgap : g ++ t = [j] := by
        rw [hl] at hpre
        simpa using hpre
      refine absurd hvalue (hclosed pre' T g hl ?_ ?_)
      · rw [hg] at hstands
        exact (Stands.append_iff (by rw [← hl]; exact hbreak)).1 hstands
      · intro c hc
        have hmem : c ∈ [j] := by
          rw [← hgap]
          exact List.mem_append_left _ hc
        rw [List.mem_singleton.1 hmem]
        exact hj.apart u
    · refine ⟨g, T, j, ?_, hT, hj, ?_⟩
      · rw [hpre'] at hpre
        simpa using hpre
      · rw [hpre'] at hstands
        have hbreak' : Break u.isWord l (g ++ (T ++ ([j] ++ v))) := by
          rw [hr'] at hbreak
          simpa using hbreak
        exact ((Stands.prepend_iff hbreak').1 hstands).before
  · rintro ⟨g, T, j, rfl, hT, hj, hbefore⟩
    have hhead := hT.head tensNumbers_subset hu
    have hstands : Stands u.isWord g T ([j] ++ v) :=
      ⟨hhead.ne_nil, hhead.word, hbefore, by simpa using hj.apart u⟩
    have hbreak' : Break u.isWord l (g ++ (T ++ ([j] ++ v))) := by
      rw [hr] at hbreak
      simpa using hbreak
    exact ⟨l ++ g, T, j, by simp, hT, hj, ((Stands.prepend_iff hbreak').2 hstands).before⟩

theorem valueWord_of_parse (h : Numeral u x) {n : Nat} (hn : parseU32 x = some n) :
    ValueWord x := by
  have hplus : x.head? ≠ some '+' := by
    intro hhead
    have hdecimal := h.2 '+' (List.mem_of_head? hhead)
    rw [u.decimal_ascii _ (by decide)] at hdecimal
    cases hdecimal
  refine Or.inl fun c hc => ?_
  by_contra hnot
  have hany : (x.any fun c => !c.isDigit) = true :=
    List.any_eq_true.2 ⟨c, hc, by simpa using hnot⟩
  simp only [parseU32, if_neg hplus, hany, Bool.or_true, if_true] at hn
  cases hn

theorem HeadCount.valueWord {n : Nat} (h : HeadCount u pre x n) : ValueWord x := by
  cases h with
  | numeral hx hn => exact valueWord_of_parse hx hn
  | @compound tens ones htens hx =>
      exact Or.inr ⟨ones, hx.of_subset fun e he =>
        List.mem_append_left _ (List.mem_append_left _ he)⟩
  | single hx hnot => exact Or.inr ⟨n, hx⟩

theorem headCount_append_iff (hu : WordTable u) {t v : List Char} {n : Nat} (hr : r = t ++ v)
    (hbreak : Break u.isWord l r) (hclosed : Closed u l) :
    HeadCount u (l ++ t) x n ↔ HeadCount u t x n := by
  have htens : ∀ {tens : Nat}, EndsInTens u (l ++ t) tens ↔ EndsInTens u t tens :=
    endsInTens_append_iff hu hr hbreak hclosed
  constructor
  · intro h
    cases h with
    | numeral hx hn => exact .numeral hx hn
    | compound ht hx => exact .compound (htens.1 ht) hx
    | single hx hnot => exact .single hx fun tens ones ht => hnot tens ones (htens.2 ht)
  · intro h
    cases h with
    | numeral hx hn => exact .numeral hx hn
    | compound ht hx => exact .compound (htens.2 ht) hx
    | single hx hnot => exact .single hx fun tens ones ht => hnot tens ones (htens.1 ht)

/-- A text mentions what its two parts mention. -/
theorem counted_append (hu : WordTable u) (hbreak : Break u.isWord l r) (hclosed : Closed u l)
    {n : Nat} : Counted u (l ++ r) n ↔ Counted u l n ∨ Counted u r n := by
  constructor
  · intro h
    cases h with
    | pair htext h hx =>
        rcases h.cut hu htext hx.valueWord hbreak hclosed with ⟨t, hl, rfl⟩ | ⟨t, rfl, hr⟩
        · exact Or.inl (.pair hl ((Pair.append_iff hu (by rw [← hl]; exact hbreak)).1 h) hx)
        · rw [List.append_assoc, List.append_assoc, List.append_assoc] at hr
          have hbreak' := hbreak
          rw [hr] at hbreak'
          exact Or.inr (.pair (by simp [hr]) ((Pair.prepend_iff hbreak').1 h)
            ((headCount_append_iff hu hr hbreak hclosed).1 hx))
    | adverb htext h hw =>
        rcases h.cut htext.symm hbreak with ⟨t, hl, rfl⟩ | ⟨t, rfl, hr⟩
        · exact Or.inl (.adverb hl ((Stands.append_iff (by rw [← hl]; exact hbreak)).1 h) hw)
        · have hbreak' := hbreak
          rw [hr, List.append_assoc] at hbreak'
          exact Or.inr (.adverb hr ((Stands.prepend_iff hbreak').1 h) hw)
  · rintro (h | h)
    · cases h with
      | pair htext h hx =>
          subst htext
          exact .pair (by simp) ((Pair.append_iff hu hbreak).2 h) hx
      | adverb htext h hw =>
          subst htext
          exact .adverb (by simp) ((Stands.append_iff hbreak).2 h) hw
    · cases h with
      | pair htext h hx =>
          rw [List.append_assoc, List.append_assoc, List.append_assoc] at htext
          have hx' := (headCount_append_iff hu htext hbreak hclosed).2 hx
          subst htext
          exact .pair (by simp) ((Pair.prepend_iff hbreak).2 h) hx'
      | adverb htext h hw =>
          rw [List.append_assoc] at htext
          subst htext
          exact .adverb (by simp) ((Stands.prepend_iff hbreak).2 h) hw

end Recommendations
end HiddenSteps
