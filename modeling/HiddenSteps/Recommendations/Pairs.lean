import HiddenSteps.Recommendations.NumberWords
import HiddenSteps.Text.Standing

/-!
# Pairs — a number in front of a keyword

A `Pair` is what the patterns of `Validate` look for: a head, spaces and a keyword, standing in a
text.  A word of the text is a part of the pair or lies apart from it (`Pair.place`), so two pairs of
one text are the same or lie apart (`Pair.eq_or_apart`).
-/

namespace HiddenSteps
namespace Recommendations

open Text

/-- The head `x`, the spaces `s` and the keyword `k` between `pre` and `post`. -/
structure Pair (u : UnicodeClasses) (pre x s k post : List Char) : Prop where
  head : Head u x
  spaces : ∀ c ∈ s, u.isSpace c = true
  keyword : Keyword k
  before : pre.getLast?.any u.isWord = false
  behind : post.head?.any u.isWord = false

namespace Pair

variable {u : UnicodeClasses} {pre x s k post pre' x' s' k' post' w' : List Char}

section Words

variable (hu : WordTable u) (h : Pair u pre x s k post)

include hu h

theorem apart_of_mem : ∀ c ∈ s, u.isWord c = false := by
  intro c hc
  exact hu.space_apart c (h.spaces c hc)

/-- A head that touches its keyword is one word with it. -/
theorem stands_whole : Stands u.isWord pre (x ++ k) post := by
  refine ⟨by simp [h.head.ne_nil], fun c hc => ?_, h.before, h.behind⟩
  rcases List.mem_append.1 hc with hc | hc
  · exact h.head.word c hc
  · exact h.keyword.word hu c hc

theorem stands_head (hs : s ≠ []) : Stands u.isWord pre x (s ++ k ++ post) := by
  refine ⟨h.head.ne_nil, h.head.word, h.before, ?_⟩
  rw [List.append_assoc, head_any_append, if_neg hs]
  exact head_any_of_all (h.apart_of_mem hu)

theorem stands_keyword (hs : s ≠ []) : Stands u.isWord (pre ++ x ++ s) k post := by
  refine ⟨h.keyword.ne_nil, h.keyword.word hu, ?_, h.behind⟩
  rw [getLast_any_append, if_neg hs]
  exact getLast_any_of_all (h.apart_of_mem hu)

end Words

/-- Where a standing word lies, compared with a pair of the same text. -/
inductive Place (pre x s k pre' w' : List Char) : Prop
  | whole (hs : s = []) (hpre : pre' = pre) (hw : w' = x ++ k)
  | head (hs : s ≠ []) (hpre : pre' = pre) (hw : w' = x)
  | keyword (hs : s ≠ []) (hpre : pre' = pre ++ x ++ s) (hw : w' = k)
  | before (t : List Char) (ht : pre = pre' ++ w' ++ t)
  | behind (t : List Char) (ht : pre' = pre ++ x ++ s ++ k ++ t)

theorem place (hu : WordTable u) (h : Pair u pre x s k post)
    (hw : Stands u.isWord pre' w' post')
    (htext : pre ++ x ++ s ++ k ++ post = pre' ++ w' ++ post') : Place pre x s k pre' w' := by
  by_cases hs : s = []
  · have htext' : pre ++ (x ++ k) ++ post = pre' ++ w' ++ post' := by simpa [hs] using htext
    rcases (h.stands_whole hu).eq_or_apart hw htext' with ⟨hpre, hword, -⟩ | ⟨t, ht⟩ | ⟨t, ht⟩
    · exact .whole hs hpre hword
    · exact .before t ht
    · exact .behind t (by simpa [hs] using ht)
  · have htext' : pre ++ x ++ (s ++ k ++ post) = pre' ++ w' ++ post' := by simpa using htext
    rcases (h.stands_head hu hs).eq_or_apart hw htext' with ⟨hpre, hword, -⟩ | ⟨t, ht⟩ | ⟨t, ht⟩
    · exact .head hs hpre hword
    · exact .before t ht
    · rcases (h.stands_keyword hu hs).eq_or_apart hw htext with
        ⟨hpre, hword, -⟩ | ⟨t', ht'⟩ | ⟨t', ht'⟩
      · exact .keyword hs hpre hword
      · -- there is no word between the head and the keyword
        have hgap : s = t ++ w' ++ t' := by
          rw [ht] at ht'
          simpa using ht'
        obtain ⟨c, hc⟩ := List.exists_mem_of_ne_nil _ hw.ne_nil
        have hfalse := h.apart_of_mem hu c (by rw [hgap]; simp [hc])
        rw [hw.word c hc] at hfalse
        cases hfalse
      · exact .behind t' ht'

/-- Behind its head a pair can be taken apart in one way only. -/
theorem rest_inj (hu : WordTable u) (h : Pair u pre x s k post) (h' : Pair u pre' x' s' k' post')
    (hrest : s ++ (k ++ post) = s' ++ (k' ++ post')) : s' = s ∧ k' = k := by
  have hstop : ∀ {k post : List Char}, Keyword k →
      (k ++ post).head?.any (fun c => !u.isWord c) = false := by
    intro k post hk
    obtain ⟨c, cs, hcs⟩ := List.exists_cons_of_ne_nil hk.ne_nil
    have hc := hk.word hu c (by rw [hcs]; exact List.mem_cons_self)
    simp [hcs, hc]
  have hgap : ∀ {s : List Char}, (∀ c ∈ s, u.isWord c = false) → ∀ c ∈ s, (!u.isWord c) = true := by
    intro s hs c hc
    rw [hs c hc]
    rfl
  rcases run_inj hrest (hgap (h.apart_of_mem hu)) (hgap (h'.apart_of_mem hu))
    (hstop h.keyword) (hstop h'.keyword) with ⟨rfl, hkeyword⟩
  rcases run_inj hkeyword (h.keyword.word hu) (h'.keyword.word hu) h.behind h'.behind with ⟨rfl, -⟩
  exact ⟨rfl, rfl⟩

/-- A pair that does not start before another one is the same or lies behind it. -/
theorem eq_or_behind (hu : WordTable u) (h : Pair u pre x s k post)
    (h' : Pair u pre' x' s' k' post')
    (htext : pre ++ x ++ s ++ k ++ post = pre' ++ x' ++ s' ++ k' ++ post')
    (hle : byteLen pre ≤ byteLen pre') :
    (pre' = pre ∧ x' = x ∧ s' = s ∧ k' = k) ∨ ∃ t, pre' = pre ++ x ++ s ++ k ++ t := by
  have hnot : ∀ {w t : List Char}, w ≠ [] → pre ≠ pre' ++ w ++ t := by
    rintro w t hne rfl
    apply hne
    apply byteLen_eq_zero
    simp only [byteLen_append] at hle
    omega
  by_cases hs' : s' = []
  · have hw := h'.stands_whole hu
    have htext' : pre ++ x ++ s ++ k ++ post = pre' ++ (x' ++ k') ++ post' := by
      simpa [hs'] using htext
    cases h.place hu hw htext' with
    | whole hs hpre hword =>
        -- the longer keyword would end in the shorter one
        have hkeyword : k' = k := by
          rcases List.append_eq_append_iff.1 hword with ⟨t, -, hk⟩ | ⟨t, -, hk⟩
          · exact (h.keyword.eq_of_suffix h'.keyword ⟨t, hk.symm⟩).symm
          · exact h'.keyword.eq_of_suffix h.keyword ⟨t, hk.symm⟩
        rw [hkeyword] at hword
        exact Or.inl ⟨hpre, List.append_cancel_right hword, hs'.trans hs.symm, hkeyword⟩
    | head hs hpre hword =>
        exact absurd ⟨x', hword⟩ (h.head.apart k' h'.keyword)
    | keyword hs hpre hword =>
        have hk := h'.keyword.eq_of_suffix h.keyword ⟨x', hword⟩
        rw [hk] at hword
        exact absurd (by simpa using hword) h'.head.ne_nil
    | before t ht => exact absurd ht (hnot hw.ne_nil)
    | behind t ht => exact Or.inr ⟨t, ht⟩
  · have hw := h'.stands_head hu hs'
    have htext' : pre ++ x ++ s ++ k ++ post = pre' ++ x' ++ (s' ++ k' ++ post') := by
      simpa using htext
    cases h.place hu hw htext' with
    | whole hs hpre hword =>
        exact absurd ⟨x, hword.symm⟩ (h'.head.apart k h.keyword)
    | head hs hpre hword =>
        subst hpre hword
        exact Or.inl ⟨rfl, rfl, h.rest_inj hu h' (by simpa using htext)⟩
    | keyword hs hpre hword =>
        exact absurd (hword ▸ List.suffix_refl _) (h'.head.apart k h.keyword)
    | before t ht => exact absurd ht (hnot hw.ne_nil)
    | behind t ht => exact Or.inr ⟨t, ht⟩

/-- Two pairs of one text are the same, or one of them ends before the other starts. -/
theorem eq_or_apart (hu : WordTable u) (h : Pair u pre x s k post)
    (h' : Pair u pre' x' s' k' post')
    (htext : pre ++ x ++ s ++ k ++ post = pre' ++ x' ++ s' ++ k' ++ post') :
    (pre' = pre ∧ x' = x ∧ s' = s ∧ k' = k) ∨ (∃ t, pre = pre' ++ x' ++ s' ++ k' ++ t) ∨
      ∃ t, pre' = pre ++ x ++ s ++ k ++ t := by
  rcases Nat.le_total (byteLen pre) (byteLen pre') with hle | hle
  · rcases h.eq_or_behind hu h' htext hle with hsame | hbehind
    · exact Or.inl hsame
    · exact Or.inr (Or.inr hbehind)
  · rcases h'.eq_or_behind hu h htext.symm hle with ⟨hpre, hx, hs, hk⟩ | hbehind
    · exact Or.inl ⟨hpre.symm, hx.symm, hs.symm, hk.symm⟩
    · exact Or.inr (Or.inl hbehind)

/-- A pair that ends in front of a word and the character behind it ends in front of the word. -/
theorem before_word (hu : WordTable u) (h : Pair u pre x s k post) {T t : List Char} {j : Char}
    (hT : Head u T) (hword : Stands u.isWord pre' T post')
    (htext : pre ++ x ++ s ++ k ++ post = pre' ++ T ++ post')
    (hends : pre' ++ T ++ [j] = pre ++ x ++ s ++ k ++ t) :
    ∃ t', pre' = pre ++ x ++ s ++ k ++ t' := by
  have hk : 0 < k.length := List.length_pos_iff.2 h.keyword.ne_nil
  cases h.place hu hword htext with
  | whole hs hpre hw => exact absurd ⟨x, hw.symm⟩ (hT.apart k h.keyword)
  | head hs hpre hw =>
      subst hpre hw
      have hj : [j] = s ++ k ++ t := by simpa using hends
      have hlen := congrArg List.length hj
      have hs : 0 < s.length := List.length_pos_iff.2 hs
      simp only [List.length_append, List.length_singleton] at hlen
      omega
  | keyword hs hpre hw => exact absurd (hw ▸ List.suffix_refl _) (hT.apart k h.keyword)
  | before t' ht' =>
      have hj : [j] = t' ++ x ++ s ++ k ++ t := by
        rw [ht'] at hends
        simpa using hends
      have hlen := congrArg List.length hj
      have hx : 0 < x.length := List.length_pos_iff.2 h.head.ne_nil
      simp only [List.length_append, List.length_singleton] at hlen
      omega
  | behind t' ht' => exact ⟨t', ht'⟩

end Pair

/-! ## Compounds -/

def Joiner (j : Char) : Prop :=
  j = '-' ∨ j = ' '

theorem Joiner.apart {j : Char} (h : Joiner j) (u : UnicodeClasses) : u.isWord j = false := by
  rcases h with rfl | rfl
  · rw [u.word_ascii _ (by decide)]
    rfl
  · rw [u.word_ascii _ (by decide)]
    rfl

/-- A pair with a tens word and a joiner in front of it. -/
structure Compound (u : UnicodeClasses) (pre T : List Char) (j : Char) (x s k post : List Char) :
    Prop where
  tens : Head u T
  joiner : Joiner j
  pair : Pair u (pre ++ T ++ [j]) x s k post
  before : pre.getLast?.any u.isWord = false

namespace Compound

variable {u : UnicodeClasses} {pre T x s k post pre' T' x' s' k' post' : List Char} {j j' : Char}

theorem stands_tens (h : Compound u pre T j x s k post) :
    Stands u.isWord pre T ([j] ++ x ++ s ++ k ++ post) :=
  ⟨h.tens.ne_nil, h.tens.word, h.before, by simpa using h.joiner.apart u⟩

/-- A compound with its pair behind another compound lies behind it. -/
theorem behind_of_pair (hu : WordTable u) (h : Compound u pre T j x s k post)
    (h' : Compound u pre' T' j' x' s' k' post')
    (htext : pre ++ T ++ [j] ++ x ++ s ++ k ++ post = pre' ++ T' ++ [j'] ++ x' ++ s' ++ k' ++ post')
    (hbehind : ∃ t, pre' ++ T' ++ [j'] = pre ++ T ++ [j] ++ x ++ s ++ k ++ t) :
    ∃ t, pre' = pre ++ T ++ [j] ++ x ++ s ++ k ++ t := by
  rcases hbehind with ⟨t, ht⟩
  exact h.pair.before_word hu h'.tens h'.stands_tens (by simpa using htext) ht

/-- Two compounds of one text are the same, or one of them ends before the other starts. -/
theorem eq_or_apart (hu : WordTable u) (h : Compound u pre T j x s k post)
    (h' : Compound u pre' T' j' x' s' k' post')
    (htext : pre ++ T ++ [j] ++ x ++ s ++ k ++ post =
      pre' ++ T' ++ [j'] ++ x' ++ s' ++ k' ++ post') :
    (pre' = pre ∧ T' = T ∧ j' = j ∧ x' = x ∧ s' = s ∧ k' = k) ∨
      (∃ t, pre = pre' ++ T' ++ [j'] ++ x' ++ s' ++ k' ++ t) ∨
      ∃ t, pre' = pre ++ T ++ [j] ++ x ++ s ++ k ++ t := by
  rcases h.pair.eq_or_apart hu h'.pair htext with ⟨hpre, rfl, rfl, rfl⟩ | hbefore | hbehind
  · -- the tens words end at the same place
    rcases List.append_inj' hpre rfl with ⟨hends, hj⟩
    have htens : pre ++ T ++ ([j] ++ x' ++ s' ++ k' ++ post) =
        pre' ++ T' ++ ([j'] ++ x' ++ s' ++ k' ++ post') := by simpa using htext
    have hne := h.tens.ne_nil
    have hne' := h'.tens.ne_nil
    rcases h.stands_tens.eq_or_apart h'.stands_tens htens with ⟨rfl, rfl, -⟩ | ⟨t, ht⟩ | ⟨t, ht⟩
    · exact Or.inl ⟨rfl, rfl, by simpa using hj, rfl, rfl, rfl⟩
    · rw [ht] at hends
      simp [hne] at hends
    · rw [ht] at hends
      simp [hne'] at hends
  · exact Or.inr (Or.inl (h'.behind_of_pair hu h htext.symm hbefore))
  · exact Or.inr (Or.inr (h.behind_of_pair hu h' htext hbehind))

/-- A pair inside a compound is the pair of the compound. -/
theorem pair_of_inside (hu : WordTable u) (h : Compound u pre T j x s k post)
    (h' : Pair u pre' x' s' k' post')
    (htext : pre ++ T ++ [j] ++ x ++ s ++ k ++ post = pre' ++ x' ++ s' ++ k' ++ post')
    (hstart : byteLen pre ≤ byteLen pre')
    (hstop : byteLen (pre' ++ x' ++ s' ++ k') ≤ byteLen (pre ++ T ++ [j] ++ x ++ s ++ k)) :
    pre' = pre ++ T ++ [j] ∧ x' = x ∧ s' = s ∧ k' = k := by
  have hpos : 0 < byteLen k' := Nat.pos_of_ne_zero fun hzero =>
    h'.keyword.ne_nil (byteLen_eq_zero hzero)
  rcases h.pair.eq_or_apart hu h' htext with hsame | ⟨t, ht⟩ | ⟨t, ht⟩
  · exact hsame
  · have htens : pre' ++ x' ++ s' ++ k' ++ post' = pre ++ T ++ ([j] ++ x ++ s ++ k ++ post) := by
      simpa using htext.symm
    rcases h'.before_word hu h.tens h.stands_tens htens ht with ⟨t', rfl⟩
    simp only [byteLen_append] at hstart
    omega
  · rw [ht] at hstop
    simp only [byteLen_append] at hstop
    omega

end Compound

end Recommendations
end HiddenSteps
