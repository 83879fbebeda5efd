import HiddenSteps.Recommendations.Pairs

/-!
# Mentions — the counts that are read off a narrative

The patterns of `Validate` read pairs, compounds and the words once and twice.  Their readings lie
apart, so every one of them is reported, and `mentionedCounts_iff` says which counts come out.
-/

namespace HiddenSteps
namespace Recommendations

open Text
open Text.Pattern

variable {u : UnicodeClasses} {text pre w post : List Char} {gs : List (Nat × Span)}

/-! ## Readings -/

theorem vocabulary_ascii {s : String} (hs : s ∈ vocabulary) : ∀ c ∈ s.toList, c.toNat < 128 := by
  intro c hc
  exact (lower_ascii ((vocabulary_letters s hs).2 c hc).1).1

theorem reads_anyWord {s : String} {ss : List String} (hss : s :: ss ⊆ vocabulary) :
    Reads (anyWord s ss) pre w post gs ↔ gs = [] ∧ ∃ t ∈ s :: ss, Spells t w := by
  have hmap : caseless s :: ss.map caseless = (s :: ss).map caseless := rfl
  rw [anyWord, reads_any, hmap]
  constructor
  · rintro ⟨q, hq, hread⟩
    rcases List.mem_map.1 hq with ⟨t, ht, rfl⟩
    rcases (reads_caseless (vocabulary_ascii (hss ht))).1 hread with ⟨hgs, hspells⟩
    exact ⟨hgs, t, ht, hspells⟩
  · rintro ⟨hgs, t, ht, hspells⟩
    refine ⟨caseless t, List.mem_map_of_mem ht, ?_⟩
    exact (reads_caseless (vocabulary_ascii (hss ht))).2 ⟨hgs, hspells⟩

theorem reads_occurrenceKeyword {i : Nat} :
    Reads (occurrenceKeyword i) pre w post gs ↔
      Keyword w ∧ gs = [(i, ⟨byteLen pre, byteLen (pre ++ w)⟩)] := by
  have hread : ∀ gs', Reads (anyWord "times" ["occurrences", "instances"]) pre w post gs' ↔
      gs' = [] ∧ Keyword w := fun gs' => reads_anyWord keywords_subset
  constructor
  · rintro ⟨gs', rfl, h⟩
    rcases (hread gs').1 h with ⟨rfl, hk⟩
    exact ⟨hk, rfl⟩
  · rintro ⟨hk, rfl⟩
    exact ⟨[], rfl, (hread []).2 ⟨rfl, hk⟩⟩

/-- Spaces, a keyword and the end of a word. -/
theorem reads_tail (hu : WordTable u) {i : Nat} :
    Reads (cat [star (cls u.isSpace), occurrenceKeyword i, wordBoundary u.isWord]) pre w post gs ↔
      ∃ s k, w = s ++ k ∧ (∀ c ∈ s, u.isSpace c = true) ∧ Keyword k ∧
        post.head?.any u.isWord = false ∧
        gs = [(i, ⟨byteLen (pre ++ s), byteLen (pre ++ s ++ k)⟩)] := by
  simp only [reads_cat_cons, reads_cat_singleton]
  constructor
  · rintro ⟨s, _, _, _, rfl, rfl, hs, k, _, _, _, rfl, rfl, hk, ⟨rfl, rfl⟩, hbound⟩
    rcases reads_star_cls.1 hs with ⟨hspaces, rfl⟩
    rcases reads_occurrenceKeyword.1 hk with ⟨hkeyword, rfl⟩
    refine ⟨s, k, by simp, hspaces, hkeyword, ?_, by simp⟩
    rw [any_getLast_append hkeyword.ne_nil (hkeyword.word hu)] at hbound
    simpa using hbound.symm
  · rintro ⟨s, k, rfl, hspaces, hkeyword, hpost, rfl⟩
    refine ⟨s, k, [], _, rfl, (List.append_nil _).symm, reads_star_cls.2 ⟨hspaces, rfl⟩, ?_⟩
    refine ⟨k, [], _, [], (List.append_nil _).symm, rfl,
      reads_occurrenceKeyword.2 ⟨hkeyword, rfl⟩, ⟨rfl, rfl⟩, ?_⟩
    rw [any_getLast_append hkeyword.ne_nil (hkeyword.word hu), hpost]
    exact Bool.true_eq_false.mp.mt id

/-- A head of some kind, spaces and a keyword. -/
theorem reads_pair (hu : WordTable u) {p : Text.Pattern} {P : List Char → Prop}
    (hp : ∀ pre w post gs, Reads p pre w post gs ↔ gs = [] ∧ P w) (hP : ∀ x, P x → Head u x) :
    Reads (cat [wordBoundary u.isWord, group 1 p, star (cls u.isSpace), occurrenceKeyword 2,
      wordBoundary u.isWord]) pre w post gs ↔
      ∃ x s k, w = x ++ s ++ k ∧ P x ∧ Pair u pre x s k post ∧
        gs = [(2, ⟨byteLen (pre ++ x ++ s), byteLen (pre ++ x ++ s ++ k)⟩),
          (1, ⟨byteLen pre, byteLen (pre ++ x)⟩)] := by
  have htail := @reads_tail u
  rw [reads_cat_cons, reads_cat_cons]
  constructor
  · rintro ⟨_, _, _, _, rfl, rfl, ⟨⟨rfl, rfl⟩, hbound⟩, x, _, _, _, rfl, rfl, ⟨gs', rfl, hx⟩, hw⟩
    rcases (hp _ _ _ _).1 hx with ⟨rfl, hPx⟩
    rcases (htail hu).1 hw with ⟨s, k, rfl, hs, hk, hpost, rfl⟩
    have hhead := hP x hPx
    refine ⟨x, s, k, by simp, hPx, ⟨hhead, hs, hk, ?_, hpost⟩, by simp⟩
    rw [List.append_assoc, any_head_append hhead.ne_nil hhead.word] at hbound
    simpa using hbound
  · rintro ⟨x, s, k, rfl, hPx, h, rfl⟩
    refine ⟨[], x ++ s ++ k, [], _, rfl, (List.append_nil _).symm, ⟨⟨rfl, rfl⟩, ?_⟩, ?_⟩
    · rw [List.append_assoc, List.append_assoc, any_head_append h.head.ne_nil h.head.word, h.before]
      exact Bool.false_ne_true
    · refine ⟨x, s ++ k, [(1, _)], [(2, _)], by simp, ?_, ⟨[], rfl, (hp _ _ _ _).2 ⟨rfl, hPx⟩⟩,
        (htail hu).2 ⟨s, k, rfl, h.spaces, h.keyword, h.behind, rfl⟩⟩
      simp

/-- A number of tens and a unit with a joiner between them, spaces and a keyword. -/
theorem reads_spelledCompound (hu : WordTable u) :
    Reads (spelledCompound u) pre w post gs ↔
      ∃ T j x s k, w = T ++ [j] ++ x ++ s ++ k ∧
        (∃ t ∈ tensNumbers.map Prod.fst, Spells t T) ∧
        (∃ t ∈ unitNumbers.map Prod.fst, Spells t x) ∧ Compound u pre T j x s k post ∧
        gs = [(3, ⟨byteLen (pre ++ T ++ [j] ++ x ++ s),
            byteLen (pre ++ T ++ [j] ++ x ++ s ++ k)⟩),
          (2, ⟨byteLen (pre ++ T ++ [j]), byteLen (pre ++ T ++ [j] ++ x)⟩),
          (1, ⟨byteLen pre, byteLen (pre ++ T)⟩)] := by
  have hread : ∀ {s ss pre w post gs}, s :: ss ⊆ countWords →
      (Reads (anyWord s ss) pre w post gs ↔ gs = [] ∧ ∃ t ∈ s :: ss, Spells t w) :=
    fun hss => reads_anyWord fun t ht => countWords_subset (hss ht)
  have hhead : ∀ {ss : List String} {x : List Char}, ss ⊆ countWords →
      (∃ t ∈ ss, Spells t x) → Head u x := by
    rintro ss x hss ⟨t, ht, hx⟩
    exact CountWord.head ⟨t, hss ht, hx⟩ hu
  have htens : "twenty" :: tensWords ⊆ countWords := by decide
  have hunits : "one" :: onesWords ⊆ countWords := by decide
  have htens' : tensNumbers.map Prod.fst = "twenty" :: tensWords := rfl
  have hunits' : unitNumbers.map Prod.fst = "one" :: onesWords := rfl
  have htail := @reads_tail u
  rw [htens', hunits', spelledCompound, reads_cat_cons, reads_cat_cons, reads_cat_cons,
    reads_cat_cons]
  constructor
  · rintro ⟨_, _, _, _, rfl, rfl, ⟨⟨rfl, rfl⟩, hbound⟩, T, _, _, _, rfl, rfl,
      ⟨_, rfl, hreadT⟩, _, _, _, _, rfl, rfl, ⟨j, hj, rfl, rfl⟩, x, _, _, _, rfl, rfl,
      ⟨_, rfl, hreadx⟩, hw⟩
    rcases (hread htens).1 hreadT with ⟨rfl, hT⟩
    rcases (hread hunits).1 hreadx with ⟨rfl, hx⟩
    rcases (htail hu).1 hw with ⟨s, k, rfl, hs, hk, hpost, rfl⟩
    have hheadT := hhead htens hT
    have hjoiner : Joiner j := by simpa [Joiner] using hj
    rw [List.append_assoc, any_head_append hheadT.ne_nil hheadT.word] at hbound
    refine ⟨T, j, x, s, k, by simp, hT, hx, ⟨hheadT, hjoiner, ?_, by simpa using hbound⟩, by simp⟩
    exact ⟨hhead hunits hx, hs, hk, by simpa using hjoiner.apart u, hpost⟩
  · rintro ⟨T, j, x, s, k, rfl, hT, hx, h, rfl⟩
    have hj : (j == '-' || j == ' ') = true := by simpa [Joiner] using h.joiner
    refine ⟨[], T ++ [j] ++ x ++ s ++ k, [], _, rfl, (List.append_nil _).symm,
      ⟨⟨rfl, rfl⟩, ?_⟩, ?_⟩
    · have hfirst := any_head_append (r := [j] ++ x ++ s ++ k ++ post) h.tens.ne_nil h.tens.word
      have htext : T ++ [j] ++ x ++ s ++ k ++ post = T ++ ([j] ++ x ++ s ++ k ++ post) := by simp
      rw [htext, hfirst, h.before]
      exact Bool.false_ne_true
    · refine ⟨T, [j] ++ (x ++ (s ++ k)), [(1, _)], [(3, _), (2, _)], by simp, ?_,
        ⟨[], rfl, (hread htens).2 ⟨rfl, hT⟩⟩, [j], x ++ (s ++ k), [], [(3, _), (2, _)], rfl, rfl,
        ⟨j, hj, rfl, rfl⟩, x, s ++ k, [(2, _)], [(3, _)], rfl, rfl,
        ⟨[], rfl, (hread hunits).2 ⟨rfl, hx⟩⟩,
        (htail hu).2 ⟨s, k, rfl, h.pair.spaces, h.pair.keyword, h.pair.behind, rfl⟩⟩
      simp

/-! ## Readings lie apart -/

/-- A decimal numeral in front of a keyword. -/
theorem reads_occurrenceMention (hu : WordTable u) :
    Reads (occurrenceMention u) pre w post gs ↔
      ∃ x s k, w = x ++ s ++ k ∧ Numeral u x ∧ Pair u pre x s k post ∧
        gs = [(2, ⟨byteLen (pre ++ x ++ s), byteLen (pre ++ x ++ s ++ k)⟩),
          (1, ⟨byteLen pre, byteLen (pre ++ x)⟩)] := by
  refine reads_pair hu (fun pre w post gs => ?_) fun x hx => hx.head
  rw [reads_atLeast_cls, Numeral, ← List.length_pos_iff]
  constructor
  · rintro ⟨hlen, hall, hgs⟩
    exact ⟨hgs, hlen, hall⟩
  · rintro ⟨hgs, hlen, hall⟩
    exact ⟨hlen, hall, hgs⟩

/-- A number word in front of a keyword. -/
theorem reads_spelledSingle (hu : WordTable u) :
    Reads (spelledSingle u) pre w post gs ↔
      ∃ x s k, w = x ++ s ++ k ∧ (∃ t ∈ spelledNumbers.map Prod.fst, Spells t x) ∧
        Pair u pre x s k post ∧
        gs = [(2, ⟨byteLen (pre ++ x ++ s), byteLen (pre ++ x ++ s ++ k)⟩),
          (1, ⟨byteLen pre, byteLen (pre ++ x)⟩)] := by
  have hsub := spelledNumbers_subset
  have hwords : spelledNumbers.map Prod.fst =
      "one" :: (onesWords ++ teenWords ++ "twenty" :: tensWords) := rfl
  refine reads_pair hu (fun pre w post gs => ?_) ?_
  · rw [hwords] at hsub ⊢
    exact reads_anyWord fun t ht => countWords_subset (hsub ht)
  · rintro x ⟨t, ht, hx⟩
    exact CountWord.head ⟨t, hsub ht, hx⟩ hu

/-- A pattern that reads pairs reads them apart. -/
theorem readsApart_of_pairs (hu : WordTable u) {p : Text.Pattern} {P : List Char → Prop}
    {groups : List Char → List Char → List Char → List Char → List (Nat × Span)}
    (hp : ∀ {pre w post gs}, Reads p pre w post gs ↔
      ∃ x s k, w = x ++ s ++ k ∧ P x ∧ Pair u pre x s k post ∧ gs = groups pre x s k) :
    ReadsApart p text := by
  constructor
  · intro pre w post gs _ hw
    rcases hp.1 hw with ⟨x, s, k, rfl, -, h, -⟩
    simp [h.head.ne_nil]
  · intro pre w post gs pre' w' post' gs' htext htext' hw hw'
    rcases hp.1 hw with ⟨x, s, k, rfl, -, h, rfl⟩
    rcases hp.1 hw' with ⟨x', s', k', rfl, -, h', rfl⟩
    have hsame : pre ++ x ++ s ++ k ++ post = pre' ++ x' ++ s' ++ k' ++ post' := by
      simpa using htext.symm.trans htext'
    rcases h.eq_or_apart hu h' hsame with ⟨rfl, rfl, rfl, rfl⟩ | ⟨t, rfl⟩ | ⟨t, rfl⟩
    · exact Or.inl ⟨rfl, rfl, rfl⟩
    · exact Or.inr (Or.inl ⟨t, by simp⟩)
    · exact Or.inr (Or.inr ⟨t, by simp⟩)

theorem readsApart_spelledCompound (hu : WordTable u) : ReadsApart (spelledCompound u) text := by
  constructor
  · intro pre w post gs _ hw
    rcases (reads_spelledCompound hu).1 hw with ⟨T, j, x, s, k, rfl, -, -, h, -⟩
    simp
  · intro pre w post gs pre' w' post' gs' htext htext' hw hw'
    rcases (reads_spelledCompound hu).1 hw with ⟨T, j, x, s, k, rfl, -, -, h, rfl⟩
    rcases (reads_spelledCompound hu).1 hw' with ⟨T', j', x', s', k', rfl, -, -, h', rfl⟩
    have hsame : pre ++ T ++ [j] ++ x ++ s ++ k ++ post =
        pre' ++ T' ++ [j'] ++ x' ++ s' ++ k' ++ post' := by
      simpa using htext.symm.trans htext'
    rcases h.eq_or_apart hu h' hsame with ⟨rfl, rfl, rfl, rfl, rfl, rfl⟩ | ⟨t, rfl⟩ | ⟨t, rfl⟩
    · exact Or.inl ⟨rfl, rfl, rfl⟩
    · exact Or.inr (Or.inl ⟨t, by simp⟩)
    · exact Or.inr (Or.inr ⟨t, by simp⟩)

/-- The words once and twice, standing in the text. -/
theorem reads_onceOrTwice (hu : WordTable u) :
    Reads (onceOrTwice u) pre w post gs ↔
      gs = [] ∧ Stands u.isWord pre w post ∧ (Spells "once" w ∨ Spells "twice" w) := by
  have hword : ∀ {s : String}, s ∈ countWords →
      (Reads (cat [wordBoundary u.isWord, caseless s, wordBoundary u.isWord]) pre w post gs ↔
        gs = [] ∧ Stands u.isWord pre w post ∧ Spells s w) := by
    intro s hs
    have hread := fun {pre w post gs} => @reads_caseless pre w post gs s
      (vocabulary_ascii (countWords_subset hs))
    rw [reads_cat_cons, reads_cat_cons, reads_cat_singleton]
    constructor
    · rintro ⟨_, _, _, _, rfl, rfl, ⟨⟨rfl, rfl⟩, hbefore⟩, w, _, _, _, rfl, rfl, hw,
        ⟨rfl, rfl⟩, hbehind⟩
      rcases hread.1 hw with ⟨rfl, hspells⟩
      have hhead := CountWord.head ⟨s, hs, hspells⟩ hu
      rw [List.append_nil, any_head_append hhead.ne_nil hhead.word] at hbefore
      rw [any_getLast_append hhead.ne_nil hhead.word] at hbehind
      refine ⟨rfl, ?_, by simpa using hspells⟩
      exact ⟨by simpa using hhead.ne_nil, by simpa using hhead.word, by simpa using hbefore,
        by simpa using hbehind.symm⟩
    · rintro ⟨rfl, h, hspells⟩
      refine ⟨[], w, [], [], rfl, rfl, ⟨⟨rfl, rfl⟩, ?_⟩, w, [], [], [], (List.append_nil _).symm,
        rfl, hread.2 ⟨rfl, hspells⟩, ⟨rfl, rfl⟩, ?_⟩
      · rw [any_head_append h.ne_nil h.word, h.before]
        exact Bool.false_ne_true
      · rw [any_getLast_append h.ne_nil h.word, h.behind]
        exact Bool.true_eq_false.mp.mt id
  have honce : "once" ∈ countWords := by decide
  have htwice : "twice" ∈ countWords := by decide
  constructor
  · rintro (hw | hw)
    · rcases (hword honce).1 hw with ⟨hgs, h, hspells⟩
      exact ⟨hgs, h, Or.inl hspells⟩
    · rcases (hword htwice).1 hw with ⟨hgs, h, hspells⟩
      exact ⟨hgs, h, Or.inr hspells⟩
  · rintro ⟨hgs, h, hspells | hspells⟩
    · exact Or.inl ((hword honce).2 ⟨hgs, h, hspells⟩)
    · exact Or.inr ((hword htwice).2 ⟨hgs, h, hspells⟩)

theorem readsApart_onceOrTwice (hu : WordTable u) : ReadsApart (onceOrTwice u) text := by
  constructor
  · intro pre w post gs _ hw
    exact ((reads_onceOrTwice hu).1 hw).2.1.ne_nil
  · intro pre w post gs pre' w' post' gs' htext htext' hw hw'
    rcases (reads_onceOrTwice hu).1 hw with ⟨rfl, h, -⟩
    rcases (reads_onceOrTwice hu).1 hw' with ⟨rfl, h', -⟩
    rcases h.eq_or_apart h' (htext.symm.trans htext') with ⟨hpre, hw, -⟩ | hbefore | hbehind
    · exact Or.inl ⟨hpre, hw, rfl⟩
    · exact Or.inr (Or.inl hbefore)
    · exact Or.inr (Or.inr hbehind)

/-! ## Mentions -/

theorem groupText_of_get {m : Match} {i : Nat} {a v b : List Char} (htext : text = a ++ v ++ b)
    (hget : m.get i = some ⟨byteLen a, byteLen (a ++ v)⟩) : groupText text m i = some v := by
  rw [groupText, hget, Option.bind_some, htext, slice_append]

theorem mem_mentionsInDigits (hu : WordTable u) {c : Mention} :
    c ∈ mentionsInDigits u text ↔ ∃ pre x s k post, text = pre ++ x ++ s ++ k ++ post ∧
      Pair u pre x s k post ∧ Numeral u x ∧ parseU32 x = some c.count ∧
      c.span = ⟨byteLen pre, byteLen (pre ++ x ++ s ++ k)⟩ := by
  have hgroup : ∀ {pre x s k post : List Char}, text = pre ++ x ++ s ++ k ++ post →
      groupText text (.ofReading pre (x ++ s ++ k)
        [(2, ⟨byteLen (pre ++ x ++ s), byteLen (pre ++ x ++ s ++ k)⟩),
          (1, ⟨byteLen pre, byteLen (pre ++ x)⟩)]) 1 = some x := by
    intro pre x s k post htext
    exact groupText_of_get (b := s ++ k ++ post) (by simp [htext]) rfl
  have hreads : ReadsApart (occurrenceMention u) text :=
    readsApart_of_pairs hu (reads_occurrenceMention hu)
  have hmem := fun {m} => hreads.mem_findIter_iff (m := m)
  rw [mentionsInDigits, List.mem_filterMap]
  constructor
  · rintro ⟨m, hm, hc⟩
    rcases hmem.1 hm with ⟨pre, w, post, gs, htext, rfl, hw⟩
    rcases (reads_occurrenceMention hu).1 hw with ⟨x, s, k, rfl, hx, h, rfl⟩
    have htext' : text = pre ++ x ++ s ++ k ++ post := by simpa using htext
    rw [hgroup htext', Option.bind_some] at hc
    rcases Option.map_eq_some_iff.1 hc with ⟨n, hn, rfl⟩
    exact ⟨pre, x, s, k, post, htext', h, hx, hn, by simp [Match.ofReading]⟩
  · rintro ⟨pre, x, s, k, post, htext, h, hx, hn, hspan⟩
    refine ⟨_, hmem.2 ⟨pre, x ++ s ++ k, post, _, by simpa using htext, rfl,
      (reads_occurrenceMention hu).2 ⟨x, s, k, rfl, hx, h, rfl⟩⟩, ?_⟩
    rw [hgroup htext, Option.bind_some, hn, Option.map_some]
    cases c
    simpa [Match.ofReading] using hspan.symm

theorem mem_mentionsInCompounds (hu : WordTable u) {c : Mention} :
    c ∈ mentionsInCompounds u text ↔ ∃ pre T j x s k post tens ones,
      text = pre ++ T ++ [j] ++ x ++ s ++ k ++ post ∧ Compound u pre T j x s k post ∧
      NumberWord tensNumbers T tens ∧ NumberWord unitNumbers x ones ∧ c.count = tens + ones ∧
      c.span = ⟨byteLen pre, byteLen (pre ++ T ++ [j] ++ x ++ s ++ k)⟩ := by
  have hgroups : ∀ {pre T x s k post : List Char} {j : Char} {g : Nat × Span},
      text = pre ++ T ++ [j] ++ x ++ s ++ k ++ post → g.1 = 3 →
      groupText text (.ofReading pre (T ++ [j] ++ x ++ s ++ k)
        [g, (2, ⟨byteLen (pre ++ T ++ [j]), byteLen (pre ++ T ++ [j] ++ x)⟩),
          (1, ⟨byteLen pre, byteLen (pre ++ T)⟩)]) 1 = some T ∧
      groupText text (.ofReading pre (T ++ [j] ++ x ++ s ++ k)
        [g, (2, ⟨byteLen (pre ++ T ++ [j]), byteLen (pre ++ T ++ [j] ++ x)⟩),
          (1, ⟨byteLen pre, byteLen (pre ++ T)⟩)]) 2 = some x := by
    rintro pre T x s k post j ⟨_, span⟩ htext rfl
    constructor
    · exact groupText_of_get (b := [j] ++ x ++ s ++ k ++ post) (by simp [htext]) rfl
    · exact groupText_of_get (b := s ++ k ++ post) (by simp [htext]) rfl
  have hreads : ReadsApart (spelledCompound u) text := readsApart_spelledCompound hu
  have hmem := fun {m} => hreads.mem_findIter_iff (m := m)
  rw [mentionsInCompounds, List.mem_filterMap]
  constructor
  · rintro ⟨m, hm, hc⟩
    rcases hmem.1 hm with ⟨pre, w, post, gs, htext, rfl, hw⟩
    rcases (reads_spelledCompound hu).1 hw with ⟨T, j, x, s, k, rfl, hT, hx, h, rfl⟩
    have htext' : text = pre ++ T ++ [j] ++ x ++ s ++ k ++ post := by simpa using htext
    rcases hgroups htext' (g := (3, _)) rfl with ⟨htens, hones⟩
    rw [htens, hones, Option.bind_some, Option.bind_some] at hc
    rcases Option.bind_eq_some_iff.1 hc with ⟨tens, ht, hc⟩
    rcases Option.map_eq_some_iff.1 hc with ⟨ones, ho, rfl⟩
    refine ⟨pre, T, j, x, s, k, post, tens, ones, htext', h, tensWordValue_iff.1 ht, ?_, rfl,
      by simp [Match.ofReading]⟩
    -- the second word is a unit, so it is none of the teens
    have hapart : ∀ s ∈ unitNumbers.map Prod.fst, ∀ e ∈ teenNumbers, s ≠ e.1 := by
      decide
    rcases onesWordValue_iff.1 ho with ⟨e, he, hn, hlower⟩
    rcases List.mem_append.1 he with he | he
    · exact ⟨e, he, hn, hlower⟩
    · rcases hx with ⟨s, hs, hspells⟩
      have hteen := countWords_subset (teenNumbers_subset (List.mem_map_of_mem he))
      have hunit := countWords_subset (unitNumbers_subset hs)
      have hspells' := spells_of_lowercased hteen hlower
      rw [Spells, map_toLower_of_mem hunit] at hspells
      rw [Spells, map_toLower_of_mem hteen] at hspells'
      exact absurd (String.toList_inj.1 (hspells.symm.trans hspells')) (hapart s hs e he)
  · rintro ⟨pre, T, j, x, s, k, post, tens, ones, htext, h, hT, hx, hcount, hspan⟩
    have hread := (reads_spelledCompound hu).2 ⟨T, j, x, s, k, rfl,
      hT.spells tensNumbers_subset, hx.spells unitNumbers_subset, h, rfl⟩
    refine ⟨_, hmem.2 ⟨pre, T ++ [j] ++ x ++ s ++ k, post, _, by simpa using htext, rfl, hread⟩, ?_⟩
    have hones : onesWordValue x = some ones :=
      onesWordValue_iff.2 (hx.of_subset (List.subset_append_left _ _))
    rcases hgroups htext (g := (3, _)) rfl with ⟨htens, hunit⟩
    rw [htens, hunit, Option.bind_some, Option.bind_some, tensWordValue_iff.2 hT, hones,
      Option.bind_some, Option.map_some, ← hcount]
    cases c
    simpa [Match.ofReading] using hspan.symm

end Recommendations
end HiddenSteps
