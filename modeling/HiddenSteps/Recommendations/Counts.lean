import HiddenSteps.Recommendations.Mentions

/-!
# Counts — which counts a narrative mentions

`Counted u text n` says, without matching anything, that the text mentions the count `n`: by a
numeral, by a compound, by a single number word that is not the end of a compound, or by once and
twice.  `mentionedCounts_iff` proves that these are the counts that `mentionedCounts` finds.
-/

namespace HiddenSteps
namespace Recommendations

open Text

variable {u : UnicodeClasses} {text : List Char}

/-! ## Single words -/

/-- The span lies inside the mention. -/
def Mention.Holds (c : Mention) (s : Span) : Prop :=
  c.span.start ≤ s.start ∧ s.stop ≤ c.span.stop

/-- One single word of the scan. -/
def addSingle (value : Match → Option Nat) (mentions : List Mention) (m : Match) : List Mention :=
  if mentions.any fun c => c.span.start ≤ m.span.start && m.span.stop ≤ c.span.stop then
    mentions
  else
    match value m with
    | some n => mentions ++ [⟨m.span, n⟩]
    | none => mentions

theorem mem_addSingle {value : Match → Option Nat} {mentions : List Mention} {m : Match}
    {c : Mention} : c ∈ addSingle value mentions m ↔ c ∈ mentions ∨
      (value m = some c.count ∧ c.span = m.span ∧ ∀ k ∈ mentions, ¬ k.Holds m.span) := by
  have hheld : (mentions.any fun c => c.span.start ≤ m.span.start && m.span.stop ≤ c.span.stop) =
      true ↔ ∃ k ∈ mentions, k.Holds m.span := by
    simp [Mention.Holds]
  unfold addSingle
  split
  · rename_i hany
    rcases hheld.1 hany with ⟨k, hk, hin⟩
    refine ⟨Or.inl, ?_⟩
    rintro (hc | ⟨-, -, hnone⟩)
    · exact hc
    · exact absurd hin (hnone k hk)
  · rename_i hany
    have hnone : ∀ k ∈ mentions, ¬ k.Holds m.span := fun k hk hin => hany (hheld.2 ⟨k, hk, hin⟩)
    rcases c with ⟨span, count⟩
    cases hvalue : value m with
    | some n =>
        rw [and_iff_left hnone]
        simp [eq_comm, and_comm]
    | none => simp

/-- Reported words lie apart, so a word is left out only for a mention that was there before the
scan. -/
theorem mem_foldl_addSingle {value : Match → Option Nat} {ms : List Match}
    {mentions : List Mention} {c : Mention}
    (happart : ms.Pairwise fun m m' => m.span.stop ≤ m'.span.start)
    (hpos : ∀ m ∈ ms, m.span.start < m.span.stop) :
    c ∈ ms.foldl (addSingle value) mentions ↔ c ∈ mentions ∨ ∃ m ∈ ms, value m = some c.count ∧
      c.span = m.span ∧ ∀ k ∈ mentions, ¬ k.Holds m.span := by
  induction ms generalizing mentions with
  | nil => simp
  | cons m ms ih =>
      rcases List.pairwise_cons.1 happart with ⟨hfirst, hrest⟩
      have hpos' : ∀ m' ∈ ms, m'.span.start < m'.span.stop :=
        fun m' hm' => hpos m' (List.mem_cons_of_mem _ hm')
      -- the word added for `m` holds none of the words behind it
      have hnone : ∀ m' ∈ ms, (∀ k ∈ addSingle value mentions m, ¬ k.Holds m'.span) ↔
          ∀ k ∈ mentions, ¬ k.Holds m'.span := by
        intro m' hm'
        constructor
        · intro h k hk
          exact h k (mem_addSingle.2 (Or.inl hk))
        · intro h k hk
          rcases mem_addSingle.1 hk with hk | ⟨-, hspan, -⟩
          · exact h k hk
          · rintro ⟨-, hstop⟩
            have hle := hfirst m' hm'
            have hlt := hpos' m' hm'
            rw [hspan] at hstop
            omega
      rw [List.foldl_cons, ih hrest hpos', mem_addSingle]
      constructor
      · rintro ((hc | hc) | ⟨m', hm', hvalue, hspan, hk⟩)
        · exact Or.inl hc
        · exact Or.inr ⟨m, List.mem_cons_self, hc⟩
        · exact Or.inr ⟨m', List.mem_cons_of_mem _ hm', hvalue, hspan, (hnone m' hm').1 hk⟩
      · rintro (hc | ⟨m', hm', hvalue, hspan, hk⟩)
        · exact Or.inl (Or.inl hc)
        · rcases List.mem_cons.1 hm' with rfl | hm'
          · exact Or.inl (Or.inr ⟨hvalue, hspan, hk⟩)
          · exact Or.inr ⟨m', hm', hvalue, hspan, (hnone m' hm').2 hk⟩

theorem mem_mentionsInSingles (hu : WordTable u) {mentions : List Mention} {c : Mention} :
    c ∈ mentionsInSingles u text mentions ↔ c ∈ mentions ∨
      ∃ pre x s k post, text = pre ++ x ++ s ++ k ++ post ∧ Pair u pre x s k post ∧
        NumberWord spelledNumbers x c.count ∧
        c.span = ⟨byteLen pre, byteLen (pre ++ x ++ s ++ k)⟩ ∧ ∀ k ∈ mentions, ¬ k.Holds c.span := by
  let value : Match → Option Nat := fun m =>
    (groupText text m 1).bind fun w => (onesWordValue w).or (tensWordValue w)
  have hfold : mentionsInSingles u text mentions =
      (findIter (spelledSingle u) text).foldl (addSingle value) mentions := rfl
  have hvalue : ∀ {pre x s k post : List Char} {g : Nat × Span} {n : Nat},
      text = pre ++ x ++ s ++ k ++ post → g.1 = 2 →
      (value (.ofReading pre (x ++ s ++ k) [g, (1, ⟨byteLen pre, byteLen (pre ++ x)⟩)]) = some n ↔
        NumberWord spelledNumbers x n) := by
    rintro pre x s k post ⟨_, span⟩ n htext rfl
    have hgroup : groupText text (.ofReading pre (x ++ s ++ k)
        [(2, span), (1, ⟨byteLen pre, byteLen (pre ++ x)⟩)]) 1 = some x :=
      groupText_of_get (b := s ++ k ++ post) (by simp [htext]) rfl
    rw [← singleWordValue_iff]
    simp only [value, hgroup, Option.bind_some]
  have hreads : ReadsApart (spelledSingle u) text :=
    readsApart_of_pairs hu (reads_spelledSingle hu)
  have hmem := fun {m} => hreads.mem_findIter_iff (m := m)
  have hpos : ∀ m ∈ findIter (spelledSingle u) text, m.span.start < m.span.stop := by
    intro m hm
    rcases hmem.1 hm with ⟨pre, w, post, gs, htext, rfl, hw⟩
    have hne : byteLen w ≠ 0 := fun hzero => hreads.ne_nil htext hw (byteLen_eq_zero hzero)
    simp only [Match.ofReading, byteLen_append]
    omega
  rw [hfold, mem_foldl_addSingle (findIter_pairwise _ _) hpos]
  refine or_congr_right ?_
  constructor
  · rintro ⟨m, hm, hcount, hspan, hnone⟩
    rcases hmem.1 hm with ⟨pre, w, post, gs, htext, rfl, hw⟩
    rcases (reads_spelledSingle hu).1 hw with ⟨x, s, k, rfl, hx, h, rfl⟩
    have htext' : text = pre ++ x ++ s ++ k ++ post := by simpa using htext
    refine ⟨pre, x, s, k, post, htext', h, (hvalue htext' (g := (2, _)) rfl).1 hcount, ?_, ?_⟩
    · simpa [Match.ofReading] using hspan
    · rw [hspan]
      exact hnone
  · rintro ⟨pre, x, s, k, post, htext, h, hx, hspan, hnone⟩
    have hspan' : c.span = (Match.ofReading pre (x ++ s ++ k) [(2, ⟨byteLen (pre ++ x ++ s),
        byteLen (pre ++ x ++ s ++ k)⟩), (1, ⟨byteLen pre, byteLen (pre ++ x)⟩)]).span := by
      simpa [Match.ofReading] using hspan
    have hread := (reads_spelledSingle hu).2
      ⟨x, s, k, rfl, hx.spells spelledNumbers_subset, h, rfl⟩
    refine ⟨_, hmem.2 ⟨pre, x ++ s ++ k, post, _, by simpa using htext, rfl, hread⟩,
      (hvalue htext (g := (2, _)) rfl).2 hx, hspan', ?_⟩
    rw [← hspan']
    exact hnone

/-! ## Once and twice -/

/-- No letter of the two words has a case beyond ASCII. -/
theorem lowercased_of_spells {s : String} {w : List Char} (hs : s ∈ adverbNumbers.map Prod.fst)
    (hw : Spells s w) : lowercased w = s.toList := by
  have hletters : ∀ s ∈ adverbNumbers.map Prod.fst,
      s.toList.all (fun c => c.toNat < 128 ∧ c ≠ 's' ∧ c ≠ 'k') = true := by decide
  rw [Spells, map_toLower_of_mem (countWords_subset (adverbNumbers_subset hs))] at hw
  rw [lowercased, ← hw]
  refine List.map_congr_left fun c hc => ?_
  have hmem : foldCase c ∈ s.toList := by
    rw [← hw]
    exact List.mem_map_of_mem hc
  rcases List.all_iff_forall_prop.1 (hletters s hs) _ hmem with ⟨hascii, hlong, hkelvin⟩
  exact (toLower_of_foldCase rfl hascii hlong hkelvin).2

theorem mem_mentionsOfOnceOrTwice (hu : WordTable u) {c : Mention} :
    c ∈ mentionsOfOnceOrTwice u text ↔ ∃ pre w post, text = pre ++ w ++ post ∧
      Stands u.isWord pre w post ∧ NumberWord adverbNumbers w c.count ∧
      c.span = ⟨byteLen pre, byteLen (pre ++ w)⟩ := by
  have hspells : ∀ {w : List Char}, (Spells "once" w ∨ Spells "twice" w) ↔
      ∃ s ∈ adverbNumbers.map Prod.fst, Spells s w := by
    intro w
    simp [adverbNumbers]
  have hcount : ∀ {w : List Char} {n : Nat}, (Spells "once" w ∨ Spells "twice" w) →
      ((if some (lowercased w) == some "once".toList then 1 else 2) = n ↔
        NumberWord adverbNumbers w n) := by
    intro w n hw
    rcases hspells.1 hw with ⟨s, hs, hw⟩
    have hlower := lowercased_of_spells hs hw
    simp only [adverbNumbers, List.map_cons, List.map_nil, List.mem_cons, List.not_mem_nil,
      or_false] at hs
    rcases hs with rfl | rfl
    · simp [NumberWord, adverbNumbers, hlower]
    · simp [NumberWord, adverbNumbers, hlower]
  have hslice : ∀ {pre w post : List Char}, text = pre ++ w ++ post →
      (slice text (Match.ofReading pre w []).span.start (Match.ofReading pre w []).span.stop).map
        lowercased = some (lowercased w) := by
    intro pre w post htext
    have happend := slice_append pre w post
    rw [← htext] at happend
    simp only [Match.ofReading, happend, Option.map_some]
  have hreads : ReadsApart (onceOrTwice u) text := readsApart_onceOrTwice hu
  have hmem := fun {m} => hreads.mem_findIter_iff (m := m)
  rw [mentionsOfOnceOrTwice, List.mem_map]
  constructor
  · rintro ⟨m, hm, rfl⟩
    rcases hmem.1 hm with ⟨pre, w, post, gs, htext, rfl, hread⟩
    rcases (reads_onceOrTwice hu).1 hread with ⟨rfl, hstands, hw⟩
    refine ⟨pre, w, post, htext, hstands, (hcount hw).1 ?_, rfl⟩
    simp only [hslice htext]
  · rintro ⟨pre, w, post, htext, hstands, hn, hspan⟩
    have hw := hspells.2 (hn.spells adverbNumbers_subset)
    refine ⟨_, hmem.2 ⟨pre, w, post, [], htext, rfl,
      (reads_onceOrTwice hu).2 ⟨rfl, hstands, hw⟩⟩, ?_⟩
    rcases c with ⟨span, count⟩
    simp only [hslice htext, Mention.mk.injEq]
    exact ⟨hspan.symm, (hcount hw).2 hn⟩

/-! ## Counts -/

/-- The text ends in a number of tens and a joiner. -/
def EndsInTens (u : UnicodeClasses) (pre : List Char) (tens : Nat) : Prop :=
  ∃ pre' T j, pre = pre' ++ T ++ [j] ∧ NumberWord tensNumbers T tens ∧ Joiner j ∧
    pre'.getLast?.any u.isWord = false

/-- The count that a head behind `pre` stands for. -/
inductive HeadCount (u : UnicodeClasses) (pre x : List Char) : Nat → Prop
  | numeral {n : Nat} (hx : Numeral u x) (hn : parseU32 x = some n) : HeadCount u pre x n
  | compound {tens ones : Nat} (htens : EndsInTens u pre tens)
      (hx : NumberWord unitNumbers x ones) : HeadCount u pre x (tens + ones)
  -- the second word of a compound is no count of its own
  | single {n : Nat} (hx : NumberWord spelledNumbers x n)
      (hnot : ∀ tens ones, EndsInTens u pre tens → ¬ NumberWord unitNumbers x ones) :
      HeadCount u pre x n

/-- The text mentions a count. -/
inductive Counted (u : UnicodeClasses) (text : List Char) : Nat → Prop
  | pair {pre x s k post : List Char} {n : Nat} (htext : text = pre ++ x ++ s ++ k ++ post)
      (h : Pair u pre x s k post) (hx : HeadCount u pre x n) : Counted u text n
  | adverb {pre w post : List Char} {n : Nat} (htext : text = pre ++ w ++ post)
      (h : Stands u.isWord pre w post) (hw : NumberWord adverbNumbers w n) : Counted u text n

theorem EndsInTens.compound (hu : WordTable u) {pre x s k post : List Char} {tens : Nat}
    (h : EndsInTens u pre tens) (hpair : Pair u pre x s k post) :
    ∃ pre' T j, pre = pre' ++ T ++ [j] ∧ NumberWord tensNumbers T tens ∧
      Compound u pre' T j x s k post := by
  rcases h with ⟨pre', T, j, rfl, hT, hj, hbefore⟩
  exact ⟨pre', T, j, rfl, hT, hT.head tensNumbers_subset hu, hj, hpair, hbefore⟩

/-- A single word is left out for a compound that ends in it, and for nothing else. -/
theorem not_held_iff (hu : WordTable u) {pre x s k post : List Char} {n : Nat}
    (htext : text = pre ++ x ++ s ++ k ++ post) (h : Pair u pre x s k post)
    (hx : NumberWord spelledNumbers x n) :
    (∀ c ∈ mentionsInDigits u text ++ mentionsInCompounds u text,
      ¬ c.Holds ⟨byteLen pre, byteLen (pre ++ x ++ s ++ k)⟩) ↔
      ∀ tens ones, EndsInTens u pre tens → ¬ NumberWord unitNumbers x ones := by
  constructor
  · intro hnone tens ones htens hones
    rcases htens.compound hu h with ⟨pre', T, j, rfl, hT, hcompound⟩
    let c : Mention := ⟨⟨byteLen pre', byteLen (pre' ++ T ++ [j] ++ x ++ s ++ k)⟩, tens + ones⟩
    have hc : c ∈ mentionsInCompounds u text := (mem_mentionsInCompounds hu).2
      ⟨pre', T, j, x, s, k, post, tens, ones, htext, hcompound, hT, hones, rfl, rfl⟩
    refine hnone c (List.mem_append_right _ hc) ⟨?_, Nat.le_refl _⟩
    simp only [c, byteLen_append]
    omega
  · rintro hnot c hc ⟨hstart, hstop⟩
    rcases List.mem_append.1 hc with hc | hc
    · -- a pair with a numeral is another pair
      have hne : byteLen k ≠ 0 := fun hzero => h.keyword.ne_nil (byteLen_eq_zero hzero)
      rcases (mem_mentionsInDigits hu).1 hc with
        ⟨pre', x', s', k', post', htext', h', hx', -, hspan⟩
      rw [hspan] at hstart hstop
      rcases h.eq_or_apart hu h' (htext.symm.trans htext') with
        ⟨-, rfl, -, -⟩ | ⟨t, rfl⟩ | ⟨t, rfl⟩
      · exact hx.not_numeral spelledNumbers_subset hx'
      · simp only [byteLen_append] at hstop
        omega
      · simp only [byteLen_append] at hstart
        omega
    · rcases (mem_mentionsInCompounds hu).1 hc with
        ⟨pre', T, j, x', s', k', post', tens, ones, htext', h', hT, hx', -, hspan⟩
      rw [hspan] at hstart hstop
      rcases h'.pair_of_inside hu h (htext'.symm.trans htext) hstart hstop with ⟨hpre, rfl, -, -⟩
      exact hnot tens ones ⟨pre', T, j, hpre, hT, h'.joiner, h'.before⟩ hx'

/-- The counts that are found are those the text mentions. -/
theorem mentionedCounts_iff (hu : WordTable u) {n : Nat} :
    (∃ c ∈ mentionedCounts u text, c.count = n) ↔ Counted u text n := by
  have hdigits := fun {c} => @mem_mentionsInDigits u text hu c
  have hcompounds := fun {c} => @mem_mentionsInCompounds u text hu c
  have hsingles := fun {mentions c} => @mem_mentionsInSingles u text hu mentions c
  have hadverbs := fun {c} => @mem_mentionsOfOnceOrTwice u text hu c
  constructor
  · rintro ⟨c, hc, rfl⟩
    rcases List.mem_append.1 hc with hc | hc
    · rcases hsingles.1 hc with hc | ⟨pre, x, s, k, post, htext, h, hx, hspan, hnone⟩
      · rcases List.mem_append.1 hc with hc | hc
        · rcases hdigits.1 hc with ⟨pre, x, s, k, post, htext, h, hx, hn, -⟩
          exact .pair htext h (.numeral hx hn)
        · rcases hcompounds.1 hc with
            ⟨pre, T, j, x, s, k, post, tens, ones, htext, h, hT, hx, hn, -⟩
          rw [hn]
          exact .pair htext h.pair (.compound ⟨pre, T, j, rfl, hT, h.joiner, h.before⟩ hx)
      · rw [hspan] at hnone
        exact .pair htext h (.single hx ((not_held_iff hu htext h hx).1 hnone))
    · rcases hadverbs.1 hc with ⟨pre, w, post, htext, h, hw, -⟩
      exact .adverb htext h hw
  · intro h
    cases h with
    | @pair pre x s k post n htext h hx =>
        cases hx with
        | numeral hx hn =>
            let c : Mention := ⟨⟨byteLen pre, byteLen (pre ++ x ++ s ++ k)⟩, n⟩
            have hc : c ∈ mentionsInDigits u text :=
              hdigits.2 ⟨pre, x, s, k, post, htext, h, hx, hn, rfl⟩
            exact ⟨c, List.mem_append_left _ (hsingles.2 (Or.inl (List.mem_append_left _ hc))), rfl⟩
        | @compound tens ones htens hx =>
            rcases htens.compound hu h with ⟨pre', T, j, rfl, hT, hcompound⟩
            let c : Mention :=
              ⟨⟨byteLen pre', byteLen (pre' ++ T ++ [j] ++ x ++ s ++ k)⟩, tens + ones⟩
            have hc : c ∈ mentionsInCompounds u text := hcompounds.2
              ⟨pre', T, j, x, s, k, post, tens, ones, htext, hcompound, hT, hx, rfl, rfl⟩
            exact ⟨c, List.mem_append_left _ (hsingles.2 (Or.inl (List.mem_append_right _ hc))), rfl⟩
        | single hx hnot =>
            have hnone := (not_held_iff hu htext h hx).2 hnot
            exact ⟨⟨⟨byteLen pre, byteLen (pre ++ x ++ s ++ k)⟩, n⟩, List.mem_append_left _
              (hsingles.2 (Or.inr ⟨pre, x, s, k, post, htext, h, hx, rfl, hnone⟩)), rfl⟩
    | @adverb pre w post n htext h hw =>
        exact ⟨⟨⟨byteLen pre, byteLen (pre ++ w)⟩, n⟩, List.mem_append_right _
          (hadverbs.2 ⟨pre, w, post, htext, h, hw, rfl⟩), rfl⟩

end Recommendations
end HiddenSteps
