import HiddenSteps.Text.Regex

/-!
# RegexLaws — what matching consumes and what scanning finds

* `run_consumes`: a cursor reached by a pattern lies a consumed word further on, and every group it
  closed is a part of that word;
* `mem_findIter`: a reported match is the preferred match at its position;
* `findIter_complete`: a position where the pattern matches is reported, unless a reported match
  runs over it.
-/

namespace HiddenSteps
namespace Text

/-! ## Consumption -/

/-- `d` lies behind `c` by the word `w`, having closed the groups `gs` inside it. -/
structure Consumes (c : Cursor) (w : List Char) (gs : List (Nat × Span)) (d : Cursor) : Prop where
  rest : c.rest = w ++ d.rest
  prev : d.prev = w.getLast?.or c.prev
  offset : d.offset = c.offset + byteLen w
  groups : d.groups = gs ++ c.groups
  within : ∀ g ∈ gs, ∃ u v z, w = u ++ v ++ z ∧
    g.2 = ⟨c.offset + byteLen u, c.offset + byteLen (u ++ v)⟩

/-- Every result of a step lies a consumed word further on. -/
def Advances (step : Cursor → List Cursor) : Prop :=
  ∀ c d, d ∈ step c → ∃ w gs, Consumes c w gs d

namespace Consumes

theorem refl (c : Cursor) : Consumes c [] [] c :=
  ⟨by simp, by simp, by simp, by simp, by simp⟩

theorem trans {c d e : Cursor} {w w' : List Char} {gs gs' : List (Nat × Span)}
    (h : Consumes c w gs d) (h' : Consumes d w' gs' e) :
    Consumes c (w ++ w') (gs' ++ gs) e := by
  refine ⟨?_, ?_, ?_, ?_, ?_⟩
  · rw [h.rest, h'.rest, List.append_assoc]
  · rw [h'.prev, h.prev, List.getLast?_append, Option.or_assoc]
  · rw [h'.offset, h.offset, byteLen_append, Nat.add_assoc]
  · rw [h'.groups, h.groups, List.append_assoc]
  · intro g hg
    rcases List.mem_append.1 hg with hg | hg
    · rcases h'.within g hg with ⟨u, v, z, rfl, hspan⟩
      refine ⟨w ++ u, v, z, by simp, ?_⟩
      rw [hspan, h.offset]
      simp [Nat.add_assoc]
    · rcases h.within g hg with ⟨u, v, z, rfl, hspan⟩
      exact ⟨u, v, z ++ w', by simp, hspan⟩

/-- Closing a group over everything consumed. -/
theorem close {c d : Cursor} {w : List Char} {gs : List (Nat × Span)} (h : Consumes c w gs d)
    (i : Nat) : Consumes c w ((i, ⟨c.offset, d.offset⟩) :: gs) (d.close i c.offset) := by
  refine ⟨h.rest, h.prev, h.offset, ?_, ?_⟩
  · simp [Cursor.close, h.groups]
  · intro g hg
    rcases List.mem_cons.1 hg with rfl | hg
    · exact ⟨[], w, [], by simp, by simp [h.offset]⟩
    · exact h.within g hg

end Consumes

theorem consume_consumes {p : Char → Bool} {c d : Cursor} (h : d ∈ c.consume p) :
    ∃ x, p x = true ∧ Consumes c [x] [] d := by
  unfold Cursor.consume at h
  split at h
  · cases h
  · rename_i x xs hrest
    split at h
    · rename_i hpx
      rcases List.mem_singleton.1 h with rfl
      exact ⟨x, hpx, ⟨by simp [hrest], by simp, by simp, by simp, by simp⟩⟩
    · cases h

theorem times_advances {step : Cursor → List Cursor} (hstep : Advances step) (n : Nat) :
    Advances (times step n) := by
  intro c d h
  induction n generalizing c with
  | zero =>
      rcases List.mem_singleton.1 h with rfl
      exact ⟨[], [], .refl _⟩
  | succ n ih =>
      rcases List.mem_flatMap.1 h with ⟨e, he, hd⟩
      rcases hstep c e he with ⟨w, gs, hw⟩
      rcases ih e hd with ⟨w', gs', hw'⟩
      exact ⟨_, _, hw.trans hw'⟩

theorem upTo_advances {step : Cursor → List Cursor} (hstep : Advances step) (greedy : Bool)
    (n : Nat) : Advances (upTo step greedy n) := by
  intro c d h
  induction n generalizing c with
  | zero =>
      rcases List.mem_singleton.1 h with rfl
      exact ⟨[], [], .refl _⟩
  | succ n ih =>
      have hcases : d = c ∨ d ∈ ((step c).filter fun d => c.offset < d.offset).flatMap
          (upTo step greedy n) := by
        simp only [upTo] at h
        split at h
        · rcases List.mem_append.1 h with h | h
          · exact Or.inr h
          · exact Or.inl (List.mem_singleton.1 h)
        · exact List.mem_cons.1 h
      rcases hcases with rfl | hmore
      · exact ⟨[], [], .refl _⟩
      · rcases List.mem_flatMap.1 hmore with ⟨e, he, hd⟩
        rcases hstep c e (List.mem_filter.1 he).1 with ⟨w, gs, hw⟩
        rcases ih e hd with ⟨w', gs', hw'⟩
        exact ⟨_, _, hw.trans hw'⟩

/-- A pattern only ever moves forward over the text, and closes groups inside what it consumed. -/
theorem run_consumes (p : Pattern) : Advances (run p) := by
  induction p with
  | eps =>
      intro c d h
      rcases List.mem_singleton.1 h with rfl
      exact ⟨[], [], .refl _⟩
  | cls p =>
      intro c d h
      rcases consume_consumes h with ⟨x, _, hx⟩
      exact ⟨[x], [], hx⟩
  | wordBoundary w =>
      intro c d h
      simp only [run] at h
      split at h
      · rcases List.mem_singleton.1 h with rfl
        exact ⟨[], [], .refl _⟩
      · cases h
  | seq a b iha ihb =>
      intro c d h
      rcases List.mem_flatMap.1 h with ⟨e, he, hd⟩
      rcases iha c e he with ⟨w, gs, hw⟩
      rcases ihb e d hd with ⟨w', gs', hw'⟩
      exact ⟨_, _, hw.trans hw'⟩
  | alt a b iha ihb =>
      intro c d h
      rcases List.mem_append.1 h with h | h
      · exact iha c d h
      · exact ihb c d h
  | rep greedy lo hi a iha =>
      intro c d h
      rcases List.mem_flatMap.1 h with ⟨e, he, hd⟩
      rcases times_advances iha lo c e he with ⟨w, gs, hw⟩
      rcases upTo_advances iha greedy _ e d hd with ⟨w', gs', hw'⟩
      exact ⟨_, _, hw.trans hw'⟩
  | group i a iha =>
      intro c d h
      rcases List.mem_map.1 h with ⟨e, he, rfl⟩
      rcases iha c e he with ⟨w, gs, hw⟩
      exact ⟨_, _, hw.close i⟩

/-! ## Runs of one class -/

/-- The cursor behind the next `n` characters. -/
def Cursor.advance (n : Nat) (c : Cursor) : Cursor :=
  { prev := (c.rest.take n).getLast?.or c.prev
    rest := c.rest.drop n
    offset := c.offset + byteLen (c.rest.take n)
    groups := c.groups }

theorem times_consume (p : Char → Bool) (n : Nat) (c : Cursor) :
    times (Cursor.consume p) n c =
      if n ≤ c.rest.length ∧ (c.rest.take n).all p then [c.advance n] else [] := by
  induction n generalizing c with
  | zero => simp [times, Cursor.advance]
  | succ n ih =>
      rcases c with ⟨prev, rest, offset, groups⟩
      cases rest with
      | nil => simp [times, Cursor.consume]
      | cons x xs =>
          cases hx : p x with
          | false => simp [times, Cursor.consume, hx]
          | true =>
              -- the neighbour on the left is the last character consumed
              have hlast : (x :: xs.take n).getLast? = (xs.take n).getLast?.or (some x) := by
                cases xs.take n with
                | nil => rfl
                | cons y ys =>
                    rw [List.getLast?_cons_cons]
                    simp [List.getLast?_eq_some_getLast]
              simp [times, Cursor.consume, hx, ih, Cursor.advance, hlast, Nat.add_assoc]

/-- Exactly `n` characters of a class. -/
theorem run_exactly_cls (p : Char → Bool) (n : Nat) (c : Cursor) :
    run (.exactly n (.cls p)) c =
      if n ≤ c.rest.length ∧ (c.rest.take n).all p then [c.advance n] else [] := by
  rw [← times_consume]
  simp [Pattern.exactly, run, upTo]

/-! ## Groups that take part in every match -/

namespace Pattern

/-- Every way to match the pattern closes group `i`. -/
def binds (i : Nat) : Pattern → Bool
  | eps => false
  | cls _ => false
  | wordBoundary _ => false
  | seq a b => a.binds i || b.binds i
  | alt a b => a.binds i && b.binds i
  | rep _ lo _ a => 0 < lo && a.binds i
  | group j a => i == j || a.binds i

end Pattern

/-- Group `i` is closed at the cursor. -/
def Cursor.Closed (i : Nat) (c : Cursor) : Prop :=
  ∃ s, (i, s) ∈ c.groups

theorem Consumes.closed {c d : Cursor} {w : List Char} {gs : List (Nat × Span)}
    (h : Consumes c w gs d) {i : Nat} (hc : c.Closed i) : d.Closed i := by
  rcases hc with ⟨s, hs⟩
  exact ⟨s, by rw [h.groups]; exact List.mem_append_right _ hs⟩

theorem run_binds {i : Nat} (p : Pattern) (hp : p.binds i = true) {c d : Cursor}
    (h : d ∈ run p c) : d.Closed i := by
  induction p generalizing c d with
  | eps => simp [Pattern.binds] at hp
  | cls p => simp [Pattern.binds] at hp
  | wordBoundary w => simp [Pattern.binds] at hp
  | seq a b iha ihb =>
      rcases List.mem_flatMap.1 h with ⟨e, he, hd⟩
      simp only [Pattern.binds, Bool.or_eq_true] at hp
      rcases hp with ha | hb
      · -- what the second part does keeps the group closed
        rcases run_consumes b e d hd with ⟨w, gs, hw⟩
        exact hw.closed (iha ha he)
      · exact ihb hb hd
  | alt a b iha ihb =>
      simp only [Pattern.binds, Bool.and_eq_true] at hp
      rcases List.mem_append.1 h with h | h
      · exact iha hp.1 h
      · exact ihb hp.2 h
  | rep greedy lo hi a iha =>
      simp only [Pattern.binds, Bool.and_eq_true, decide_eq_true_eq] at hp
      rcases List.mem_flatMap.1 h with ⟨e, he, hd⟩
      rcases upTo_advances (run_consumes a) greedy _ e d hd with ⟨w', gs', hw'⟩
      apply hw'.closed
      -- the first of the `lo` mandatory iterations closes the group
      obtain ⟨n, rfl⟩ : ∃ n, lo = n + 1 := ⟨lo - 1, by omega⟩
      rcases List.mem_flatMap.1 he with ⟨f, hf, he⟩
      rcases times_advances (run_consumes a) n f e he with ⟨w, gs, hw⟩
      exact hw.closed (iha hp.2 hf)
  | group j a iha =>
      simp only [Pattern.binds, Bool.or_eq_true, beq_iff_eq] at hp
      rcases List.mem_map.1 h with ⟨e, he, rfl⟩
      rcases hp with rfl | ha
      · exact ⟨_, List.mem_cons_self⟩
      · rcases iha ha he with ⟨s, hs⟩
        exact ⟨s, List.mem_cons_of_mem _ hs⟩

/-! ## The match at a position -/

/-- The parts of a match found after `pre`: the word it consumed and where its groups lie. -/
theorem matchAt_eq_some {p : Pattern} {pre rest : List Char} {m : Match}
    (h : matchAt p pre.getLast? rest (byteLen pre) = some m) :
    ∃ w z, rest = w ++ z ∧ m.span = ⟨byteLen pre, byteLen (pre ++ w)⟩ ∧
      ∀ g ∈ m.groups, ∃ u v z', w = u ++ v ++ z' ∧
        g.2 = ⟨byteLen (pre ++ u), byteLen (pre ++ u ++ v)⟩ := by
  rcases Option.map_eq_some_iff.1 h with ⟨d, hd, rfl⟩
  rcases run_consumes p _ d (List.mem_of_head? hd) with ⟨w, gs, hw⟩
  refine ⟨w, d.rest, hw.rest, ?_, ?_⟩
  · simp [Match.upToCursor, hw.offset]
  · intro g hg
    have hg : g ∈ gs := by simpa [Match.upToCursor, hw.groups] using hg
    rcases hw.within g hg with ⟨u, v, z', rfl, hspan⟩
    exact ⟨u, v, z', rfl, by simpa [Nat.add_assoc] using hspan⟩

theorem matchAt_binds {p : Pattern} {i : Nat} (hp : p.binds i = true) {prev : Option Char}
    {rest : List Char} {offset : Nat} {m : Match} (h : matchAt p prev rest offset = some m) :
    ∃ s, m.get i = some s := by
  rcases Option.map_eq_some_iff.1 h with ⟨d, hd, rfl⟩
  rcases run_binds p hp (List.mem_of_head? hd) with ⟨s, hs⟩
  have hsome : ((Match.upToCursor offset d).groups.find? fun g => g.1 == i).isSome :=
    List.find?_isSome.2 ⟨_, hs, by simp⟩
  rcases Option.isSome_iff_exists.1 hsome with ⟨g, hg⟩
  exact ⟨g.2, by simp [Match.get, hg]⟩

theorem Match.mem_of_get {m : Match} {i : Nat} {s : Span} (h : m.get i = some s) :
    (i, s) ∈ m.groups := by
  rcases Option.map_eq_some_iff.1 h with ⟨⟨j, t⟩, hfind, rfl⟩
  have hj : j = i := by simpa using List.find?_some hfind
  subst hj
  exact List.mem_of_find?_eq_some hfind

theorem attempt_eq_some {p : Pattern} {last : Option Nat} {prev : Option Char} {rest : List Char}
    {offset : Nat} {m : Match} (h : attempt p last prev rest offset = some m) :
    matchAt p prev rest offset = some m := by
  unfold attempt at h
  split at h
  · cases h
  · exact (Option.filter_eq_some_iff.1 h).1

/-! ## Soundness of scanning -/

private theorem getLast?_snoc (pre : List Char) (c : Char) : (pre ++ [c]).getLast? = some c := by
  simp

private theorem byteLen_snoc (pre : List Char) (c : Char) :
    byteLen (pre ++ [c]) = byteLen pre + c.utf8Size := by
  simp

theorem mem_scan {p : Pattern} {rest : List Char} {last : Option Nat} (pre : List Char) {m : Match}
    (h : m ∈ scan p last pre.getLast? rest (byteLen pre)) :
    ∃ a r, rest = a ++ r ∧ matchAt p (pre ++ a).getLast? r (byteLen (pre ++ a)) = some m := by
  induction rest generalizing last pre with
  | nil =>
      have hm := attempt_eq_some (Option.mem_toList.1 h)
      exact ⟨[], [], rfl, by simpa using hm⟩
  | cons c cs ih =>
      -- in both cases the scan goes on one character further, only `last` differs
      have hrec : ∀ last', m ∈ scan p last' (some c) cs (byteLen pre + c.utf8Size) →
          ∃ a r, c :: cs = a ++ r ∧
            matchAt p (pre ++ a).getLast? r (byteLen (pre ++ a)) = some m := by
        intro last' h
        rw [← byteLen_snoc, ← getLast?_snoc pre c] at h
        rcases ih _ h with ⟨a, r, rfl, hm⟩
        exact ⟨c :: a, r, rfl, by simpa using hm⟩
      simp only [scan] at h
      split at h
      · rename_i m' hattempt
        rcases List.mem_cons.1 h with rfl | h
        · exact ⟨[], c :: cs, rfl, by simpa using attempt_eq_some hattempt⟩
        · exact hrec _ h
      · exact hrec _ h

/-- A reported match is the preferred match at its position. -/
theorem mem_findIter {p : Pattern} {text : List Char} {m : Match} (h : m ∈ findIter p text) :
    ∃ a r, text = a ++ r ∧ matchAt p a.getLast? r (byteLen a) = some m := by
  rcases mem_scan [] (by simpa [findIter] using h) with ⟨a, r, htext, hm⟩
  exact ⟨a, r, htext, by simpa using hm⟩

/-- A reported match cuts the text at character boundaries. -/
theorem cuts_of_mem_findIter {p : Pattern} {text : List Char} {m : Match}
    (h : m ∈ findIter p text) : Cuts text m.span.start m.span.stop := by
  rcases mem_findIter h with ⟨a, r, rfl, hm⟩
  rcases matchAt_eq_some hm with ⟨w, z, rfl, hspan, _⟩
  exact ⟨a, w, z, by simp, by rw [hspan], by rw [hspan]⟩

/-- So does each of its groups. -/
theorem cuts_of_get {p : Pattern} {text : List Char} {m : Match} (h : m ∈ findIter p text)
    {i : Nat} {s : Span} (hs : m.get i = some s) : Cuts text s.start s.stop := by
  rcases mem_findIter h with ⟨a, r, rfl, hm⟩
  rcases matchAt_eq_some hm with ⟨w, z, rfl, _, hgroups⟩
  rcases hgroups _ (Match.mem_of_get hs) with ⟨u, v, z', rfl, hspan⟩
  have hspan : s = ⟨byteLen (a ++ u), byteLen (a ++ u ++ v)⟩ := hspan
  exact ⟨a ++ u, v, z' ++ z, by simp, by rw [hspan], by rw [hspan]⟩

theorem get_of_binds {p : Pattern} {i : Nat} (hp : p.binds i = true) {text : List Char}
    {m : Match} (h : m ∈ findIter p text) : ∃ s, m.get i = some s := by
  rcases mem_findIter h with ⟨_, _, _, hm⟩
  exact matchAt_binds hp hm

/-! ## Reported matches do not overlap -/

theorem le_start_of_mem_scan {p : Pattern} {rest : List Char} {last : Option Nat}
    {prev : Option Char} {offset : Nat} {m : Match} (h : m ∈ scan p last prev rest offset) :
    offset ≤ m.span.start ∧ ∀ e ∈ last, e ≤ m.span.start := by
  -- the match found at a position starts there, and not inside the last one
  have hattempt : ∀ {last : Option Nat} {prev : Option Char} {rest : List Char} {offset : Nat}
      {m : Match}, attempt p last prev rest offset = some m →
      m.span.start = offset ∧ ∀ e ∈ last, e ≤ offset := by
    intro last prev rest offset m h
    have hstart : m.span.start = offset := by
      rcases Option.map_eq_some_iff.1 (attempt_eq_some h) with ⟨d, _, rfl⟩
      rfl
    refine ⟨hstart, ?_⟩
    rintro e rfl
    unfold attempt at h
    split at h
    · cases h
    · rename_i hblocked
      simpa using hblocked
  induction rest generalizing last prev offset with
  | nil =>
      rcases hattempt (Option.mem_toList.1 h) with ⟨rfl, hlast⟩
      exact ⟨Nat.le_refl _, hlast⟩
  | cons c cs ih =>
      simp only [scan] at h
      split at h
      · rename_i m' hm'
        rcases hattempt hm' with ⟨hstart, hlast⟩
        rcases List.mem_cons.1 h with rfl | h
        · exact ⟨Nat.le_of_eq hstart.symm, fun e he => by rw [hstart]; exact hlast e he⟩
        · have hle := (ih h).1
          exact ⟨by omega, fun e he => by have := hlast e he; omega⟩
      · rcases ih h with ⟨hle, hlast⟩
        exact ⟨by omega, hlast⟩

/-- Reported matches follow each other. -/
theorem findIter_pairwise (p : Pattern) (text : List Char) :
    (findIter p text).Pairwise fun m m' => m.span.stop ≤ m'.span.start := by
  have hscan : ∀ (rest : List Char) (last : Option Nat) (prev : Option Char) (offset : Nat),
      (scan p last prev rest offset).Pairwise fun m m' => m.span.stop ≤ m'.span.start := by
    intro rest
    induction rest with
    | nil =>
        intro last prev offset
        simp only [scan]
        cases attempt p last prev [] offset <;> simp
    | cons c cs ih =>
        intro last prev offset
        simp only [scan]
        split
        · refine List.pairwise_cons.2 ⟨fun m' hm' => ?_, ih _ _ _⟩
          exact (le_start_of_mem_scan hm').2 _ rfl
        · exact ih _ _ _
  exact hscan text none none 0

/-- Two reported matches that share a byte are one. -/
theorem eq_of_mem_findIter {p : Pattern} {text : List Char} {m m' : Match}
    (hm : m ∈ findIter p text) (hm' : m' ∈ findIter p text) {i : Nat} (hi : m.span.Covers i)
    (hi' : m'.span.Covers i) : m = m' := by
  have hapart := List.pairwise_iff_getElem.1 (findIter_pairwise p text)
  rcases List.mem_iff_getElem.1 hm with ⟨j, hj, rfl⟩
  rcases List.mem_iff_getElem.1 hm' with ⟨k, hk, rfl⟩
  simp only [Span.Covers] at hi hi'
  rcases Nat.lt_trichotomy j k with hlt | rfl | hlt
  · have hle := hapart j k hj hk hlt
    omega
  · rfl
  · have hle := hapart k j hk hj hlt
    omega

/-! ## Completeness of scanning -/

/-- The byte offset lies strictly inside a span. -/
def Span.Inside (s : Span) (i : Nat) : Prop :=
  s.start < i ∧ i < s.stop

private theorem scan_complete {p : Pattern} (rest : List Char) {m : Match} :
    ∀ (mid pre : List Char) (last : Option Nat),
      matchAt p (pre ++ mid).getLast? rest (byteLen (pre ++ mid)) = some m →
      byteLen (pre ++ mid) < m.span.stop →
      m ∈ scan p last pre.getLast? (mid ++ rest) (byteLen pre) ∨
        (∃ m' ∈ scan p last pre.getLast? (mid ++ rest) (byteLen pre),
          m'.span.Inside (byteLen (pre ++ mid))) ∨
        ∃ e, last = some e ∧ byteLen (pre ++ mid) < e := by
  intro mid
  induction mid with
  | nil =>
      intro pre last hm hne
      rw [List.append_nil] at hm hne
      have hstart : m.span.start = byteLen pre := by
        rcases matchAt_eq_some hm with ⟨w, z, _, hspan, _⟩
        rw [hspan]
      by_cases hblocked : last.any (byteLen pre < ·)
      · -- the last match ends behind the position
        cases last with
        | none => simp at hblocked
        | some e => exact Or.inr (Or.inr ⟨e, rfl, by simpa using hblocked⟩)
      · -- the attempt at the position finds the match, which is not empty
        left
        have hlast : last ≠ some m.span.stop := by
          rintro rfl
          simp only [Option.any_some, decide_eq_true_eq] at hblocked
          omega
        have hattempt : attempt p last pre.getLast? rest (byteLen pre) = some m := by
          unfold attempt
          rw [if_neg (by simpa using hblocked), hm]
          simp [hlast]
        cases rest with
        | nil => simp [scan, hattempt]
        | cons c cs => simp [scan, hattempt]
  | cons c mid ih =>
      intro pre last hm hne
      have hassoc : pre ++ c :: mid = (pre ++ [c]) ++ mid := by simp
      rw [hassoc] at hm hne ⊢
      -- whatever an attempt at `c` does, the induction hypothesis covers the rest
      have hrec := fun last => ih (pre ++ [c]) last hm hne
      simp only [getLast?_snoc, byteLen_snoc] at hrec
      simp only [List.cons_append, scan]
      split
      · rename_i m' hattempt
        rcases matchAt_eq_some (attempt_eq_some hattempt) with ⟨w, z, _, hspan, _⟩
        rcases hrec (some m'.span.stop) with h | ⟨m'', h, hin⟩ | ⟨e, he, hlt⟩
        · exact Or.inl (List.mem_cons_of_mem _ h)
        · exact Or.inr (Or.inl ⟨m'', List.mem_cons_of_mem _ h, hin⟩)
        · -- the match just found runs over the position
          refine Or.inr (Or.inl ⟨m', List.mem_cons_self, ?_, ?_⟩)
          · have hc := c.utf8Size_pos
            rw [hspan]
            simp only [byteLen_append, byteLen_cons, byteLen_nil]
            omega
          · rw [Option.some.injEq] at he
            omega
      · exact hrec last

/-- Where a pattern matches some characters, the match is reported unless a reported match runs
over its start. -/
theorem findIter_complete {p : Pattern} {pre rest : List Char} {m : Match}
    (hm : matchAt p pre.getLast? rest (byteLen pre) = some m)
    (hne : byteLen pre < m.span.stop) :
    m ∈ findIter p (pre ++ rest) ∨
      ∃ m' ∈ findIter p (pre ++ rest), m'.span.Inside (byteLen pre) := by
  have h := scan_complete (p := p) (m := m) rest pre [] none (by simpa using hm)
    (by simpa using hne)
  simp only [List.nil_append, List.getLast?_nil, byteLen_nil] at h
  rcases h with h | h | ⟨e, he, _⟩
  · exact Or.inl h
  · exact Or.inr h
  · cases he

end Text
end HiddenSteps
