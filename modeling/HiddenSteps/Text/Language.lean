import HiddenSteps.Text.RegexLaws

/-!
# Language — what a pattern reads

`run` computes the places where a pattern can stop.  `Reads p pre w post gs` says the same without
computing: standing between `pre` and `w ++ post`, the pattern can read the word `w`, and closes the
groups `gs` while it does.

* `run_describes`: the two agree on every pattern;
* `reads_of_matchAt`, `matchAt_isSome_of_reads`: a match is a reading, and where there is a reading
  there is a match.
-/

namespace HiddenSteps
namespace Text

/-- A set of words with the text before them, the text behind them and the groups they close. -/
abbrev Reading := List Char → List Char → List Char → List (Nat × Span) → Prop

namespace Reading

/-- The empty word, which closes no group. -/
def empty : Reading := fun _ w _ gs => w = [] ∧ gs = []

/-- One reading and behind it another one. -/
def andThen (R S : Reading) : Reading := fun pre w post gs =>
  ∃ u v gu gv, w = u ++ v ∧ gs = gv ++ gu ∧ R pre u (v ++ post) gu ∧ S (pre ++ u) v post gv

/-- A number of readings in a row. -/
def iterate (R : Reading) : Nat → Reading
  | 0 => empty
  | n + 1 => R.andThen (R.iterate n)

/-- The readings that advance. -/
def advancing (R : Reading) : Reading := fun pre w post gs => w ≠ [] ∧ R pre w post gs

end Reading

namespace Reading

variable (R S T : Reading)

@[simp] theorem empty_andThen : empty.andThen R = R := by
  funext pre w post gs
  apply propext
  constructor
  · rintro ⟨_, v, _, gv, rfl, rfl, ⟨rfl, rfl⟩, hv⟩
    simpa using hv
  · intro h
    exact ⟨[], w, [], gs, rfl, by simp, ⟨rfl, rfl⟩, by simpa using h⟩

theorem andThen_assoc : (R.andThen S).andThen T = R.andThen (S.andThen T) := by
  funext pre w post gs
  apply propext
  constructor
  · rintro ⟨_, z, _, gz, rfl, rfl, ⟨u, v, gu, gv, rfl, rfl, hu, hv⟩, hz⟩
    refine ⟨u, v ++ z, gu, gz ++ gv, by simp, by simp, by simpa using hu, ?_⟩
    exact ⟨v, z, gv, gz, rfl, rfl, hv, by simpa using hz⟩
  · rintro ⟨u, _, gu, _, rfl, rfl, hu, v, z, gv, gz, rfl, rfl, hv, hz⟩
    refine ⟨u ++ v, z, gv ++ gu, gz, by simp, by simp, ?_, by simpa using hz⟩
    exact ⟨u, v, gu, gv, rfl, rfl, by simpa using hu, hv⟩

theorem iterate_add (m n : Nat) :
    R.iterate (m + n) = (R.iterate m).andThen (R.iterate n) := by
  induction m with
  | zero => rw [Nat.zero_add, iterate, empty_andThen]
  | succ m ih =>
      calc
        R.iterate (m + 1 + n) = R.andThen (R.iterate (m + n)) := by rw [Nat.add_right_comm]; rfl
        _ = R.andThen ((R.iterate m).andThen (R.iterate n)) := by rw [ih]
        _ = (R.iterate (m + 1)).andThen (R.iterate n) := (andThen_assoc _ _ _).symm

end Reading

/-- The words that a pattern reads at a place in a text. -/
def Reads : Pattern → Reading
  | .eps => .empty
  | .cls p => fun _ w _ gs => ∃ x, p x = true ∧ w = [x] ∧ gs = []
  | .wordBoundary q => fun pre w post gs =>
      (w = [] ∧ gs = []) ∧ pre.getLast?.any q ≠ post.head?.any q
  | .seq a b => (Reads a).andThen (Reads b)
  | .alt a b => fun pre w post gs => Reads a pre w post gs ∨ Reads b pre w post gs
  | .rep _ lo hi a => ((Reads a).iterate lo).andThen fun pre w post gs =>
      ∃ k, (∀ n ∈ hi, k ≤ n - lo) ∧ (Reads a).advancing.iterate k pre w post gs
  | .group i a => fun pre w post gs =>
      ∃ gs', gs = (i, ⟨byteLen pre, byteLen (pre ++ w)⟩) :: gs' ∧ Reads a pre w post gs'

/-! ## Readings and runs -/

/-- The cursor between `pre` and `rest` that has closed the groups `gs`. -/
def Cursor.between (pre rest : List Char) (gs : List (Nat × Span)) : Cursor :=
  { prev := pre.getLast?, rest := rest, offset := byteLen pre, groups := gs }

/-- A step stops exactly behind the words of a reading. -/
def Describes (R : Reading) (step : Cursor → List Cursor) : Prop :=
  ∀ pre rest gs₀ d, d ∈ step (.between pre rest gs₀) ↔
    ∃ w post gs, rest = w ++ post ∧ d = .between (pre ++ w) post (gs ++ gs₀) ∧ R pre w post gs

namespace Describes

variable {R S : Reading} {f g : Cursor → List Cursor}

theorem empty : Describes .empty fun c => [c] := by
  intro pre rest gs₀ d
  rw [List.mem_singleton]
  constructor
  · rintro rfl
    exact ⟨[], rest, [], rfl, by simp, rfl, rfl⟩
  · rintro ⟨w, post, gs, rfl, rfl, rfl, rfl⟩
    simp

theorem andThen (hf : Describes R f) (hg : Describes S g) :
    Describes (R.andThen S) fun c => (f c).flatMap g := by
  intro pre rest gs₀ d
  rw [List.mem_flatMap]
  constructor
  · rintro ⟨e, he, hd⟩
    rcases (hf pre rest gs₀ e).1 he with ⟨u, r, gu, rfl, rfl, hu⟩
    rcases (hg (pre ++ u) r (gu ++ gs₀) d).1 hd with ⟨v, post, gv, rfl, rfl, hv⟩
    exact ⟨u ++ v, post, gv ++ gu, by simp, by simp, u, v, gu, gv, rfl, rfl, hu, hv⟩
  · rintro ⟨_, post, _, rfl, rfl, u, v, gu, gv, rfl, rfl, hu, hv⟩
    refine ⟨.between (pre ++ u) (v ++ post) (gu ++ gs₀), ?_, ?_⟩
    · exact (hf pre _ gs₀ _).2 ⟨u, v ++ post, gu, by simp, rfl, hu⟩
    · exact (hg (pre ++ u) _ _ _).2 ⟨v, post, gv, rfl, by simp, hv⟩

theorem times (hf : Describes R f) (n : Nat) : Describes (R.iterate n) (Text.times f n) := by
  induction n with
  | zero => exact .empty
  | succ n ih => exact hf.andThen ih

/-- An iteration that does not advance is dropped. -/
theorem filter (hf : Describes R f) :
    Describes R.advancing fun c => (f c).filter fun d => c.offset < d.offset := by
  intro pre rest gs₀ d
  have hoffset : ∀ w post gs, (Cursor.between pre rest gs₀).offset <
      (Cursor.between (pre ++ w) post gs).offset ↔ w ≠ [] := by
    intro w post gs
    simp only [Cursor.between, byteLen_append, Nat.lt_add_right_iff_pos, Nat.pos_iff_ne_zero]
    exact ⟨fun h hw => h (by rw [hw]; rfl), fun h hw => h (byteLen_eq_zero hw)⟩
  rw [List.mem_filter, hf pre rest gs₀ d]
  constructor
  · rintro ⟨⟨w, post, gs, rfl, rfl, hw⟩, hlt⟩
    exact ⟨w, post, gs, rfl, rfl, (hoffset w post _).1 (of_decide_eq_true hlt), hw⟩
  · rintro ⟨w, post, gs, rfl, rfl, hne, hw⟩
    exact ⟨⟨w, post, gs, rfl, rfl, hw⟩, decide_eq_true ((hoffset w post _).2 hne)⟩

theorem upTo (hf : Describes R f) (greedy : Bool) (n : Nat) :
    Describes (fun pre w post gs => ∃ k ≤ n, R.advancing.iterate k pre w post gs)
      (Text.upTo f greedy n) := by
  induction n with
  | zero =>
      intro pre rest gs₀ d
      rw [show Text.upTo f greedy 0 = fun c => [c] from rfl, Describes.empty pre rest gs₀ d]
      refine exists_congr fun w => exists_congr fun post => exists_congr fun gs => ?_
      simp [Reading.iterate]
  | succ n ih =>
      intro pre rest gs₀ d
      have hmore := hf.filter.andThen ih pre rest gs₀ d
      have hstop := Describes.empty pre rest gs₀ d
      -- greedy or not, the results are those of one more iteration and the cursor itself
      have hmem : d ∈ Text.upTo f greedy (n + 1) (.between pre rest gs₀) ↔
          d ∈ ((f (.between pre rest gs₀)).filter fun e =>
            (Cursor.between pre rest gs₀).offset < e.offset).flatMap (Text.upTo f greedy n) ∨
          d ∈ [Cursor.between pre rest gs₀] := by
        simp only [Text.upTo]
        split
        · exact List.mem_append
        · rw [List.mem_cons, List.mem_singleton, or_comm]
      rw [hmem, hmore, hstop]
      constructor
      · rintro (⟨w, post, gs, hrest, hd, u, v, gu, gv, hw, hgs, hu, k, hk, hv⟩ |
          ⟨w, post, gs, hrest, hd, hempty⟩)
        · exact ⟨w, post, gs, hrest, hd, k + 1, Nat.succ_le_succ hk, u, v, gu, gv, hw, hgs, hu, hv⟩
        · exact ⟨w, post, gs, hrest, hd, 0, Nat.zero_le _, hempty⟩
      · rintro ⟨w, post, gs, hrest, hd, k, hk, hw⟩
        cases k with
        | zero => exact Or.inr ⟨w, post, gs, hrest, hd, hw⟩
        | succ k =>
            rcases hw with ⟨u, v, gu, gv, hw, hgs, hu, hv⟩
            exact Or.inl ⟨w, post, gs, hrest, hd, u, v, gu, gv, hw, hgs, hu, k,
              Nat.le_of_succ_le_succ hk, hv⟩

end Describes

/-- Readings that advance leave fewer characters each time. -/
theorem Reading.le_length_of_iterate {R : Reading} {k : Nat} {pre w post : List Char}
    {gs : List (Nat × Span)} (h : R.advancing.iterate k pre w post gs) : k ≤ w.length := by
  induction k generalizing pre w gs with
  | zero => exact Nat.zero_le _
  | succ k ih =>
      rcases h with ⟨u, v, gu, gv, rfl, -, ⟨hne, -⟩, hv⟩
      have hu : 0 < u.length := List.length_pos_iff.2 hne
      have hk := ih hv
      rw [List.length_append]
      omega

/-- A pattern stops exactly behind the words it reads. -/
theorem run_describes (p : Pattern) : Describes (Reads p) (run p) := by
  induction p with
  | eps => exact .empty
  | cls p =>
      intro pre rest gs₀ d
      cases rest with
      | nil => simp [run, Cursor.consume, Cursor.between, Reads]
      | cons x xs =>
          cases hx : p x with
          | false => simp [run, Cursor.consume, Cursor.between, Reads, hx]
          | true => simp [run, Cursor.consume, Cursor.between, Reads, hx]
  | wordBoundary q =>
      intro pre rest gs₀ d
      simp only [run, Cursor.atBoundary, Cursor.between, bne_iff_ne, ne_eq]
      constructor
      · intro h
        split at h
        · rename_i hne
          rcases List.mem_singleton.1 h with rfl
          exact ⟨[], rest, [], rfl, by simp, ⟨rfl, rfl⟩, hne⟩
        · cases h
      · rintro ⟨w, post, gs, rfl, rfl, ⟨rfl, rfl⟩, hne⟩
        simpa using hne
  | seq a b iha ihb => exact iha.andThen ihb
  | alt a b iha ihb =>
      intro pre rest gs₀ d
      rw [run, List.mem_append, iha pre rest gs₀ d, ihb pre rest gs₀ d]
      constructor
      · rintro (⟨w, post, gs, hrest, hd, h⟩ | ⟨w, post, gs, hrest, hd, h⟩)
        · exact ⟨w, post, gs, hrest, hd, Or.inl h⟩
        · exact ⟨w, post, gs, hrest, hd, Or.inr h⟩
      · rintro ⟨w, post, gs, hrest, hd, h | h⟩
        · exact Or.inl ⟨w, post, gs, hrest, hd, h⟩
        · exact Or.inr ⟨w, post, gs, hrest, hd, h⟩
  | rep greedy lo hi a iha =>
      refine (iha.times lo).andThen fun pre rest gs₀ d => ?_
      cases hi with
      | some n =>
          rw [iha.upTo greedy (n - lo) pre rest gs₀ d]
          simp only [Option.mem_some_iff, forall_eq']
      | none =>
          -- each iteration takes a character, so the fuel does not run out
          rw [iha.upTo greedy _ pre rest gs₀ d]
          simp only [Option.mem_def, reduceCtorEq, false_implies, implies_true, true_and]
          refine exists_congr fun w => exists_congr fun post => exists_congr fun gs => ?_
          refine and_congr_right fun hrest => and_congr_right fun _ => exists_congr fun k => ?_
          refine and_iff_right_of_imp fun hk => ?_
          have hlen := Reading.le_length_of_iterate hk
          rw [Cursor.between, hrest, List.length_append]
          omega
  | group i a iha =>
      intro pre rest gs₀ d
      rw [run, List.mem_map]
      constructor
      · rintro ⟨e, he, rfl⟩
        rcases (iha pre rest gs₀ e).1 he with ⟨w, post, gs, rfl, rfl, hw⟩
        exact ⟨w, post, _, rfl, rfl, gs, rfl, hw⟩
      · rintro ⟨w, post, _, rfl, rfl, gs, rfl, hw⟩
        exact ⟨_, (iha pre (w ++ post) gs₀ _).2 ⟨w, post, gs, rfl, rfl, hw⟩, rfl⟩

/-! ## Matches are readings -/

/-- The match of a reading. -/
def Match.ofReading (pre w : List Char) (gs : List (Nat × Span)) : Match :=
  { span := ⟨byteLen pre, byteLen (pre ++ w)⟩, groups := gs }

section Matches

variable {p : Pattern} {pre rest text : List Char} {m : Match}

theorem reads_of_matchAt (h : matchAt p pre.getLast? rest (byteLen pre) = some m) :
    ∃ w post gs, rest = w ++ post ∧ m = .ofReading pre w gs ∧ Reads p pre w post gs := by
  rcases Option.map_eq_some_iff.1 h with ⟨d, hd, rfl⟩
  rcases (run_describes p pre rest [] d).1 (List.mem_of_head? hd) with
    ⟨w, post, gs, rfl, rfl, hw⟩
  refine ⟨w, post, gs, rfl, ?_, hw⟩
  simp [Match.upToCursor, Match.ofReading, Cursor.between]

/-- Where something can be read, something is matched. -/
theorem matchAt_isSome_of_reads {w post : List Char} {gs : List (Nat × Span)}
    (h : Reads p pre w post gs) :
    (matchAt p pre.getLast? (w ++ post) (byteLen pre)).isSome := by
  have hmem := (run_describes p pre (w ++ post) [] _).2 ⟨w, post, gs, rfl, rfl, h⟩
  rw [matchAt, Option.isSome_map, List.isSome_head?]
  exact List.ne_nil_of_mem hmem

/-- When a place has one reading only, that is its match. -/
theorem matchAt_of_unique {w post : List Char} {gs : List (Nat × Span)} (h : Reads p pre w post gs)
    (hunique : ∀ w' post' gs', w ++ post = w' ++ post' → Reads p pre w' post' gs' →
      w' = w ∧ gs' = gs) :
    matchAt p pre.getLast? (w ++ post) (byteLen pre) = some (.ofReading pre w gs) := by
  rcases Option.isSome_iff_exists.1 (matchAt_isSome_of_reads h) with ⟨m, hm⟩
  rcases reads_of_matchAt hm with ⟨w', post', gs', hrest, rfl, hw'⟩
  rcases hunique w' post' gs' hrest hw' with ⟨rfl, rfl⟩
  exact hm

/-- A reported match is a reading at a place of the text. -/
theorem reads_of_mem_findIter (h : m ∈ findIter p text) :
    ∃ pre w post gs, text = pre ++ w ++ post ∧ m = .ofReading pre w gs ∧
      Reads p pre w post gs := by
  rcases mem_findIter h with ⟨pre, rest, rfl, hm⟩
  rcases reads_of_matchAt hm with ⟨w, post, gs, rfl, rfl, hw⟩
  exact ⟨pre, w, post, gs, by simp, rfl, hw⟩

end Matches

/-! ## Words between boundaries -/

/-- A word boundary does not lie inside a run of word characters. -/
theorem boundary_outside_run {q : Char → Bool} {b run a l r : List Char}
    (hrun : ∀ c ∈ run, q c = true) (htext : b ++ run ++ a = l ++ r)
    (hbound : l.getLast?.any q ≠ r.head?.any q) :
    (∃ t, b = l ++ t) ∨ ∃ t, l = b ++ run ++ t := by
  rcases List.append_eq_append_iff.1 htext with ⟨t, hl, -⟩ | ⟨t, hrun', hr⟩
  · exact Or.inr ⟨t, hl⟩
  · rcases List.append_eq_append_iff.1 hrun' with ⟨u, rfl, hu⟩ | ⟨u, rfl, -⟩
    · -- the boundary cuts the run into `u` and `t`
      cases t with
      | nil => exact Or.inr ⟨[], by simp [hu]⟩
      | cons y t =>
          cases hlast : u.getLast? with
          | none => exact Or.inl ⟨[], by simp [List.getLast?_eq_none_iff.1 hlast]⟩
          | some x =>
              have hx : q x = true :=
                hrun x (by rw [hu]; exact List.mem_append_left _ (List.mem_of_getLast? hlast))
              have hy : q y = true := hrun y (by rw [hu]; simp)
              simp [List.getLast?_append, hlast, hr, hx, hy] at hbound
    · exact Or.inl ⟨u, rfl⟩

/-- A word between two boundaries that touches a run of word characters holds all of it. -/
theorem holds_of_touches {q : Char → Bool} {b run a pre w post : List Char}
    (hrun : ∀ c ∈ run, q c = true) (htext : b ++ run ++ a = pre ++ w ++ post)
    (hstart : pre.getLast?.any q ≠ (w ++ post).head?.any q)
    (hstop : (pre ++ w).getLast?.any q ≠ post.head?.any q)
    (hbefore : byteLen pre < byteLen (b ++ run)) (hbehind : byteLen b < byteLen (pre ++ w)) :
    ∃ p s, b = pre ++ p ∧ w = p ++ run ++ s ∧ a = s ++ post := by
  have htext' : b ++ run ++ a = pre ++ (w ++ post) := by rw [htext, List.append_assoc]
  refine inside_of_byteLen_le htext ?_ ?_
  · rcases boundary_outside_run hrun htext' hstart with ⟨t, rfl⟩ | ⟨t, rfl⟩
    · simp
    · rw [byteLen_append (b ++ run)] at hbefore
      omega
  · rcases boundary_outside_run hrun htext hstop with ⟨t, rfl⟩ | ⟨t, ht⟩
    · rw [byteLen_append (pre ++ w)] at hbehind
      omega
    · rw [ht, byteLen_append (b ++ run)]
      exact Nat.le_add_right _ _

/-! ## Readings of the common patterns -/

section Common

variable {pre w post : List Char} {gs : List (Nat × Span)}

@[simp] theorem reads_cat_cons (p q : Pattern) (ps : List Pattern) :
    Reads (.cat (p :: q :: ps)) = (Reads p).andThen (Reads (.cat (q :: ps))) := rfl

@[simp] theorem reads_cat_singleton (p : Pattern) : Reads (.cat [p]) = Reads p := rfl

/-- Characters of one class, one after the other. -/
theorem iterate_cls_iff {p : Char → Bool} {k : Nat} :
    (Reads (.cls p)).iterate k pre w post gs ↔ w.length = k ∧ (∀ x ∈ w, p x = true) ∧ gs = [] := by
  induction k generalizing pre w gs with
  | zero =>
      constructor
      · rintro ⟨rfl, rfl⟩
        simp
      · rintro ⟨hlen, -, rfl⟩
        exact ⟨List.length_eq_zero_iff.1 hlen, rfl⟩
  | succ k ih =>
      constructor
      · rintro ⟨_, v, _, gv, rfl, rfl, ⟨x, hx, rfl, rfl⟩, hv⟩
        rcases ih.1 hv with ⟨rfl, hall, rfl⟩
        refine ⟨by simp, ?_, rfl⟩
        intro y hy
        rcases List.mem_cons.1 hy with rfl | hy
        · exact hx
        · exact hall y hy
      · rintro ⟨hlen, hall, rfl⟩
        cases w with
        | nil => cases hlen
        | cons x w =>
            refine ⟨[x], w, [], [], rfl, rfl, ⟨x, hall x List.mem_cons_self, rfl, rfl⟩, ?_⟩
            exact ih.2 ⟨Nat.succ.inj hlen, fun y hy => hall y (List.mem_cons_of_mem _ hy), rfl⟩

/-- A single character always advances. -/
theorem advancing_cls (p : Char → Bool) : (Reads (.cls p)).advancing = Reads (.cls p) := by
  funext pre w post gs
  refine propext (and_iff_right_of_imp ?_)
  rintro ⟨x, -, rfl, -⟩
  exact List.cons_ne_nil _ _

/-- A repetition of what always advances is a number of readings in a row. -/
theorem reads_rep {a : Pattern} (ha : (Reads a).advancing = Reads a) {greedy : Bool} {lo : Nat}
    {hi : Option Nat} :
    Reads (.rep greedy lo hi a) pre w post gs ↔
      ∃ n, lo ≤ n ∧ (∀ k ∈ hi, n - lo ≤ k - lo) ∧ (Reads a).iterate n pre w post gs := by
  simp only [Reads, ha]
  constructor
  · rintro ⟨u, v, gu, gv, hw, hgs, hu, k, hk, hv⟩
    refine ⟨lo + k, Nat.le_add_right _ _, by simpa using hk, ?_⟩
    rw [Reading.iterate_add]
    exact ⟨u, v, gu, gv, hw, hgs, hu, hv⟩
  · rintro ⟨n, hlo, hhi, hw⟩
    obtain ⟨k, rfl⟩ := Nat.exists_eq_add_of_le hlo
    rw [Reading.iterate_add] at hw
    rcases hw with ⟨u, v, gu, gv, hw, hgs, hu, hv⟩
    exact ⟨u, v, gu, gv, hw, hgs, hu, k, by simpa using hhi, hv⟩

theorem reads_atLeast_cls {p : Char → Bool} {n : Nat} :
    Reads (.atLeast n (.cls p)) pre w post gs ↔
      n ≤ w.length ∧ (∀ x ∈ w, p x = true) ∧ gs = [] := by
  rw [Pattern.atLeast, reads_rep (advancing_cls p)]
  constructor
  · rintro ⟨k, hk, -, hw⟩
    rcases iterate_cls_iff.1 hw with ⟨rfl, hall, rfl⟩
    exact ⟨hk, hall, rfl⟩
  · rintro ⟨hlen, hall, rfl⟩
    exact ⟨w.length, hlen, by simp, iterate_cls_iff.2 ⟨rfl, hall, rfl⟩⟩

theorem reads_star_cls {p : Char → Bool} :
    Reads (.star (.cls p)) pre w post gs ↔ (∀ x ∈ w, p x = true) ∧ gs = [] := by
  have h := @reads_atLeast_cls pre w post gs p 0
  simpa [Pattern.atLeast, Pattern.star] using h

theorem reads_opt {a : Pattern} :
    Reads (.opt a) pre w post gs ↔ (w = [] ∧ gs = []) ∨ (w ≠ [] ∧ Reads a pre w post gs) := by
  simp only [Pattern.opt, Reads, Reading.andThen, Reading.iterate, Reading.empty]
  constructor
  · rintro ⟨_, v, _, gv, rfl, rfl, ⟨rfl, rfl⟩, k, hk, hv⟩
    have hk : k ≤ 1 := hk 1 rfl
    rcases Nat.le_one_iff_eq_zero_or_eq_one.1 hk with rfl | rfl
    · rcases hv with ⟨rfl, rfl⟩
      exact Or.inl ⟨rfl, rfl⟩
    · rcases hv with ⟨u, _, gu, _, rfl, rfl, ⟨hne, hu⟩, rfl, rfl⟩
      refine Or.inr ⟨by simpa using hne, ?_⟩
      simpa using hu
  · rintro (⟨rfl, rfl⟩ | ⟨hne, hw⟩)
    · exact ⟨[], [], [], [], rfl, rfl, ⟨rfl, rfl⟩, 0, by simp, rfl, rfl⟩
    · refine ⟨[], w, [], gs, rfl, by simp, ⟨rfl, rfl⟩, 1, by simp, w, [], gs, [], by simp, rfl, ?_⟩
      exact ⟨⟨hne, by simpa using hw⟩, rfl, rfl⟩

end Common

end Text
end HiddenSteps
