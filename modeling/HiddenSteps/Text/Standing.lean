import HiddenSteps.Text.Language

/-!
# Standing — words that stand in a text

`Stands q pre w post` says that `w` is a longest run of the class `q` between `pre` and `post`.

* `Stands.eq_or_apart`: two standing words of one text are the same, or apart;
* `Stands.cut`: a text that breaks between two words is the place of no standing word;
* `mem_findIter_iff`: a pattern whose readings lie apart reports every one of them.
-/

namespace HiddenSteps
namespace Text

/-- A longest run of a class. -/
structure Stands (q : Char → Bool) (pre w post : List Char) : Prop where
  ne_nil : w ≠ []
  word : ∀ c ∈ w, q c = true
  before : pre.getLast?.any q = false
  behind : post.head?.any q = false

/-- No word runs over the end of `l`. -/
def Break (q : Char → Bool) (l r : List Char) : Prop :=
  l.getLast?.any q = false ∨ r.head?.any q = false

variable {q : Char → Bool}

/-! ## The class at the ends of a text -/

theorem any_head_append {w r : List Char} (hne : w ≠ []) (hw : ∀ c ∈ w, q c = true) :
    (w ++ r).head?.any q = true := by
  cases w with
  | nil => exact absurd rfl hne
  | cons c w => simpa using hw c List.mem_cons_self

theorem any_getLast_append {l w : List Char} (hne : w ≠ []) (hw : ∀ c ∈ w, q c = true) :
    (l ++ w).getLast?.any q = true := by
  have hlast : (l ++ w).getLast? = some (w.getLast hne) := by
    rw [List.getLast?_append, List.getLast?_eq_some_getLast hne, Option.some_or]
  rw [hlast]
  exact hw _ (List.getLast_mem hne)

theorem head_any_append (s r : List Char) :
    (s ++ r).head?.any q = if s = [] then r.head?.any q else s.head?.any q := by
  cases s <;> simp

theorem getLast_any_append (l s : List Char) :
    (l ++ s).getLast?.any q = if s = [] then l.getLast?.any q else s.getLast?.any q := by
  cases hs : s.getLast? with
  | none =>
      have hnil : s = [] := List.getLast?_eq_none_iff.1 hs
      simp [hnil]
  | some c =>
      have hne : s ≠ [] := by
        rintro rfl
        cases hs
      rw [List.getLast?_append, if_neg hne, hs, Option.some_or]

theorem head_any_of_all {s : List Char} (hs : ∀ c ∈ s, q c = false) :
    s.head?.any q = false := by
  cases s with
  | nil => rfl
  | cons c s => simpa using hs c List.mem_cons_self

theorem getLast_any_of_all {s : List Char} (hs : ∀ c ∈ s, q c = false) :
    s.getLast?.any q = false := by
  cases hlast : s.getLast? with
  | none => rfl
  | some c => simpa using hs c (List.mem_of_getLast? hlast)

/-- What is behind a break does not change how a word in front of it ends. -/
theorem head_any_before_break {l t r : List Char} (hl : l.getLast?.any q = true)
    (hbreak : Break q (l ++ t) r) : (t ++ r).head?.any q = t.head?.any q := by
  rw [head_any_append]
  split
  · rename_i hnil
    subst hnil
    rcases hbreak with hbreak | hbreak
    · rw [List.append_nil, hl] at hbreak
      cases hbreak
    · exact hbreak
  · rfl

theorem getLast_any_behind_break {l t r : List Char} (hr : r.head?.any q = true)
    (hbreak : Break q l (t ++ r)) : (l ++ t).getLast?.any q = t.getLast?.any q := by
  rw [getLast_any_append]
  split
  · rename_i hnil
    subst hnil
    rcases hbreak with hbreak | hbreak
    · exact hbreak
    · rw [List.nil_append, hr] at hbreak
      cases hbreak
  · rfl

/-- Where a run of a class ends is determined. -/
theorem run_inj {w w' r r' : List Char} (h : w ++ r = w' ++ r') (hw : ∀ c ∈ w, q c = true)
    (hw' : ∀ c ∈ w', q c = true) (hr : r.head?.any q = false) (hr' : r'.head?.any q = false) :
    w = w' ∧ r = r' := by
  -- neither run goes on where the other one has ended
  have hstop : ∀ {t r r' : List Char}, r = t ++ r' → (∀ c ∈ t, q c = true) →
      r.head?.any q = false → t = [] := by
    rintro t _ r' rfl ht hr
    by_contra hne
    rw [any_head_append hne ht] at hr
    cases hr
  rcases List.append_eq_append_iff.1 h with ⟨t, rfl, hr₀⟩ | ⟨t, rfl, hr₀⟩
  · obtain rfl := hstop hr₀ (fun c hc => hw' c (List.mem_append_right _ hc)) hr
    exact ⟨by simp, by simpa using hr₀⟩
  · obtain rfl := hstop hr₀ (fun c hc => hw c (List.mem_append_right _ hc)) hr'
    exact ⟨by simp, by simpa using hr₀.symm⟩

namespace Stands

variable {pre w post pre' w' post' l r : List Char}

/-- Two standing words of one text are the same, or one of them ends before the other starts. -/
theorem eq_or_apart (h : Stands q pre w post) (h' : Stands q pre' w' post')
    (htext : pre ++ w ++ post = pre' ++ w' ++ post') :
    (pre' = pre ∧ w' = w ∧ post' = post) ∨ (∃ t, pre = pre' ++ w' ++ t) ∨
      ∃ t, pre' = pre ++ w ++ t := by
  have hstart : pre.getLast?.any q ≠ (w ++ post).head?.any q := by
    rw [h.before, any_head_append h.ne_nil h.word]
    exact Bool.false_ne_true
  have hstart' : pre'.getLast?.any q ≠ (w' ++ post').head?.any q := by
    rw [h'.before, any_head_append h'.ne_nil h'.word]
    exact Bool.false_ne_true
  have hleft : pre ++ w ++ post = pre' ++ (w' ++ post') := by rw [htext, List.append_assoc]
  have hright : pre' ++ w' ++ post' = pre ++ (w ++ post) := by rw [← htext, List.append_assoc]
  rcases boundary_outside_run h.word hleft hstart' with ⟨t, ht⟩ | hbehind
  · rcases boundary_outside_run h'.word hright hstart with ⟨t', ht'⟩ | hbefore
    · -- each starts where the other one does
      have hnil : t = [] := by
        rw [ht', List.append_assoc, List.self_eq_append_right, List.append_eq_nil_iff] at ht
        exact ht.2
      rw [hnil, List.append_nil] at ht
      subst ht
      have hwords : w ++ post = w' ++ post' := by simpa using htext
      rcases run_inj hwords h.word h'.word h.behind h'.behind with ⟨rfl, rfl⟩
      exact Or.inl ⟨rfl, rfl, rfl⟩
    · exact Or.inr (Or.inl hbefore)
  · exact Or.inr (Or.inr hbehind)

/-- The only word of a word is the word. -/
theorem eq_whole (h : Stands q pre w post) (hword : ∀ c ∈ pre ++ w ++ post, q c = true) :
    pre = [] ∧ post = [] := by
  constructor
  · by_contra hne
    have hlast := any_getLast_append (l := []) hne fun c hc => hword c (by simp [hc])
    rw [List.nil_append, h.before] at hlast
    cases hlast
  · by_contra hne
    have hhead := any_head_append (r := []) hne fun c hc => hword c (by simp [hc])
    rw [List.append_nil, h.behind] at hhead
    cases hhead

/-- A standing word lies on one side of a break. -/
theorem cut (h : Stands q pre w post) (htext : pre ++ w ++ post = l ++ r) (hbreak : Break q l r) :
    (∃ t, l = pre ++ w ++ t ∧ post = t ++ r) ∨ ∃ t, pre = l ++ t ∧ r = t ++ w ++ post := by
  rcases List.append_eq_append_iff.1 htext with ⟨t, hl, hpost⟩ | ⟨t, hpre, hr⟩
  · exact Or.inl ⟨t, hl, hpost⟩
  · rcases List.append_eq_append_iff.1 hpre with ⟨u, hl, hw⟩ | ⟨u, hpre', ht⟩
    · -- the break lies in the word, at its start or at its end
      cases u with
      | nil =>
          have hl : l = pre := by simpa using hl
          have hw : w = t := by simpa using hw
          exact Or.inr ⟨[], by simp [hl], by simp [hr, hw]⟩
      | cons c u =>
          cases t with
          | nil =>
              refine Or.inl ⟨[], ?_, ?_⟩
              · rw [hl, hw]
                simp
              · simpa using hr.symm
          | cons d t =>
              have hlast : l.getLast?.any q = true := by
                rw [hl]
                exact any_getLast_append (List.cons_ne_nil _ _) fun x hx =>
                  h.word x (by rw [hw]; exact List.mem_append_left _ hx)
              have hhead : r.head?.any q = true := by
                rw [hr]
                exact any_head_append (List.cons_ne_nil _ _) fun x hx =>
                  h.word x (by rw [hw]; exact List.mem_append_right _ hx)
              rcases hbreak with hbreak | hbreak
              · rw [hlast] at hbreak
                cases hbreak
              · rw [hhead] at hbreak
                cases hbreak
    · exact Or.inr ⟨u, hpre', by rw [hr, ht]⟩

/-- Behind a break the text does not matter. -/
theorem append_iff {t : List Char} (hbreak : Break q (pre ++ w ++ t) r) :
    Stands q pre w (t ++ r) ↔ Stands q pre w t := by
  constructor
  · intro h
    have hlast := any_getLast_append (l := pre) h.ne_nil h.word
    exact ⟨h.ne_nil, h.word, h.before, (head_any_before_break hlast hbreak).symm.trans h.behind⟩
  · intro h
    have hlast := any_getLast_append (l := pre) h.ne_nil h.word
    exact ⟨h.ne_nil, h.word, h.before, (head_any_before_break hlast hbreak).trans h.behind⟩

/-- In front of a break the text does not matter. -/
theorem prepend_iff {t : List Char} (hbreak : Break q l (t ++ (w ++ post))) :
    Stands q (l ++ t) w post ↔ Stands q t w post := by
  constructor
  · intro h
    have hhead := any_head_append (r := post) h.ne_nil h.word
    exact ⟨h.ne_nil, h.word, (getLast_any_behind_break hhead hbreak).symm.trans h.before, h.behind⟩
  · intro h
    have hhead := any_head_append (r := post) h.ne_nil h.word
    exact ⟨h.ne_nil, h.word, (getLast_any_behind_break hhead hbreak).trans h.before, h.behind⟩

end Stands

/-! ## Readings that lie apart -/

/-- The readings of a pattern in a text are not empty and do not overlap. -/
structure ReadsApart (p : Pattern) (text : List Char) : Prop where
  ne_nil : ∀ {pre w post gs}, text = pre ++ w ++ post → Reads p pre w post gs → w ≠ []
  eq_or_apart : ∀ {pre w post gs pre' w' post' gs'}, text = pre ++ w ++ post →
    text = pre' ++ w' ++ post' → Reads p pre w post gs → Reads p pre' w' post' gs' →
    (pre' = pre ∧ w' = w ∧ gs' = gs) ∨ (∃ t, pre = pre' ++ w' ++ t) ∨ ∃ t, pre' = pre ++ w ++ t

/-- Readings that lie apart are all reported. -/
theorem ReadsApart.mem_findIter_iff {p : Pattern} {text : List Char} (h : ReadsApart p text)
    {m : Match} :
    m ∈ findIter p text ↔ ∃ pre w post gs, text = pre ++ w ++ post ∧ m = .ofReading pre w gs ∧
      Reads p pre w post gs := by
  constructor
  · exact reads_of_mem_findIter
  · rintro ⟨pre, w, post, gs, rfl, rfl, hw⟩
    have hpos : 0 < byteLen w := Nat.pos_of_ne_zero fun hzero =>
      h.ne_nil rfl hw (byteLen_eq_zero hzero)
    have hmatch : matchAt p pre.getLast? (w ++ post) (byteLen pre) = some (.ofReading pre w gs) := by
      refine matchAt_of_unique hw fun w' post' gs' hrest hw' => ?_
      have htext : pre ++ w ++ post = pre ++ w' ++ post' := by simp [hrest]
      rcases h.eq_or_apart rfl htext hw hw' with ⟨-, hword, hgs⟩ | ⟨t, ht⟩ | ⟨t, ht⟩
      · exact ⟨hword, hgs⟩
      · have hne := h.ne_nil htext hw'
        simp [hne] at ht
      · have hne := h.ne_nil rfl hw
        simp [hne] at ht
    have hstop : byteLen pre < (Match.ofReading pre w gs).span.stop := by
      simpa [Match.ofReading] using hpos
    have hcomplete := findIter_complete hmatch hstop
    rw [← List.append_assoc] at hcomplete
    rcases hcomplete with hmem | ⟨m', hm', hbefore, hbehind⟩
    · exact hmem
    · -- a reported match that ran over the start would overlap the reading
      rcases reads_of_mem_findIter hm' with ⟨pre', w', post', gs', htext, rfl, hw'⟩
      simp only [Match.ofReading] at hbefore hbehind
      rcases h.eq_or_apart rfl htext hw hw' with ⟨rfl, -, -⟩ | ⟨t, rfl⟩ | ⟨t, rfl⟩
      · exact absurd hbefore (Nat.lt_irrefl _)
      · rw [byteLen_append (pre' ++ w')] at hbehind
        omega
      · simp only [byteLen_append] at hbefore
        omega

end Text
end HiddenSteps
