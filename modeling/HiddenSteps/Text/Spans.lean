import Mathlib.Data.List.Basic
import Mathlib.Tactic.Common

/-!
# Spans — half-open index ranges over a list and their greedy selection

`kept c ss` walks a list of spans in order and keeps each one that starts at or after the end of
the last kept one (at or after `c` for the first).  `gaps xs c ss` is what remains of `xs` when
exactly the kept spans are cut out.

The main result, `gaps_eq_uncovered_iff`, says when cutting out the kept spans amounts to cutting
out *all* of them: when the tail of no skipped span sticks out (`TailsClosed`).
-/

namespace HiddenSteps
namespace Text

/-- A half-open range of indices. -/
structure Span where
  start : Nat
  stop : Nat
  deriving DecidableEq, Repr

namespace Span

/-- The index lies in the span. -/
def Covers (s : Span) (i : Nat) : Prop :=
  s.start ≤ i ∧ i < s.stop

instance (s : Span) (i : Nat) : Decidable (s.Covers i) :=
  inferInstanceAs (Decidable (_ ∧ _))

end Span

/-- Some span of the list covers the index. -/
def Covered (ss : List Span) (i : Nat) : Prop :=
  ∃ s ∈ ss, s.Covers i

instance (ss : List Span) (i : Nat) : Decidable (Covered ss i) :=
  inferInstanceAs (Decidable (∃ s ∈ ss, s.Covers i))

@[simp] theorem not_covered_nil (i : Nat) : ¬ Covered [] i := by
  simp [Covered]

@[simp] theorem covered_cons (s : Span) (ss : List Span) (i : Nat) :
    Covered (s :: ss) i ↔ s.Covers i ∨ Covered ss i := by
  simp [Covered]

/-- The spans kept by a left-to-right greedy choice from cursor `c`. -/
def kept : Nat → List Span → List Span
  | _, [] => []
  | c, s :: ss => if s.start < c then kept c ss else s :: kept s.stop ss

/-- What is left of `xs` from index `c` on when the kept spans are cut out. -/
def gaps {α : Type} (xs : List α) : Nat → List Span → List α
  | c, [] => xs.drop c
  | c, s :: ss =>
      if s.start < c then gaps xs c ss
      else (xs.drop c).take (s.start - c) ++ gaps xs s.stop ss

/-- The elements of `xs` whose index lies in no span. -/
def uncovered {α : Type} (xs : List α) (ss : List Span) : List α :=
  (xs.zipIdx.filter fun p => ¬ Covered ss p.2).map Prod.fst

/-- What is left around a covered stretch comes from the two sides. -/
theorem uncovered_around {α : Type} {xs ys zs : List α} {ss : List Span}
    (h : ∀ i, xs.length ≤ i → i < (xs ++ ys).length → Covered ss i) :
    ∃ l r, uncovered (xs ++ ys ++ zs) ss = l ++ r ∧ l.Sublist xs ∧ r.Sublist zs := by
  have hsub : ∀ (as : List α) (n : Nat),
      (((as.zipIdx n).filter fun p => ¬ Covered ss p.2).map Prod.fst).Sublist as := by
    intro as n
    have hmap := (List.filter_sublist (p := fun p => ¬ Covered ss p.2) (l := as.zipIdx n)).map Prod.fst
    rwa [List.zipIdx_map_fst] at hmap
  have hmid : ((ys.zipIdx xs.length).filter fun p => ¬ Covered ss p.2) = [] := by
    rw [List.filter_eq_nil_iff]
    intro p hp
    have hle := List.le_snd_of_mem_zipIdx hp
    have hlt := List.snd_lt_add_of_mem_zipIdx hp
    have hcov := h p.2 hle (by rw [List.length_append]; omega)
    simpa using hcov
  refine ⟨_, _, ?_, hsub xs 0, hsub zs (xs ++ ys).length⟩
  rw [uncovered, List.zipIdx_append, List.zipIdx_append, List.filter_append, List.filter_append,
    Nat.zero_add, hmid, List.append_nil, List.map_append, Nat.zero_add]

/-- Every span is a range of indices of a list of length `n`. -/
def Bounded (n : Nat) (ss : List Span) : Prop :=
  ∀ s ∈ ss, s.start ≤ s.stop ∧ s.stop ≤ n

/-- The list is ordered by where the spans start. -/
abbrev SortedByStart (ss : List Span) : Prop :=
  ss.Pairwise fun a b => a.start ≤ b.start

theorem kept_subset (c : Nat) (ss : List Span) : kept c ss ⊆ ss := by
  induction ss generalizing c with
  | nil => simp [kept]
  | cons s ss ih =>
      unfold kept
      split
      · exact fun x hx => List.mem_cons_of_mem _ (ih c hx)
      · exact List.cons_subset_cons _ (ih s.stop)

theorem le_start_of_mem_kept {c : Nat} {ss : List Span}
    (hss : ∀ s ∈ ss, s.start ≤ s.stop) {s : Span} (hs : s ∈ kept c ss) : c ≤ s.start := by
  induction ss generalizing c with
  | nil => simp [kept] at hs
  | cons t ss ih =>
      have htail : ∀ s ∈ ss, s.start ≤ s.stop := fun s hs => hss s (List.mem_cons_of_mem _ hs)
      unfold kept at hs
      split at hs
      · exact ih htail hs
      · rename_i hct
        rcases List.mem_cons.1 hs with rfl | hmem
        · omega
        · have hstop := ih htail hmem
          have ht := hss t List.mem_cons_self
          omega

/-! ## Cutting out the kept spans -/

section Gaps

variable {α : Type}

private theorem map_fst_zipIdx_drop (xs : List α) (c : Nat) :
    (xs.zipIdx.drop c).map Prod.fst = xs.drop c := by
  rw [List.map_drop, List.zipIdx_map_fst]

private theorem idx_of_mem_drop {xs : List α} {c : Nat} {p : α × Nat}
    (h : p ∈ xs.zipIdx.drop c) : c ≤ p.2 := by
  rcases List.getElem_of_mem h with ⟨i, hi, rfl⟩
  simp

private theorem idx_of_mem_take {xs : List α} {c n : Nat} {p : α × Nat}
    (h : p ∈ (xs.zipIdx.drop c).take n) : c ≤ p.2 ∧ p.2 < c + n := by
  rcases List.getElem_of_mem h with ⟨i, hi, rfl⟩
  simp only [List.length_take, List.length_drop, List.length_zipIdx] at hi
  simp only [List.getElem_take, List.getElem_drop, List.getElem_zipIdx]
  omega

/-- Cutting out the kept spans leaves exactly the elements that no kept span covers. -/
theorem gaps_eq_filter_kept (xs : List α) (ss : List Span) (c : Nat)
    (hss : Bounded xs.length ss) (hc : c ≤ xs.length) :
    gaps xs c ss =
      ((xs.zipIdx.drop c).filter fun p => ¬ Covered (kept c ss) p.2).map Prod.fst := by
  induction ss generalizing c with
  | nil => simp [gaps, kept]
  | cons s ss ih =>
      have htail : Bounded xs.length ss := fun t ht => hss t (List.mem_cons_of_mem _ ht)
      rcases hss s List.mem_cons_self with ⟨hle, hlen⟩
      unfold gaps kept
      split
      · exact ih c htail hc
      · rename_i hcs
        rw [ih s.stop htail hlen]
        -- cut the indices from `c` on at the start and at the end of the kept span
        have hcut : xs.zipIdx.drop c =
            (xs.zipIdx.drop c).take (s.start - c) ++
              ((xs.zipIdx.drop s.start).take (s.stop - s.start) ++ xs.zipIdx.drop s.stop) := by
          have h1 : xs.zipIdx.drop s.start = (xs.zipIdx.drop c).drop (s.start - c) := by
            rw [List.drop_drop]; congr 1; omega
          have h2 : xs.zipIdx.drop s.stop =
              (xs.zipIdx.drop s.start).drop (s.stop - s.start) := by
            rw [List.drop_drop]; congr 1; omega
          rw [h2, List.take_append_drop, h1, List.take_append_drop]
        have hbefore : ((xs.zipIdx.drop c).take (s.start - c)).filter
            (fun p => ¬ Covered (s :: kept s.stop ss) p.2) =
              (xs.zipIdx.drop c).take (s.start - c) := by
          apply List.filter_eq_self.2
          intro p hp
          have hidx := idx_of_mem_take hp
          simp only [covered_cons, Span.Covers, decide_eq_true_eq]
          rintro (h | ⟨t, ht, h⟩)
          · omega
          · have := le_start_of_mem_kept (fun t ht => (htail t ht).1) ht
            have := h.1
            omega
        have hinside : ((xs.zipIdx.drop s.start).take (s.stop - s.start)).filter
            (fun p => ¬ Covered (s :: kept s.stop ss) p.2) = [] := by
          apply List.filter_eq_nil_iff.2
          intro p hp
          have hidx := idx_of_mem_take hp
          simp only [covered_cons, Span.Covers, decide_eq_true_eq, not_not]
          exact Or.inl (by omega)
        have hafter : (xs.zipIdx.drop s.stop).filter
            (fun p => ¬ Covered (s :: kept s.stop ss) p.2) =
              (xs.zipIdx.drop s.stop).filter (fun p => ¬ Covered (kept s.stop ss) p.2) := by
          apply List.filter_congr
          intro p hp
          have hidx := idx_of_mem_drop hp
          have hs : ¬ s.Covers p.2 := by simp only [Span.Covers]; omega
          simp [hs]
        conv_rhs => rw [hcut]
        rw [List.filter_append, List.filter_append, hbefore, hinside, hafter, List.nil_append,
          List.map_append]
        congr 1
        rw [List.map_take, map_fst_zipIdx_drop]

end Gaps

/-! ## Cutting out the kept spans cuts out every span -/

/-- No skipped span sticks out: `c` is the end of the last kept span and `r` the furthest end seen
so far.  A span that is kept leaves no gap after `c` while `r` lies beyond `c`, and at the end
nothing reaches beyond the last kept span. -/
def TailsClosed : Nat → Nat → List Span → Prop
  | c, r, [] => r ≤ c
  | c, r, s :: ss =>
      if s.start < c then TailsClosed c (max r s.stop) ss
      else (r ≤ c ∨ s.start = c) ∧ TailsClosed s.stop r ss

instance decidableTailsClosed : ∀ (c r : Nat) (ss : List Span), Decidable (TailsClosed c r ss)
  | c, r, [] => inferInstanceAs (Decidable (r ≤ c))
  | c, r, s :: ss =>
      have := decidableTailsClosed c (max r s.stop) ss
      have := decidableTailsClosed s.stop r ss
      inferInstanceAs (Decidable (if s.start < c then _ else _ ∧ _))

/-- From the cursor on, everything below `r` or in a span is in a kept span. -/
def KeptReach (c r : Nat) (ss : List Span) : Prop :=
  ∀ i, c ≤ i → (i < r ∨ Covered ss i) → Covered (kept c ss) i

/-- A span within reach of the cursor is skipped: it only moves `r`. -/
theorem keptReach_skip {s : Span} {ss : List Span} {c r : Nat} (hsc : s.start < c) :
    KeptReach c r (s :: ss) ↔ KeptReach c (max r s.stop) ss := by
  have hk : kept c (s :: ss) = kept c ss := by simp [kept, hsc]
  unfold KeptReach
  simp only [hk, covered_cons, Span.Covers]
  refine forall_congr' fun i => forall_congr' fun hi => imp_congr ?_ Iff.rfl
  constructor
  · rintro (h | h | h)
    · exact Or.inl (by omega)
    · exact Or.inl (by omega)
    · exact Or.inr h
  · rintro (h | h)
    · by_cases hr : i < r
      · exact Or.inl hr
      · exact Or.inr (Or.inl (by omega))
    · exact Or.inr (Or.inr h)

/-- A span that is kept starts at the cursor, unless nothing is left to reach in front of it. -/
theorem keptReach_keep {s : Span} {ss : List Span} {c r : Nat}
    (hle : ∀ t ∈ s :: ss, t.start ≤ t.stop) (hfirst : ∀ t ∈ ss, s.start ≤ t.start)
    (hsc : ¬ s.start < c) :
    KeptReach c r (s :: ss) ↔ (r ≤ c ∨ s.start = c) ∧ KeptReach s.stop r ss := by
  have hstop := hle s List.mem_cons_self
  have htail : ∀ t ∈ ss, t.start ≤ t.stop := fun t ht => hle t (List.mem_cons_of_mem _ ht)
  have hkept : ∀ i, i < s.stop → ¬ Covered (kept s.stop ss) i := by
    rintro i hi ⟨t, ht, hcov⟩
    have := le_start_of_mem_kept htail ht
    have := hcov.1
    omega
  have hlater : ∀ i, i < s.start → ¬ Covered ss i := by
    rintro i hi ⟨t, ht, hcov⟩
    have := hfirst t ht
    have := hcov.1
    omega
  unfold KeptReach
  simp only [kept, if_neg hsc, covered_cons]
  constructor
  · intro h
    constructor
    · -- the first index after the cursor would be left uncovered
      by_contra hgap
      have hcr : c < r ∧ c < s.start := by omega
      rcases h c (Nat.le_refl c) (Or.inl hcr.1) with hs | hk
      · exact absurd hs.1 (by omega)
      · exact hkept c (by omega) hk
    · intro i hi hcov
      rcases h i (by omega) (hcov.imp_right Or.inr) with hs | hk
      · exact absurd hs.2 (by omega)
      · exact hk
  · rintro ⟨hgap, h⟩ i hi hcov
    by_cases hin : s.Covers i
    · exact Or.inl hin
    · right
      by_cases hbefore : i < s.start
      · exfalso
        rcases hcov with hr | hs | hss
        · omega
        · exact hin hs
        · exact hlater i hbefore hss
      · have hafter : s.stop ≤ i := by
          simp only [Span.Covers] at hin
          omega
        rcases hcov with hr | hs | hss
        · exact h i hafter (Or.inl hr)
        · exact absurd hs hin
        · exact h i hafter (Or.inr hss)

theorem keptReach_iff_tailsClosed (ss : List Span) (c r : Nat)
    (hle : ∀ s ∈ ss, s.start ≤ s.stop) (hsorted : SortedByStart ss) :
    KeptReach c r ss ↔ TailsClosed c r ss := by
  induction ss generalizing c r with
  | nil =>
      simp only [KeptReach, kept, not_covered_nil, or_false, imp_false, TailsClosed]
      constructor
      · intro h
        by_contra hlt
        exact h c (Nat.le_refl c) (by omega)
      · intro h i hci
        omega
  | cons s ss ih =>
      have htail : ∀ s ∈ ss, s.start ≤ s.stop := fun t ht => hle t (List.mem_cons_of_mem _ ht)
      rcases List.pairwise_cons.1 hsorted with ⟨hfirst, hrest⟩
      by_cases hsc : s.start < c
      · rw [keptReach_skip hsc, ih c (max r s.stop) htail hrest]
        simp [TailsClosed, hsc]
      · rw [keptReach_keep hle hfirst hsc, ih s.stop r htail hrest]
        simp [TailsClosed, hsc]

private theorem eq_of_filter_length_eq {β : Type} {p q : β → Bool} {l : List β}
    (himp : ∀ b ∈ l, p b = true → q b = true)
    (hlen : (l.filter p).length = (l.filter q).length) : ∀ b ∈ l, p b = q b := by
  induction l with
  | nil => simp
  | cons b l ih =>
      have htail : ∀ b ∈ l, p b = true → q b = true := fun b hb =>
        himp b (List.mem_cons_of_mem _ hb)
      have hmono : (l.filter p).length ≤ (l.filter q).length := by
        rw [← List.countP_eq_length_filter, ← List.countP_eq_length_filter]
        exact List.countP_mono_left htail
      have hhead := himp b List.mem_cons_self
      rw [List.filter_cons, List.filter_cons] at hlen
      have hpq : p b = q b := by
        cases hp : p b with
        | true => exact (hhead hp).symm
        | false =>
            cases hq : q b with
            | false => rfl
            | true =>
                simp only [hp, hq, if_true, Bool.false_eq_true, if_false, List.length_cons] at hlen
                omega
      have hlen' : (l.filter p).length = (l.filter q).length := by
        rw [hpq] at hlen
        split at hlen
        · simpa using hlen
        · exact hlen
      intro x hx
      rcases List.mem_cons.1 hx with rfl | hx
      · exact hpq
      · exact ih htail hlen' x hx

/-- Cutting out the kept spans leaves exactly what no span covers if and only if no skipped span
sticks out of the kept ones. -/
theorem gaps_eq_uncovered_iff {α : Type} (xs : List α) (ss : List Span)
    (hss : Bounded xs.length ss) (hsorted : SortedByStart ss) :
    gaps xs 0 ss = uncovered xs ss ↔ TailsClosed 0 0 ss := by
  have hle : ∀ s ∈ ss, s.start ≤ s.stop := fun s hs => (hss s hs).1
  rw [← keptReach_iff_tailsClosed ss 0 0 hle hsorted,
    gaps_eq_filter_kept xs ss 0 hss (Nat.zero_le _)]
  rw [List.drop_zero, uncovered]
  constructor
  · -- both are filters of the same list, so the same indices survive
    intro heq i _ hcov
    have hcov : Covered ss i := by simpa using hcov
    have hlen := congrArg List.length heq
    simp only [List.length_map] at hlen
    have hiff := eq_of_filter_length_eq (l := xs.zipIdx)
      (p := fun p => decide ¬ Covered ss p.2) (q := fun p => decide ¬ Covered (kept 0 ss) p.2)
      (fun p _ hp => by
        simp only [decide_eq_true_eq] at hp ⊢
        rintro ⟨s, hs, h⟩
        exact hp ⟨s, kept_subset 0 ss hs, h⟩) hlen.symm
    rcases hcov with ⟨s, hs, hi⟩
    have hlt : i < xs.length := Nat.lt_of_lt_of_le hi.2 (hss s hs).2
    have hmem : (xs[i], i) ∈ xs.zipIdx := List.mk_mem_zipIdx_iff_getElem?.2 (by simp [hlt])
    have := hiff _ hmem
    simp only [decide_eq_decide, not_iff_not] at this
    exact this.1 ⟨s, hs, hi⟩
  · intro h
    congr 1
    apply List.filter_congr
    intro p _
    have hback : Covered (kept 0 ss) p.2 → Covered ss p.2 := by
      rintro ⟨s, hs, hp⟩
      exact ⟨s, kept_subset 0 ss hs, hp⟩
    have hforth : Covered ss p.2 → Covered (kept 0 ss) p.2 := fun hc =>
      h p.2 (Nat.zero_le _) (Or.inr hc)
    simp only [decide_eq_decide, not_iff_not]
    exact ⟨hback, hforth⟩

end Text
end HiddenSteps
