import Mathlib.Algebra.BigOperators.Group.List.Basic
import Mathlib.Algebra.Group.Hom.Defs
import Mathlib.Data.Set.Function
import Mathlib.Tactic.Abel
import Mathlib.Tactic.Common

/-!
# CheckDigits — words with a position-weighted checksum

Every character of a word weighs something that depends on how far from the right it stands, and
the word is accepted when the weights add up to zero.  Which errors such a code detects is decided
by the weights of one position (a wrong character) and of two neighbouring positions (a swap).
-/

namespace HiddenSteps
namespace Systems
namespace CheckDigits

variable {α M N : Type}

/-- The sum of the weights of a word that stands `k` positions from the right. -/
def checksumFrom [AddCommMonoid M] (weight : Nat → α → M) (k : Nat) : List α → M
  | [] => 0
  | a :: word => weight (k + word.length) a + checksumFrom weight k word

abbrev checksum [AddCommMonoid M] (weight : Nat → α → M) (word : List α) : M :=
  checksumFrom weight 0 word

/-- The number of places where two words of one length differ. -/
def distance [DecidableEq α] (u v : List α) : Nat :=
  (u.zip v).countP fun p => p.1 ≠ p.2

theorem distance_cons [DecidableEq α] (a b : α) (u v : List α) :
    distance (a :: u) (b :: v) = distance u v + if a = b then 0 else 1 := by
  unfold distance
  by_cases h : a = b <;> simp [h]

theorem eq_of_distance_eq_zero [DecidableEq α] {u v : List α} (hlen : u.length = v.length)
    (h : distance u v = 0) : u = v := by
  induction u generalizing v with
  | nil => exact (List.length_eq_zero_iff.1 hlen.symm).symm
  | cons a u ih =>
      cases v with
      | nil => cases hlen
      | cons b v =>
          rw [distance_cons] at h
          by_cases hab : a = b
          · rw [hab, ih (Nat.succ.inj hlen) (by omega)]
          · simp [hab] at h

section Sums

variable [AddCommMonoid M] (weight : Nat → α → M)

@[simp] theorem checksumFrom_nil (k : Nat) : checksumFrom weight k [] = 0 := rfl

@[simp] theorem checksumFrom_cons (k : Nat) (a : α) (word : List α) :
    checksumFrom weight k (a :: word) =
      weight (k + word.length) a + checksumFrom weight k word := rfl

theorem checksumFrom_append (k : Nat) (u v : List α) :
    checksumFrom weight k (u ++ v) =
      checksumFrom weight (k + v.length) u + checksumFrom weight k v := by
  induction u with
  | nil => simp
  | cons a u ih =>
      rw [List.cons_append, checksumFrom_cons, ih, checksumFrom_cons, List.length_append,
        Nat.add_comm u.length, Nat.add_assoc k]
      exact (add_assoc _ _ _).symm

theorem checksumFrom_map {β : Type} (f : β → α) (k : Nat) (word : List β) :
    checksumFrom weight k (word.map f) = checksumFrom (fun i b => weight i (f b)) k word := by
  induction word with
  | nil => rfl
  | cons b word ih => rw [List.map_cons, checksumFrom_cons, ih, List.length_map, checksumFrom_cons]

/-- The weights may be summed from the right, by position. -/
theorem checksumFrom_eq_sum (k : Nat) (word : List α) :
    checksumFrom weight k word = (word.reverse.mapIdx fun i a => weight (k + i) a).sum := by
  induction word with
  | nil => rfl
  | cons a word ih =>
      rw [checksumFrom_cons, ih, List.reverse_cons, List.mapIdx_append, List.sum_append]
      simp [add_comm]

theorem map_checksumFrom [AddCommMonoid N] (f : M →+ N) (k : Nat) (word : List α) :
    f (checksumFrom weight k word) = checksumFrom (fun i a => f (weight i a)) k word := by
  induction word with
  | nil => exact f.map_zero
  | cons a word ih => rw [checksumFrom_cons, f.map_add, ih, checksumFrom_cons]

end Sums

section Errors

variable [AddCommGroup M] {weight : Nat → α → M} {S : Set α}

/-- When every amount is the weight of one last character, every word has one check character. -/
theorem existsUnique_check (h : Set.BijOn (weight 0) S Set.univ) (word : List α) :
    ∃! a, a ∈ S ∧ checksum weight (word ++ [a]) = 0 := by
  have hsum : ∀ a, checksum weight (word ++ [a]) = checksumFrom weight 1 word + weight 0 a := by
    intro a
    rw [checksum, checksumFrom_append]
    simp
  rcases h.surjOn (Set.mem_univ (-checksumFrom weight 1 word)) with ⟨a, ha, hweight⟩
  refine ⟨a, ⟨ha, by rw [hsum, hweight, add_neg_cancel]⟩, ?_⟩
  rintro b ⟨hb, hzero⟩
  rw [hsum] at hzero
  exact h.injOn hb ha ((eq_neg_of_add_eq_zero_right hzero).trans hweight.symm)

/-- When no two characters weigh the same at a place, words of one checksum differ twice. -/
theorem two_le_distance [DecidableEq α] (h : ∀ i, Set.InjOn (weight i) S) {k : Nat}
    {u v : List α} (hu : ∀ a ∈ u, a ∈ S) (hv : ∀ a ∈ v, a ∈ S) (hlen : u.length = v.length)
    (hsum : checksumFrom weight k u = checksumFrom weight k v) (hne : u ≠ v) :
    2 ≤ distance u v := by
  induction u generalizing v with
  | nil => exact absurd (List.length_eq_zero_iff.1 hlen.symm).symm hne
  | cons a u ih =>
      cases v with
      | nil => cases hlen
      | cons b v =>
          have hlen' : u.length = v.length := Nat.succ.inj hlen
          rcases List.forall_mem_cons.1 hu with ⟨ha, hu'⟩
          rcases List.forall_mem_cons.1 hv with ⟨hb, hv'⟩
          rw [checksumFrom_cons, checksumFrom_cons, hlen'] at hsum
          rw [distance_cons]
          by_cases hab : a = b
          · rw [if_pos hab]
            refine ih hu' hv' hlen' ?_ ?_
            · rw [hab] at hsum
              exact add_left_cancel hsum
            · rintro rfl
              exact hne (by rw [hab])
          · -- a difference in front is made up for behind it
            rw [if_neg hab]
            have hpos : distance u v ≠ 0 := by
              intro hzero
              rw [eq_of_distance_eq_zero hlen' hzero] at hsum
              exact hab (h _ ha hb (add_right_cancel hsum))
            omega

/-- A swap of neighbours goes unnoticed exactly when their two weights add up to the same. -/
theorem checksum_swap_iff (k : Nat) (u v : List α) (a b : α) :
    checksumFrom weight k (u ++ a :: b :: v) = checksumFrom weight k (u ++ b :: a :: v) ↔
      weight (k + v.length + 1) a + weight (k + v.length) b =
        weight (k + v.length + 1) b + weight (k + v.length) a := by
  have hsum : ∀ a b, checksumFrom weight k (u ++ a :: b :: v) =
      (weight (k + v.length + 1) a + weight (k + v.length) b) +
        (checksumFrom weight (k + (v.length + 2)) u + checksumFrom weight k v) := by
    intro a b
    rw [checksumFrom_append, checksumFrom_cons, checksumFrom_cons, List.length_cons,
      List.length_cons, Nat.add_assoc k v.length 1]
    abel
  rw [hsum, hsum, add_left_inj]

end Errors

section Amounts

/-- When each weight up to `m` occurs at every position, each amount up to `m` times the length is
a checksum. -/
theorem exists_checksum {weight : Nat → α → Nat} {S : Set α} {m : Nat}
    (h : ∀ i, ∀ r ≤ m, ∃ a ∈ S, weight i a = r) (k n : Nat) {amount : Nat}
    (hamount : amount ≤ m * n) :
    ∃ word : List α, word.length = n ∧ (∀ a ∈ word, a ∈ S) ∧
      checksumFrom weight k word = amount := by
  induction n generalizing amount with
  | zero => exact ⟨[], rfl, by simp, (Nat.le_zero.1 hamount).symm⟩
  | succ n ih =>
      -- the first character takes as much as it can
      rw [Nat.mul_succ] at hamount
      obtain ⟨word, hlen, hS, hsum⟩ := @ih (amount - min amount m) (by omega)
      obtain ⟨a, ha, hweight⟩ := h (k + word.length) (min amount m) (Nat.min_le_right ..)
      refine ⟨a :: word, by rw [List.length_cons, hlen], List.forall_mem_cons.2 ⟨ha, hS⟩, ?_⟩
      rw [checksumFrom_cons, hweight, hsum]
      exact Nat.add_sub_cancel' (Nat.min_le_left ..)

theorem checksumFrom_le {weight : Nat → α → Nat} {S : Set α} {m : Nat}
    (h : ∀ i, ∀ a ∈ S, weight i a ≤ m) (k : Nat) {word : List α} (hS : ∀ a ∈ word, a ∈ S) :
    checksumFrom weight k word ≤ m * word.length := by
  induction word with
  | nil => exact Nat.le_refl 0
  | cons a word ih =>
      rcases List.forall_mem_cons.1 hS with ⟨ha, hS'⟩
      have hfirst := h (k + word.length) a ha
      have hrest := ih hS'
      rw [checksumFrom_cons, List.length_cons, Nat.mul_succ]
      omega

end Amounts

end CheckDigits
end Systems
end HiddenSteps
