import Mathlib.Algebra.BigOperators.Group.List.Basic
import Mathlib.Algebra.Order.Group.Defs
import Mathlib.Data.List.Basic
import Mathlib.Order.Bounds.Basic
import Mathlib.Tactic.Common

/-!
# Packing — disjoint intervals of one length

Intervals of a length `w` are given by where they start.  `greedy` walks a sorted list of starts and
keeps each interval that begins no earlier than the last kept one ends.  No choice of disjoint
intervals has more members, and later intervals never change what has been kept before.
-/

namespace HiddenSteps
namespace Systems
namespace Packing

variable {w : Nat}

/-- In order, and no two of the intervals overlap. -/
def Disjoint (w : Nat) (starts : List Nat) : Prop :=
  starts.Pairwise fun i j => i + w ≤ j

/-- Keep each interval that starts no earlier than the last kept one ends. -/
def greedy (w : Nat) : Nat → List Nat → List Nat
  | _, [] => []
  | next, i :: is => if next ≤ i then i :: greedy w (i + w) is else greedy w next is

theorem greedy_sublist (next : Nat) (is : List Nat) : (greedy w next is).Sublist is := by
  induction is generalizing next with
  | nil => exact List.Sublist.refl _
  | cons i is ih =>
      unfold greedy
      split
      · exact (ih _).cons_cons i
      · exact (ih _).cons i

theorem le_of_mem_greedy {next : Nat} {is : List Nat} {i : Nat} (h : i ∈ greedy w next is) :
    next ≤ i := by
  induction is generalizing next with
  | nil => cases h
  | cons j is ih =>
      unfold greedy at h
      split at h
      · rename_i hle
        rcases List.mem_cons.1 h with rfl | h
        · exact hle
        · have := ih h
          omega
      · exact ih h

theorem greedy_disjoint (next : Nat) (is : List Nat) : Disjoint w (greedy w next is) := by
  induction is generalizing next with
  | nil => exact List.Pairwise.nil
  | cons i is ih =>
      unfold greedy
      split
      · exact List.pairwise_cons.2 ⟨fun j hj => le_of_mem_greedy hj, ih _⟩
      · exact ih _

/-- No choice of disjoint intervals beats the greedy one. -/
theorem length_le_greedy (hw : 0 < w) {is : List Nat} (hsorted : is.Pairwise (· < ·))
    {next : Nat} {js : List Nat} (hjs : ∀ j ∈ js, j ∈ is ∧ next ≤ j) (hdisjoint : Disjoint w js) :
    js.length ≤ (greedy w next is).length := by
  induction is generalizing next js with
  | nil =>
      cases js with
      | nil => exact Nat.le_refl _
      | cons j js => exact absurd (hjs j List.mem_cons_self).1 List.not_mem_nil
  | cons i is ih =>
      rcases List.pairwise_cons.1 hsorted with ⟨hfirst, hrest⟩
      unfold greedy
      split
      · cases js with
        | nil => exact Nat.zero_le _
        | cons j js =>
            -- exchange the first interval of the choice for `i`, which ends no later
            rcases List.pairwise_cons.1 hdisjoint with ⟨hafter, hdisjoint⟩
            have hij : i ≤ j := by
              rcases List.mem_cons.1 (hjs j List.mem_cons_self).1 with rfl | hmem
              · exact Nat.le_refl _
              · exact Nat.le_of_lt (hfirst j hmem)
            have htail : ∀ k ∈ js, k ∈ is ∧ i + w ≤ k := by
              intro k hk
              have hle := hafter k hk
              rcases List.mem_cons.1 (hjs k (List.mem_cons_of_mem _ hk)).1 with rfl | hmem
              · omega
              · exact ⟨hmem, by omega⟩
            simpa using ih hrest htail hdisjoint
      ·
        -- an interval that is passed over begins too early for the choice as well
        rename_i hlt
        apply ih hrest _ hdisjoint
        intro j hj
        rcases hjs j hj with ⟨hmem, hle⟩
        rcases List.mem_cons.1 hmem with rfl | hmem
        · exact absurd hle hlt
        · exact ⟨hmem, hle⟩

/-- The greedy choice attains the maximum number of disjoint intervals. -/
theorem isGreatest_length_greedy (hw : 0 < w) {is : List Nat} (hsorted : is.Pairwise (· < ·)) :
    IsGreatest {n | ∃ js, (∀ j ∈ js, j ∈ is) ∧ Disjoint w js ∧ js.length = n}
      (greedy w 0 is).length := by
  constructor
  · exact ⟨greedy w 0 is, fun j hj => (greedy_sublist 0 is).subset hj, greedy_disjoint 0 is, rfl⟩
  · rintro n ⟨js, hjs, hdisjoint, rfl⟩
    exact length_le_greedy hw hsorted (fun j hj => ⟨hjs j hj, Nat.zero_le j⟩) hdisjoint

/-! ## Longer lists -/

/-- What has been kept does not depend on later intervals. -/
theorem greedy_append (next : Nat) (is js : List Nat) :
    ∃ next', greedy w next (is ++ js) = greedy w next is ++ greedy w next' js := by
  induction is generalizing next with
  | nil => exact ⟨next, rfl⟩
  | cons i is ih =>
      simp only [List.cons_append, greedy]
      split
      · rcases ih (i + w) with ⟨next', h⟩
        exact ⟨next', by rw [h]; rfl⟩
      · exact ih next

/-- The greedy choice does not depend on where the line begins. -/
theorem greedy_map_add (k next : Nat) (is : List Nat) :
    greedy w (next + k) (is.map (· + k)) = (greedy w next is).map (· + k) := by
  induction is generalizing next with
  | nil => rfl
  | cons i is ih =>
      simp only [List.map_cons, greedy]
      by_cases hle : next ≤ i
      · rw [if_pos hle, if_pos (by omega), List.map_cons, ← ih, Nat.add_right_comm]
      · rw [if_neg hle, if_neg (by omega), ih]

/-- A line may begin anywhere before its first interval. -/
theorem greedy_shift (k : Nat) (is : List Nat) :
    greedy w 0 (is.map (· + k)) = (greedy w 0 is).map (· + k) := by
  -- the first interval is kept from either beginning
  have hfree : greedy w 0 (is.map (· + k)) = greedy w (0 + k) (is.map (· + k)) := by
    cases is with
    | nil => rfl
    | cons i is =>
        have hle : 0 + k ≤ i + k := by omega
        rw [List.map_cons, greedy, greedy, if_pos (Nat.zero_le _), if_pos hle]
  rw [hfree, greedy_map_add]

/-- The first interval is kept, and it is the first of those that are kept. -/
theorem exists_first {is : List Nat} (hsorted : is.Pairwise (· < ·)) {i : Nat} (hi : i ∈ is) :
    ∃ first ∈ greedy w 0 is, first ≤ i ∧ ∀ j ∈ is, first ≤ j := by
  cases is with
  | nil => cases hi
  | cons first is =>
      have hle : ∀ j ∈ first :: is, first ≤ j := by
        intro j hj
        rcases List.mem_cons.1 hj with rfl | hj
        · exact Nat.le_refl _
        · exact Nat.le_of_lt ((List.pairwise_cons.1 hsorted).1 j hj)
      refine ⟨first, ?_, hle i hi, hle⟩
      rw [greedy, if_pos (Nat.zero_le _)]
      exact List.mem_cons_self

/-! ## Lengths -/

/-- Intervals in order, none of which begins before the ones in front of it end, are together no
longer than what lies between their bounds. -/
theorem sum_lengths_le {α β : Type} [AddCommGroup β] [PartialOrder β] [IsOrderedAddMonoid β]
    {left right : α → β} {l : List α} (hapart : l.Pairwise fun x y => right x ≤ left y)
    {lo hi : β} (hle : lo ≤ hi) (hlo : ∀ x ∈ l, lo ≤ left x) (hhi : ∀ x ∈ l, right x ≤ hi) :
    (l.map fun x => right x - left x).sum ≤ hi - lo := by
  induction l generalizing lo with
  | nil => simpa using hle
  | cons x l ih =>
      rcases List.pairwise_cons.1 hapart with ⟨hafter, hapart⟩
      rcases List.forall_mem_cons.1 hhi with ⟨hx, hhi⟩
      calc
        ((x :: l).map fun x => right x - left x).sum
            = right x - left x + (l.map fun x => right x - left x).sum := by simp
        _ ≤ right x - left x + (hi - right x) := add_le_add_right (ih hapart hx hafter hhi) _
        _ = hi - left x := sub_add_sub_cancel' _ _ _
        _ ≤ hi - lo := sub_le_sub_left (hlo x List.mem_cons_self) hi

end Packing
end Systems
end HiddenSteps
