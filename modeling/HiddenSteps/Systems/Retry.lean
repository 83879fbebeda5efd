import Mathlib.Data.List.Basic
import Mathlib.Tactic.Common

/-!
# Retry — loops that end at the first success

An attempt succeeds or gives the reason why it failed.  A loop makes at most a number of attempts,
one after the other.  It ends at the first success (`retry_succeeds`) or, when all of them fail,
with the last reason (`retry_exhausted`).
-/

namespace HiddenSteps
namespace Systems

variable {α ρ : Type} {attempt : Nat → Except ρ α} {left : Nat} {last : ρ}

/-- The number of attempts made, and the first success or the last reason. -/
def retry : (left : Nat) → (attempt : Nat → Except ρ α) → (last : ρ) → Nat × Except ρ α
  | 0, _, last => (0, .error last)
  | left + 1, attempt, _ =>
      match attempt 0 with
      | .ok a => (1, .ok a)
      | .error reason =>
          let rest := retry left (fun i => attempt (i + 1)) reason
          (rest.1 + 1, rest.2)

theorem retry_ok {a : α} (h : attempt 0 = .ok a) :
    retry (left + 1) attempt last = (1, .ok a) := by
  rw [retry, h]

theorem retry_error {reason : ρ} (h : attempt 0 = .error reason) :
    retry (left + 1) attempt last =
      ((retry left (fun i => attempt (i + 1)) reason).1 + 1,
        (retry left (fun i => attempt (i + 1)) reason).2) := by
  rw [retry, h]

/-- No attempt is made beyond the limit. -/
theorem retry_fst_le : (retry left attempt last).1 ≤ left := by
  induction left generalizing attempt last with
  | zero => exact Nat.le_refl 0
  | succ left ih =>
      cases h : attempt 0 with
      | ok a =>
          rw [retry_ok h]
          exact Nat.le_add_left 1 left
      | error reason =>
          rw [retry_error h]
          exact Nat.succ_le_succ ih

/-- The loop ends at the first success. -/
theorem retry_succeeds {k : Nat} {a : α} (hk : k < left)
    (hfailed : ∀ i < k, ∃ reason, attempt i = .error reason) (hsuccess : attempt k = .ok a) :
    retry left attempt last = (k + 1, .ok a) := by
  induction left generalizing attempt k last with
  | zero => exact absurd hk (Nat.not_lt_zero k)
  | succ left ih =>
      cases k with
      | zero => exact retry_ok hsuccess
      | succ k =>
          rcases hfailed 0 (Nat.succ_pos k) with ⟨reason, hreason⟩
          have hrest : retry left (fun i => attempt (i + 1)) reason = (k + 1, .ok a) :=
            ih (Nat.lt_of_succ_lt_succ hk) (fun i hi => hfailed (i + 1) (Nat.succ_lt_succ hi))
              hsuccess
          rw [retry_error hreason, hrest]

/-- What a loop returns is what one of its attempts has returned. -/
theorem exists_attempt_of_retry {a : α} (h : (retry left attempt last).2 = .ok a) :
    ∃ k < left, attempt k = .ok a := by
  induction left generalizing attempt last with
  | zero => cases h
  | succ left ih =>
      cases hattempt : attempt 0 with
      | ok b =>
          rw [retry_ok hattempt] at h
          cases h
          exact ⟨0, Nat.succ_pos left, hattempt⟩
      | error reason =>
          rw [retry_error hattempt] at h
          rcases ih h with ⟨k, hk, hrest⟩
          exact ⟨k + 1, Nat.succ_lt_succ hk, hrest⟩

/-- A loop whose attempts all fail makes all of them and keeps the last reason. -/
theorem retry_exhausted (hfailed : ∀ i < left, ∃ reason, attempt i = .error reason) :
    ∃ reason, retry left attempt last = (left, .error reason) ∧
      ∀ i, i + 1 = left → attempt i = .error reason := by
  induction left generalizing attempt last with
  | zero => exact ⟨last, rfl, fun i h => absurd h (Nat.succ_ne_zero i)⟩
  | succ left ih =>
      rcases hfailed 0 (Nat.succ_pos left) with ⟨reason, hreason⟩
      rcases @ih (fun i => attempt (i + 1)) reason
          (fun i hi => hfailed (i + 1) (Nat.succ_lt_succ hi)) with ⟨final, hfinal, hlast⟩
      refine ⟨final, by rw [retry_error hreason, hfinal], ?_⟩
      intro i hi
      cases i with
      | zero =>
          -- the only attempt was the last one
          cases Nat.succ.inj hi
          cases hfinal
          exact hreason
      | succ i => exact hlast i (Nat.succ.inj hi)

end Systems
end HiddenSteps
