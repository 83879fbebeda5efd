import Mathlib.Data.List.Basic
import Mathlib.Tactic.Common

/-!
# LastWrite — registers that hold what was written last

A register is a part of a state that every call either sets or leaves alone.  After a sequence of
calls it holds what the last call that sets it has written (`get_foldl`).
-/

namespace HiddenSteps
namespace Systems

variable {σ α β : Type} {write : α → Option β}

/-- What the last call that writes has written. -/
def lastWrite (write : α → Option β) (calls : List α) : Option β :=
  (calls.filterMap write).getLast?

@[simp] theorem lastWrite_nil : lastWrite write [] = none := rfl

theorem lastWrite_cons (call : α) (calls : List α) :
    lastWrite write (call :: calls) = (lastWrite write calls).or (write call) := by
  unfold lastWrite
  cases hwrite : write call with
  | none => rw [List.filterMap_cons_none hwrite, Option.or_none]
  | some b =>
      rw [List.filterMap_cons_some hwrite, List.getLast?_cons]
      cases (calls.filterMap write).getLast? <;> rfl

/-- A register after a sequence of calls. -/
theorem get_foldl {step : σ → α → σ} (get : σ → β)
    (hstep : ∀ s call, get (step s call) = (write call).getD (get s)) (calls : List α) (s : σ) :
    get (calls.foldl step s) = (lastWrite write calls).getD (get s) := by
  induction calls generalizing s with
  | nil => rfl
  | cons call calls ih =>
      rw [List.foldl_cons, ih, lastWrite_cons, hstep]
      cases lastWrite write calls <;> rfl

end Systems
end HiddenSteps
