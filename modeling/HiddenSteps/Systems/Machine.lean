import Mathlib.Data.List.Basic
import Mathlib.Tactic.Common

/-!
# Machine — labelled machines, guarded runs and their histories

A machine steps by actions and emits effects; the effects of a run, first to last, are its history.
`Reach` is the set of state and history pairs of the runs all of whose steps meet a guard.  Safety
is proved by `Reach.invariant`, from what one step preserves; `exec` runs a list of actions, and
`reach_of_exec` makes such a run a reachable one.
-/

namespace HiddenSteps
namespace Systems

structure Machine (σ α ε : Type) where
  /-- `none` when the action is not possible in the state. -/
  step : σ → α → Option (σ × List ε)

namespace Machine

variable {σ α ε : Type} {M : Machine σ α ε} {init : σ → Prop} {guard : σ → α → Prop}

/-- The states and histories of the runs whose steps all meet the guard. -/
inductive Reach (M : Machine σ α ε) (init : σ → Prop) (guard : σ → α → Prop) :
    σ → List ε → Prop where
  | start {s : σ} (h : init s) : Reach M init guard s []
  | step {s s' : σ} {a : α} {h es : List ε} (hreach : Reach M init guard s h)
      (hguard : guard s a) (hstep : M.step s a = some (s', es)) :
      Reach M init guard s' (h ++ es)

/-- Every action is allowed. -/
abbrev always : σ → α → Prop := fun _ _ => True

/-- What holds at the start and is preserved by every guarded step holds along every guarded run. -/
theorem Reach.invariant (Inv : σ → List ε → Prop) (hinit : ∀ s, init s → Inv s [])
    (hpres : ∀ s h a s' es, Inv s h → guard s a → M.step s a = some (s', es) → Inv s' (h ++ es))
    {s : σ} {h : List ε} (hreach : Reach M init guard s h) : Inv s h := by
  induction hreach with
  | start h => exact hinit _ h
  | step _ hguard hstep ih => exact hpres _ _ _ _ _ ih hguard hstep

/-- If an invariant of the states bounds what a step emits, it bounds the whole history. -/
theorem Reach.emits (Inv : σ → Prop) (P : ε → Prop) (hinit : ∀ s, init s → Inv s)
    (hpres : ∀ s a s' es, Inv s → guard s a → M.step s a = some (s', es) →
      Inv s' ∧ ∀ e ∈ es, P e)
    {s : σ} {h : List ε} (hreach : Reach M init guard s h) : Inv s ∧ ∀ e ∈ h, P e := by
  refine hreach.invariant (fun s h => Inv s ∧ ∀ e ∈ h, P e)
    (fun s hs => ⟨hinit s hs, by simp⟩) ?_
  rintro s h a s' es ⟨hinv, hhist⟩ hguard hstep
  rcases hpres s a s' es hinv hguard hstep with ⟨hinv', hes⟩
  exact ⟨hinv', fun e he => (List.mem_append.1 he).elim (hhist e) (hes e)⟩

theorem Reach.mono {guard' : σ → α → Prop} (himp : ∀ s a, guard s a → guard' s a) {s : σ}
    {h : List ε} (hreach : Reach M init guard s h) : Reach M init guard' s h := by
  induction hreach with
  | start h => exact .start h
  | step _ hguard hstep ih => exact .step ih (himp _ _ hguard) hstep

/-- A run that goes on from the end of another is one run. -/
theorem Reach.trans {s₀ s : σ} {h h' : List ε} (hreach : Reach M init guard s₀ h)
    (hlater : Reach M (· = s₀) guard s h') : Reach M init guard s (h ++ h') := by
  induction hlater with
  | start heq =>
      rw [List.append_nil, heq]
      exact hreach
  | step _ hguard hstep ih =>
      rw [← List.append_assoc]
      exact ih.step hguard hstep

/-- What holds along the guarded runs may be added to the guard. -/
theorem Reach.strengthen {Inv : σ → Prop} (hinit : ∀ s, init s → Inv s)
    (hpres : ∀ s a s' es, Inv s → guard s a → M.step s a = some (s', es) → Inv s')
    {s : σ} {h : List ε} (hreach : Reach M init guard s h) :
    Inv s ∧ Reach M init (fun s a => guard s a ∧ Inv s) s h := by
  induction hreach with
  | start h => exact ⟨hinit _ h, .start h⟩
  | step _ hguard hstep ih =>
      rcases ih with ⟨hinv, hreach⟩
      exact ⟨hpres _ _ _ _ hinv hguard hstep, hreach.step ⟨hguard, hinv⟩ hstep⟩

/-! ## Running a list of actions -/

/-- Run a list of actions; `none` when one is not possible or does not meet the guard. -/
def exec (M : Machine σ α ε) (guard : σ → α → Prop) [∀ s a, Decidable (guard s a)] :
    σ → List α → Option (σ × List ε)
  | s, [] => some (s, [])
  | s, a :: as =>
      if guard s a then
        match M.step s a with
        | none => none
        | some (s', es) =>
            match exec M guard s' as with
            | none => none
            | some (s'', es') => some (s'', es ++ es')
      else
        none

theorem reach_append_of_exec [∀ s a, Decidable (guard s a)] {s s' : σ} {h es : List ε}
    {as : List α} (hreach : Reach M init guard s h) (hexec : M.exec guard s as = some (s', es)) :
    Reach M init guard s' (h ++ es) := by
  -- the history so far grows with every action
  induction as generalizing s h es with
  | nil =>
      cases hexec
      simpa using hreach
  | cons a as ih =>
      simp only [exec] at hexec
      split at hexec
      case isFalse => cases hexec
      case isTrue hguard =>
        split at hexec
        · cases hexec
        · rename_i s₁ es₁ hstep
          split at hexec
          · cases hexec
          · rename_i s₂ es₂ hrest
            cases hexec
            rw [← List.append_assoc]
            exact ih (hreach.step hguard hstep) hrest

/-- An executed run is a reachable one. -/
theorem reach_of_exec [∀ s a, Decidable (guard s a)] {s s' : σ} {es : List ε} {as : List α}
    (hinit : init s) (hexec : M.exec guard s as = some (s', es)) : Reach M init guard s' es :=
  reach_append_of_exec (.start hinit) hexec

/-- A run that ends well according to a test exists if executing some actions finds one. -/
theorem exists_reach (M : Machine σ α ε) (guard : σ → α → Prop) [∀ s a, Decidable (guard s a)]
    (test : σ → List ε → Bool) {s : σ} (as : List α) (hinit : init s)
    (hexec : (M.exec guard s as).any (fun r => test r.1 r.2) = true) :
    ∃ s' es, Reach M init guard s' es ∧ test s' es = true := by
  cases hrun : M.exec guard s as with
  | none => simp [hrun] at hexec
  | some r => exact ⟨r.1, r.2, reach_of_exec hinit hrun, by simpa [hrun] using hexec⟩

/-- A run and a later one from where it has led exist if executing their actions finds them. -/
theorem exists_reach_later (M : Machine σ α ε) (guard guard' : σ → α → Prop)
    [∀ s a, Decidable (guard s a)] [∀ s a, Decidable (guard' s a)] (test : σ → σ → Bool) {s : σ}
    (as bs : List α) (hinit : init s)
    (hexec : (M.exec guard s as).any (fun r =>
      (M.exec guard' r.1 bs).any fun r' => test r.1 r'.1) = true) :
    ∃ s₁ h₁ s₂ h₂, Reach M init guard s₁ h₁ ∧ Reach M (· = s₁) guard' s₂ h₂ ∧
      test s₁ s₂ = true := by
  cases hrun : M.exec guard s as with
  | none => simp [hrun] at hexec
  | some r =>
      rw [hrun, Option.any_some] at hexec
      obtain ⟨s₂, h₂, hlater, htest⟩ :
          ∃ s₂ h₂, Reach M (· = r.1) guard' s₂ h₂ ∧ test r.1 s₂ = true :=
        exists_reach M guard' (fun s₂ _ => test r.1 s₂) bs rfl hexec
      exact ⟨r.1, r.2, s₂, h₂, reach_of_exec hinit hrun, hlater, htest⟩

end Machine

/-! ## Replacing one task of a list -/

/-- What a list contributes to a filtered view, around one position. -/
theorem filterMap_set_split {α β : Type} (f : α → Option β) {l : List α} {i : Nat} {a : α}
    (h : l[i]? = some a) :
    ∃ before after, l.filterMap f = before ++ (f a).toList ++ after ∧
      ∀ b, (l.set i b).filterMap f = before ++ (f b).toList ++ after := by
  induction l generalizing i with
  | nil => simp at h
  | cons x xs ih =>
      cases i with
      | zero =>
          simp only [List.getElem?_cons_zero, Option.some.injEq] at h
          subst h
          refine ⟨[], xs.filterMap f, ?_, ?_⟩
          · cases hx : f x <;> simp [hx]
          · intro b
            cases hb : f b <;> simp [hb]
      | succ i =>
          rcases ih (by simpa using h) with ⟨before, after, hl, hset⟩
          refine ⟨(f x).toList ++ before, after, ?_, ?_⟩
          · cases hx : f x <;> simp [hx, hl]
          · intro b
            cases hx : f x <;> simp [hx, hset]

/-- What a list contributes to a filtered view, if one position is the only one that does. -/
theorem filterMap_eq_of_alone {α β : Type} (f : α → Option β) {l : List α} {i : Nat} {a : α}
    (h : l[i]? = some a) (halone : ∀ j b, l[j]? = some b → j ≠ i → f b = none) :
    l.filterMap f = (f a).toList := by
  induction l generalizing i with
  | nil => simp at h
  | cons x xs ih =>
      cases i with
      | zero =>
          obtain rfl : x = a := by simpa using h
          have hrest : xs.filterMap f = [] := by
            refine List.filterMap_eq_nil_iff.2 fun b hb => ?_
            rcases List.getElem?_of_mem hb with ⟨j, hj⟩
            exact halone (j + 1) b (by simpa using hj) (Nat.succ_ne_zero j)
          cases hx : f x <;> simp [hx, hrest]
      | succ i =>
          have hx : f x = none := halone 0 x rfl (Nat.succ_ne_zero i).symm
          rw [List.filterMap_cons_none hx]
          refine ih (by simpa using h) fun j b hj hne => ?_
          exact halone (j + 1) b (by simpa using hj) fun heq => hne (Nat.succ.inj heq)

end Systems
end HiddenSteps
