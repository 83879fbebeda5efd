import Mathlib.Data.List.Basic
import Mathlib.Tactic.Common

/-!
# Panic — loops whose steps may panic

A computation that may panic returns an `Option`, with `none` for the panic.  `collect` and
`firstOf` are the two loops over a list that occur: one gathers results, the other returns early.
-/

namespace HiddenSteps
namespace Text

variable {α β : Type}

/-- Run a step over a list and append what it produces; `none` as soon as a step panics. -/
def collect (step : α → Option (Option β)) : List α → Option (List β)
  | [] => some []
  | a :: as =>
      (step a).bind fun b => (collect step as).map fun bs => b.toList ++ bs

/-- The first value a step produces; `none` as soon as a step panics. -/
def firstOf (step : α → Option (Option β)) : List α → Option (Option β)
  | [] => some none
  | a :: as =>
      (step a).bind fun
        | some b => some (some b)
        | none => firstOf step as

/-- `&v[i..i + n]` -/
def windowAt (v : List α) (i n : Nat) : Option (List α) :=
  if i + n ≤ v.length then some ((v.drop i).take n) else none

/-- `a - b` on unsigned integers -/
def checkedSub (a b : Nat) : Option Nat :=
  if b ≤ a then some (a - b) else none

/-- The gathering loop returns exactly when every step does. -/
theorem collect_isSome_iff {step : α → Option (Option β)} {as : List α} :
    (collect step as).isSome ↔ ∀ a ∈ as, (step a).isSome := by
  induction as with
  | nil => simp [collect]
  | cons a as ih =>
      cases ha : step a with
      | none => simp [collect, ha]
      | some b => simp [collect, ha, ih]

theorem mem_of_collect {step : α → Option (Option β)} {as : List α} {bs : List β}
    (h : collect step as = some bs) {b : β} (hb : b ∈ bs) : ∃ a ∈ as, step a = some (some b) := by
  induction as generalizing bs with
  | nil =>
      simp only [collect, Option.some.injEq] at h
      simp [← h] at hb
  | cons a as ih =>
      rcases Option.bind_eq_some_iff.1 h with ⟨r, ha, hrest⟩
      rcases Option.map_eq_some_iff.1 hrest with ⟨bs', has, rfl⟩
      rcases List.mem_append.1 hb with hb | hb
      · exact ⟨a, List.mem_cons_self, by rw [ha, Option.mem_toList.1 hb]⟩
      · rcases ih has hb with ⟨a', ha', hstep⟩
        exact ⟨a', List.mem_cons_of_mem _ ha', hstep⟩

/-- The gathering loop leaves nothing out. -/
theorem mem_collect {step : α → Option (Option β)} {as : List α} {bs : List β}
    (h : collect step as = some bs) {a : α} (ha : a ∈ as) {b : β} (hb : step a = some (some b)) :
    b ∈ bs := by
  induction as generalizing bs with
  | nil => cases ha
  | cons a' as ih =>
      rcases Option.bind_eq_some_iff.1 h with ⟨r, hr, hrest⟩
      rcases Option.map_eq_some_iff.1 hrest with ⟨bs', has, rfl⟩
      rw [List.mem_append]
      rcases List.mem_cons.1 ha with rfl | ha
      · rw [hb, Option.some.injEq] at hr
        exact Or.inl (by simp [← hr])
      · exact Or.inr (ih has ha)

/-- The early return only skips steps. -/
theorem firstOf_isSome {step : α → Option (Option β)} {as : List α}
    (h : ∀ a ∈ as, (step a).isSome) : (firstOf step as).isSome := by
  induction as with
  | nil => rfl
  | cons a as ih =>
      rcases Option.isSome_iff_exists.1 (h a List.mem_cons_self) with ⟨r, hr⟩
      cases r with
      | none => simpa [firstOf, hr] using ih fun b hb => h b (List.mem_cons_of_mem _ hb)
      | some b => simp [firstOf, hr]

theorem of_firstOf {step : α → Option (Option β)} {as : List α} {b : β}
    (h : firstOf step as = some (some b)) : ∃ a ∈ as, step a = some (some b) := by
  induction as with
  | nil => simp [firstOf] at h
  | cons a as ih =>
      rcases Option.bind_eq_some_iff.1 h with ⟨r, ha, hrest⟩
      cases r with
      | none =>
          rcases ih hrest with ⟨a', ha', hstep⟩
          exact ⟨a', List.mem_cons_of_mem _ ha', hstep⟩
      | some b' =>
          cases hrest
          exact ⟨a, List.mem_cons_self, ha⟩

/-- Over a list in order, the loop returns what the first successful step produces. -/
theorem firstOf_first {step : α → Option (Option β)} {as : List α} {r : α → α → Prop}
    (hsorted : as.Pairwise r) (hasymm : ∀ a b, r a b → ¬ r b a)
    (h : ∀ a ∈ as, (step a).isSome) :
    (firstOf step as = some none ∧ ∀ a ∈ as, step a = some none) ∨
      ∃ a ∈ as, ∃ b, step a = some (some b) ∧ firstOf step as = some (some b) ∧
        ∀ a' ∈ as, r a' a → step a' = some none := by
  induction as with
  | nil => exact Or.inl ⟨rfl, by simp⟩
  | cons a as ih =>
      rcases List.pairwise_cons.1 hsorted with ⟨hfirst, hsorted'⟩
      rcases Option.isSome_iff_exists.1 (h a List.mem_cons_self) with ⟨result, hstep⟩
      cases result with
      | some b =>
          refine Or.inr ⟨a, List.mem_cons_self, b, hstep, by simp [firstOf, hstep], ?_⟩
          intro a' ha' hr
          rcases List.mem_cons.1 ha' with rfl | ha'
          · exact absurd hr (hasymm _ _ hr)
          · exact absurd hr (hasymm _ _ (hfirst a' ha'))
      | none =>
          have hgo : firstOf step (a :: as) = firstOf step as := by simp [firstOf, hstep]
          rw [hgo]
          rcases ih hsorted' fun b hb => h b (List.mem_cons_of_mem _ hb) with
            ⟨hnone, hall⟩ | ⟨a', ha', b, hstep', hfound, hbefore⟩
          · exact Or.inl ⟨hnone, List.forall_mem_cons.2 ⟨hstep, hall⟩⟩
          · exact Or.inr ⟨a', List.mem_cons_of_mem _ ha', b, hstep', hfound,
              List.forall_mem_cons.2 ⟨fun _ => hstep, hbefore⟩⟩

theorem windowAt_eq_some {v w : List α} {i n : Nat} (h : windowAt v i n = some w) :
    w.Sublist v ∧ w.length = n := by
  unfold windowAt at h
  split at h
  · rename_i hle
    cases h
    refine ⟨(List.take_sublist _ _).trans (List.drop_sublist _ _), ?_⟩
    simp only [List.length_take, List.length_drop]
    omega
  · cases h

end Text
end HiddenSteps
