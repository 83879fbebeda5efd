import HiddenSteps.Systems.Watched

/-!
# Potential — how much a run can still do

A potential is a number that steps pay from and never add to.  What a run emits of a kind is bounded
by the potential it begins with if every step pays for what it emits (`Reach.spends`), and so is the
number of steps it takes of a kind if every such step pays for itself (`WatchedReach.takes`).  Where
the steps pay from a list, the run emits the items of that list in turn (`Reach.emits_prefix`).
-/

namespace HiddenSteps
namespace Systems
namespace Machine

variable {σ α ε : Type} {M : Machine σ α ε} {guard : σ → α → Prop} {s₀ : σ}

/-- What a run emits of a kind is paid from the potential it begins with. -/
theorem Reach.spends (kind : ε → Bool) (potential : σ → Nat) (Inv : σ → Prop) (hinit : Inv s₀)
    (hpays : ∀ s a s' es, Inv s → guard s a → M.step s a = some (s', es) →
      Inv s' ∧ es.countP kind + potential s' ≤ potential s)
    {s : σ} {h : List ε} (hreach : Reach M (· = s₀) guard s h) :
    Inv s ∧ h.countP kind + potential s ≤ potential s₀ := by
  refine hreach.invariant
    (fun s h => Inv s ∧ h.countP kind + potential s ≤ potential s₀) ?_ ?_
  · rintro s rfl
    exact ⟨hinit, by simp⟩
  · rintro s h a s' es ⟨hinv, hspent⟩ hguard hstep
    rcases hpays s a s' es hinv hguard hstep with ⟨hinv', hpaid⟩
    refine ⟨hinv', ?_⟩
    rw [List.countP_append]
    calc h.countP kind + es.countP kind + potential s'
        = h.countP kind + (es.countP kind + potential s') := Nat.add_assoc ..
      _ ≤ h.countP kind + potential s := Nat.add_le_add_left hpaid _
      _ ≤ potential s₀ := hspent

/-- What a run emits of a kind is the beginning of what is left to emit, in order. -/
theorem Reach.emits_prefix {β : Type} (item : ε → Option β) (left : σ → List β) (Inv : σ → Prop)
    (hinit : Inv s₀)
    (hpays : ∀ s a s' es, Inv s → guard s a → M.step s a = some (s', es) →
      Inv s' ∧ es.filterMap item ++ left s' <+: left s)
    {s : σ} {h : List ε} (hreach : Reach M (· = s₀) guard s h) :
    Inv s ∧ h.filterMap item ++ left s <+: left s₀ := by
  refine hreach.invariant
    (fun s h => Inv s ∧ h.filterMap item ++ left s <+: left s₀) ?_ ?_
  · rintro s rfl
    exact ⟨hinit, List.prefix_refl _⟩
  · rintro s h a s' es ⟨hinv, hemitted⟩ hguard hstep
    rcases hpays s a s' es hinv hguard hstep with ⟨hinv', hprefix⟩
    refine ⟨hinv', ?_⟩
    rw [List.filterMap_append, List.append_assoc]
    exact ((List.prefix_append_right_inj _).2 hprefix).trans hemitted

/-- The note that counts the steps of a kind. -/
def counting (kind : α → Bool) : σ → α → Nat → Nat :=
  fun _ a taken => if kind a then taken + 1 else taken

/-- The steps of a kind that a run takes are paid from the potential it begins with. -/
theorem WatchedReach.takes (kind : α → Bool) (potential : σ → Nat) (Inv : σ → Prop)
    (hinit : Inv s₀)
    (hpays : ∀ s a s' es, Inv s → guard s a → M.step s a = some (s', es) →
      Inv s' ∧ (if kind a then 1 else 0) + potential s' ≤ potential s)
    {s : σ × Nat} {h : List ε}
    (hreach : WatchedReach M (counting kind) 0 (· = s₀) guard s h) :
    Inv s.1 ∧ s.2 + potential s.1 ≤ potential s₀ := by
  have hspent := @WatchedReach.invariant _ _ _ _ M (counting kind) 0 (· = s₀) guard
    (fun s taken => Inv s ∧ taken + potential s ≤ potential s₀)
  refine hspent ?_ ?_ hreach
  · rintro s rfl
    exact ⟨hinit, by simp⟩
  · rintro s taken a s' es ⟨hinv, htaken⟩ hguard hstep
    rcases hpays s a s' es hinv hguard hstep with ⟨hinv', hpaid⟩
    refine ⟨hinv', ?_⟩
    unfold counting
    split
    · rename_i hkind
      rw [if_pos hkind] at hpaid
      omega
    · rename_i hkind
      rw [if_neg hkind] at hpaid
      omega

/-- A run, and a later one that a test accepts, exist if executing their actions finds them. -/
theorem exists_reach_after {init : σ → Prop} (M : Machine σ α ε) (guard guard' : σ → α → Prop)
    [∀ s a, Decidable (guard s a)] [∀ s a, Decidable (guard' s a)]
    (test : σ → List ε → Bool) {s : σ} (as bs : List α) (hinit : init s)
    (hexec : (M.exec guard s as).any (fun r =>
      (M.exec guard' r.1 bs).any fun r' => test r.1 r'.2) = true) :
    ∃ s₁ h₁ s₂ h₂, Reach M init guard s₁ h₁ ∧ Reach M (· = s₁) guard' s₂ h₂ ∧
      test s₁ h₂ = true := by
  cases hrun : M.exec guard s as with
  | none => simp [hrun] at hexec
  | some r =>
      rw [hrun, Option.any_some] at hexec
      obtain ⟨s₂, h₂, hlater, htest⟩ :
          ∃ s₂ h₂, Reach M (· = r.1) guard' s₂ h₂ ∧ test r.1 h₂ = true :=
        exists_reach M guard' (fun _ h₂ => test r.1 h₂) bs rfl hexec
      exact ⟨r.1, r.2, s₂, h₂, reach_of_exec hinit hrun, hlater, htest⟩

/-- The same for a later run with a note. -/
theorem exists_watched_after {γ : Type} {init : σ → Prop} (M : Machine σ α ε)
    (note : σ → α → γ → γ) (blank : γ) (guard guard' : σ → α → Prop)
    [∀ s a, Decidable (guard s a)] [∀ s a, Decidable (guard' s a)] (test : σ → σ × γ → Bool) {s : σ}
    (as bs : List α) (hinit : init s)
    (hexec : (M.exec guard s as).any (fun r =>
      ((M.watched note).exec (fun s a => guard' s.1 a) (r.1, blank) bs).any fun r' =>
        test r.1 r'.1) = true) :
    ∃ s₁ h₁ s₂ h₂, Reach M init guard s₁ h₁ ∧ WatchedReach M note blank (· = s₁) guard' s₂ h₂ ∧
      test s₁ s₂ = true := by
  cases hrun : M.exec guard s as with
  | none => simp [hrun] at hexec
  | some r =>
      rw [hrun, Option.any_some] at hexec
      obtain ⟨s₂, h₂, hlater, htest⟩ :
          ∃ s₂ h₂, WatchedReach M note blank (· = r.1) guard' s₂ h₂ ∧ test r.1 s₂ = true :=
        exists_reach (M.watched note) (fun s a => guard' s.1 a) (fun s₂ _ => test r.1 s₂) bs
          ⟨rfl, rfl⟩ hexec
      exact ⟨r.1, r.2, s₂, h₂, reach_of_exec hinit hrun, hlater, htest⟩

end Machine
end Systems
end HiddenSteps
