import HiddenSteps.Systems.Machine

/-!
# Views — what a run shows when some of its data is hidden

A view hides a part of the states, actions and effects of a machine, such that a step shows the same
whether or not that part is hidden before it.  Runs that look the same at their start and in their
actions then look the same throughout (`View.exec_congr`): what is hidden does not reach what is
visible.
-/

namespace HiddenSteps
namespace Systems

variable {σ α ε : Type}

/-- What is visible of the end of a step or of a run. -/
def shown (state : σ → σ) (effect : ε → ε) (r : Option (σ × List ε)) : Option (σ × List ε) :=
  r.map fun r => (state r.1, r.2.map effect)

theorem shown_eq_some {state : σ → σ} {effect : ε → ε} {r : Option (σ × List ε)} {s : σ}
    {es : List ε} (h : shown state effect r = shown state effect (some (s, es))) :
    ∃ s' es', r = some (s', es') ∧ state s' = state s ∧ es'.map effect = es.map effect := by
  rcases Option.map_eq_some_iff.1 h with ⟨⟨s', es'⟩, hr, heq⟩
  rcases Prod.mk.inj heq with ⟨hstate, heffect⟩
  exact ⟨s', es', hr, hstate, heffect⟩

structure View (M : Machine σ α ε) where
  state : σ → σ
  action : α → α
  effect : ε → ε
  step : ∀ s a, shown state effect (M.step (state s) (action a)) =
    shown state effect (M.step s a)

namespace View

variable {M : Machine σ α ε} (view : View M)

/-- Steps from what looks the same look the same. -/
theorem step_congr {s t : σ} {a b : α} (hstate : view.state s = view.state t)
    (haction : view.action a = view.action b) :
    shown view.state view.effect (M.step s a) = shown view.state view.effect (M.step t b) := by
  rw [← view.step s a, hstate, haction, view.step t b]

/-- Runs that look the same at their start and in their actions look the same. -/
theorem exec_congr {s t : σ} {as bs : List α} (hstate : view.state s = view.state t)
    (hactions : as.map view.action = bs.map view.action) :
    shown view.state view.effect (M.exec Machine.always s as) =
      shown view.state view.effect (M.exec Machine.always t bs) := by
  induction as generalizing s t bs with
  | nil =>
      obtain rfl : bs = [] := List.map_eq_nil_iff.1 hactions.symm
      simp [Machine.exec, shown, hstate]
  | cons a as ih =>
      cases bs with
      | nil => cases hactions
      | cons b bs =>
          rcases List.cons.inj hactions with ⟨haction, hrest⟩
          have hstep := view.step_congr hstate haction
          simp only [Machine.exec, if_true]
          cases ha : M.step s a with
          | none =>
              rw [ha] at hstep
              rw [Option.map_eq_none_iff.1 hstep.symm]
          | some r =>
              rw [ha] at hstep
              rcases shown_eq_some hstep.symm with ⟨s', es', hb, hstate', heffects⟩
              -- what the rest of the runs shows is appended to what this step shows
              have hih := ih hstate'.symm hrest
              simp only [hb]
              cases hrun : M.exec Machine.always r.1 as with
              | none =>
                  rw [hrun] at hih
                  rw [Option.map_eq_none_iff.1 hih.symm]
              | some r' =>
                  rw [hrun] at hih
                  rcases shown_eq_some hih.symm with ⟨s'', es'', hrun', hstate'', heffects'⟩
                  simp [hrun', shown, hstate'', heffects, heffects']

end View

end Systems
end HiddenSteps
