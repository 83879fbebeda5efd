import HiddenSteps.Desktop.Provenance
import HiddenSteps.Interface.Installation

/-!
# Consent — nothing happens before the user has agreed to it

Until the user starts the observation under a ticked box, no command that writes is sent and the
device does nothing of its own accord: its row asks for no observation, and there is nothing to
sweep.  Only a check of a provider, which sends a request of its own, does not wait for the consent.
-/

namespace HiddenSteps
namespace Desktop

open EventStore Patterns Systems

/-! ## A device that has been given no command -/

end Desktop

namespace Interface

open Desktop EventStore Systems

/-! ## A window in which nothing has been started -/

@[simp] theorem AppComponent.onboardingComplete_rerender (before after : AppComponent) :
    (before.rerender after).onboardingComplete = after.onboardingComplete := by
  unfold rerender
  split <;> rfl

/-- The user starts the observation under a ticked box. -/
def Event.isConsent : Event → Bool
  | window (.consented _) => true
  | _ => false

theorem Event.consented_of_isConsent {e : Event} (h : e.isConsent = true) :
    ∃ choice, e = .window (.consented choice) := by
  cases e with
  | window report =>
      cases report with
      | consented choice => exact ⟨choice, rfl⟩
      | _ => cases h
  | _ => cases h

/-- The device stores an event. -/
def Event.isStored : Event → Bool
  | device (.stored _ _ _) => true
  | _ => false

end Interface
end HiddenSteps
