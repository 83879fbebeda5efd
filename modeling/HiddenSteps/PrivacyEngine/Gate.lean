import HiddenSteps.Domain.Privacy

/-!
# Gate — what may be sent to a provider
-/

namespace HiddenSteps
namespace PrivacyEngine

inductive CloudEligibility where
  | alwaysEligible
  | requiresConsent
  | neverEligible
  deriving DecidableEq, Repr

def cloudEligibility (privacyLevel : PrivacyLevel) (containsVerbatimStrings : Bool) :
    CloudEligibility :=
  if privacyLevel == .maximumAssistance then .neverEligible
  else if containsVerbatimStrings then .requiresConsent
  else .alwaysEligible

inductive DispatchDecision where
  | allow
  | requiresConsent (contentClass : String)
  | blocked
  deriving DecidableEq, Repr

structure DispatchGate where
  generalCloudConsent : Bool
  perClassConsent : List String
  deriving DecidableEq

namespace DispatchGate

def new : DispatchGate := { generalCloudConsent := false, perClassConsent := [] }

def grantGeneralCloudConsent (gate : DispatchGate) : DispatchGate :=
  { gate with generalCloudConsent := true }

def revokeGeneralCloudConsent (gate : DispatchGate) : DispatchGate :=
  { gate with generalCloudConsent := false }

def grantClassConsent (gate : DispatchGate) (contentClass : String) : DispatchGate :=
  { gate with perClassConsent := gate.perClassConsent.insert contentClass }

def revokeClassConsent (gate : DispatchGate) (contentClass : String) : DispatchGate :=
  { gate with perClassConsent := gate.perClassConsent.filter (· != contentClass) }

def evaluate (gate : DispatchGate) (providerIsLocal : Bool) (privacyLevel : PrivacyLevel)
    (contentClass : String) (containsVerbatimStrings : Bool) : DispatchDecision :=
  -- what stays on the device needs no consent
  if providerIsLocal then .allow
  else if !gate.generalCloudConsent then .blocked
  else
    match cloudEligibility privacyLevel containsVerbatimStrings with
    | .neverEligible => .blocked
    | .alwaysEligible => .allow
    | .requiresConsent =>
        if gate.perClassConsent.contains contentClass then .allow
        else .requiresConsent contentClass

/-- What reaches a cloud provider has general consent and is not of the deepest level. -/
theorem evaluate_allow {gate : DispatchGate} {privacyLevel : PrivacyLevel} {contentClass : String}
    {verbatim : Bool} (h : gate.evaluate false privacyLevel contentClass verbatim = .allow) :
    gate.generalCloudConsent = true ∧ privacyLevel ≠ .maximumAssistance := by
  unfold evaluate at h
  simp only [Bool.false_eq_true, if_false] at h
  split at h
  · cases h
  · rename_i hconsent
    refine ⟨by simpa using hconsent, ?_⟩
    rintro rfl
    simp [cloudEligibility] at h

theorem evaluate_eq_allow_iff {gate : DispatchGate} {providerIsLocal : Bool}
    {privacyLevel : PrivacyLevel} {contentClass : String} {verbatim : Bool} :
    gate.evaluate providerIsLocal privacyLevel contentClass verbatim = .allow ↔
      providerIsLocal = true ∨
        gate.generalCloudConsent = true ∧ privacyLevel ≠ .maximumAssistance ∧
          (verbatim = false ∨ gate.perClassConsent.contains contentClass = true) := by
  cases providerIsLocal with
  | true => simp [evaluate]
  | false =>
      cases hconsent : gate.generalCloudConsent <;> cases hlevel : privacyLevel <;>
        cases verbatim <;> simp [evaluate, hconsent, cloudEligibility]

/-- A query that is not allowed is blocked or waits for the consent for its own class. -/
theorem evaluate_refusal (gate : DispatchGate) (providerIsLocal : Bool)
    (privacyLevel : PrivacyLevel) (contentClass : String) (verbatim : Bool) :
    gate.evaluate providerIsLocal privacyLevel contentClass verbatim ∈
      [.allow, .requiresConsent contentClass, .blocked] := by
  unfold evaluate
  split
  · simp
  · split
    · simp
    · split
      · simp
      · simp
      · split <;> simp

end DispatchGate

end PrivacyEngine
end HiddenSteps
