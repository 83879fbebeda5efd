import HiddenSteps.PrivacyEngine.Gate
import HiddenSteps.Systems.LastWrite

/-!
# GatedProvider — a provider behind the gate

`PrivacyGatedProvider` asks the gate before each call of the provider it wraps.  The gate is a set
of registers, one for the general consent and one for each content class, so what it decides follows
from the last call to each of them.
-/

namespace HiddenSteps
namespace PrivacyEngine

open Systems

/-! ## The wrapper -/

/-- A provider, with requests of type `ρ`, responses of type `α`, embeddings of type `β` and errors
of type `ε`. -/
structure LlmProvider (ρ α β ε : Type) where
  id : String
  isLocal : Bool
  complete : ρ → Except ε α
  embed : String → Except ε β

/-- A call that has reached the wrapped provider. -/
inductive Invocation (ρ : Type) where
  | complete (request : ρ)
  | embed (text : String)
  deriving DecidableEq

inductive GateError (ε : Type) where
  | blocked
  | requiresConsent (contentClass : String)
  | provider (error : ε)
  deriving DecidableEq

/-- The text of an error, from that of the provider's errors. -/
def GateError.message {ε : Type} (show' : ε → String) : GateError ε → String
  | blocked => "blocked by privacy gate: cloud dispatch not permitted for this content"
  | requiresConsent contentClass =>
      "requires explicit consent for content class '" ++ contentClass ++
        "' before this can be sent to a cloud provider"
  | provider error => "provider error: " ++ show' error

structure PrivacyGatedProvider (ρ α β ε : Type) where
  inner : LlmProvider ρ α β ε
  gate : DispatchGate

namespace PrivacyGatedProvider

variable {ρ α β ε : Type}

def new (inner : LlmProvider ρ α β ε) (gate : DispatchGate) : PrivacyGatedProvider ρ α β ε :=
  { inner := inner, gate := gate }

/-- A call of the provider if the gate allows it, with the invocations it has led to. -/
def ifAllowed {γ : Type} (p : PrivacyGatedProvider ρ α β ε) (invocation : Invocation ρ)
    (call : Except ε γ) (privacyLevel : PrivacyLevel) (contentClass : String)
    (containsVerbatimStrings : Bool) : List (Invocation ρ) × Except (GateError ε) γ :=
  match p.gate.evaluate p.inner.isLocal privacyLevel contentClass containsVerbatimStrings with
  | .allow => ([invocation], call.mapError .provider)
  | .requiresConsent contentClass => ([], .error (.requiresConsent contentClass))
  | .blocked => ([], .error .blocked)

def completeIfAllowed (p : PrivacyGatedProvider ρ α β ε) (request : ρ)
    (privacyLevel : PrivacyLevel) (contentClass : String) (containsVerbatimStrings : Bool) :
    List (Invocation ρ) × Except (GateError ε) α :=
  p.ifAllowed (.complete request) (p.inner.complete request) privacyLevel contentClass
    containsVerbatimStrings

def embedIfAllowed (p : PrivacyGatedProvider ρ α β ε) (text : String)
    (privacyLevel : PrivacyLevel) (contentClass : String) (containsVerbatimStrings : Bool) :
    List (Invocation ρ) × Except (GateError ε) β :=
  p.ifAllowed (.embed text) (p.inner.embed text) privacyLevel contentClass containsVerbatimStrings

end PrivacyGatedProvider

/-! ## The history of a gate -/

/-- The calls that change a gate. -/
inductive ConsentCall where
  | grantGeneralCloudConsent
  | revokeGeneralCloudConsent
  | grantClassConsent (contentClass : String)
  | revokeClassConsent (contentClass : String)
  deriving DecidableEq, Repr

namespace ConsentCall

def apply (gate : DispatchGate) : ConsentCall → DispatchGate
  | grantGeneralCloudConsent => gate.grantGeneralCloudConsent
  | revokeGeneralCloudConsent => gate.revokeGeneralCloudConsent
  | grantClassConsent contentClass => gate.grantClassConsent contentClass
  | revokeClassConsent contentClass => gate.revokeClassConsent contentClass

/-- What a call sets the general consent to. -/
def generalWrite : ConsentCall → Option Bool
  | grantGeneralCloudConsent => some true
  | revokeGeneralCloudConsent => some false
  | _ => none

/-- What a call sets the consent for a content class to. -/
def classWrite (contentClass : String) : ConsentCall → Option Bool
  | grantClassConsent c => if c = contentClass then some true else none
  | revokeClassConsent c => if c = contentClass then some false else none
  | _ => none

theorem generalCloudConsent_apply (gate : DispatchGate) (call : ConsentCall) :
    (call.apply gate).generalCloudConsent =
      (generalWrite call).getD gate.generalCloudConsent := by
  cases call <;> rfl

theorem contains_apply (contentClass : String) (gate : DispatchGate) (call : ConsentCall) :
    (call.apply gate).perClassConsent.contains contentClass =
      (classWrite contentClass call).getD (gate.perClassConsent.contains contentClass) := by
  cases call with
  | grantGeneralCloudConsent | revokeGeneralCloudConsent => rfl
  | grantClassConsent c =>
      by_cases hc : c = contentClass
      · simp [apply, DispatchGate.grantClassConsent, classWrite, hc]
      · simp [apply, DispatchGate.grantClassConsent, classWrite, hc, Ne.symm hc]
  | revokeClassConsent c =>
      by_cases hc : c = contentClass
      · simp [apply, DispatchGate.revokeClassConsent, classWrite, hc]
      · simp [apply, DispatchGate.revokeClassConsent, classWrite, hc, Ne.symm hc]

end ConsentCall

open ConsentCall

/-- The gate after a sequence of calls on a new one. -/
def gateAfter (calls : List ConsentCall) : DispatchGate :=
  calls.foldl (fun gate call => call.apply gate) DispatchGate.new

/-- The last call that sets a consent granted it. -/
def LastGranted (write : ConsentCall → Option Bool) (calls : List ConsentCall) : Prop :=
  lastWrite write calls = some true

instance (write : ConsentCall → Option Bool) (calls : List ConsentCall) :
    Decidable (LastGranted write calls) :=
  inferInstanceAs (Decidable (_ = _))

theorem generalCloudConsent_gateAfter (calls : List ConsentCall) :
    (gateAfter calls).generalCloudConsent = true ↔ LastGranted generalWrite calls := by
  have hget : (gateAfter calls).generalCloudConsent = (lastWrite generalWrite calls).getD false :=
    get_foldl (·.generalCloudConsent) generalCloudConsent_apply calls DispatchGate.new
  rw [hget, LastGranted]
  cases lastWrite generalWrite calls <;> simp

theorem contains_gateAfter (calls : List ConsentCall) (contentClass : String) :
    (gateAfter calls).perClassConsent.contains contentClass = true ↔
      LastGranted (classWrite contentClass) calls := by
  have hget : (gateAfter calls).perClassConsent.contains contentClass =
      (lastWrite (classWrite contentClass) calls).getD false :=
    get_foldl (·.perClassConsent.contains contentClass) (contains_apply contentClass) calls
      DispatchGate.new
  rw [hget, LastGranted]
  cases lastWrite (classWrite contentClass) calls <;> simp

/-! ## What reaches the provider -/

/-- A query may reach a provider after a sequence of calls: the provider is local, or the general
consent was granted last, the level is not the deepest, and verbatim text has the consent for its
class granted last. -/
def Permitted (calls : List ConsentCall) (providerIsLocal : Bool) (privacyLevel : PrivacyLevel)
    (contentClass : String) (containsVerbatimStrings : Bool) : Prop :=
  providerIsLocal = true ∨
    LastGranted generalWrite calls ∧ privacyLevel ≠ .maximumAssistance ∧
      (containsVerbatimStrings = false ∨ LastGranted (classWrite contentClass) calls)

/-- How a call of the wrapper relates to the call of the provider behind it. -/
structure Guards {ρ ε γ : Type} (permitted : Prop) (contentClass : String)
    (invocation : Invocation ρ) (call : Except ε γ)
    (outcome : List (Invocation ρ) × Except (GateError ε) γ) : Prop where
  invoked_iff : outcome.1 = [invocation] ↔ permitted
  answered : permitted → outcome.2 = call.mapError .provider
  refused : ¬ permitted → outcome.1 = [] ∧
    (outcome.2 = .error (.requiresConsent contentClass) ∨ outcome.2 = .error .blocked)

section History

variable {ρ α β ε : Type} (calls : List ConsentCall) (inner : LlmProvider ρ α β ε)
  (privacyLevel : PrivacyLevel) (contentClass : String) (containsVerbatimStrings : Bool)

theorem evaluate_gateAfter (providerIsLocal : Bool) :
    (gateAfter calls).evaluate providerIsLocal privacyLevel contentClass
        containsVerbatimStrings = .allow ↔
      Permitted calls providerIsLocal privacyLevel contentClass containsVerbatimStrings := by
  rw [DispatchGate.evaluate_eq_allow_iff, generalCloudConsent_gateAfter, contains_gateAfter,
    Permitted]

theorem guards_ifAllowed {γ : Type} (invocation : Invocation ρ) (call : Except ε γ) :
    Guards (Permitted calls inner.isLocal privacyLevel contentClass containsVerbatimStrings)
      contentClass invocation call
      ((PrivacyGatedProvider.new inner (gateAfter calls)).ifAllowed invocation call privacyLevel
        contentClass containsVerbatimStrings) := by
  rw [← evaluate_gateAfter]
  have hrefusal := DispatchGate.evaluate_refusal (gateAfter calls) inner.isLocal privacyLevel
    contentClass containsVerbatimStrings
  dsimp only [PrivacyGatedProvider.ifAllowed, PrivacyGatedProvider.new]
  generalize (gateAfter calls).evaluate inner.isLocal privacyLevel contentClass
    containsVerbatimStrings = decision at hrefusal ⊢
  cases decision with
  | allow => exact ⟨by simp, fun _ => rfl, fun h => (h rfl).elim⟩
  | requiresConsent c =>
      have hclass : c = contentClass := by simpa using hrefusal
      subst hclass
      exact ⟨by simp, fun h => (nomatch h), fun _ => ⟨rfl, Or.inl rfl⟩⟩
  | blocked => exact ⟨by simp, fun h => (nomatch h), fun _ => ⟨rfl, Or.inr rfl⟩⟩

/-- On both paths the provider is called, and called once, exactly when the history of the gate
permits the query. -/
theorem dispatch_follows_consents (request : ρ) (text : String) :
    Guards (Permitted calls inner.isLocal privacyLevel contentClass containsVerbatimStrings)
        contentClass (.complete request) (inner.complete request)
        ((PrivacyGatedProvider.new inner (gateAfter calls)).completeIfAllowed request privacyLevel
          contentClass containsVerbatimStrings) ∧
      Guards (Permitted calls inner.isLocal privacyLevel contentClass containsVerbatimStrings)
        contentClass (.embed text) (inner.embed text)
        ((PrivacyGatedProvider.new inner (gateAfter calls)).embedIfAllowed text privacyLevel
          contentClass containsVerbatimStrings) :=
  ⟨guards_ifAllowed calls inner privacyLevel contentClass containsVerbatimStrings _ _,
    guards_ifAllowed calls inner privacyLevel contentClass containsVerbatimStrings _ _⟩

end History

end PrivacyEngine
end HiddenSteps
