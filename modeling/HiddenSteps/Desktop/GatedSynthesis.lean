import HiddenSteps.Desktop.RecommendationLoop
import HiddenSteps.PrivacyEngine.GatedProvider

/-!
# GatedSynthesis — the calls of a synthesis are calls behind the gate

A sweep waits for the answer to a request, so one call of the provider that synthesis is given is two
steps of the sweep.  The steps ask the gate, and put the same texts into their errors, as one call
of `PrivacyGatedProvider` does.
-/

namespace HiddenSteps
namespace Desktop

open EventStore Patterns PrivacyEngine Recommendations Synthesis

/-- `GatedSynthesisProvider::complete` around a provider with a given answer. -/
def gatedComplete (gate : DispatchGate) (provider : Provider) (level : PrivacyLevel)
    (detected : DetectedPattern) (answer : Except String String) (request : CompletionRequest) :
    List (Invocation CompletionRequest) × Except String String :=
  let inner : LlmProvider CompletionRequest String Unit String :=
    { id := provider.id
      isLocal := provider.isLocal
      complete := fun _ => answer
      embed := fun _ => .error "this provider does not support embeddings" }
  let outcome := (PrivacyGatedProvider.new inner gate).completeIfAllowed request level
    "pattern_summary" detected.containsVerbatimStrings
  (outcome.1, outcome.2.mapError fun e => "request failed: " ++ e.message id)

/-! ## Texts of errors -/

theorem provider_text (e : String) :
    "request failed: " ++ (GateError.provider e).message id =
      "request failed: provider error: " ++ e := by
  have hmessage : (GateError.provider e).message id = "provider error: " ++ e := rfl
  have hliteral : "request failed: " ++ "provider error: " = "request failed: provider error: " := by
    decide +kernel
  rw [hmessage, ← String.append_assoc, hliteral]

theorem requiresConsent_text (contentClass : String) :
    "request failed: " ++ (GateError.requiresConsent contentClass).message (@id String) =
      gateError (.requiresConsent contentClass) := by
  have hliteral : "request failed: " ++ "requires explicit consent for content class '" =
      "request failed: requires explicit consent for content class '" := by
    decide +kernel
  have hgate : gateError (.requiresConsent contentClass) =
      "request failed: requires explicit consent for content class '" ++ contentClass ++
        "' before this can be sent to a cloud provider" := rfl
  have hmessage : (GateError.requiresConsent contentClass).message (@id String) =
      "requires explicit consent for content class '" ++ contentClass ++
        "' before this can be sent to a cloud provider" := rfl
  rw [hgate, hmessage, ← String.append_assoc, ← String.append_assoc, hliteral]

theorem blocked_text :
    "request failed: " ++ GateError.blocked.message (@id String) = gateError .blocked := by
  decide +kernel

/-! ## One call -/

section Calls

variable {gate : DispatchGate} {provider : Provider} {level : PrivacyLevel}
  {detected : DetectedPattern} {answer : Except String String} {request : CompletionRequest}

theorem gatedComplete_of_allowed
    (h : Synthesis.decide gate provider level detected = .allow) :
    gatedComplete gate provider level detected answer request =
      ([.complete request],
        answer.mapError fun e => "request failed: provider error: " ++ e) := by
  unfold Synthesis.decide at h
  simp only [gatedComplete, PrivacyGatedProvider.completeIfAllowed, PrivacyGatedProvider.ifAllowed,
    PrivacyGatedProvider.new, h]
  cases answer with
  | ok text => rfl
  | error e => simp only [Except.mapError, provider_text]

theorem gatedComplete_of_refused
    (h : Synthesis.decide gate provider level detected ≠ .allow) :
    gatedComplete gate provider level detected answer request =
      ([], .error (gateError (Synthesis.decide gate provider level detected))) := by
  unfold Synthesis.decide at h ⊢
  simp only [gatedComplete, PrivacyGatedProvider.completeIfAllowed, PrivacyGatedProvider.ifAllowed,
    PrivacyGatedProvider.new]
  generalize gate.evaluate provider.isLocal level "pattern_summary"
    detected.containsVerbatimStrings = decision at h ⊢
  cases decision with
  | allow => exact absurd rfl h
  | requiresConsent contentClass => simp only [Except.mapError, requiresConsent_text]
  | blocked => simp only [Except.mapError, blocked_text]

end Calls

/-! ## The steps of a synthesis -/

section Steps

variable {ext : Externals} {vault : Vault} {gate : DispatchGate} {context : SweepContext}
  {pattern : NewPattern} {gated : Desktop.GatedProvider} {o : Outside} {store : Store}

/-- The call that an attempt of a synthesis makes. -/
def attemptCall (context : SweepContext) (pattern : NewPattern) (gated : Desktop.GatedProvider)
    (answer : Except String String) : List (Invocation CompletionRequest) × Except String String :=
  gatedComplete gated.gate gated.provider context.privacyState.currentLevel pattern.detected answer
    (synthesisRequest pattern.id pattern.detected)

/-- An attempt sends its request exactly when the call behind the gate reaches the provider. -/
theorem requested_iff_invoked (answer : Except String String) :
    (Synthesis.step ext vault gate context pattern (.requesting gated) o store).effects ≠ [] ↔
      (attemptCall context pattern gated answer).1 ≠ [] := by
  by_cases hallow : Synthesis.decide gated.gate gated.provider context.privacyState.currentLevel
      pattern.detected = .allow
  · simp [Synthesis.step, hallow, attemptCall, gatedComplete_of_allowed hallow]
  · rw [attemptCall, gatedComplete_of_refused hallow]
    dsimp only [Synthesis.step]
    split
    · rename_i hdecide
      exact absurd hdecide hallow
    · simp

/-- A refused attempt ends the synthesis with the error of the call. -/
theorem step_of_refused {answer : Except String String} {error : String}
    (hrefused : (attemptCall context pattern gated answer).1 = [])
    (herror : (attemptCall context pattern gated answer).2 = .error error) :
    (Synthesis.step ext vault gate context pattern (.requesting gated) o store).next =
      .done (some (failed o.now pattern.id (.provider error))) := by
  have hdecide : Synthesis.decide gated.gate gated.provider context.privacyState.currentLevel
      pattern.detected ≠ .allow := by
    intro hallow
    rw [attemptCall, gatedComplete_of_allowed hallow] at hrefused
    cases hrefused
  rw [attemptCall, gatedComplete_of_refused hdecide] at herror
  cases herror
  dsimp only [Synthesis.step]
  split
  · rename_i hallow
    exact absurd hallow hdecide
  · rfl

/-- An answered attempt goes on with the answer of the call. -/
theorem step_of_answered
    (hinvoked : (attemptCall context pattern gated o.answer).1 ≠ []) :
    (Synthesis.step ext vault gate context pattern (.awaiting gated) o store).next =
      match nextAttempt ext gated.provider.id pattern.id pattern.detected o.now gated.attempts
        (attemptCall context pattern gated o.answer).2 with
      | .again attempts => .goOn (.requesting { gated with attempts := attempts })
      | .finished (.ok recommendation) => .goOn (.inserting recommendation)
      | .finished (.error e) => .done (some (failed o.now pattern.id e)) := by
  have hallow : Synthesis.decide gated.gate gated.provider context.privacyState.currentLevel
      pattern.detected = .allow := by
    by_contra hrefused
    rw [attemptCall, gatedComplete_of_refused hrefused] at hinvoked
    exact hinvoked rfl
  rw [attemptCall, gatedComplete_of_allowed hallow]
  dsimp only [Synthesis.step]
  cases o.answer with
  | ok text =>
      dsimp only [Except.mapError]
      cases nextAttempt ext gated.provider.id pattern.id pattern.detected o.now gated.attempts
          (.ok text) with
      | again attempts => rfl
      | finished result => cases result <;> rfl
  | error e =>
      dsimp only [Except.mapError]
      cases nextAttempt ext gated.provider.id pattern.id pattern.detected o.now gated.attempts
          (.error ("request failed: provider error: " ++ e)) with
      | again attempts => rfl
      | finished result => cases result <;> rfl

end Steps

end Desktop
end HiddenSteps
