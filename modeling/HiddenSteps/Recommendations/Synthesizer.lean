import HiddenSteps.Recommendations.Prompt
import HiddenSteps.Recommendations.Validate

/-!
# Synthesizer — a recommendation from a detected pattern and a provider's answer

The synthesizer asks at most `maxAttempts` times and takes the first acceptable answer.  One
attempt is a step of the program that asks (`nextAttempt`), so that other tasks can run while it
waits for the answer.
-/

namespace HiddenSteps
namespace Recommendations

open Text Patterns

/-- What synthesis takes from outside the repository. -/
structure Externals where
  classes : UnicodeClasses
  /-- `serde_json::from_str::<SynthesizedFields>`, or the text of its error. -/
  parseFields : List Char → Except String SynthesizedFields
  /-- The shortest decimal text of a floating-point number. -/
  showFloat : ℚ → String

structure CompletionRequest where
  system : Option String
  prompt : String
  maxTokens : Option Nat
  think : Option Bool
  deriving DecidableEq

inductive SynthesisError where
  | provider (error : String)
  | exhaustedRetries (attempts : Nat) (reason : String)
  deriving DecidableEq

def SynthesisError.message : SynthesisError → String
  | provider error => "provider error: " ++ error
  | exhaustedRetries attempts reason =>
      "could not parse a valid response after " ++ toString attempts ++ " attempt(s): " ++ reason

/-! ## Reading an answer -/

def parseCategory (value : String) : Except String RecommendationCategory :=
  if value = "shortcut" then .ok .shortcut
  else if value = "template" then .ok .template
  else if value = "script" then .ok .script
  else if value = "browser_automation" then .ok .browserAutomation
  else if value = "rpa" then .ok .rpa
  else if value = "workflow_platform" then .ok .workflowPlatform
  else if value = "ai_agent" then .ok .aiAgent
  else if value = "hybrid" then .ok .hybrid
  else .error ("unknown category '" ++ value ++ "'")

def parseLevel (value : String) : Except String Level :=
  if value = "low" then .ok .low
  else if value = "medium" then .ok .medium
  else if value = "high" then .ok .high
  else .error ("unknown level '" ++ value ++ "'")

/-- Every free-text field that is checked against the occurrence count. -/
def contradictionCheckFields (fields : SynthesizedFields) : List String :=
  [fields.why, fields.title, fields.privacyImplications, fields.implementationEffort] ++
    fields.assumptions ++ fields.ignoredInformation ++
    fields.alternatives.flatMap fun a => [a.approach, a.tradeoff]

/-- The fields in an answer. -/
def parseAnswer (ext : Externals) (rawResponse : String) : Except String SynthesizedFields :=
  match extractJsonObject rawResponse.toList with
  | none => .error "no JSON object found in response"
  | some json =>
      match ext.parseFields json with
      | .error e => .error ("JSON did not match expected shape: " ++ e)
      | .ok fields => .ok fields

/-- No free-text field contradicts the detected count. -/
def checkNarrative (ext : Externals) (detected : DetectedPattern) (fields : SynthesizedFields) :
    Except String Unit :=
  if (contradictionCheckFields fields).any fun text =>
      contradictsOccurrenceCount ext.classes text detected.occurrenceCount then
    .error ("response narrative contradicts the real occurrence count (" ++
      toString detected.occurrenceCount ++ ")")
  else
    .ok ()

def checkConfidence (ext : Externals) (confidence : ℚ) : Except String Unit :=
  if 0 ≤ confidence ∧ confidence ≤ 1 then .ok ()
  else .error ("confidence " ++ ext.showFloat confidence ++ " out of range [0,1]")

def tryBuild (ext : Externals) (providerId : String) (patternId : Nat)
    (detected : DetectedPattern) (now : Timestamp) (rawResponse : String) :
    Except String Recommendation := do
  -- the order of the checks decides which reason is reported
  let fields ← parseAnswer ext rawResponse
  checkNarrative ext detected fields
  let category ← parseCategory fields.category
  let difficulty ← parseLevel fields.difficulty
  let maintenanceBurden ← parseLevel fields.maintenanceBurden
  checkConfidence ext fields.confidence
  .ok
    { id := none
      patternId := patternId
      createdAt := now
      title := fields.title
      category := category
      why := fields.why
      confidence := fields.confidence
      estimatedTimeSavedMinutes :=
        detected.estimatedMinutesPerOccurrence * detected.occurrenceCount
      difficulty := difficulty
      maintenanceBurden := maintenanceBurden
      privacyImplications := fields.privacyImplications
      implementationEffort := fields.implementationEffort
      alternatives := fields.alternatives.map fun a => ⟨a.approach, a.tradeoff⟩
      assumptions := fields.assumptions
      ignoredInformation := fields.ignoredInformation
      generatingProvider := providerId
      status := .suggested
      dismissalReason := none }

theorem bind_eq_ok {ε α β : Type} {x : Except ε α} {f : α → Except ε β} {b : β} :
    (x >>= f) = .ok b ↔ ∃ a, x = .ok a ∧ f a = .ok b := by
  cases x with
  | error e => simp [bind, Except.bind]
  | ok a => simp [bind, Except.bind]

/-- What a recommendation was built from, with the checks it has passed. -/
theorem fields_of_tryBuild {ext : Externals} {providerId : String} {patternId : Nat}
    {detected : DetectedPattern} {now : Timestamp} {text : String} {rec : Recommendation}
    (h : tryBuild ext providerId patternId detected now text = .ok rec) :
    ∃ fields category difficulty maintenanceBurden, parseAnswer ext text = .ok fields ∧
      checkNarrative ext detected fields = .ok () ∧
      checkConfidence ext fields.confidence = .ok () ∧
      rec =
        { id := none, patternId := patternId, createdAt := now, title := fields.title
          category := category, why := fields.why, confidence := fields.confidence
          estimatedTimeSavedMinutes :=
            detected.estimatedMinutesPerOccurrence * detected.occurrenceCount
          difficulty := difficulty, maintenanceBurden := maintenanceBurden
          privacyImplications := fields.privacyImplications
          implementationEffort := fields.implementationEffort
          alternatives := fields.alternatives.map fun a => ⟨a.approach, a.tradeoff⟩
          assumptions := fields.assumptions, ignoredInformation := fields.ignoredInformation
          generatingProvider := providerId, status := .suggested, dismissalReason := none } := by
  simp only [tryBuild, bind_eq_ok] at h
  rcases h with ⟨fields, hfields, ⟨⟩, hnarrative, category, -, difficulty, -, burden, -, ⟨⟩,
    hconfidence, h⟩
  exact ⟨fields, category, difficulty, burden, hfields, hnarrative, hconfidence,
    (Except.ok.inj h).symm⟩

theorem tryBuild_patternId {ext : Externals} {providerId : String} {patternId : Nat}
    {detected : DetectedPattern} {now : Timestamp} {text : String} {rec : Recommendation}
    (h : tryBuild ext providerId patternId detected now text = .ok rec) :
    rec.patternId = patternId := by
  rcases fields_of_tryBuild h with ⟨_, _, _, _, -, -, -, rfl⟩
  rfl

/-- A confidence out of range never gets this far. -/
theorem tryBuild_confidence {ext : Externals} {providerId : String} {patternId : Nat}
    {detected : DetectedPattern} {now : Timestamp} {text : String} {rec : Recommendation}
    (h : tryBuild ext providerId patternId detected now text = .ok rec) :
    0 ≤ rec.confidence ∧ rec.confidence ≤ 1 := by
  rcases fields_of_tryBuild h with ⟨fields, _, _, _, -, -, hconfidence, rfl⟩
  by_contra hrange
  rw [checkConfidence, if_neg hrange] at hconfidence
  cases hconfidence

/-! ## Attempts -/

/-- The request of every attempt. -/
def synthesisRequest (patternId : Nat) (detected : DetectedPattern) : CompletionRequest :=
  { system := some systemPrompt
    prompt := buildPrompt (toString patternId) detected
    maxTokens := some 1024
    think := some false }

/-- Where a synthesis stands: attempts left and the reason the last one failed. -/
structure Attempts where
  maxAttempts : Nat
  left : Nat
  lastError : String
  deriving DecidableEq

/-- A synthesis with two attempts that has not asked yet. -/
def Attempts.new : Attempts := { maxAttempts := 2, left := 2, lastError := "" }

/-- A synthesis with a number of attempts, at least one. -/
def Attempts.withMaxAttempts (maxAttempts : Nat) : Attempts :=
  { maxAttempts := max maxAttempts 1, left := max maxAttempts 1, lastError := "" }

/-- What an answer leads to: another attempt, or the result of the synthesis. -/
inductive AttemptOutcome where
  | again (attempts : Attempts)
  | finished (result : Except SynthesisError Recommendation)

/-- Handle the answer to an attempt. -/
def nextAttempt (ext : Externals) (providerId : String) (patternId : Nat)
    (detected : DetectedPattern) (now : Timestamp) (attempts : Attempts)
    (answer : Except String String) : AttemptOutcome :=
  match answer with
  -- only an answer that cannot be used is asked for again
  | .error e => .finished (.error (.provider e))
  | .ok text =>
      match tryBuild ext providerId patternId detected now text with
      | .ok recommendation => .finished (.ok recommendation)
      | .error reason =>
          let left := attempts.left - 1
          if left = 0 then .finished (.error (.exhaustedRetries attempts.maxAttempts reason))
          else .again { attempts with left := left, lastError := reason }

/-- A recommendation is built from an acceptable answer. -/
theorem nextAttempt_ok {ext : Externals} {providerId : String} {patternId : Nat}
    {detected : DetectedPattern} {now : Timestamp} {attempts : Attempts}
    {answer : Except String String} {rec : Recommendation}
    (h : nextAttempt ext providerId patternId detected now attempts answer =
      .finished (.ok rec)) :
    ∃ text, answer = .ok text ∧ tryBuild ext providerId patternId detected now text = .ok rec := by
  unfold nextAttempt at h
  split at h
  · cases h
  · split at h
    · rename_i hbuild
      cases h
      exact ⟨_, rfl, hbuild⟩
    · simp only at h
      split at h <;> cases h

theorem nextAttempt_patternId {ext : Externals} {providerId : String} {patternId : Nat}
    {detected : DetectedPattern} {now : Timestamp} {attempts : Attempts}
    {answer : Except String String} {rec : Recommendation}
    (h : nextAttempt ext providerId patternId detected now attempts answer =
      .finished (.ok rec)) : rec.patternId = patternId := by
  rcases nextAttempt_ok h with ⟨text, -, hbuild⟩
  exact tryBuild_patternId hbuild

/-- Another attempt is made only while more than one is left. -/
theorem nextAttempt_again {ext : Externals} {providerId : String} {patternId : Nat}
    {detected : DetectedPattern} {now : Timestamp} {attempts attempts' : Attempts}
    {answer : Except String String}
    (h : nextAttempt ext providerId patternId detected now attempts answer = .again attempts') :
    1 < attempts.left := by
  unfold nextAttempt at h
  split at h
  · cases h
  · split at h
    · cases h
    · simp only at h
      split at h
      · cases h
      · omega

end Recommendations
end HiddenSteps
