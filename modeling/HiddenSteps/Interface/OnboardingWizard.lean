import HiddenSteps.Desktop.Commands
import HiddenSteps.Text.Utf8

/-!
# OnboardingWizard — the eight screens of the first run

The wizard as a state machine: its inputs are what the user does on the screen that is shown and
what comes back for the requests it has sent.  Every change of the state is committed by `commit`,
which also runs the effects that hang on it.
-/

namespace HiddenSteps
namespace Interface

open Desktop

/-! ## Permissions -/

/-- `LEVEL_PERMISSIONS` -/
def levelPermissions : Nat → List String
  | 1 => ["app_focus", "window_title", "shortcut_used"]
  | 2 => ["browser_domain", "clipboard_metadata", "file_operation_metadata"]
  | 3 => ["in_app_context", "browser_page_context", "file_operation_context"]
  | 4 => ["ocr_text"]
  | _ => []

/-- The permissions of all levels up to one. -/
def acknowledgedPermissionsFor (level : Nat) : List String :=
  (List.range' 1 level).flatMap levelPermissions

/-! ## State -/

structure DetectedRuntime where
  name : String
  reachable : Bool
  models : List String
  deriving DecidableEq

structure TestProviderConnectivityRequest where
  providerType : String
  model : String
  apiKey : Option String
  deriving DecidableEq

structure Validation where
  checked : Bool
  ok : Bool
  error : Option String
  deriving DecidableEq

namespace Validation

def unchecked : Validation := { checked := false, ok := false, error := none }

/-- What the answer to a check sets: whether the provider has answered, with the error if it has
not, or the failure of the call. -/
def ofResult : Except String (Bool × Option String) → Validation
  | .ok (ok, error) => { checked := true, ok := ok, error := error }
  | .error e => { checked := true, ok := false, error := some e }

end Validation

/-- The fields the user fills in; the screen before the start shows them. -/
structure Choice where
  privacyLevel : Nat
  providerType : String
  selectedModel : String
  apiKey : String
  deriving DecidableEq

namespace Choice

def isLocal (choice : Choice) : Bool := choice.providerType == "ollama"

/-- A key that has been left empty is not sent. -/
def sentKey (choice : Choice) : Option String :=
  if choice.apiKey = "" then none else some choice.apiKey

/-- What a check of the connection asks. -/
def connectivityRequest (choice : Choice) : TestProviderConnectivityRequest :=
  { providerType := choice.providerType
    model := choice.selectedModel
    apiKey := choice.sentKey }

def setAiProvider (choice : Choice) : SetAiProviderRequest :=
  { id := choice.providerType
    providerType := choice.providerType
    isLocal := choice.isLocal
    modelName := some choice.selectedModel
    endpoint := none
    apiKey := choice.sentKey.map fun key => Text.utf8Bytes key.toList }

def setPrivacyLevel (choice : Choice) : SetPrivacyLevelRequest :=
  { level := choice.privacyLevel
    acknowledgedPermissions := acknowledgedPermissionsFor choice.privacyLevel }

end Choice

/-- The call that `startObserving` awaits. -/
inductive Stage where
  | savingProvider
  | settingLevel
  | completing
  deriving DecidableEq, Repr

/-- A run of `startObserving`, with the choice it was started with. -/
structure Attempt where
  choice : Choice
  stage : Stage
  deriving DecidableEq

structure OnboardingWizard where
  step : Nat
  choice : Choice
  runtimes : Option (List DetectedRuntime)
  validation : Validation
  consented : Bool
  /-- `starting` is set as long as there is a run of `startObserving`. -/
  starting : Option Attempt
  startError : Option String
  /-- The detections and checks that have not been answered. -/
  detections : Nat
  checks : List TestProviderConnectivityRequest
  deriving DecidableEq

namespace OnboardingWizard

def totalSteps : Nat := 8

/-- The wizard when it is mounted. -/
def start : OnboardingWizard where
  step := 1
  choice := { privacyLevel := 1, providerType := "ollama", selectedModel := "", apiKey := "" }
  runtimes := none
  validation := .unchecked
  consented := false
  starting := none
  startError := none
  detections := 0
  checks := []

/-- The detected runtime of the chosen provider. -/
def runtime (w : OnboardingWizard) : Option DetectedRuntime :=
  w.runtimes.bind fun runtimes => runtimes.find? fun r => r.name == w.choice.providerType

def detectedModels (w : OnboardingWizard) : List String :=
  (w.runtime.map DetectedRuntime.models).getD []

/-! ## Effects -/

/-- `CLOUD_MODEL_DEFAULTS` -/
def cloudModelDefaults (providerType : String) : Option String :=
  if providerType = "openai" then some "gpt-4o-mini"
  else if providerType = "anthropic" then some "claude-sonnet-5"
  else none

/-- The model that an empty field is filled with. -/
def defaultModel (w : OnboardingWizard) : Option String :=
  if w.choice.isLocal then w.detectedModels.head? else cloudModelDefaults w.choice.providerType

def fillModel (w : OnboardingWizard) : OnboardingWizard :=
  if w.choice.selectedModel = "" then
    { w with choice := { w.choice with selectedModel := w.defaultModel.getD "" } }
  else w

/-- What a check is about. -/
def validates (w : OnboardingWizard) : String × String × String :=
  (w.choice.providerType, w.choice.selectedModel, w.choice.apiKey)

/-- The runtimes are detected once their screen is reached. -/
def detectRuntimes (before after : OnboardingWizard) : OnboardingWizard :=
  if after.step ≠ before.step ∧ after.step = 5 ∧ after.runtimes = none then
    { after with detections := after.detections + 1 }
  else after

/-- A model is suggested for another provider or other models; `detected` when the runtimes have
been replaced. -/
def suggestModel (before after : OnboardingWizard) (detected : Bool) : OnboardingWizard :=
  -- the models of a provider that has not been detected are a new list at every rendering
  if detected ∨ after.choice.providerType ≠ before.choice.providerType ∨ after.runtime = none then
    after.fillModel
  else after

/-- A validation does not carry over to what it is not about. -/
def resetValidation (before after filled : OnboardingWizard) : OnboardingWizard :=
  if after.validates = before.validates ∧ filled.validates = after.validates then filled
  else { filled with validation := .unchecked }

/-- Render a changed state and run the effects whose dependencies have changed. -/
def commit (before after : OnboardingWizard) (detected : Bool) : OnboardingWizard :=
  before.resetValidation after (before.suggestModel (before.detectRuntimes after) detected)

/-! ## Inputs -/

def next (w : OnboardingWizard) : OnboardingWizard :=
  { w with step := min totalSteps (w.step + 1) }

def back (w : OnboardingWizard) : OnboardingWizard :=
  { w with step := max 1 (w.step - 1) }

/-- `String.prototype.trim` removes these. -/
def isTrimmed (c : Char) : Bool :=
  (9 ≤ c.toNat && c.toNat ≤ 13) || [0x20, 0xA0, 0x1680].contains c.toNat ||
    (0x2000 ≤ c.toNat && c.toNat ≤ 0x200A) ||
    [0x2028, 0x2029, 0x202F, 0x205F, 0x3000, 0xFEFF].contains c.toNat

/-- The model is not blank. -/
def modelChosen (w : OnboardingWizard) : Bool :=
  !w.choice.selectedModel.toList.all isTrimmed

inductive Input where
  | continue
  | back
  | chooseLevel (level : Nat)
  | chooseProvider (providerType : String)
  /-- The model is picked from a list or typed, as the screen has it. -/
  | chooseModel (model : String)
  | typeKey (apiKey : String)
  | runChecks
  | tick (consented : Bool)
  | startObserving
  /-- The runtimes of a detection come back. -/
  | detected (runtimes : List DetectedRuntime)
  /-- A check comes back, in whatever order. -/
  | validated (check : Nat) (result : Except String (Bool × Option String))
  deriving DecidableEq

/-- What the wizard and the program around it are judged by. -/
inductive Report where
  /-- A check is sent. -/
  | probed (request : TestProviderConnectivityRequest)
  /-- A check has come back. -/
  | validated (request : TestProviderConnectivityRequest) (ok : Bool)
  /-- The user starts the observation, the box being ticked, with what the screen shows. -/
  | consented (choice : Choice)
  | completed (choice : Choice)
  deriving DecidableEq

def Report.isCompleted : Report → Bool
  | completed _ => true
  | _ => false

/-- A state, the command that is sent, and what is reported. -/
structure Reaction (σ : Type) where
  state : σ
  command : Option Command
  reports : List Report

/-- Nothing is sent. -/
def quiet (w : OnboardingWizard) : Reaction OnboardingWizard :=
  { state := w, command := none, reports := [] }

def continueEnabled (w : OnboardingWizard) : Bool :=
  w.step ≤ 5 || (w.step == 6 && w.validation.checked && w.validation.ok)

/-- The models that the screen offers; any text where there are none. -/
def offersModel (w : OnboardingWizard) (model : String) : Bool :=
  !w.choice.isLocal || w.detectedModels.isEmpty || w.detectedModels.contains model

/-- A model is forgotten when another provider is chosen. -/
def withProvider (w : OnboardingWizard) (providerType : String) : OnboardingWizard :=
  { w with choice := { w.choice with providerType := providerType, selectedModel := "" } }

def withModel (w : OnboardingWizard) (model : String) : OnboardingWizard :=
  { w with choice := { w.choice with selectedModel := model } }

def withKey (w : OnboardingWizard) (apiKey : String) : OnboardingWizard :=
  { w with choice := { w.choice with apiKey := apiKey } }

/-- An input that the screen offers. -/
def input (w : OnboardingWizard) : Input → Option (Reaction OnboardingWizard)
  | .continue => if w.continueEnabled then some (quiet (w.commit w.next false)) else none
  | .back => if 2 ≤ w.step ∧ w.step ≤ 7 then some (quiet (w.commit w.back false)) else none
  | .chooseLevel level =>
      if w.step = 4 ∧ level ≤ 4 then
        some (quiet (w.commit { w with choice := { w.choice with privacyLevel := level } } false))
      else none
  | .chooseProvider providerType =>
      if w.step = 5 ∧ providerType ∈ ["ollama", "openai", "anthropic"] ∧
          providerType ≠ w.choice.providerType then
        some (quiet (w.commit (w.withProvider providerType) false))
      else none
  | .chooseModel model =>
      if w.step = 5 ∧ w.offersModel model then some (quiet (w.commit (w.withModel model) false))
      else none
  | .typeKey apiKey =>
      if w.step = 5 ∧ w.choice.isLocal = false then some (quiet (w.commit (w.withKey apiKey) false))
      else none
  | .runChecks =>
      if w.step = 6 ∧ w.modelChosen then
        some
          { state := { w with checks := w.checks ++ [w.choice.connectivityRequest] }
            command := none
            reports := [.probed w.choice.connectivityRequest] }
      else none
  | .tick consented =>
      if w.step = 7 then some (quiet (w.commit { w with consented := consented } false)) else none
  | .startObserving =>
      if w.step = 7 ∧ w.consented ∧ w.starting = none then
        some
          { state :=
              w.commit
                { w with
                  starting := some { choice := w.choice, stage := .savingProvider }
                  startError := none }
                false
            command := some (.setAiProvider w.choice.setAiProvider)
            reports := [.consented w.choice] }
      else none
  | .detected runtimes =>
      if 0 < w.detections then
        some (quiet (w.commit
          { w with runtimes := some runtimes, detections := w.detections - 1 } true))
      else none
  | .validated check result => do
      let request ← w.checks[check]?
      -- what was asked is not compared with what is chosen by now
      let answered :=
        { w with validation := .ofResult result, checks := w.checks.eraseIdx check }
      return { state := w.commit answered false, command := none
               reports := [.validated request (Validation.ofResult result).ok] }

/-- The awaited call returns. -/
def answered (w : OnboardingWizard) (result : Except String Reply) :
    Option (Reaction OnboardingWizard) := do
  let attempt ← w.starting
  match result with
  | .error e => return quiet (w.commit { w with starting := none, startError := some e } false)
  | .ok _ =>
      match attempt.stage with
      | .savingProvider =>
          return { state := { w with starting := some { attempt with stage := .settingLevel } }
                   command := some (.setPrivacyLevel attempt.choice.setPrivacyLevel)
                   reports := [] }
      | .settingLevel =>
          return { state := { w with starting := some { attempt with stage := .completing } }
                   command := some .completeOnboarding
                   reports := [] }
      | .completing =>
          return { state := w.commit { w.next with starting := none } false
                   command := none
                   reports := [.completed attempt.choice] }

/-! ## One step -/

/-- The effects change the count of detections, an empty model and the validation. -/
theorem commit_eq (before after : OnboardingWizard) (detected : Bool) :
    ∃ detections model validation, before.commit after detected =
      { after with
        detections := detections
        choice := { after.choice with selectedModel := model }
        validation := validation } := by
  unfold commit resetValidation suggestModel detectRuntimes fillModel
  split_ifs <;> exact ⟨_, _, _, rfl⟩

@[simp] theorem commit_step (before after : OnboardingWizard) (detected : Bool) :
    (before.commit after detected).step = after.step := by
  rcases commit_eq before after detected with ⟨_, _, _, h⟩
  rw [h]

@[simp] theorem commit_starting (before after : OnboardingWizard) (detected : Bool) :
    (before.commit after detected).starting = after.starting := by
  rcases commit_eq before after detected with ⟨_, _, _, h⟩
  rw [h]

@[simp] theorem commit_checks (before after : OnboardingWizard) (detected : Bool) :
    (before.commit after detected).checks = after.checks := by
  rcases commit_eq before after detected with ⟨_, _, _, h⟩
  rw [h]

/-- What an input that is offered does. -/
inductive InputStep (w : OnboardingWizard) : Input → Reaction OnboardingWizard → Prop where
  | continued (h : w.continueEnabled = true) :
      InputStep w .continue (quiet (w.commit w.next false))
  | wentBack : InputStep w .back (quiet (w.commit w.back false))
  /-- A field is changed, on a screen before the check or beside what is checked. -/
  | changed {i : Input} {after : OnboardingWizard} (hstep : after.step = w.step)
      (hstarting : after.starting = w.starting) (hchecks : after.checks = w.checks)
      (hvalidation : after.validation = w.validation)
      (hchoice : w.step = 5 ∨ after.validates = w.validates) :
      InputStep w i (quiet (w.commit after false))
  | probed (hmodel : w.modelChosen = true) :
      InputStep w .runChecks
        { state := { w with checks := w.checks ++ [w.choice.connectivityRequest] }
          command := none
          reports := [.probed w.choice.connectivityRequest] }
  | started (hstep : w.step = 7) (hconsented : w.consented = true) (hstarting : w.starting = none) :
      InputStep w .startObserving
        { state :=
            w.commit
              { w with
                starting := some { choice := w.choice, stage := .savingProvider }
                startError := none }
              false
          command := some (.setAiProvider w.choice.setAiProvider)
          reports := [.consented w.choice] }
  | detected {runtimes : List DetectedRuntime} :
      InputStep w (.detected runtimes)
        (quiet (w.commit
          { w with runtimes := some runtimes, detections := w.detections - 1 } true))
  | validated {check : Nat} {result : Except String (Bool × Option String)}
      {request : TestProviderConnectivityRequest} (hcheck : w.checks[check]? = some request) :
      InputStep w (.validated check result)
        { state :=
            w.commit
              { w with validation := .ofResult result, checks := w.checks.eraseIdx check } false
          command := none
          reports := [.validated request (Validation.ofResult result).ok] }

/-- The inversion of an input. -/
theorem inputStep_of_input {w : OnboardingWizard} {i : Input} {r : Reaction OnboardingWizard}
    (h : w.input i = some r) : InputStep w i r := by
  cases i with
  | «continue» =>
      simp only [input, Option.ite_none_right_eq_some] at h
      rcases h with ⟨henabled, h⟩
      cases h
      exact .continued henabled
  | back =>
      simp only [input, Option.ite_none_right_eq_some] at h
      cases h.2
      exact .wentBack
  | chooseLevel level =>
      simp only [input, Option.ite_none_right_eq_some] at h
      cases h.2
      exact .changed rfl rfl rfl rfl (Or.inr rfl)
  | chooseProvider providerType =>
      simp only [input, Option.ite_none_right_eq_some] at h
      cases h.2
      exact .changed rfl rfl rfl rfl (Or.inl h.1.1)
  | chooseModel model =>
      simp only [input, Option.ite_none_right_eq_some] at h
      cases h.2
      exact .changed rfl rfl rfl rfl (Or.inl h.1.1)
  | typeKey apiKey =>
      simp only [input, Option.ite_none_right_eq_some] at h
      cases h.2
      exact .changed rfl rfl rfl rfl (Or.inl h.1.1)
  | runChecks =>
      simp only [input, Option.ite_none_right_eq_some] at h
      cases h.2
      exact .probed h.1.2
  | tick consented =>
      simp only [input, Option.ite_none_right_eq_some] at h
      cases h.2
      exact .changed rfl rfl rfl rfl (Or.inr rfl)
  | startObserving =>
      simp only [input, Option.ite_none_right_eq_some] at h
      cases h.2
      exact .started h.1.1 h.1.2.1 h.1.2.2
  | detected runtimes =>
      simp only [input, Option.ite_none_right_eq_some] at h
      cases h.2
      exact .detected
  | validated check result =>
      simp only [input, bind, Option.bind_eq_some_iff] at h
      rcases h with ⟨request, hcheck, h⟩
      cases h
      exact .validated hcheck

end OnboardingWizard

end Interface
end HiddenSteps
