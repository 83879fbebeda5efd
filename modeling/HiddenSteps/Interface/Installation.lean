import HiddenSteps.Desktop.Onboarding
import HiddenSteps.Interface.OnboardingWizard
import HiddenSteps.Systems.Composition

/-!
# Installation — the device together with the window through which it is used

The window is opened when the process starts, asks for the onboarding state and shows the wizard or
the other screens accordingly.  Every command of the device comes from the window; the calls run as
tasks of their own, among the loops, until their results are brought back.
-/

namespace HiddenSteps
namespace Interface

open Desktop EventStore Systems

/-! ## What is shown -/

/-- The `App` component. -/
structure AppComponent where
  onboardingComplete : Option Bool
  onboardingError : Option String
  /-- Calls of `get_onboarding_state` that have not been answered. -/
  checking : Nat
  /-- The wizard, as long as it is shown. -/
  wizard : OnboardingWizard
  deriving DecidableEq

inductive Screen where
  | error
  | loading
  | wizard
  | main
  deriving DecidableEq, Repr

namespace AppComponent

/-- The component when it is mounted: the onboarding state is asked for at once. -/
def mount : AppComponent :=
  { onboardingComplete := none, onboardingError := none, checking := 1, wizard := .start }

def screen (c : AppComponent) : Screen :=
  if c.onboardingError.isSome then .error
  else
    match c.onboardingComplete with
    | none => .loading
    | some false => .wizard
    | some true => .main

inductive Input where
  | retry
  | wizard (input : OnboardingWizard.Input)
  /-- A command of another screen, whichever it is. -/
  | main (command : Command)
  deriving DecidableEq

/-- A wizard that was not shown before is mounted anew. -/
def rerender (before after : AppComponent) : AppComponent :=
  if before.screen = .wizard then after else { after with wizard := .start }

def input (c : AppComponent) : Input → Option (OnboardingWizard.Reaction AppComponent)
  | .retry =>
      if c.screen = .error then
        some
          { state := c.rerender { c with onboardingError := none, checking := c.checking + 1 }
            command := none
            reports := [] }
      else none
  | .wizard input =>
      if c.screen = .wizard then
        (c.wizard.input input).map fun r => { r with state := { c with wizard := r.state } }
      else none
  | .main command =>
      if c.screen = .main then some { state := c, command := some command, reports := [] } else none

/-- The onboarding state comes back. -/
def onboardingAnswered (c : AppComponent) (result : Except String Bool) : AppComponent :=
  match result with
  | .ok completed =>
      c.rerender { c with onboardingComplete := some completed, checking := c.checking - 1 }
  | .error e => c.rerender { c with onboardingError := some e, checking := c.checking - 1 }

/-- `onComplete` is called when the wizard has come to its end. -/
def answered (c : AppComponent) (result : Except String Reply) :
    Option (OnboardingWizard.Reaction AppComponent) :=
  if c.screen = .wizard then
    (c.wizard.answered result).map fun r =>
      { r with
        state :=
          if r.reports.any OnboardingWizard.Report.isCompleted then
            { c with wizard := r.state, onboardingComplete := some true }
          else { c with wizard := r.state } }
  else none

end AppComponent

/-! ## The window and the device -/

structure Window where
  component : AppComponent
  /-- Results of `get_onboarding_state` on their way back. -/
  answers : List (Except String Bool)
  /-- The call whose result the wizard awaits. -/
  awaited : Option Nat

def Window.opened : Window := { component := .mount, answers := [], awaited := none }

structure Installation where
  device : Desktop.App
  /-- There is a window as long as the process runs. -/
  window : Option Window

inductive Event where
  | device (effect : Effect)
  | window (report : OnboardingWizard.Report)
  | sent (command : Command)
  deriving DecidableEq

namespace Event

/-- The effects of the device. -/
def effect? : Event → Option Effect
  | device effect => some effect
  | _ => none

end Event

inductive Action where
  /-- A step of the device; its commands come from the window only. -/
  | device (action : Desktop.Action)
  | reload
  | input (input : AppComponent.Input)
  | readOnboarding (fault : Option String)
  | onboardingAnswered
  | answered

/-- `get_onboarding_state` -/
def readOnboardingState (fault : Option String) (store : Store) : Except String Bool :=
  match fault with
  | some e => .error e
  | none => (getOnboardingState store).map OnboardingState.completed

namespace Installation

/-- What a reaction of the window does: its command, if it has one, is invoked on the device, and
the wizard awaits its result. -/
def react (ext : Externals) (s : Installation) (window : Window) (awaited : Option Nat)
    (r : OnboardingWizard.Reaction AppComponent) : Option (Installation × List Event) :=
  match r.command with
  | none =>
      some
        ( { s with window := some { window with component := r.state, awaited := awaited } },
          r.reports.map .window )
  | some command => do
      let (device, effects) ← (machine ext).step s.device (.invoke command)
      let call := if r.state.screen = .wizard then some s.device.calls.length else none
      some
        ( { device := device
            window := some { window with component := r.state, awaited := call } },
          r.reports.map .window ++ .sent command :: effects.map .device )

/-- The window after a step of the device: it is opened by a launch and goes with the process. -/
def windowAfter (device : Desktop.App) (window : Option Window) :
    Desktop.Action → Option Window
  | .launch _ => device.process.map fun _ => .opened
  | _ => if device.process.isSome then window else none

def step (ext : Externals) (s : Installation) : Action → Option (Installation × List Event)
  | .device (.invoke _) => none
  | .device action => do
      let (device, effects) ← (machine ext).step s.device action
      some ({ device := device, window := windowAfter device s.window action },
        effects.map .device)
  | .reload => s.window.map fun _ => ({ s with window := some .opened }, [])
  | .input input => do
      let window ← s.window
      let r ← window.component.input input
      react ext s window window.awaited r
  | .readOnboarding fault => do
      let window ← s.window
      let answer := readOnboardingState fault s.device.store
      if window.answers.length < window.component.checking then
        some ({ s with window := some { window with answers := window.answers ++ [answer] } }, [])
      else none
  | .onboardingAnswered => do
      let window ← s.window
      match window.answers with
      | [] => none
      | answer :: answers =>
          some
            ( { s with
                window := some
                  { window with
                    component := window.component.onboardingAnswered answer
                    answers := answers } },
              [] )
  | .answered => do
      let window ← s.window
      let id ← window.awaited
      let call ← s.device.call? id
      match call.pc with
      | .returned result => (window.component.answered result).bind (react ext s window none)
      | _ => none

/-- Nothing has been launched yet. -/
def Initial (s : Installation) : Prop := s.device.Initial ∧ s.window = none

end Installation

def installation (ext : Externals) : Machine Installation Action Event where
  step := Installation.step ext

/-! ## One step -/

/-- A reaction of the window, and the call that is awaited if it sends no command. -/
inductive Reacts (device : Desktop.App) (window : Window) :
    Action → Option Nat → OnboardingWizard.Reaction AppComponent → Prop where
  | input {input : AppComponent.Input} {r : OnboardingWizard.Reaction AppComponent}
      (h : window.component.input input = some r) :
      Reacts device window (.input input) window.awaited r
  | answered {id : Nat} {call : Call} {result : Except String Reply}
      {r : OnboardingWizard.Reaction AppComponent} (hawaited : window.awaited = some id)
      (hcall : device.call? id = some call) (hpc : call.pc = .returned result)
      (h : window.component.answered result = some r) :
      Reacts device window .answered none r

/-- What a step of the installation does. -/
inductive InstallationStep (ext : Externals) :
    Installation → Action → Installation → List Event → Prop where
  | device {s : Installation} {device : Desktop.App} {window : Option Window}
      {action : Desktop.Action} {effects : List Effect}
      (hinvoke : ∀ command, action ≠ .invoke command)
      (hstep : (machine ext).step s.device action = some (device, effects))
      (hwindow : window = none ∨ window = some .opened ∧ s.device.process = none ∨
        window = s.window ∧ s.device.process.isSome ∧ device.process.isSome) :
      InstallationStep ext s (.device action) ⟨device, window⟩ (effects.map .device)
  | reloaded {device : Desktop.App} {window : Window} :
      InstallationStep ext ⟨device, some window⟩ .reload ⟨device, some .opened⟩ []
  | reacted {device : Desktop.App} {window : Window} {action : Action} {awaited : Option Nat}
      {r : OnboardingWizard.Reaction AppComponent} (hr : Reacts device window action awaited r)
      (hcommand : r.command = none) :
      InstallationStep ext ⟨device, some window⟩ action
        ⟨device, some { window with component := r.state, awaited := awaited }⟩
        (r.reports.map .window)
  | sent {device device' : Desktop.App} {window : Window} {action : Action}
      {awaited : Option Nat} {r : OnboardingWizard.Reaction AppComponent} {command : Command}
      {effects : List Effect} (hr : Reacts device window action awaited r)
      (hcommand : r.command = some command)
      (hstep : (machine ext).step device (.invoke command) = some (device', effects)) :
      InstallationStep ext ⟨device, some window⟩ action
        ⟨device', some
          { window with
            component := r.state
            awaited := if r.state.screen = .wizard then some device.calls.length else none }⟩
        (r.reports.map .window ++ .sent command :: effects.map .device)
  | read {device : Desktop.App} {window : Window} {fault : Option String}
      (hchecking : window.answers.length < window.component.checking) :
      InstallationStep ext ⟨device, some window⟩ (.readOnboarding fault)
        ⟨device, some
          { window with answers := window.answers ++ [readOnboardingState fault device.store] }⟩
        []
  | onboarded {device : Desktop.App} {window : Window} {answer : Except String Bool}
      {answers : List (Except String Bool)} (hanswers : window.answers = answer :: answers) :
      InstallationStep ext ⟨device, some window⟩ .onboardingAnswered
        ⟨device, some
          { window with
            component := window.component.onboardingAnswered answer
            answers := answers }⟩
        []

theorem installationStep_react {ext : Externals} {device : Desktop.App} {window : Window}
    {action : Action} {awaited : Option Nat} {r : OnboardingWizard.Reaction AppComponent}
    {s' : Installation} {es : List Event} (hr : Reacts device window action awaited r)
    (h : Installation.react ext ⟨device, some window⟩ window awaited r = some (s', es)) :
    InstallationStep ext ⟨device, some window⟩ action s' es := by
  unfold Installation.react at h
  split at h
  · rename_i hcommand
    cases h
    exact .reacted hr hcommand
  · rename_i command hcommand
    simp only [bind, Option.bind_eq_some_iff] at h
    rcases h with ⟨⟨device', effects⟩, hstep, h⟩
    cases h
    exact .sent hr hcommand hstep

/-- A process is only launched when none runs, and only a running one does anything else. -/
theorem process_of_step {ext : Externals} {app app' : Desktop.App} {action : Desktop.Action}
    {es : List Effect} (h : (machine ext).step app action = some (app', es)) :
    (∃ input, action = .launch input) ∧ app.process = none ∨
      (∀ input, action ≠ .launch input) ∧ app.process.isSome := by
  cases appStep_of_step h with
  | launch hprocess => exact Or.inl ⟨⟨_, rfl⟩, hprocess⟩
  | _ => exact Or.inr ⟨by simp, rfl⟩

/-- The inversion of a step of the installation. -/
theorem installationStep_of_step {ext : Externals} {s s' : Installation} {action : Action}
    {es : List Event} (h : (installation ext).step s action = some (s', es)) :
    InstallationStep ext s action s' es := by
  replace h : Installation.step ext s action = some (s', es) := h
  cases action with
  | device action =>
      have hinvoke : ∀ command, action ≠ .invoke command := by
        rintro command rfl
        cases h
      have hdevice : ((machine ext).step s.device action).bind (fun r =>
          some (Installation.mk r.1 (Installation.windowAfter r.1 s.window action),
            r.2.map Event.device)) = some (s', es) := by
        cases action <;> first | exact absurd rfl (hinvoke _) | exact h
      rcases Option.bind_eq_some_iff.1 hdevice with ⟨⟨device, effects⟩, hstep, hs⟩
      cases hs
      refine .device hinvoke hstep ?_
      cases hprocess : device.process with
      | none => exact Or.inl (by cases action <;> simp [Installation.windowAfter, hprocess])
      | some process =>
          rcases process_of_step hstep with ⟨⟨input, rfl⟩, hnone⟩ | ⟨hlaunch, hsome⟩
          · exact Or.inr (Or.inl ⟨by simp [Installation.windowAfter, hprocess], hnone⟩)
          · refine Or.inr (Or.inr ⟨?_, hsome, rfl⟩)
            cases action <;>
              first | exact absurd rfl (hlaunch _) | simp [Installation.windowAfter, hprocess]
  | reload =>
      rcases s with ⟨device, window⟩
      cases window with
      | none => cases h
      | some window =>
          cases h
          exact .reloaded
  | input input =>
      rcases s with ⟨device, window⟩
      cases window with
      | none => cases h
      | some window =>
          rcases Option.bind_eq_some_iff.1 h with ⟨r, hr, h⟩
          exact installationStep_react (.input hr) h
  | readOnboarding fault =>
      rcases s with ⟨device, window⟩
      cases window with
      | none => cases h
      | some window =>
          simp only [Installation.step, bind, Option.bind_some, Option.ite_none_right_eq_some] at h
          rcases h with ⟨hchecking, h⟩
          cases h
          exact .read hchecking
  | onboardingAnswered =>
      rcases s with ⟨device, window⟩
      cases window with
      | none => cases h
      | some window =>
          simp only [Installation.step, bind, Option.bind_some] at h
          split at h
          · cases h
          · rename_i answer answers hanswers
            cases h
            exact .onboarded hanswers
  | answered =>
      rcases s with ⟨device, window⟩
      cases window with
      | none => cases h
      | some window =>
          simp only [Installation.step, bind, Option.bind_some, Option.bind_eq_some_iff] at h
          rcases h with ⟨id, hawaited, call, hcall, h⟩
          split at h
          · rename_i result hpc
            rcases Option.bind_eq_some_iff.1 h with ⟨r, hr, h⟩
            exact installationStep_react (.answered hawaited hcall hpc hr) h
          · cases h

/-- The device of an installation takes no steps but its own. -/
theorem device_reach {ext : Externals} {guard : Installation → Action → Prop} {s : Installation}
    {history : List Event}
    (hreach : (installation ext).Reach Installation.Initial guard s history) :
    (machine ext).Reach Desktop.App.Initial Machine.always s.device
      (history.filterMap Event.effect?) := by
  refine hreach.project Installation.device Event.effect? (fun s hs => hs.1) ?_
  intro s action s' es _ hstep
  have heffects : ∀ effects : List Effect,
      (effects.map Event.device).filterMap Event.effect? = effects := by
    intro effects
    rw [List.filterMap_map]
    exact List.filterMap_some
  have hreports : ∀ reports : List OnboardingWizard.Report,
      (reports.map Event.window).filterMap Event.effect? = [] := by
    intro reports
    rw [List.filterMap_map]
    exact List.filterMap_eq_nil_iff.2 fun _ _ => rfl
  cases installationStep_of_step hstep with
  | @device _ _ _ action effects _ hdevice =>
      exact Or.inr ⟨action, trivial, (heffects effects).symm ▸ hdevice⟩
  | reacted => exact Or.inl ⟨rfl, hreports _⟩
  | @sent _ _ _ _ _ _ command _ _ _ hinvoke =>
      refine Or.inr ⟨.invoke command, trivial, ?_⟩
      rw [List.filterMap_append, hreports, List.nil_append, List.filterMap_cons, heffects]
      exact hinvoke
  | _ => exact Or.inl ⟨rfl, rfl⟩

/-! ## A first run -/

/-- A fresh device without a window. -/
def Installation.fresh : Installation := { device := .fresh, window := none }

theorem Installation.fresh_initial : Installation.fresh.Initial := ⟨App.fresh_initial, rfl⟩

/-- The program is launched for the first time and shows the wizard. -/
def Action.opening (sources : List Source) : List Action :=
  [.device (.launch (.plain (.repeating 1) sources)), .readOnboarding none, .onboardingAnswered]

/-- The user goes through the screens, with a local model that is detected and answers. -/
def Action.choosing : List Action :=
  List.map (fun i => .input (.wizard i))
    (List.replicate 4 .continue ++
      [.detected [{ name := "ollama", reachable := true, models := ["m"] }], .continue, .runChecks,
        .validated 0 (.ok (true, none)), .continue, .tick true])

/-- A call takes its steps, and its result is brought back. -/
def Action.returning (id : Nat) : List Action :=
  List.replicate 4 (.device (.call id (.plain 0))) ++ [.answered]

/-- A first run, from the launch to the end of the wizard. -/
def Action.onboarding (sources : List Source) : List Action :=
  opening sources ++ choosing ++ .input (.wizard .startObserving) ::
    (returning 0 ++ returning 1 ++ returning 2)

end Interface
end HiddenSteps
