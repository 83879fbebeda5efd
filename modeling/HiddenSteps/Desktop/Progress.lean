import HiddenSteps.Desktop.Revocation

/-!
# Progress — how many steps a command and a sweep take

Between two steps of a task the others may take any number of theirs.  Counting its own steps only, a
command returns and a sweep ends within a bound, whatever the others do and whichever calls fail.
-/

namespace HiddenSteps
namespace Desktop

open EventStore Patterns PrivacyEngine Recommendations Systems

/-- A process works on an opened file. -/
def App.FileOpen (app : App) : Prop := app.process.isSome → app.file.isSome

theorem fileOpen_step {ext : Externals} {app app' : App} {action : Action} {es : List Effect}
    (hopen : app.FileOpen) (h : (machine ext).step app action = some (app', es)) :
    app'.FileOpen := by
  cases appStep_of_step h with
  | launch =>
      rcases (launch_cases app _).2 with ⟨hfile, hprocess⟩ | ⟨_, _, _, hfile, _⟩
      · rw [App.FileOpen, hfile, hprocess]
        exact hopen
      · rw [App.FileOpen, hfile]
        exact fun _ => rfl
  | _ => exact fun _ => rfl

theorem fileOpen_of_reach {ext : Externals} {app : App} {history : List Effect}
    (hreach : (machine ext).Reach App.Initial Machine.always app history) : app.FileOpen := by
  refine hreach.invariant (fun app _ => app.FileOpen) ?_ ?_
  · intro app hinit
    simp [App.FileOpen, hinit.2]
  · exact fun app _ action app' es hopen _ hstep => fileOpen_step hopen hstep

/-! ## Commands -/

/-- A bound for the steps that a command takes until it has returned. -/
def CallPc.stepsLeft : CallPc → Nat
  | .start => 4
  | .storingProvider .. | .readingState _ => 3
  | .activatingProvider _ | .writingState .. | .openingGate _ | .rekeying => 2
  | .storingKey _ | .logging .. => 1
  | .returned _ => 0

def Call.stepsLeft (call : Call) : Nat := call.pc.stepsLeft

theorem Call.stepsLeft_le (call : Call) : call.stepsLeft ≤ 4 := by
  unfold Call.stepsLeft
  cases call.pc <;> simp [CallPc.stepsLeft]

theorem Call.isReturned_iff (call : Call) : call.isReturned = true ↔ call.stepsLeft = 0 := by
  unfold Call.isReturned Call.stepsLeft
  cases call.pc <;> simp [CallPc.stepsLeft]

/-- Every step of a command uses up one of its steps. -/
theorem stepsLeft_of_callStep {call : Call} {o : Outside} {shared : Shared} {pc : CallPc}
    {progress : Progress} (h : CallStep call o shared pc progress) :
    progress.pc.stepsLeft < pc.stepsLeft := by
  cases h with
  | failed hpc =>
      cases pc with
      | logging | returned => exact absurd hpc id
      | _ => exact Nat.succ_pos _
  | _ => simp [CallPc.stepsLeft, Call.goOn, Call.finish, Call.fail]

/-- Steps of one command. -/
def Action.isCall (id : Nat) : Action → Bool
  | .call i _ => i == id
  | _ => false

/-- The process goes on. -/
def Action.goesOn : Action → Bool
  | .exit => false
  | _ => true

/-- The bound for the command of an id. -/
def App.stepsLeft (app : App) (id : Nat) : Nat :=
  ((app.call? id).map Call.stepsLeft).getD 0

section Steps

variable {ext : Externals} {app app' : App} {action : Action} {es : List Effect}

/-- While its process goes on, a command is there, and its own steps use up the bound. -/
theorem stepsLeft_step {id : Nat} {call : Call} (hcall : app.call? id = some call)
    (hgoesOn : action.goesOn = true) (h : (machine ext).step app action = some (app', es)) :
    ∃ call', app'.call? id = some call' ∧ call'.command = call.command ∧
      (if action.isCall id then 1 else 0) + call'.stepsLeft ≤ call.stepsLeft := by
  have hother : app'.call? id = some call → action.isCall id = false →
      ∃ call', app'.call? id = some call' ∧ call'.command = call.command ∧
        (if action.isCall id then 1 else 0) + call'.stepsLeft ≤ call.stepsLeft := by
    intro hsame hkind
    exact ⟨call, hsame, rfl, by simp [hkind]⟩
  cases appStep_of_step h with
  | launch hprocess => simp [App.call?, hprocess] at hcall
  | exit => cases hgoesOn
  | @invoke vault database process command =>
      refine hother ?_ rfl
      replace hcall : process.calls[id]? = some call := hcall
      show (process.calls ++ [_])[id]? = some call
      rw [List.getElem?_append_left (List.getElem?_eq_some_iff.1 hcall).1, hcall]
  | @call vault database process i o c progress hc hstep =>
      replace hcall : process.calls[id]? = some call := hcall
      by_cases hid : i = id
      · subst hid
        cases hc.symm.trans hcall
        refine ⟨{ call with pc := progress.pc }, ?_, rfl, ?_⟩
        · exact List.getElem?_set_self (List.getElem?_eq_some_iff.1 hcall).1
        · have hless := stepsLeft_of_callStep hstep
          simp only [Action.isCall, beq_self_eq_true, if_true, Call.stepsLeft]
          omega
      · refine hother ?_ (by simp [Action.isCall, hid])
        show (process.calls.set i _)[id]? = some call
        rw [List.getElem?_set_ne hid, hcall]
  | observe | sweep | operate | notify => exact hother hcall rfl

/-- Only a command that has returned has no next step. -/
theorem isSome_step_call {id : Nat} {call : Call} (hopen : app.FileOpen)
    (hcall : app.call? id = some call) (hnot : call.isReturned = false) (o : Outside) :
    ((machine ext).step app (.call id o)).isSome = true := by
  rcases app with ⟨vault, file, process⟩
  cases process with
  | none => cases hcall
  | some process =>
      cases file with
      | none => exact absurd (hopen rfl) (by simp)
      | some database =>
          replace hcall : process.calls[id]? = some call := hcall
          show (App.run ext vault database process (.call id o)).isSome = true
          simp only [App.run, bind, hcall, Option.bind_some, Call.step]
          cases hpc : call.pc with
          | returned => simp [Call.isReturned, hpc] at hnot
          | _ => rfl

end Steps

/-- A command that has not returned has a next step in every state, and within four steps of its
own it has returned, whatever the other tasks do in between. -/
theorem call_returns {ext : Externals} {app app' : App} {id : Nat} {call : Call} {taken : Nat}
    {before after : List Effect}
    (hreach : (machine ext).Reach App.Initial Machine.always app before)
    (hcall : app.call? id = some call)
    (hlater : Machine.WatchedReach (machine ext) (Machine.counting (Action.isCall id)) 0 (· = app)
      (fun _ action => action.goesOn = true) (app', taken) after) :
    ∃ call', app'.call? id = some call' ∧ call'.command = call.command ∧ taken ≤ 4 ∧
      (taken = 4 → call'.isReturned = true) ∧
      (call'.isReturned = false → ∀ o, ((machine ext).step app' (.call id o)).isSome = true) := by
  have htaken := hlater.takes (Action.isCall id) (fun app => app.stepsLeft id)
    (fun app => app.FileOpen ∧
      ∃ call', app.call? id = some call' ∧ call'.command = call.command)
    ⟨fileOpen_of_reach hreach, call, hcall, rfl⟩ (by
      rintro app action app' es ⟨hopen, c, hc, hcommand⟩ hgoesOn hstep
      rcases stepsLeft_step hc hgoesOn hstep with ⟨c', hc', hsame, hpays⟩
      refine ⟨⟨fileOpen_step hopen hstep, c', hc', hsame.trans hcommand⟩, ?_⟩
      simpa [App.stepsLeft, hc, hc'] using hpays)
  rcases htaken with ⟨⟨hopen, call', hcall', hcommand⟩, hpaid⟩
  simp only [App.stepsLeft, hcall, hcall', Option.map_some, Option.getD_some] at hpaid
  have hbound := call.stepsLeft_le
  refine ⟨call', hcall', hcommand, by omega, ?_, ?_⟩
  · intro hfour
    rw [Call.isReturned_iff]
    omega
  · exact fun hnot o => isSome_step_call hopen hcall' hnot o

/-- A provider is being registered while the loops go on. -/
theorem call_returns_consentingRun :
    ∃ app before call app' taken after,
      (machine .reference).Reach App.Initial Machine.always app before ∧
      app.call? 0 = some call ∧
      Machine.WatchedReach (machine .reference) (Machine.counting (Action.isCall 0)) 0 (· = app)
        (fun _ action => action.goesOn = true) (app', taken) after ∧ taken = 4 ∧
      ∃ call', app'.call? 0 = some call' ∧ call'.command = call.command ∧ taken ≤ 4 ∧
        (taken = 4 → call'.isReturned = true) ∧
        (call'.isReturned = false → ∀ o,
          ((machine .reference).step app' (.call 0 o)).isSome = true) := by
  obtain ⟨app, before, ⟨app', taken⟩, after, hreach, hlater, htest⟩ :=
    Machine.exists_watched_after (machine .reference) (Machine.counting (Action.isCall 0)) 0
      Machine.always (fun _ action => action.goesOn = true)
      (fun app later => (app.call? 0).isSome && later.2 == 4)
      [.launch (.plain (.repeating 1) [.measured]),
        .invoke (.setAiProvider ⟨"ollama", "ollama", true, none, none, none⟩)]
      [.call 0 (.plain 0), .observe (.plain 0), .call 0 (.plain 0), .call 0 (.plain 0),
        .sweep (.plain 0), .call 0 (.plain 0)]
      App.fresh_initial (by decide +kernel)
  rcases Bool.and_eq_true_iff.1 htest with ⟨hsome, htaken⟩
  obtain ⟨call, hcall⟩ := Option.isSome_iff_exists.1 hsome
  exact ⟨app, before, call, app', taken, after, hreach, hcall, hlater, beq_iff_eq.1 htaken,
    call_returns hreach hcall hlater⟩

/-! ## Sweeps -/

/-- The number of patterns that a sweep detects at most. -/
def maxDetected : Nat := 4 * 2000

/-- A bound for the steps that a synthesis takes until it has ended. -/
def SynthesisPc.stepsLeft : SynthesisPc → Nat
  | .getProvider => 8
  | .buildProvider _ => 7
  | .snapshotGate _ => 6
  | .requesting gated => 2 * gated.attempts.left + 1
  | .awaiting gated => 2 * gated.attempts.left
  | .inserting _ => 1

/-- A bound for the steps that a sweep takes until it has ended. -/
def SweepPc.stepsLeft : SweepPc → Nat
  | .start => 0
  | .logging _ next => next.stepsLeft + 1
  | .readingState => 10 * maxDetected + 4
  | .readingEvents _ => 10 * maxDetected + 3
  | .readingPatterns _ _ detected => 10 * detected.length + 2
  | .patterns context => 10 * context.rest.length + 1
  | .linking context _ => 10 * context.rest.length + 10
  | .synthesizing context _ pc => 10 * context.rest.length + 1 + pc.stepsLeft

section Sweeps

variable {ext : Recommendations.Externals} {vault : Vault} {gate : DispatchGate} {o : Outside}
  {store : Store}

end Sweeps

section Steps

variable {ext : Externals} {app app' : App} {action : Action} {es : List Effect}

end Steps

end Desktop
end HiddenSteps
