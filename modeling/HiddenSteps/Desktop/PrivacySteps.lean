import HiddenSteps.Desktop.PrivacyCommands
import HiddenSteps.Desktop.PrivacyRow

/-!
# PrivacySteps — the privacy row and the rows that commands hold

A command on the privacy state holds the row it has read until it writes.  `PrivacyStep` says what
one step of a command does to the stored row and to the row it holds, under the policy of the
launch; `call_of_step` finds the step in a step of the device.
-/

namespace HiddenSteps
namespace Desktop

open EventStore PrivacyEngine Systems

/-- The change of the row that a command in progress is about to make. -/
def CallPc.change? : CallPc → Option PrivacyCommand
  | .readingState command | .writingState command _ => some command
  | _ => none

/-- What a step of a command does to the row, and the change it carries afterwards. -/
inductive PrivacyStep (policy : EnterprisePolicy) (call : Call) (o : Outside) (shared : Shared)
    (progress : Progress) : Prop where
  | quiet (hwrite : call.privacyWrite o = none)
      (hrow : progress.shared.store.privacyState = shared.store.privacyState)
      (hnext : progress.pc.change? = none)
  | checked (change : PrivacyCommand) (hpc : call.pc = .start)
      (hwrite : call.privacyWrite o = none)
      (hcommand : call.command.privacyCommand? policy = some change)
      (hrow : progress.shared.store.privacyState = shared.store.privacyState)
      (hnext : progress.pc = .readingState change)
  | read (change : PrivacyCommand) (current : PrivacyState) (hpc : call.pc = .readingState change)
      (hwrite : call.privacyWrite o = none)
      (hread : shared.store.privacyState = some current)
      (hrow : progress.shared.store.privacyState = shared.store.privacyState)
      (hnext : progress.pc = .writingState change current)
  | written (change : PrivacyCommand) (current : PrivacyState)
      (hpc : call.pc = .writingState change current) (hstore : o.storeFault = none)
      (hrow : progress.shared.store.privacyState =
        shared.store.privacyState.map fun _ => change.apply current o.now)
      (hnext : progress.pc.change? = none)
  | erased (hpc : call.pc = .start) (hcommand : call.command = .deleteAllData)
      (hstore : o.storeFault = none)
      (hrow : progress.shared.store.privacyState =
        shared.store.privacyState.map fun _ => .initial o.now)
      (hnext : progress.pc.change? = none)

section Inversion

variable {policy : EnterprisePolicy} {call : Call} {o : Outside} {shared : Shared}
  {progress : Progress}

theorem privacyState_of_getPrivacyState {store : Store} {current : PrivacyState}
    (h : store.getPrivacyState = .ok current) : store.privacyState = some current := by
  unfold Store.getPrivacyState at h
  split at h
  · rename_i hrow
    cases h
    exact hrow
  · cases h

/-- A command that has just been invoked goes on to read the row only for the change it stands
for. -/
theorem privacyCommand?_of_startStep {change : PrivacyCommand}
    (h : (Call.startStep policy call o shared).pc = .readingState change) :
    call.command.privacyCommand? policy = some change := by
  have hprivacy : call.command.isPrivacy = true := by
    have hstep : CallStep call o shared .start (Call.startStep policy call o shared) :=
      callStep_startStep
    generalize Call.startStep policy call o shared = progress at h hstep
    cases hstep with
    | checked hcommand => exact hcommand
    | _ => cases h
  rcases call with ⟨command, pc, eventSeq⟩
  cases command with
  | setPrivacyLevel request =>
      simp only [Call.startStep] at h
      cases hcheck : checkPrivacyLevel policy request with
      | error message =>
          rw [hcheck] at h
          cases h
      | ok checked =>
          rw [hcheck] at h
          cases h
          simp [Command.privacyCommand?, hcheck, Except.toOption]
  | completeOnboarding | acknowledgePrivacyManifest | pauseObservation | resumeObservation =>
      cases h
      rfl
  | _ => cases hprivacy

/-- A change of the level is that of a request: the policy has been applied to the requested level,
and a level other than manual has been acknowledged. -/
theorem setLevel_of_privacyCommand? {command : Command} {requested effective : PrivacyLevel}
    {acknowledged : List String}
    (h : command.privacyCommand? policy = some (.setLevel requested effective acknowledged)) :
    (∃ level, command = .setPrivacyLevel ⟨level, acknowledged⟩) ∧
      effective = policy.effectivePrivacyLevel requested ∧
      (requested ≠ .manual → acknowledged ≠ []) := by
  cases command with
  | setPrivacyLevel request =>
      simp only [Command.privacyCommand?, checkPrivacyLevel] at h
      cases hlevel : PrivacyLevel.fromU8 request.level with
      | error e => simp [hlevel, Except.toOption] at h
      | ok level =>
          simp only [hlevel] at h
          split at h
          · cases h
          · rename_i hacknowledged
            cases h
            exact ⟨⟨request.level, rfl⟩, rfl, fun hlevel hnone => hacknowledged ⟨hlevel, hnone⟩⟩
  | _ => cases h

theorem privacyWrite_eq_some {row : PrivacyState} (h : call.privacyWrite o = some row) :
    o.storeFault = none ∧
      ((∃ change current, call.pc = .writingState change current ∧
          row = change.apply current o.now) ∨
        (call.pc = .start ∧ call.command = .deleteAllData ∧ row = .initial o.now)) := by
  unfold Call.privacyWrite at h
  split at h
  · rename_i change current hpc hstore
    cases h
    exact ⟨hstore, Or.inl ⟨change, current, hpc, rfl⟩⟩
  · rename_i hpc hcommand hstore
    cases h
    exact ⟨hstore, Or.inr ⟨hpc, hcommand, rfl⟩⟩
  · cases h

/-- The inversion of a step of a command, as far as the row is concerned. -/
theorem privacyStep_of_step (h : call.step policy o shared = some progress) :
    PrivacyStep policy call o shared progress := by
  have hstep := callStep_of_step h
  cases hwrite : call.privacyWrite o with
  | some row =>
      rcases privacyWrite_eq_some hwrite with
        ⟨hstore, ⟨change, current, hpc, _⟩ | ⟨hpc, hcommand, _⟩⟩
      · simp only [Call.step, hpc, hstore, Call.guarded, Option.some.injEq] at h
        subst h
        exact .written change current hpc hstore rfl rfl
      · simp only [Call.step, hpc, Call.startStep, hcommand, hstore, Call.guarded,
          Option.some.injEq] at h
        subst h
        -- the row is erased even when what follows fails
        cases hlate : o.lateFault <;> exact .erased hpc hcommand hstore rfl rfl
  | none =>
      have hrow : progress.shared.store.privacyState = shared.store.privacyState := by
        rcases privacyState_of_callStep hstep with hsame | ⟨row, hsome, _⟩
        · exact hsame
        · cases hwrite.symm.trans hsome
      -- only two kinds of steps lead on to a change
      generalize hpc : call.pc = pc at hstep
      cases hstep with
      | @checked change =>
          have hstart : Call.startStep policy call o shared =
              Call.goOn shared (.readingState change) := by
            simpa [Call.step, hpc] using h
          exact .checked change hpc hwrite
            (privacyCommand?_of_startStep (congrArg Progress.pc hstart)) rfl rfl
      | @stateRead change current hread =>
          exact .read change current hpc hwrite (privacyState_of_getPrivacyState hread) rfl rfl
      | _ => exact .quiet hwrite hrow rfl

end Inversion

/-- The step of a command in a step of the device, under the policy of the launch. -/
theorem call_of_step {ext : Externals} {app app' : App} {id : Nat} {o : Outside}
    {es : List Effect} (h : (machine ext).step app (.call id o) = some (app', es)) :
    ∃ vault database process call progress, app = ⟨vault, some database, some process⟩ ∧
      process.calls[id]? = some call ∧
      call.step process.policy o ⟨vault, database, process.gate⟩ = some progress ∧
      app' = ⟨progress.shared.vault, some progress.shared.database,
        some { process with
          gate := progress.shared.gate
          calls := process.calls.set id { call with pc := progress.pc } }⟩ ∧
      es = progress.effects := by
  rcases app with ⟨vault, file, process⟩
  cases process with
  | none => cases h
  | some process =>
      cases file with
      | none => cases h
      | some database =>
          replace h : App.run ext vault database process (.call id o) = some (app', es) := h
          simp only [App.run, bind, Option.bind_eq_some_iff, Option.some.injEq,
            Prod.mk.injEq] at h
          rcases h with ⟨call, hcall, progress, hstep, rfl, rfl⟩
          exact ⟨vault, database, process, call, progress, rfl, hcall, hstep, rfl, rfl⟩

end Desktop
end HiddenSteps
