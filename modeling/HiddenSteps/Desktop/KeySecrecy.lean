import HiddenSteps.Desktop.Revocation
import HiddenSteps.Systems.Views

/-!
# KeySecrecy — where the keys of the providers go

The interface hands the key of a provider to `set_ai_provider`, which stores it in the vault; a sweep
reads it from there for the requests to the provider.  Nothing else depends on it: runs that differ
in the keys only leave the same file, give the same replies and have the same effects.
-/

namespace HiddenSteps
namespace Desktop

open EventStore Patterns PrivacyEngine Recommendations Systems

/-! ## Hiding the keys -/

/-- The vault without the keys of the providers; which entries it has is left visible. -/
def Vault.withoutKeys (vault : Vault) : Vault := fun entry =>
  if entry = masterKeyEntry then vault entry else (vault entry).map fun _ => []

def Provider.withoutKey (provider : Provider) : Provider := { provider with apiKey := [] }

def SetAiProviderRequest.withoutKey (request : SetAiProviderRequest) : SetAiProviderRequest :=
  { request with apiKey := request.apiKey.map fun _ => [] }

def Command.withoutKey : Command → Command
  | .setAiProvider request => .setAiProvider request.withoutKey
  | command => command

def CallPc.withoutKey : CallPc → CallPc
  | .storingProvider request vaultKeyRef => .storingProvider request.withoutKey vaultKeyRef
  | pc => pc

def Call.withoutKey (call : Call) : Call :=
  { call with command := call.command.withoutKey, pc := call.pc.withoutKey }

def GatedProvider.withoutKey (gated : GatedProvider) : GatedProvider :=
  { gated with provider := gated.provider.withoutKey }

def SynthesisPc.withoutKey : SynthesisPc → SynthesisPc
  | .snapshotGate provider => .snapshotGate provider.withoutKey
  | .requesting gated => .requesting gated.withoutKey
  | .awaiting gated => .awaiting gated.withoutKey
  | pc => pc

def SweepPc.withoutKey : SweepPc → SweepPc
  | .logging entry next => .logging entry next.withoutKey
  | .synthesizing context pattern pc => .synthesizing context pattern pc.withoutKey
  | pc => pc

def Effect.withoutKey : Effect → Effect
  | .returned command eventSeq ok => .returned command.withoutKey eventSeq ok
  | .requested dispatch consent =>
      .requested { dispatch with provider := dispatch.provider.withoutKey } consent
  | e => e

def Process.withoutKeys (process : Process) : Process :=
  { process with
    sweep := process.sweep.withoutKey
    calls := process.calls.map Call.withoutKey }

def App.withoutKeys (app : App) : App :=
  { app with
    vault := app.vault.withoutKeys
    process := app.process.map Process.withoutKeys }

def Action.withoutKey : Action → Action
  | .invoke command => .invoke command.withoutKey
  | action => action

/-! ## The vault -/

@[simp] theorem Vault.withoutKeys_masterKey (vault : Vault) :
    vault.withoutKeys masterKeyEntry = vault masterKeyEntry := by
  simp [Vault.withoutKeys]

@[simp] theorem Vault.withoutKeys_withoutKeys (vault : Vault) :
    vault.withoutKeys.withoutKeys = vault.withoutKeys := by
  funext entry
  by_cases h : entry = masterKeyEntry
  · simp [Vault.withoutKeys, h]
  · simp [Vault.withoutKeys, h, Function.comp_def]

/-- A new master key is visible. -/
@[simp] theorem Vault.withoutKeys_set_masterKey (vault : Vault) (key : List UInt8) :
    (vault.set masterKeyEntry key).withoutKeys = vault.withoutKeys.set masterKeyEntry key := by
  funext entry
  by_cases h : entry = masterKeyEntry
  · simp [Vault.withoutKeys, Vault.set, h]
  · simp [Vault.withoutKeys, Vault.set, h]

/-- Of a new key of a provider it is visible that there is one. -/
@[simp] theorem Vault.withoutKeys_set_providerKey (vault : Vault) (id : String)
    (key : List UInt8) :
    (vault.set (providerKeyEntry id) key).withoutKeys =
      vault.withoutKeys.set (providerKeyEntry id) [] := by
  funext entry
  by_cases h : entry = providerKeyEntry id
  · simp [Vault.withoutKeys, Vault.set, h, providerKeyEntry_ne_masterKeyEntry]
  · simp [Vault.withoutKeys, Vault.set, h]

/-! ## Commands -/

def Shared.withoutKeys (shared : Shared) : Shared :=
  { shared with vault := shared.vault.withoutKeys }

def Progress.withoutKeys (progress : Progress) : Progress :=
  { shared := progress.shared.withoutKeys
    pc := progress.pc.withoutKey
    effects := progress.effects.map Effect.withoutKey }

@[simp] theorem SetAiProviderRequest.withoutKey_withoutKey (request : SetAiProviderRequest) :
    request.withoutKey.withoutKey = request.withoutKey := by
  simp [SetAiProviderRequest.withoutKey, Function.comp_def]

@[simp] theorem Command.withoutKey_withoutKey (command : Command) :
    command.withoutKey.withoutKey = command.withoutKey := by
  cases command <;> simp [Command.withoutKey]

@[simp] theorem Shared.withoutKeys_withoutKeys (shared : Shared) :
    shared.withoutKeys.withoutKeys = shared.withoutKeys := by
  simp [Shared.withoutKeys]

@[simp] theorem Shared.withoutKeys_store (shared : Shared) :
    shared.withoutKeys.store = shared.store := rfl

@[simp] theorem Shared.withoutKeys_withStore (shared : Shared) (store : Store) :
    (shared.withStore store).withoutKeys = shared.withoutKeys.withStore store := rfl

section Commands

variable {policy : EnterprisePolicy} {call : Call} {o : Outside} {shared : Shared}

/-- A step that fails the same way, or shows the same. -/
theorem withoutKeys_guarded {fault : Option String} {go go' : Progress}
    (hgo : go'.withoutKeys = go.withoutKeys) :
    (Call.guarded call.withoutKey shared.withoutKeys fault go').withoutKeys =
      (Call.guarded call shared fault go).withoutKeys := by
  cases fault with
  | none => exact hgo
  | some message =>
      simp [Call.guarded, Call.fail, Progress.withoutKeys, Effect.withoutKey, Call.withoutKey]

theorem withoutKeys_fail (message : String) :
    (Call.fail call.withoutKey shared.withoutKeys message).withoutKeys =
      (Call.fail call shared message).withoutKeys := by
  simp [Call.fail, Progress.withoutKeys, Effect.withoutKey, Call.withoutKey]

theorem withoutKeys_finish (store : Store) (reply : Reply) :
    (Call.finish call.withoutKey (shared.withoutKeys.withStore store) reply).withoutKeys =
      (Call.finish call (shared.withStore store) reply).withoutKeys := by
  simp [Call.finish, Progress.withoutKeys, Effect.withoutKey, Call.withoutKey]

theorem withoutKeys_goOn (store : Store) (pc : CallPc) :
    (Call.goOn (shared.withoutKeys.withStore store) pc).withoutKeys =
      (Call.goOn (shared.withStore store) pc).withoutKeys := by
  simp [Call.goOn, Progress.withoutKeys]

/-- The first step of a command. -/
theorem withoutKeys_startStep :
    (Call.startStep policy call.withoutKey o shared.withoutKeys).withoutKeys =
      (Call.startStep policy call o shared).withoutKeys := by
  have hcommand' : call.withoutKey.command = call.command.withoutKey := rfl
  cases hcommand : call.command with
  | setAiProvider request =>
      cases hallowed : policy.isProviderAllowed request.id with
      | false =>
          simp only [Call.startStep, hcommand', hcommand, Command.withoutKey,
            SetAiProviderRequest.withoutKey, hallowed]
          exact withoutKeys_fail _
      | true =>
          rcases request with ⟨id, providerType, isLocal, modelName, endpoint, apiKey⟩
          replace hallowed : policy.isProviderAllowed id = true := hallowed
          cases apiKey with
          | none =>
              simp only [Call.startStep, hcommand', hcommand, Command.withoutKey,
                SetAiProviderRequest.withoutKey, hallowed]
              exact withoutKeys_goOn shared.store _
          | some apiKey =>
              simp only [Call.startStep, hcommand', hcommand, Command.withoutKey,
                SetAiProviderRequest.withoutKey, hallowed]
              refine withoutKeys_guarded ?_
              -- whatever the key is, the vault gets an entry for it
              simp [Call.goOn, Progress.withoutKeys, Shared.withoutKeys, CallPc.withoutKey,
                SetAiProviderRequest.withoutKey]
  | setPrivacyLevel request =>
      simp only [Call.startStep, hcommand', hcommand, Command.withoutKey]
      cases checkPrivacyLevel policy request with
      | error message => exact withoutKeys_fail _
      | ok command => exact withoutKeys_goOn shared.store _
  | completeOnboarding | acknowledgePrivacyManifest | pauseObservation | resumeObservation =>
      simp only [Call.startStep, hcommand', hcommand, Command.withoutKey]
      exact withoutKeys_goOn shared.store _
  | deleteEvents eventIds =>
      simp only [Call.startStep, hcommand', hcommand, Command.withoutKey]
      exact withoutKeys_guarded (withoutKeys_goOn _ _)
  | exportData =>
      simp only [Call.startStep, hcommand', hcommand, Command.withoutKey]
      refine withoutKeys_guarded ?_
      simp only [Shared.withoutKeys_store]
      cases shared.store.exportData with
      | error e => exact withoutKeys_fail _
      | ok data => exact withoutKeys_goOn shared.store _
  | deleteAllData =>
      simp only [Call.startStep, hcommand', hcommand, Command.withoutKey]
      refine withoutKeys_guarded ?_
      cases o.lateFault with
      | none => simp [Call.goOn, Progress.withoutKeys, Effect.withoutKey]
      | some message =>
          simp [Call.fail, Progress.withoutKeys, Effect.withoutKey, hcommand', hcommand,
            Command.withoutKey]
          rfl
  | setRecommendationStatus request =>
      simp only [Call.startStep, hcommand', hcommand, Command.withoutKey]
      cases parseRecommendationStatus request.status with
      | error message => exact withoutKeys_fail _
      | ok status => exact withoutKeys_guarded (withoutKeys_finish _ _)
  | setCloudConsent granted =>
      simp only [Call.startStep, hcommand', hcommand, Command.withoutKey]
      exact withoutKeys_guarded (withoutKeys_goOn _ _)
  | updateSettings key value =>
      simp only [Call.startStep, hcommand', hcommand, Command.withoutKey]
      cases checkSettingKey key with
      | error message => exact withoutKeys_fail _
      | ok _ => exact withoutKeys_guarded (withoutKeys_finish _ _)

/-- A step of a command shows the same without the keys. -/
theorem withoutKeys_callStep :
    (call.withoutKey.step policy o shared.withoutKeys).map Progress.withoutKeys =
      (call.step policy o shared).map Progress.withoutKeys := by
  have hpc' : call.withoutKey.pc = call.pc.withoutKey := rfl
  cases hpc : call.pc with
  | start =>
      simp only [Call.step, hpc', hpc, CallPc.withoutKey]
      exact congrArg some withoutKeys_startStep
  | storingProvider request vaultKeyRef =>
      simp only [Call.step, hpc', hpc, CallPc.withoutKey]
      exact congrArg some (withoutKeys_guarded (withoutKeys_goOn _ _))
  | activatingProvider providerId =>
      simp only [Call.step, hpc', hpc, CallPc.withoutKey, Shared.withoutKeys_store]
      refine congrArg some (withoutKeys_guarded ?_)
      cases shared.store.setActiveLlmProvider providerId with
      | error e => exact withoutKeys_fail _
      | ok store => exact withoutKeys_goOn _ _
  | readingState command =>
      simp only [Call.step, hpc', hpc, CallPc.withoutKey, Shared.withoutKeys_store]
      refine congrArg some (withoutKeys_guarded ?_)
      cases shared.store.getPrivacyState with
      | error e => exact withoutKeys_fail _
      | ok current => exact withoutKeys_goOn shared.store _
  | writingState command current =>
      simp only [Call.step, hpc', hpc, CallPc.withoutKey]
      exact congrArg some (withoutKeys_guarded (withoutKeys_goOn _ _))
  | openingGate granted =>
      simp only [Call.step, hpc', hpc, CallPc.withoutKey]
      simp [Call.goOn, Progress.withoutKeys, Shared.withoutKeys]
  | rekeying =>
      simp only [Call.step, hpc', hpc, CallPc.withoutKey]
      refine congrArg some (withoutKeys_guarded ?_)
      cases o.lateFault with
      | none => simp [Call.goOn, Progress.withoutKeys, Shared.withoutKeys]
      | some message =>
          simp [Call.fail, Progress.withoutKeys, Shared.withoutKeys, Effect.withoutKey,
            Call.withoutKey]
  | storingKey key =>
      -- the key of the file is not hidden
      simp only [Call.step, hpc', hpc, CallPc.withoutKey]
      refine congrArg some (withoutKeys_guarded ?_)
      simp [Call.finish, Progress.withoutKeys, Shared.withoutKeys, Effect.withoutKey,
        Call.withoutKey]
  | logging entry reply =>
      simp only [Call.step, hpc', hpc, CallPc.withoutKey]
      refine congrArg some ?_
      cases o.storeFault with
      | none => exact withoutKeys_finish _ _
      | some message => exact withoutKeys_finish shared.store _
  | returned result => simp only [Call.step, hpc', hpc, CallPc.withoutKey]

end Commands

/-! ## Sweeps -/

def SynthesisNext.withoutKey : SynthesisNext → SynthesisNext
  | .goOn pc => .goOn pc.withoutKey
  | .done log => .done log

def SynthesisProgress.withoutKeys (progress : SynthesisProgress) : SynthesisProgress :=
  { progress with
    next := progress.next.withoutKey
    effects := progress.effects.map Effect.withoutKey }

def SweepProgress.withoutKeys (progress : SweepProgress) : SweepProgress :=
  { progress with
    pc := progress.pc.withoutKey
    effects := progress.effects.map Effect.withoutKey }

section Sweeps

variable {ext : Recommendations.Externals} {vault : Vault} {gate : DispatchGate} {o : Outside}
  {store : Store}

/-- The key is all that a provider takes from the vault. -/
theorem withoutKey_buildProvider (vault vault' : Vault) (fault : Option String)
    (config : LlmProviderConfig) :
    (buildProvider vault' fault config).map Provider.withoutKey =
      (buildProvider vault fault config).map Provider.withoutKey := by
  unfold buildProvider
  simp only [Option.map_map]
  congr 1
  funext model
  simp only [Function.comp_apply]
  split
  · rfl
  · split <;> rfl

theorem withoutKey_resume (context : SweepContext) (pattern : NewPattern)
    (next : SynthesisNext) :
    (Synthesis.resume context pattern next).withoutKey =
      Synthesis.resume context pattern next.withoutKey := by
  cases next with
  | goOn pc => rfl
  | done log => cases log <;> rfl

theorem withoutKeys_synthesisStep (context : SweepContext) (pattern : NewPattern)
    (pc : SynthesisPc) :
    (Synthesis.step ext vault.withoutKeys gate context pattern pc.withoutKey o
        store).withoutKeys =
      (Synthesis.step ext vault gate context pattern pc o store).withoutKeys := by
  cases pc with
  | getProvider | inserting recommendation => rfl
  | buildProvider config =>
      simp only [Synthesis.step, SynthesisPc.withoutKey]
      have hbuild := withoutKey_buildProvider vault vault.withoutKeys o.vaultFault config
      cases h : Desktop.buildProvider vault o.vaultFault config with
      | none =>
          rw [h] at hbuild
          rw [Option.map_eq_none_iff.1 hbuild]
      | some provider =>
          rw [h] at hbuild
          rcases Option.map_eq_some_iff.1 hbuild with ⟨provider', h', hsame⟩
          simp only [h', SynthesisProgress.withoutKeys, SynthesisNext.withoutKey,
            SynthesisPc.withoutKey, hsame]
  | snapshotGate provider =>
      simp only [Synthesis.step, SynthesisPc.withoutKey]
      have hdecide : Synthesis.decide gate provider.withoutKey context.privacyState.currentLevel
          pattern.detected = Synthesis.decide gate provider context.privacyState.currentLevel
          pattern.detected := rfl
      rw [hdecide]
      split <;> rfl
  | requesting gated =>
      simp only [Synthesis.step, SynthesisPc.withoutKey]
      have hdecide : Synthesis.decide gated.withoutKey.gate gated.withoutKey.provider
          context.privacyState.currentLevel pattern.detected =
          Synthesis.decide gated.gate gated.provider context.privacyState.currentLevel
          pattern.detected := rfl
      rw [hdecide]
      split <;> rfl
  | awaiting gated =>
      simp only [Synthesis.step, SynthesisPc.withoutKey]
      -- a recommendation names the provider, not the key
      have hid : gated.withoutKey.provider.id = gated.provider.id := rfl
      have hattempts : gated.withoutKey.attempts = gated.attempts := rfl
      rw [hid, hattempts]
      split <;> rfl

@[simp] theorem SynthesisPc.withoutKey_withoutKey (pc : SynthesisPc) :
    pc.withoutKey.withoutKey = pc.withoutKey := by
  cases pc <;> rfl

@[simp] theorem SweepPc.withoutKey_withoutKey (pc : SweepPc) :
    pc.withoutKey.withoutKey = pc.withoutKey := by
  induction pc with
  | logging entry next ih => simp [SweepPc.withoutKey, ih]
  | synthesizing context pattern pc => simp [SweepPc.withoutKey]
  | _ => rfl

/-- A step of a sweep shows the same without the keys. -/
theorem withoutKeys_sweepStep (pc : SweepPc) :
    (Sweep.step ext vault.withoutKeys gate pc.withoutKey o store).map SweepProgress.withoutKeys =
      (Sweep.step ext vault gate pc o store).map SweepProgress.withoutKeys := by
  cases pc with
  | logging entry next =>
      simp only [SweepPc.withoutKey, Sweep.step]
      cases o.storeFault <;> simp [SweepProgress.withoutKeys]
  | synthesizing context pattern pc =>
      have hstep := @withoutKeys_synthesisStep ext vault gate o store context pattern pc
      simp only [SynthesisProgress.withoutKeys, SynthesisProgress.mk.injEq] at hstep
      simp only [SweepPc.withoutKey, Sweep.step, Option.map_some, SweepProgress.withoutKeys,
        withoutKey_resume, hstep]
  | _ => rfl

end Sweeps

/-! ## The device -/

@[simp] theorem CallPc.withoutKey_withoutKey (pc : CallPc) :
    pc.withoutKey.withoutKey = pc.withoutKey := by
  cases pc <;> simp [CallPc.withoutKey]

@[simp] theorem Call.withoutKey_withoutKey (call : Call) :
    call.withoutKey.withoutKey = call.withoutKey := by
  simp [Call.withoutKey]

@[simp] theorem Process.withoutKeys_withoutKeys (process : Process) :
    process.withoutKeys.withoutKeys = process.withoutKeys := by
  simp [Process.withoutKeys, Function.comp_def]

/-- A launch reads the key of the file only. -/
theorem withoutKeys_resolveMasterKey (vault : Vault) (input : LaunchInput) :
    resolveMasterKey vault.withoutKeys input =
      ((resolveMasterKey vault input).1, (resolveMasterKey vault input).2.withoutKeys) := by
  have hfresh : (if input.vaultSetFails then vault.withoutKeys
      else vault.withoutKeys.set masterKeyEntry input.freshKey.bytes) =
      (if input.vaultSetFails then vault
        else vault.set masterKeyEntry input.freshKey.bytes).withoutKeys := by
    split <;> simp
  simp only [resolveMasterKey, hfresh, Vault.withoutKeys_masterKey]
  split
  · rfl
  · split
    · rfl
    · split <;> rfl

theorem withoutKeys_launch (app : App) (input : LaunchInput) :
    (launch app.withoutKeys input).withoutKeys = (launch app input).withoutKeys := by
  simp only [launch, App.withoutKeys, withoutKeys_resolveMasterKey]
  split <;> simp [Function.comp_def]

theorem withoutKey_begin (command : Command) (eventSeq : Nat) :
    (Call.begin command.withoutKey eventSeq).withoutKey = (Call.begin command eventSeq).withoutKey := by
  simp [Call.begin, Call.withoutKey]

/-- A step of the process shows the same without the keys. -/
theorem withoutKeys_run (ext : Externals) (vault : Vault) (database : Database)
    (process : Process) (action : Action) :
    shown App.withoutKeys Effect.withoutKey
        (App.run ext vault.withoutKeys database process.withoutKeys action.withoutKey) =
      shown App.withoutKeys Effect.withoutKey (App.run ext vault database process action) := by
  cases action with
  | launch input => rfl
  | exit => simp [App.run, shown, App.withoutKeys, Action.withoutKey]
  | invoke command =>
      simp [App.run, shown, App.withoutKeys, Action.withoutKey, App.invoke,
        Process.withoutKeys, withoutKey_begin, Function.comp_def]
  | call id o =>
      have hcalls : process.withoutKeys.calls[id]? = process.calls[id]?.map Call.withoutKey := by
        simp [Process.withoutKeys]
      simp only [App.run, Action.withoutKey, hcalls, bind]
      cases hcall : process.calls[id]? with
      | none => rfl
      | some call =>
          have hstep : (call.withoutKey.step process.policy o
              ⟨vault.withoutKeys, database, process.gate⟩).map Progress.withoutKeys =
              (call.step process.policy o ⟨vault, database, process.gate⟩).map
                Progress.withoutKeys :=
            @withoutKeys_callStep process.policy call o ⟨vault, database, process.gate⟩
          cases hprogress : call.step process.policy o ⟨vault, database, process.gate⟩ with
          | none =>
              rw [hprogress] at hstep
              simp [Process.withoutKeys, hprogress, Option.map_eq_none_iff.1 hstep]
          | some progress =>
              rw [hprogress] at hstep
              rcases Option.map_eq_some_iff.1 hstep with ⟨progress', hprogress', hsame⟩
              simp only [Progress.withoutKeys, Progress.mk.injEq, Shared.withoutKeys,
                Shared.mk.injEq] at hsame
              rcases hsame with ⟨⟨hvault, hdatabase, hgate⟩, hpc, heffects⟩
              have hcall' : ({ call.withoutKey with pc := progress'.pc } : Call).withoutKey =
                  ({ call with pc := progress.pc } : Call).withoutKey := by
                simp [Call.withoutKey, hpc]
              simp [Process.withoutKeys, hprogress, hprogress', shown, App.withoutKeys, hvault,
                hdatabase, hgate, heffects, List.map_set, hcall', Function.comp_def]
  | observe o =>
      simp only [App.run, Action.withoutKey, bind]
      have hloop : process.withoutKeys.observation = process.observation := rfl
      have hsources : process.withoutKeys.sources = process.sources := rfl
      rw [hloop, hsources]
      cases Observation.step (.new ext.redactor) process.observation o database.store
          process.sources with
      | none => rfl
      | some progress => simp [shown, App.withoutKeys, Process.withoutKeys, Function.comp_def]
  | sweep o =>
      simp only [App.run, Action.withoutKey, bind]
      have hstep : (Sweep.step ext.synthesis vault.withoutKeys process.gate
          process.sweep.withoutKey o database.store).map SweepProgress.withoutKeys =
          (Sweep.step ext.synthesis vault process.gate process.sweep o database.store).map
            SweepProgress.withoutKeys := withoutKeys_sweepStep _
      cases hprogress : Sweep.step ext.synthesis vault process.gate process.sweep o
          database.store with
      | none =>
          rw [hprogress] at hstep
          simp [Process.withoutKeys, Option.map_eq_none_iff.1 hstep]
      | some progress =>
          rw [hprogress] at hstep
          rcases Option.map_eq_some_iff.1 hstep with ⟨progress', hprogress', hsame⟩
          simp only [SweepProgress.withoutKeys, SweepProgress.mk.injEq] at hsame
          rcases hsame with ⟨hstore, hpc, heffects⟩
          simp [Process.withoutKeys, hprogress', shown, App.withoutKeys, hstore, hpc, heffects,
            Function.comp_def]
  | operate source event =>
      simp [App.run, shown, App.withoutKeys, Action.withoutKey, App.operate,
        Process.withoutKeys, Function.comp_def]
  | notify source =>
      simp [App.run, shown, App.withoutKeys, Action.withoutKey, App.deliver,
        Process.withoutKeys, Function.comp_def]

/-- What is visible of the device without the keys of the providers. -/
def keylessView (ext : Externals) : View (machine ext) where
  state := App.withoutKeys
  action := Action.withoutKey
  effect := Effect.withoutKey
  step := by
    rintro ⟨vault, file, process⟩ action
    cases process with
    | none =>
        cases action with
        | launch input =>
            exact congrArg some (Prod.ext (withoutKeys_launch ⟨vault, file, none⟩ input) rfl)
        | _ => rfl
    | some process =>
        cases file with
        | none => rfl
        | some database => exact withoutKeys_run ext vault database process action

/-- The keys of the providers reach the vault and the requests only.  For a run and actions that
differ from its actions in keys only, from a device that differs in keys only, there is a run by
these actions, and it ends with the same file, the same replies and, the keys in requests apart, the
same effects. -/
theorem keys_hidden {ext : Externals} {app₁ app₂ app₁' : App} {as bs : List Action}
    {history₁ : List Effect} (hdevice : app₁.withoutKeys = app₂.withoutKeys)
    (hactions : as.map Action.withoutKey = bs.map Action.withoutKey)
    (hrun : (machine ext).exec Machine.always app₁ as = some (app₁', history₁)) :
    ∃ app₂' history₂, (machine ext).exec Machine.always app₂ bs = some (app₂', history₂) ∧
      app₂'.file = app₁'.file ∧
      app₂'.calls.map Call.withoutKey = app₁'.calls.map Call.withoutKey ∧
      history₂.map Effect.withoutKey = history₁.map Effect.withoutKey := by
  have hsame := (keylessView ext).exec_congr hdevice hactions
  rw [hrun] at hsame
  rcases shown_eq_some hsame.symm with ⟨app₂', history₂, hrun₂, hstate, heffects⟩
  replace hstate : app₂'.withoutKeys = app₁'.withoutKeys := hstate
  have hfile : app₂'.file = app₁'.file := by
    have h := congrArg App.file hstate
    exact h
  have hcalls : app₂'.withoutKeys.calls = app₁'.withoutKeys.calls := congrArg App.calls hstate
  refine ⟨app₂', history₂, hrun₂, hfile, ?_, heffects⟩
  have hview : ∀ app : App, app.withoutKeys.calls = app.calls.map Call.withoutKey := by
    rintro ⟨vault, file, process⟩
    cases process <;> rfl
  rw [← hview, ← hview, hcalls]

/-- A provider is registered with a key and asked. -/
def keyedRun (key : List UInt8) : List Action :=
  .launch (.plain (.repeating 1) [.measured]) :: Action.consenting 0 2 ++
    Action.complete 3 (.setCloudConsent true) 3 ++
    Action.complete 4
      (.setAiProvider ⟨"anthropic", "anthropic", false, some "m", none, some key⟩) 4 ++
    Action.capturing ++ Action.sweeping (focusPattern 1) 7

theorem keys_hidden_keyedRun :
    ∃ app₁ history₁ app₂ history₂,
      (machine .reference).exec Machine.always App.fresh (keyedRun [1, 2]) =
        some (app₁, history₁) ∧ history₁.any Effect.asksCloud = true ∧
      (machine .reference).exec Machine.always App.fresh (keyedRun [3]) =
        some (app₂, history₂) ∧
      app₂.file = app₁.file ∧
      app₂.calls.map Call.withoutKey = app₁.calls.map Call.withoutKey ∧
      history₂.map Effect.withoutKey = history₁.map Effect.withoutKey := by
  have htest : ((machine .reference).exec Machine.always App.fresh (keyedRun [1, 2])).any
      (fun r => r.2.any Effect.asksCloud) = true := by decide +kernel
  rcases (Option.any_eq_true _ _).1 htest with ⟨⟨app₁, history₁⟩, hrun, hasks⟩
  have hactions : (keyedRun [1, 2]).map Action.withoutKey =
      (keyedRun [3]).map Action.withoutKey := by
    simp [keyedRun, Action.complete, Action.withoutKey, Command.withoutKey,
      SetAiProviderRequest.withoutKey]
  obtain ⟨app₂, history₂, hrun₂, hsame⟩ : ∃ app₂ history₂,
      (machine .reference).exec Machine.always App.fresh (keyedRun [3]) =
        some (app₂, history₂) ∧ _ := keys_hidden rfl hactions hrun
  exact ⟨app₁, history₁, app₂, history₂, hrun, hasks, hrun₂, hsame⟩

end Desktop
end HiddenSteps
