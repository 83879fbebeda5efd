import HiddenSteps.Desktop.App

/-!
# CloudConsent — the consent in the settings and the consent of the gate

The consent to cloud requests is kept in the settings, in the gate, and in the copy of the gate that
a synthesis carries.  Along the runs whose steps meet `consentSafe`, the gate agrees with the
setting while no command is in progress, and no cloud provider is asked without the setting.
-/

namespace HiddenSteps
namespace Desktop

open EventStore PrivacyEngine Systems

/-- The consent a `set_cloud_consent` has written and not yet brought to the gate. -/
def Call.opening (call : Call) : Option Bool :=
  match call.pc with
  | .openingGate granted => some granted
  | _ => none

/-- The consent that the setting has after the next step of a command, if that step writes it. -/
def Call.consentWrite (call : Call) (o : Outside) : Option Bool :=
  match call.pc, o.storeFault with
  | .start, none =>
      match call.command with
      | .setCloudConsent granted => some granted
      | .updateSettings key value =>
          if key = cloudConsentSettingKey then some (value == .bool true) else none
      | .deleteAllData => some false
      | _ => none
  | _, _ => none

/-- A command that brings the consent it writes to the gate. -/
def Command.opensGate : Command → Bool
  | .setCloudConsent _ => true
  | _ => false

namespace Process

def openings (process : Process) : List Bool := process.calls.filterMap Call.opening

end Process

/-- A sweep that may still ask a cloud provider through its copy of the gate. -/
def SweepPc.asksCloud : SweepPc → Bool
  | .logging _ next => next.asksCloud
  | .synthesizing _ _ (.requesting gated) => !gated.provider.isLocal
  | .synthesizing _ _ (.awaiting gated) =>
      !gated.provider.isLocal && decide (1 < gated.attempts.left)
  | _ => false

/-- The steps of commands that keep the setting, the gate and a copy of it together: a write of the
consent by a command that does not open the gate agrees with the gate, unless another command is
about to open it; consent is not taken away while a sweep may ask a cloud provider; the last of
several openings brings the consent of the setting to the gate. -/
def consentSafeCall (store : Store) (process : Process) (call : Call) (o : Outside) : Bool :=
  match call.consentWrite o with
  | some granted =>
      (granted || !process.sweep.asksCloud) &&
        (call.command.opensGate || !process.openings.isEmpty ||
          process.gate.generalCloudConsent == granted)
  | none => call.opening.all fun granted =>
      decide (1 < process.openings.length) || getCloudConsent store == granted

/-- A sweep copies an open gate for a cloud provider only under the setting, unless no command is
about to open the gate. -/
def consentSafeSweep (store : Store) (process : Process) : Bool :=
  match process.sweep with
  | .synthesizing context pattern (.snapshotGate provider) =>
      provider.isLocal || process.openings.isEmpty || getCloudConsent store ||
        Synthesis.decide process.gate provider context.privacyState.currentLevel
          pattern.detected != .allow
  | _ => true

/-- The steps that keep the three places of the consent together; a launch does when it can read
the setting of the file it opens, or that is not set. -/
def consentSafe (app : App) : Action → Bool
  | .launch input =>
      !input.settingFails || input.openFails ||
        !app.file.any fun database =>
          database.key == (resolveMasterKey app.vault input).1 && getCloudConsent database.store
  | .call id o =>
      match app.file, app.process with
      | some database, some process =>
          process.calls[id]?.all fun call => consentSafeCall database.store process call o
      | _, _ => true
  | .sweep _ =>
      match app.file, app.process with
      | some database, some process => consentSafeSweep database.store process
      | _, _ => true
  | _ => true

/-! ## One step of a command -/

theorem getCloudConsent_of_settings {store store' : Store}
    (h : store'.settings = store.settings) : getCloudConsent store' = getCloudConsent store := by
  simp only [getCloudConsent, Store.getSetting, h]

@[simp] theorem getCloudConsent_setSetting (store : Store) (value : Json) :
    getCloudConsent (store.setSetting cloudConsentSettingKey value) = (value == .bool true) := by
  rw [getCloudConsent, Store.getSetting_setSetting]
  rfl

/-- What a step of a command does to the consent: it leaves it alone, writes the setting, or
brings the consent it has written to the gate. -/
inductive ConsentStep (call : Call) (o : Outside) (shared : Shared) (progress : Progress) : Prop
    where
  | quiet (hopening : call.opening = none) (hgate : progress.shared.gate = shared.gate)
      (hsetting : getCloudConsent progress.shared.store = getCloudConsent shared.store)
      (hnext : Call.opening { call with pc := progress.pc } = none)
  | written (granted : Bool) (hwrite : call.consentWrite o = some granted)
      (hopening : call.opening = none) (hgate : progress.shared.gate = shared.gate)
      (hsetting : getCloudConsent progress.shared.store = granted)
      (hnext : Call.opening { call with pc := progress.pc } =
        if call.command.opensGate then some granted else none)
  | opened (granted : Bool) (hwrite : call.consentWrite o = none)
      (hopening : call.opening = some granted)
      (hgate : progress.shared.gate.generalCloudConsent = granted)
      (hsetting : getCloudConsent progress.shared.store = getCloudConsent shared.store)
      (hnext : Call.opening { call with pc := progress.pc } = none)

theorem consentStep_of_callStep {call : Call} {o : Outside} {shared : Shared}
    {progress : Progress} (h : CallStep call o shared call.pc progress) :
    ConsentStep call o shared progress := by
  rcases call with ⟨command, pc, eventSeq⟩
  cases h with
  | erased hcommand hstore | erasedLate hcommand hstore =>
      obtain rfl : command = .deleteAllData := hcommand
      exact .written false (by simp [Call.consentWrite, hstore]) rfl rfl rfl rfl
  | @consentSet granted hcommand hstore =>
      obtain rfl : command = .setCloudConsent granted := hcommand
      refine .written granted (by simp [Call.consentWrite, hstore]) rfl rfl ?_ rfl
      rw [Call.goOn, Shared.withStore_store, getCloudConsent_setSetting]
      cases granted <;> rfl
  | @settingSet value reply hcommand hstore =>
      obtain rfl : command = .updateSettings cloudConsentSettingKey value := hcommand
      refine .written (value == .bool true) (by simp [Call.consentWrite, hstore]) rfl rfl ?_ rfl
      simp [Call.finish]
  | @gateOpened granted entry reply =>
      refine .opened granted rfl rfl ?_ rfl rfl
      cases granted <;> rfl
  | providerActivated hactive =>
      rcases Store.setActiveLlmProvider_eq_ok hactive with ⟨providers, hproviders⟩
      refine .quiet rfl rfl (getCloudConsent_of_settings ?_) rfl
      simp [Call.goOn, hproviders]
  | logged hstore =>
      refine .quiet rfl rfl (getCloudConsent_of_settings ?_) rfl
      rcases hstore with rfl | rfl <;> rfl
  | failed hpc =>
      refine .quiet ?_ rfl rfl rfl
      cases pc <;> first | rfl | exact hpc.elim
  | _ => exact .quiet rfl rfl rfl rfl

/-! ## The invariant -/

/-- With no opening under way the gate agrees with the setting; a sweep that may still ask a cloud
provider does so under the setting. -/
structure ConsentInvariant (store : Store) (process : Process) : Prop where
  gate : process.openings = [] →
    process.gate.generalCloudConsent = getCloudConsent store
  sweep : process.sweep.asksCloud = true → getCloudConsent store = true

def App.ConsentInvariant (app : App) : Prop :=
  ∀ database process, app.file = some database → app.process = some process →
    Desktop.ConsentInvariant database.store process

/-- A request to a cloud provider is made under the setting. -/
def Effect.AsksWithConsent : Effect → Prop
  | .requested dispatch consent => dispatch.provider.isLocal = false → consent = true
  | _ => True

theorem asksWithConsent_of_task {e : Effect} (h : e.task ≠ .sweep) : e.AsksWithConsent := by
  cases e <;> first | exact absurd rfl h | trivial

theorem consentInvariant_call {vault : Vault} {database : Database} {process : Process}
    {id : Nat} {o : Outside} {call : Call} {progress : Progress}
    (hcall : process.calls[id]? = some call)
    (hstep : ConsentStep call o ⟨vault, database, process.gate⟩ progress)
    (hinv : ConsentInvariant database.store process)
    (hsafe : consentSafeCall database.store process call o = true) :
    ConsentInvariant progress.shared.database.store
      { process with
        gate := progress.shared.gate
        calls := process.calls.set id { call with pc := progress.pc } } := by
  rcases filterMap_set_split Call.opening hcall with ⟨before, after, hold, hset⟩
  replace hold : process.openings = before ++ call.opening.toList ++ after := hold
  constructor
  · intro hnone
    replace hnone := (hset _).symm.trans hnone
    cases hstep with
    | quiet hopening hgate hsetting hnext =>
        rw [hnext, ← hopening, ← hold] at hnone
        calc progress.shared.gate.generalCloudConsent
            = process.gate.generalCloudConsent := congrArg _ hgate
          _ = getCloudConsent database.store := hinv.gate hnone
          _ = getCloudConsent progress.shared.database.store := hsetting.symm
    | written granted hwrite hopening hgate hsetting hnext =>
        cases hopens : call.command.opensGate with
        -- its opening is under way now
        | true => simp [hnext, hopens] at hnone
        -- the guard has compared what it writes with the gate
        | false =>
            rw [hnext, hopens, if_neg Bool.false_ne_true, ← hopening, ← hold] at hnone
            have hagree : process.gate.generalCloudConsent = granted := by
              simp only [consentSafeCall, hwrite, Bool.and_eq_true] at hsafe
              simpa [hopens, hnone] using hsafe.2
            calc progress.shared.gate.generalCloudConsent
                = process.gate.generalCloudConsent := congrArg _ hgate
              _ = granted := hagree
              _ = getCloudConsent progress.shared.database.store := hsetting.symm
    | opened granted hwrite hopening hgate hsetting hnext =>
        -- the last of the openings: the guard has compared it with the setting
        have hlast : before = [] ∧ after = [] := by simpa [hnext] using hnone
        have hlength : process.openings.length = 1 := by simp [hold, hlast, hopening]
        have hagree : getCloudConsent database.store = granted := by
          simpa [consentSafeCall, hwrite, hopening, hlength] using hsafe
        calc progress.shared.gate.generalCloudConsent
            = granted := hgate
          _ = getCloudConsent database.store := hagree.symm
          _ = getCloudConsent progress.shared.database.store := hsetting.symm
  · intro hask
    cases hstep with
    | quiet _ _ hsetting => exact hsetting.trans (hinv.sweep hask)
    | written granted hwrite _ _ hsetting =>
        -- while a sweep may ask, only a consent may be written
        apply hsetting.trans
        replace hask : process.sweep.asksCloud = true := hask
        simp only [consentSafeCall, hwrite, Bool.and_eq_true] at hsafe
        simpa [hask] using hsafe.1
    | opened _ _ _ _ hsetting => exact hsetting.trans (hinv.sweep hask)

/-- A sweep comes to ask a cloud provider through an open gate that it copies. -/
theorem asksCloud_of_sweepStep {vault : Vault} {gate : DispatchGate} {o : Outside}
    {store : Store} {pc : SweepPc} {progress : SweepProgress}
    (h : SweepStep vault gate o store pc progress) (hask : progress.pc.asksCloud = true) :
    pc.asksCloud = true ∨ ∃ context pattern provider,
      pc = .synthesizing context pattern (.snapshotGate provider) ∧ provider.isLocal = false ∧
        Synthesis.decide gate provider context.privacyState.currentLevel pattern.detected =
          .allow := by
  cases h with
  | started _ hnext => rcases hnext with rfl | ⟨entry, rfl⟩ <;> cases hask
  | logged => exact Or.inl hask
  | synthesisEnded hnext => rcases hnext with rfl | ⟨entry, rfl⟩ <;> cases hask
  | @allowed context pattern provider hallow =>
      exact Or.inr ⟨context, pattern, provider, rfl, by simpa [SweepPc.asksCloud] using hask,
        hallow⟩
  | requested =>
      left
      simp only [SweepPc.asksCloud, Bool.and_eq_true] at hask ⊢
      exact hask.1
  | again hleft =>
      left
      simpa [SweepPc.asksCloud, hleft] using hask
  | _ => cases hask

theorem consentInvariant_sweep {vault : Vault} {o : Outside} {store : Store} {process : Process}
    {progress : SweepProgress}
    (hstep : SweepStep vault process.gate o store process.sweep progress)
    (hinv : ConsentInvariant store process) (hsafe : consentSafeSweep store process = true) :
    ConsentInvariant progress.store { process with sweep := progress.pc } ∧
      ∀ e ∈ progress.effects, e.AsksWithConsent := by
  have hsetting := getCloudConsent_of_settings (unchanged_of_sweepStep hstep).2.1
  refine ⟨⟨fun hnone => (hinv.gate hnone).trans hsetting.symm, fun hask => hsetting.trans ?_⟩, ?_⟩
  · rcases asksCloud_of_sweepStep hstep hask with
      hold | ⟨context, pattern, provider, hpc, hcloud, hallow⟩
    · exact hinv.sweep hold
    · by_cases hnone : process.openings = []
      -- with no opening under way the copied gate is as open as the setting
      · rw [← hinv.gate hnone]
        rw [Synthesis.decide, hcloud] at hallow
        exact (DispatchGate.evaluate_allow hallow).1
      · simpa [consentSafeSweep, hpc, hcloud, hnone, hallow] using hsafe
  · generalize hpc : process.sweep = pc at hstep
    cases hstep with
    | requested =>
        simp only [List.mem_singleton, forall_eq]
        intro hcloud
        exact hinv.sweep (by simpa [hpc, SweepPc.asksCloud] using hcloud)
    | updated =>
        intro e he
        simp only at he
        split at he
        · simp only [List.mem_singleton] at he
          rw [he]
          trivial
        · simp at he
    | _ => simp [Effect.AsksWithConsent]

/-! ## Runs -/

theorem getCloudConsent_of_openStore {file : Option Database} {key : MasterKey} {now : Timestamp}
    {database : Database} (h : openStore file key now = some database) :
    getCloudConsent database.store =
      file.any fun old => old.key == key && getCloudConsent old.store := by
  have hmigrate : ∀ store : Store, getCloudConsent (store.migrate now) = getCloudConsent store := by
    intro store
    apply getCloudConsent_of_settings
    rcases Store.migrate_eq store now with ⟨_, _, hmigrate⟩
    rw [hmigrate]
  rcases openStore_eq_some h with ⟨_, ⟨rfl, hstore⟩ | ⟨old, rfl, hkey, hstore⟩⟩
  · rw [hstore, hmigrate]
    rfl
  · rw [hstore, hmigrate]
    simp [hkey]

theorem consentInvariant_launch {app : App} {input : LaunchInput} (hprocess : app.process = none)
    (hsafe : consentSafe app (.launch input) = true) : (launch app input).ConsentInvariant := by
  intro database process hfile hprocess'
  rcases (launch_cases app input).2 with ⟨_, hsame⟩ | ⟨opened, hopen, hopened, hfile', hstart⟩
  · rw [hsame, hprocess] at hprocess'
    cases hprocess'
  · rw [hfile'] at hfile
    rw [hstart] at hprocess'
    cases hfile
    cases hprocess'
    have hsetting : getCloudConsent (resolveEnterprisePolicy opened.store input).2 =
        getCloudConsent opened.store := by
      apply getCloudConsent_of_settings
      rcases resolveEnterprisePolicy_store opened.store input with ⟨_, hpolicy⟩
      rw [hpolicy]
    refine ⟨?_, fun hask => (by cases hask)⟩
    intro _
    show (rebuildGate opened.store input).generalCloudConsent = _
    rw [hsetting]
    have hread : input.settingFails = true → getCloudConsent opened.store = false := by
      intro hfails
      rw [getCloudConsent_of_openStore hopened]
      simpa [consentSafe, hfails, hopen] using hsafe
    cases hconsent : getCloudConsent opened.store <;> cases hfails : input.settingFails
    · simp [rebuildGate, hconsent, DispatchGate.new]
    · simp [rebuildGate, hfails, DispatchGate.new]
    · simp [rebuildGate, hconsent, hfails, DispatchGate.grantGeneralCloudConsent]
    · simp [hread hfails] at hconsent

theorem consentInvariant_step {ext : Externals} {app app' : App} {action : Action}
    {es : List Effect} (hinv : app.ConsentInvariant) (hsafe : consentSafe app action = true)
    (h : (machine ext).step app action = some (app', es)) :
    app'.ConsentInvariant ∧ ∀ e ∈ es, e.AsksWithConsent := by
  cases appStep_of_step h with
  | launch hprocess => exact ⟨consentInvariant_launch hprocess hsafe, by simp⟩
  | exit => exact ⟨fun _ _ _ hprocess => (by cases hprocess), by simp⟩
  | @invoke vault database process command =>
      refine ⟨?_, by simp⟩
      rintro _ _ ⟨⟩ ⟨⟩
      rcases hinv database process rfl rfl with ⟨hgate, hsweep⟩
      refine ⟨fun hnone => hgate ?_, hsweep⟩
      have hnew : Call.opening (Call.begin command database.store.eventSeq) = none := rfl
      simpa [Process.openings, App.invoke, hnew] using hnone
  | @call vault database process id o call progress hcall hstep =>
      refine ⟨?_, fun e he => asksWithConsent_of_task (by rw [task_of_callStep hstep e he]; decide)⟩
      rintro _ _ ⟨⟩ ⟨⟩
      refine consentInvariant_call hcall (consentStep_of_callStep hstep)
        (hinv database process rfl rfl) ?_
      simpa [consentSafe, hcall] using hsafe
  | @observe vault database process o progress hstep =>
      refine ⟨?_, fun e he =>
        asksWithConsent_of_task (by rw [task_of_observationStep hstep e he]; decide)⟩
      rintro _ _ ⟨⟩ ⟨⟩
      have hsetting : getCloudConsent progress.store = getCloudConsent database.store := by
        rcases store_of_observationStep hstep with hstore | ⟨event, hstore⟩ <;> rw [hstore]
        rfl
      rcases hinv database process rfl rfl with ⟨hgate, hsweep⟩
      exact ⟨fun hnone => (hgate hnone).trans hsetting.symm,
        fun hask => hsetting.trans (hsweep hask)⟩
  | @sweep vault database process o progress hstep =>
      obtain ⟨hnew, heffects⟩ := consentInvariant_sweep hstep (hinv database process rfl rfl)
        (by simpa [consentSafe] using hsafe)
      refine ⟨?_, heffects⟩
      rintro _ _ ⟨⟩ ⟨⟩
      exact hnew
  | @operate vault database process | @notify vault database process =>
      refine ⟨?_, by simp⟩
      rintro _ _ ⟨⟩ ⟨⟩
      rcases hinv database process rfl rfl with ⟨hgate, hsweep⟩
      exact ⟨hgate, hsweep⟩

/-- Along every run whose steps meet `consentSafe`, the gate agrees with the setting whenever no
command is in progress, and every request to a cloud provider is made while the setting is there. -/
theorem cloudConsent_agrees_of_consentSafe {ext : Externals} {app : App} {history : List Effect}
    (hreach : (machine ext).Reach App.Initial
      (fun app action => consentSafe app action = true) app history) :
    (∀ database process, app.file = some database → app.process = some process →
      (∀ call ∈ process.calls, call.isReturned = true) →
        process.gate.generalCloudConsent = getCloudConsent database.store) ∧
      ∀ dispatch consent, .requested dispatch consent ∈ history →
        dispatch.provider.isLocal = false → consent = true := by
  have hinv := hreach.emits App.ConsentInvariant
    Effect.AsksWithConsent ?_ ?_
  · refine ⟨?_, fun dispatch consent hmem => hinv.2 _ hmem⟩
    intro database process hfile hprocess hreturned
    apply (hinv.1 database process hfile hprocess).gate
    apply List.filterMap_eq_nil_iff.2
    intro call hcall
    have hreturned := hreturned call hcall
    unfold Call.isReturned at hreturned
    split at hreturned
    · rename_i hpc
      simp [Call.opening, hpc]
    · cases hreturned
  · rintro app ⟨_, hnone⟩ database process _ hsome
    rw [hnone] at hsome
    cases hsome
  · intro app action app' es hinv hsafe hstep
    exact consentInvariant_step hinv hsafe hstep

/-- A launch, and the consent given by call 0. -/
def consentedRun : List Action :=
  .launch (.plain (.repeating 1) []) :: Action.complete 0 (.setCloudConsent true) 3

/-- No command is in progress; the consents of the gate and of the setting are the given ones. -/
def consentsAtRest (gate setting : Bool) (app : App) : Bool :=
  app.file.any fun database => app.process.any fun process =>
    process.calls.all Call.isReturned && process.gate.generalCloudConsent == gate &&
      getCloudConsent database.store == setting

theorem exists_consentsAtRest {gate setting : Bool} {app : App}
    (h : consentsAtRest gate setting app = true) :
    ∃ database process, app.file = some database ∧ app.process = some process ∧
      (∀ call ∈ process.calls, call.isReturned = true) ∧
      process.gate.generalCloudConsent = gate ∧ getCloudConsent database.store = setting := by
  rcases (Option.any_eq_true _ _).1 h with ⟨database, hfile, h⟩
  rcases (Option.any_eq_true _ _).1 h with ⟨process, hprocess, h⟩
  simp only [Bool.and_eq_true, List.all_eq_true, beq_iff_eq] at h
  exact ⟨database, process, hfile, hprocess, h.1.1, h.1.2, h.2⟩

theorem cloudConsent_agrees_consentedRun :
    ∃ app history database process,
      (machine .reference).Reach App.Initial
        (fun app action => consentSafe app action = true) app history ∧
      app.file = some database ∧ app.process = some process ∧
      process.gate.generalCloudConsent = true ∧
      process.gate.generalCloudConsent = getCloudConsent database.store := by
  obtain ⟨app, history, hreach, htest⟩ := exists_run
    (fun app action => consentSafe app action = true)
    (fun app _ => consentsAtRest true true app)
    consentedRun (by decide +kernel)
  rcases exists_consentsAtRest htest with ⟨database, process, hfile, hprocess, hreturned, hgate, _⟩
  exact ⟨app, history, database, process, hreach, hfile, hprocess, hgate,
    (cloudConsent_agrees_of_consentSafe hreach).1 database process hfile hprocess hreturned⟩

/-- Writing the setting through `update_settings` leaves the gate open. -/
theorem gate_open_after_updateSettings :
    ¬ ∀ ext app history, (machine ext).Reach App.Initial Machine.always app history →
      (∀ database process, app.file = some database → app.process = some process →
        (∀ call ∈ process.calls, call.isReturned = true) →
          process.gate.generalCloudConsent = getCloudConsent database.store) ∧
        ∀ dispatch consent, .requested dispatch consent ∈ history →
          dispatch.provider.isLocal = false → consent = true := by
  intro h
  obtain ⟨app, history, hreach, htest⟩ := exists_run Machine.always
    (fun app _ => consentsAtRest true false app)
    (consentedRun ++ Action.complete 1 (.updateSettings cloudConsentSettingKey (.bool false)) 1)
    (by decide +kernel)
  obtain ⟨database, process, hfile, hprocess, hreturned, hgate, hsetting⟩ :=
    exists_consentsAtRest htest
  have hagree := (h _ app history hreach).1 database process hfile hprocess hreturned
  rw [hgate, hsetting] at hagree
  cases hagree

end Desktop
end HiddenSteps
