import HiddenSteps.Desktop.RowRule
import HiddenSteps.Desktop.SweepEnds

/-!
# AuditReplay — the privacy settings as the audit log tells them

A command writes the privacy row first and logs the change in a step of its own.  Along the runs in
which such commands do not overlap and their entries are written, the log accounts for the row:
replaying the changes it records, from the settings of a new profile on, gives the settings in force,
but for the one change that is still to be logged.
-/

namespace HiddenSteps
namespace Desktop

open EventStore PrivacyEngine Recommendations Systems

/-! ## Replaying a log -/

/-- The privacy row without the time of its last change. -/
structure PrivacySettings where
  currentLevel : PrivacyLevel
  consentedManifestVersion : Int
  observationActive : Bool
  deriving DecidableEq

def settingsOf (row : PrivacyState) : PrivacySettings where
  currentLevel := row.currentLevel
  consentedManifestVersion := row.consentedManifestVersion
  observationActive := row.observationActive

/-- The settings of a new profile. -/
def PrivacySettings.initial : PrivacySettings := settingsOf (.initial 0)

/-- A change that an entry of the log records. -/
inductive RecordedChange where
  | level (effective : PrivacyLevel)
  | manifest (version : Int)
  | observing (active : Bool)
  deriving DecidableEq

def RecordedChange.apply (settings : PrivacySettings) : RecordedChange → PrivacySettings
  | .level effective => { settings with currentLevel := effective }
  | .manifest version => { settings with consentedManifestVersion := version }
  | .observing active => { settings with observationActive := active }

/-- A number among the details of an entry. -/
def numberField (details : Json) (name : String) : Option Int :=
  match details with
  | .object fields =>
      match Json.getField fields name with
      | some (.number n) => some n
      | _ => none
  | _ => none

/-- The level of a number. -/
def levelOf (n : Int) : Option PrivacyLevel := (PrivacyLevel.fromU8 n.toNat).toOption

/-- What an entry says about the privacy settings. -/
def recordedChange (entry : AuditEntry) : Option RecordedChange :=
  if entry.actionType = "privacy_level_changed" then
    ((numberField entry.details "to").bind levelOf).map .level
  else if entry.actionType = "privacy_manifest_reconsented" then
    (numberField entry.details "version").map .manifest
  else if entry.actionType = "observation_started" ∨ entry.actionType = "observation_resumed" then
    some (.observing true)
  else if entry.actionType = "observation_paused" then some (.observing false)
  else none

/-- The settings after the changes of a log. -/
def replay (settings : PrivacySettings) (log : List AuditEntry) : PrivacySettings :=
  (log.filterMap recordedChange).foldl RecordedChange.apply settings

section Replay

variable {settings : PrivacySettings} {log : List AuditEntry} {entry : AuditEntry}

theorem replay_concat :
    replay settings (log ++ [entry]) =
      (recordedChange entry).elim (replay settings log)
        (RecordedChange.apply (replay settings log)) := by
  unfold replay
  cases h : recordedChange entry <;> simp [List.filterMap_append, h]

/-- The id of an entry does not matter. -/
@[simp] theorem recordedChange_withId (id : Option Nat) :
    recordedChange { entry with id := id } = recordedChange entry := rfl

theorem levelOf_asU8 (level : PrivacyLevel) : levelOf level.asU8 = some level := by
  cases level <;> rfl

/-- The entry of a privacy command records what the command does to the row. -/
theorem recordedChange_auditEntry (command : PrivacyCommand) (current : PrivacyState)
    (now now' : Timestamp) :
    ∃ change, recordedChange (command.auditEntry current now) = some change ∧
      settingsOf (command.apply current now') = change.apply (settingsOf current) := by
  cases command with
  | setLevel requested effective acknowledged =>
      refine ⟨.level effective, ?_, rfl⟩
      simp [recordedChange, PrivacyCommand.auditEntry, AuditEntry.new, numberField, Json.getField,
        levelOf_asU8]
  | completeOnboarding => exact ⟨.observing true, rfl, rfl⟩
  | acknowledgeManifest => exact ⟨.manifest _, rfl, rfl⟩
  | pause => exact ⟨.observing false, rfl, rfl⟩
  | resume => exact ⟨.observing true, rfl, rfl⟩

end Replay

/-! ## The condition -/

/-- The change that a command has made and has still to log. -/
def Call.unlogged (call : Call) : Option AuditEntry :=
  match call.pc with
  | .logging entry _ => if (recordedChange entry).isSome then some entry else none
  | _ => none

/-- A command is between its read of the privacy row and the entry for its change. -/
def Call.holdsRow (call : Call) : Bool :=
  match call.pc with
  | .writingState _ _ => true
  | _ => call.unlogged.isSome

/-- No command reads or resets the row while another one holds it, and a change that has been made
is logged. -/
def accountable (app : App) : Action → Bool
  | .call id o =>
      (app.call? id).all fun call =>
        match call.pc with
        | .readingState _ => app.calls.all fun c => !c.holdsRow
        | .start => call.command != .deleteAllData || app.calls.all fun c => !c.holdsRow
        | .logging _ _ => call.unlogged.isNone || o.storeFault.isNone
        | _ => true
  | .exit => app.calls.all fun c => c.unlogged.isNone
  | _ => true

/-! ## One step of a command -/

/-- What a step of a command does to the row and to the log. -/
inductive AccountStep (call : Call) (o : Outside) (shared : Shared) (progress : Progress) : Prop where
  | quiet (hrow : progress.shared.store.privacyState = shared.store.privacyState)
      (hlog : progress.shared.store.auditLog = shared.store.auditLog ∨
        ∃ entry, recordedChange entry = none ∧
          progress.shared.store.auditLog = shared.store.auditLog ++ [entry])
      (hbefore : call.unlogged = none)
      (hafter : ({ call with pc := progress.pc } : Call).holdsRow = false)
  | read (change : PrivacyCommand) (current : PrivacyState) (hpc : call.pc = .readingState change)
      (hread : shared.store.privacyState = some current) (hshared : progress.shared = shared)
      (hnext : progress.pc = .writingState change current)
  | written (change : PrivacyCommand) (current : PrivacyState) (reply : Reply)
      (hpc : call.pc = .writingState change current)
      (hrow : progress.shared.store.privacyState =
        shared.store.privacyState.map fun _ => change.apply current o.now)
      (hlog : progress.shared.store.auditLog = shared.store.auditLog)
      (hnext : progress.pc = .logging (change.auditEntry current o.now) reply)
  | logged (entry : AuditEntry) (reply : Reply) (hpc : call.pc = .logging entry reply)
      (hentry : call.unlogged = some entry)
      (hrow : progress.shared.store.privacyState = shared.store.privacyState)
      (hlog : o.storeFault = none → ∃ id, progress.shared.store.auditLog =
        shared.store.auditLog ++ [{ entry with id := id }])
      (hafter : ({ call with pc := progress.pc } : Call).holdsRow = false)
  | erased (hpc : call.pc = .start) (hcommand : call.command = .deleteAllData)
      (hrow : progress.shared.store.privacyState =
        shared.store.privacyState.map fun _ => .initial o.now)
      (hlog : progress.shared.store.auditLog = [])
      (hafter : ({ call with pc := progress.pc } : Call).holdsRow = false)

section Inversion

variable {policy : EnterprisePolicy} {call : Call} {o : Outside} {shared : Shared}
  {progress : Progress}

/-- A step that leaves the row and the log alone. -/
theorem AccountStep.same (hrow : progress.shared.store.privacyState = shared.store.privacyState)
    (hlog : progress.shared.store.auditLog = shared.store.auditLog) (hbefore : call.unlogged = none)
    (hafter : ({ call with pc := progress.pc } : Call).holdsRow = false) :
    AccountStep call o shared progress :=
  .quiet hrow (Or.inl hlog) hbefore hafter

theorem AccountStep.fail (message : String) (hbefore : call.unlogged = none) :
    AccountStep call o shared (Call.fail call shared message) :=
  .same rfl rfl hbefore rfl

theorem AccountStep.guarded {fault : Option String} {go : Progress} (hbefore : call.unlogged = none)
    (hgo : AccountStep call o shared go) :
    AccountStep call o shared (Call.guarded call shared fault go) := by
  cases fault with
  | none => exact hgo
  | some message => exact .fail message hbefore

theorem accountStep_startStep (hpc : call.pc = .start) :
    AccountStep call o shared (Call.startStep policy call o shared) := by
  have hbefore : call.unlogged = none := by simp [Call.unlogged, hpc]
  cases hcommand : call.command with
  | setAiProvider request =>
      simp only [Call.startStep, hcommand]
      split
      · exact .fail _ hbefore
      · split
        · exact .same rfl rfl hbefore rfl
        · exact .guarded hbefore (.same rfl rfl hbefore rfl)
  | setPrivacyLevel request =>
      simp only [Call.startStep, hcommand]
      split
      · exact .fail _ hbefore
      · exact .same rfl rfl hbefore rfl
  | completeOnboarding | acknowledgePrivacyManifest | pauseObservation | resumeObservation =>
      simp only [Call.startStep, hcommand]
      exact .same rfl rfl hbefore rfl
  | deleteEvents eventIds =>
      simp only [Call.startStep, hcommand]
      exact .guarded hbefore (.same rfl rfl hbefore rfl)
  | exportData =>
      simp only [Call.startStep, hcommand]
      refine .guarded hbefore ?_
      split
      · exact .fail _ hbefore
      · exact .same rfl rfl hbefore rfl
  | deleteAllData =>
      simp only [Call.startStep, hcommand]
      refine .guarded hbefore ?_
      cases o.lateFault <;> exact .erased hpc hcommand rfl rfl rfl
  | setRecommendationStatus request =>
      simp only [Call.startStep, hcommand]
      split
      · exact .fail _ hbefore
      · exact .guarded hbefore (.same rfl rfl hbefore rfl)
  | setCloudConsent granted =>
      simp only [Call.startStep, hcommand]
      exact .guarded hbefore (.same rfl rfl hbefore rfl)
  | updateSettings key value =>
      simp only [Call.startStep, hcommand]
      split
      · exact .fail _ hbefore
      · exact .guarded hbefore (.same rfl rfl hbefore rfl)

/-- The inversion of a step of a command, as far as the row and the log are concerned. -/
theorem accountStep_of_step (h : call.step policy o shared = some progress) :
    AccountStep call o shared progress := by
  cases hpc : call.pc with
  | start =>
      simp only [Call.step, hpc, Option.some.injEq] at h
      exact h ▸ accountStep_startStep hpc
  | readingState change =>
      have hbefore : call.unlogged = none := by simp [Call.unlogged, hpc]
      simp only [Call.step, hpc, Option.some.injEq] at h
      subst h
      refine .guarded hbefore ?_
      cases hread : shared.store.privacyState with
      | none =>
          simp only [Store.getPrivacyState, hread]
          exact .fail _ hbefore
      | some current =>
          simp only [Store.getPrivacyState, hread]
          exact .read change current hpc hread rfl rfl
  | writingState change current =>
      have hbefore : call.unlogged = none := by simp [Call.unlogged, hpc]
      simp only [Call.step, hpc, Option.some.injEq] at h
      subst h
      exact .guarded hbefore (.written change current _ hpc rfl rfl rfl)
  | logging entry reply =>
      simp only [Call.step, hpc, Option.some.injEq] at h
      subst h
      cases hentry : recordedChange entry with
      | none =>
          have hbefore : call.unlogged = none := by simp [Call.unlogged, hpc, hentry]
          refine .quiet ?_ ?_ hbefore rfl
          · cases o.storeFault <;> rfl
          · cases o.storeFault with
            | some message => exact Or.inl rfl
            | none => exact Or.inr ⟨_, by simpa using hentry, rfl⟩
      | some change =>
          refine .logged entry reply hpc (by simp [Call.unlogged, hpc, hentry]) ?_ ?_ rfl
          · cases o.storeFault <;> rfl
          · intro hfault
            rw [hfault]
            exact ⟨_, rfl⟩
  | activatingProvider providerId =>
      have hbefore : call.unlogged = none := by simp [Call.unlogged, hpc]
      simp only [Call.step, hpc, Option.some.injEq] at h
      subst h
      refine .guarded hbefore ?_
      cases hactive : shared.store.setActiveLlmProvider providerId with
      | error e => exact .fail _ hbefore
      | ok store =>
          rcases Store.setActiveLlmProvider_eq_ok hactive with ⟨providers, rfl⟩
          exact .same rfl rfl hbefore rfl
  | rekeying =>
      have hbefore : call.unlogged = none := by simp [Call.unlogged, hpc]
      simp only [Call.step, hpc, Option.some.injEq] at h
      subst h
      refine .guarded hbefore ?_
      cases o.lateFault <;> exact .same rfl rfl hbefore rfl
  | openingGate granted =>
      have hbefore : call.unlogged = none := by simp [Call.unlogged, hpc]
      simp only [Call.step, hpc, Option.some.injEq] at h
      exact h ▸ .same rfl rfl hbefore rfl
  | returned result =>
      simp [Call.step, hpc] at h
  | _ =>
      have hbefore : call.unlogged = none := by simp [Call.unlogged, hpc]
      simp only [Call.step, hpc, Option.some.injEq] at h
      subst h
      exact .guarded hbefore (.same rfl rfl hbefore rfl)

end Inversion

/-! ## The entries of a sweep -/

/-- An entry of the system, which records no change of the settings. -/
def IsQuiet (entry : AuditEntry) : Prop :=
  entry.actor = .system ∧ recordedChange entry = none

def SweepPc.LogsQuietly : SweepPc → Prop
  | .logging entry next => IsQuiet entry ∧ next.LogsQuietly
  | _ => True

/-- A step of a sweep leaves the log alone, or adds an entry of the system. -/
theorem logsQuietly_sweepStep {ext : Recommendations.Externals} {vault : Vault}
    {gate : DispatchGate} {o : Outside} {store : Store} {pc : SweepPc} {progress : SweepProgress}
    (hpc : pc.LogsQuietly) (h : Sweep.step ext vault gate pc o store = some progress) :
    progress.pc.LogsQuietly ∧
      (progress.store.auditLog = store.auditLog ∨
        ∃ entry, IsQuiet entry ∧
          progress.store.auditLog = store.auditLog ++ [entry]) := by
  have hfailed : ∀ now message, (Sweep.failed now message).LogsQuietly :=
    fun _ _ => ⟨⟨rfl, rfl⟩, trivial⟩
  cases pc with
  | start =>
      simp only [Sweep.step] at h
      split at h
      · cases h
        exact ⟨⟨⟨rfl, rfl⟩, trivial⟩, Or.inl rfl⟩
      · cases h
        refine ⟨?_, Or.inl rfl⟩
        simp only
        split <;> first | exact ⟨⟨rfl, rfl⟩, trivial⟩ | exact trivial
  | logging entry next =>
      simp only [Sweep.step] at h
      split at h
      · cases h
        exact ⟨hpc.2, Or.inl rfl⟩
      · cases h
        exact ⟨hpc.2, Or.inr ⟨{ entry with id := some (store.auditSeq + 1) }, hpc.1, rfl⟩⟩
  | readingState =>
      simp only [Sweep.step] at h
      split at h <;> cases h
      · exact ⟨hfailed _ _, Or.inl rfl⟩
      · exact ⟨hfailed _ _, Or.inl rfl⟩
      · exact ⟨trivial, Or.inl rfl⟩
  | readingEvents state =>
      simp only [Sweep.step] at h
      split at h
      · cases h
        exact ⟨hfailed _ _, Or.inl rfl⟩
      · split at h
        · split at h <;> cases h <;> exact ⟨trivial, Or.inl rfl⟩
        · cases h
  | readingPatterns state events detected =>
      simp only [Sweep.step] at h
      split at h <;> cases h
      · exact ⟨hfailed _ _, Or.inl rfl⟩
      · exact ⟨trivial, Or.inl rfl⟩
  | patterns context =>
      simp only [Sweep.step] at h
      split at h
      · cases h
        exact ⟨trivial, Or.inl rfl⟩
      · split at h
        · split at h <;> cases h <;> exact ⟨trivial, Or.inl rfl⟩
        · split at h <;> cases h
          · exact ⟨hfailed _ _, Or.inl rfl⟩
          · exact ⟨trivial, Or.inl rfl⟩
  | linking context pattern =>
      cases h
      refine ⟨trivial, Or.inl ?_⟩
      simp only
      split
      · rfl
      · rcases Store.linkPatternEvents_eq store pattern.id
          pattern.detected.contributingEventIds with ⟨links, hlinks, _⟩
        rw [hlinks]
  | synthesizing context pattern pc =>
      cases h
      have hdone : ∀ log : Option AuditEntry, (∀ entry ∈ log, IsQuiet entry) →
          (Synthesis.resume context pattern (.done log)).LogsQuietly := by
        intro log hlog
        cases log with
        | none => exact trivial
        | some entry => exact ⟨hlog entry rfl, trivial⟩
      cases pc with
      | inserting recommendation =>
          simp only [Synthesis.step]
          split
          · rename_i inserted _ hinsert
            rcases Store.insertRecommendation_eq_ok hinsert with ⟨_, _, hstore⟩
            exact ⟨trivial, Or.inl (by rw [hstore])⟩
          · exact ⟨trivial, Or.inl rfl⟩
      | _ =>
          simp only [Synthesis.step]
          split <;>
            first
            | exact ⟨trivial, Or.inl rfl⟩
            | exact ⟨hdone _ (by rintro _ ⟨⟩; exact ⟨rfl, rfl⟩), Or.inl rfl⟩

/-! ## Runs -/

/-- The changes that have been made and not logged. -/
def App.unlogged (app : App) : List AuditEntry := app.calls.filterMap Call.unlogged

/-- The log accounts for the row. -/
structure Accounted (app : App) : Prop where
  /-- Only a file that is not there has no version. -/
  versioned : app.store.schemaVersions = [] → app.file = none
  oneHolder : ∀ i j c d, app.call? i = some c → app.call? j = some d → c.holdsRow = true →
    d.holdsRow = true → i = j
  held : ∀ id call change current, app.call? id = some call →
    call.pc = .writingState change current → app.privacyRow = some current
  settings : ∀ row, app.privacyRow = some row →
    settingsOf row = replay .initial (app.store.auditLog ++ app.unlogged)
  sweep : app.sweep.LogsQuietly

theorem unlogged_of_not_holdsRow {call : Call} (h : call.holdsRow = false) :
    call.unlogged = none := by
  unfold Call.holdsRow at h
  split at h
  · cases h
  · simpa using h

/-- A log to which an entry without a change is added. -/
theorem replay_added {settings : PrivacySettings} {log log' rest : List AuditEntry}
    (h : log' = log ∨ ∃ entry, recordedChange entry = none ∧ log' = log ++ [entry]) :
    replay settings (log' ++ rest) = replay settings (log ++ rest) := by
  rcases h with rfl | ⟨entry, hentry, rfl⟩
  · rfl
  · simp [replay, List.filterMap_append, hentry]

section Steps

variable {ext : Externals} {app app' : App} {action : Action} {es : List Effect}

/-- The versions of the schema stay. -/
theorem schemaVersions_of_callStep {call : Call} {o : Outside} {shared : Shared} {pc : CallPc}
    {progress : Progress} (h : CallStep call o shared pc progress) :
    progress.shared.store.schemaVersions = shared.store.schemaVersions := by
  cases h with
  | providerActivated hactive =>
      rcases Store.setActiveLlmProvider_eq_ok hactive with ⟨providers, rfl⟩
      rfl
  | logged hstore => rcases hstore with rfl | rfl <;> rfl
  | _ => rfl

theorem schemaVersions_of_sweepStep {vault : Vault} {gate : DispatchGate} {o : Outside}
    {store : Store} {pc : SweepPc} {progress : SweepProgress}
    (h : SweepStep vault gate o store pc progress) :
    progress.store.schemaVersions = store.schemaVersions := by
  cases h with
  | started hstore => rcases hstore with rfl | rfl <;> rfl
  | logged hstore => rcases hstore with rfl | rfl <;> rfl
  | @linked _ pattern _ hstore =>
      obtain ⟨links, hlinks, _⟩ := Store.linkPatternEvents_eq store pattern.id
        pattern.detected.contributingEventIds
      rcases hstore with rfl | rfl
      · rfl
      · rw [Desktop.linked, hlinks]
  | recommended hinsert =>
      rcases Store.insertRecommendation_eq_ok hinsert with ⟨_, _, rfl⟩
      rfl
  | _ => rfl

/-- A launch leaves the log alone. -/
theorem auditLog_launch (app : App) (input : LaunchInput) :
    (launch app input).store.auditLog = app.store.auditLog := by
  rcases launch_store app input with ⟨_, _, _, hstore⟩
  rw [hstore]

theorem schemaVersions_launch {input : LaunchInput}
    (hversioned : app.store.schemaVersions = [] → app.file = none)
    (hversions : (launch app input).store.schemaVersions = []) : (launch app input).file = none := by
  rcases (launch_cases app input).2 with ⟨hfile, _⟩ | ⟨database, _, hopened, hfile, _⟩
  · rw [App.store, hfile] at hversions
    rw [hfile]
    exact hversioned hversions
  · -- an opened file has a version
    obtain ⟨policy, hpolicy⟩ := resolveEnterprisePolicy_store database.store input
    rw [App.store, hfile] at hversions
    replace hversions : (resolveEnterprisePolicy database.store input).2.schemaVersions = [] :=
      hversions
    rw [hpolicy, App.store_of_openStore hopened] at hversions
    simp only [Store.migrate] at hversions
    split at hversions
    · cases hversions
    · rename_i hsome
      exact absurd (by simp [hversions]) hsome

theorem accounted_launch {input : LaunchInput} (hinv : Accounted app)
    (hprocess : app.process = none) : Accounted (launch app input) := by
  rcases calls_launch input hprocess with ⟨hcalls, hcall, hsweep⟩
  have hunlogged : app.unlogged = [] := by rw [App.unlogged, App.calls, hprocess]; rfl
  refine ⟨schemaVersions_launch hinv.versioned, fun i j c d hc => ?_,
    fun id call change current hc => ?_, ?_, hsweep ▸ trivial⟩
  · cases (hcall i).symm.trans hc
  · cases (hcall id).symm.trans hc
  · intro row hrow
    rw [auditLog_launch, App.unlogged, hcalls]
    have hold : app.privacyRow = some row → settingsOf row =
        replay .initial (app.store.auditLog ++ []) := fun h => hunlogged ▸ hinv.settings row h
    rcases row_of_launch input hprocess with ⟨_, hsame⟩ | ⟨process, _, _, _, _, hnew⟩
    · exact hold (hsame ▸ hrow)
    · rw [hnew] at hrow
      split at hrow
      · rename_i hempty
        -- a new file has no log
        have hnone := hinv.versioned (by simpa using hempty)
        have hlog : app.store.auditLog = [] := by rw [App.store, hnone]; rfl
        cases hrow
        rw [hlog]
        rfl
      · exact hold hrow

/-- A step that leaves the row, the versions and the commands alone, or adds a command. -/
theorem Accounted.frame (hinv : Accounted app)
    (hversions : app'.store.schemaVersions = app.store.schemaVersions)
    (hfile : app'.file = none ↔ app.file = none) (hrow : app'.privacyRow = app.privacyRow)
    (hcalls : ∀ id call, app'.call? id = some call →
      app.call? id = some call ∨ call.pc = .start)
    (hunlogged : app'.unlogged = app.unlogged)
    (hlog : app'.store.auditLog = app.store.auditLog ∨ ∃ entry, recordedChange entry = none ∧
      app'.store.auditLog = app.store.auditLog ++ [entry])
    (hsweep : app'.sweep.LogsQuietly) : Accounted app' where
  versioned := by
    rw [hversions, hfile]
    exact hinv.versioned
  oneHolder := by
    have hold : ∀ id call, app'.call? id = some call → call.holdsRow = true →
        app.call? id = some call := by
      intro id call hcall hholds
      refine (hcalls id call hcall).resolve_right fun hpc => ?_
      simp [Call.holdsRow, Call.unlogged, hpc] at hholds
    exact fun i j c d hc hd hcholds hdholds =>
      hinv.oneHolder i j c d (hold i c hc hcholds) (hold j d hd hdholds) hcholds hdholds
  held := by
    intro id call change current hcall hpc
    rw [hrow]
    rcases hcalls id call hcall with hold | hstart
    · exact hinv.held id call change current hold hpc
    · cases hstart.symm.trans hpc
  settings := by
    intro row hsome
    rw [replay_added hlog, hunlogged]
    exact hinv.settings row (hrow ▸ hsome)
  sweep := hsweep

theorem call?_eq (app : App) (id : Nat) : app.call? id = app.calls[id]? := by
  unfold App.call? App.calls
  cases app.process <;> rfl

/-- While a call holds the row, no other has a change to log. -/
theorem unlogged_of_alone {id : Nat} {call : Call} (hcall : app.call? id = some call)
    (halone : ∀ j d, app.call? j = some d → j ≠ id → d.holdsRow = false) :
    app.unlogged = call.unlogged.toList := by
  rw [call?_eq] at hcall
  refine filterMap_eq_of_alone Call.unlogged hcall fun j d hd hne => ?_
  rw [← call?_eq] at hd
  exact unlogged_of_not_holdsRow (halone j d hd hne)

/-- The same after a step of that call. -/
theorem unlogged_of_alone_set {vault : Vault} {database : Database} {process : Process} {id : Nat}
    {call call' : Call} {gate : DispatchGate} (hcall : process.calls[id]? = some call)
    (halone : ∀ j d, process.calls[j]? = some d → j ≠ id → d.holdsRow = false) :
    App.unlogged ⟨vault, some database,
        some { process with gate := gate, calls := process.calls.set id call' }⟩ =
      call'.unlogged.toList := by
  have hlength := (List.getElem?_eq_some_iff.1 hcall).1
  refine unlogged_of_alone (List.getElem?_set_self hlength) ?_
  intro j d hd hne
  replace hd : (process.calls.set id call')[j]? = some d := hd
  rw [List.getElem?_set_ne (Ne.symm hne)] at hd
  exact halone j d hd hne

/-- A step of a command. -/
theorem accounted_call {id : Nat} {o : Outside} (hinv : Accounted app)
    (hguard : accountable app (.call id o) = true)
    (h : (machine ext).step app (.call id o) = some (app', es)) : Accounted app' := by
  rcases call_of_step h with
    ⟨vault, database, process, call, progress, rfl, hcall, hstep, rfl, rfl⟩
  have hcall' : App.call? ⟨vault, some database, some process⟩ id = some call := hcall
  have hversions : progress.shared.store.schemaVersions = database.store.schemaVersions :=
    schemaVersions_of_callStep (callStep_of_step hstep)
  simp only [accountable, hcall', Option.all_some] at hguard
  have hnone : (process.calls.all fun c => !c.holdsRow) = true →
      ∀ (j : Nat) (d : Call), process.calls[j]? = some d → d.holdsRow = false :=
    fun hall j d hd => by
      simpa using List.all_eq_true.1 hall d (List.mem_of_getElem? hd)
  have hholder : call.holdsRow = true →
      ∀ j d, process.calls[j]? = some d → j ≠ id → d.holdsRow = false := by
    intro hholds j d hd hne
    by_contra hdholds
    exact hne (hinv.oneHolder j id d call hd hcall' (by simpa using hdholds) hholds)
  -- the row, the calls under way and the log, seen from the step of this call
  have hkeep : (∀ (j : Nat) (d : Call), process.calls[j]? = some d → j ≠ id →
        ({ call with pc := progress.pc } : Call).holdsRow = true → d.holdsRow = false) →
      (∀ j d change current, App.call? ⟨vault, some database, some process⟩ j = some d → j ≠ id →
        d.pc = .writingState change current →
        progress.shared.store.privacyState = some current) →
      (∀ change current, progress.pc = .writingState change current →
        progress.shared.store.privacyState = some current) →
      (∀ row, progress.shared.store.privacyState = some row →
        settingsOf row = replay .initial (progress.shared.store.auditLog ++
          App.unlogged ⟨progress.shared.vault, some progress.shared.database,
            some { process with
              gate := progress.shared.gate
              calls := process.calls.set id { call with pc := progress.pc } }⟩)) →
      Accounted ⟨progress.shared.vault, some progress.shared.database,
        some { process with
          gate := progress.shared.gate
          calls := process.calls.set id { call with pc := progress.pc } }⟩ := by
    intro halone hothers hown hsettings
    have hcalls : ∀ i c, App.call? ⟨progress.shared.vault, some progress.shared.database,
        some { process with
          gate := progress.shared.gate
          calls := process.calls.set id { call with pc := progress.pc } }⟩ i = some c →
        (i = id ∧ c = { call with pc := progress.pc }) ∨
          (i ≠ id ∧ App.call? ⟨vault, some database, some process⟩ i = some c) :=
      fun i c hc => call?_set vault hcall hc
    refine ⟨?_, ?_, ?_, hsettings, hinv.sweep⟩
    · intro hempty
      cases hinv.versioned (hversions ▸ hempty)
    · intro i j c d hc hd hcholds hdholds
      rcases hcalls i c hc with ⟨rfl, rfl⟩ | ⟨hi, hcold⟩ <;>
        rcases hcalls j d hd with ⟨hj, rfl⟩ | ⟨hj, hdold⟩
      · exact hj.symm
      · rw [halone j d hdold hj hcholds] at hdholds
        cases hdholds
      · rw [halone i c hcold hi hdholds] at hcholds
        cases hcholds
      · exact hinv.oneHolder i j c d hcold hdold hcholds hdholds
    · intro i c change current hc hpc
      rcases hcalls i c hc with ⟨rfl, rfl⟩ | ⟨hi, hcold⟩
      · exact hown change current hpc
      · exact hothers i c change current hcold hi hpc
  have hwriting : ∀ {c : Call} {change : PrivacyCommand} {current : PrivacyState},
      c.pc = .writingState change current → c.holdsRow = true := by
    intro c change current hpc
    simp [Call.holdsRow, hpc]
  have hsame : call.unlogged = none →
      ({ call with pc := progress.pc } : Call).unlogged = none →
      App.unlogged ⟨progress.shared.vault, some progress.shared.database,
        some { process with
          gate := progress.shared.gate
          calls := process.calls.set id { call with pc := progress.pc } }⟩ =
        App.unlogged ⟨vault, some database, some process⟩ := by
    intro hbefore hafter
    obtain ⟨before, after, hl, hset⟩ := filterMap_set_split Call.unlogged hcall
    show (process.calls.set id _).filterMap Call.unlogged =
      process.calls.filterMap Call.unlogged
    rw [hset, hl, hbefore, hafter]
  cases accountStep_of_step hstep with
  | quiet hrow hlog hbefore hafter =>
      refine hkeep ?_ ?_ ?_ ?_
      · intro j d _ _ hholds
        cases hafter.symm.trans hholds
      · exact fun j d change current hd _ hpc => hrow.trans (hinv.held j d change current hd hpc)
      · intro change current hpc
        cases hafter.symm.trans (hwriting hpc)
      · intro row hsome
        rw [hsame hbefore (unlogged_of_not_holdsRow hafter), replay_added hlog]
        exact hinv.settings row (hrow.symm.trans hsome)
  | read change current hpc hread hshared hnext =>
      rw [hpc] at hguard
      refine hkeep ?_ ?_ ?_ ?_
      · exact fun j d hd _ _ => hnone hguard j d hd
      · intro j d change current hd _ hdpc
        cases (hnone hguard j d hd).symm.trans (hwriting hdpc)
      · intro change' current' hpc'
        cases hnext.symm.trans hpc'
        rw [hshared]
        exact hread
      · intro row hsome
        rw [hsame (by simp [Call.unlogged, hpc]) (by simp [Call.unlogged, hnext]), hshared]
        rw [hshared] at hsome
        exact hinv.settings row hsome
  | written change current reply hpc hrow hlog hnext =>
      have halone := hholder (hwriting hpc)
      have hbefore := unlogged_of_alone hcall' halone
      have hrow₀ : database.store.privacyState = some current := hinv.held id call change current
        hcall' hpc
      refine hkeep ?_ ?_ ?_ ?_
      · exact fun j d hd hne _ => halone j d hd hne
      · intro j d change' current' hd hne hdpc
        cases (halone j d hd hne).symm.trans (hwriting hdpc)
      · intro change' current' hpc'
        cases hnext.symm.trans hpc'
      · intro row hsome
        obtain ⟨recorded, hrecorded, hchange⟩ :=
          recordedChange_auditEntry change current o.now o.now
        have hlogged : ({ call with pc := progress.pc } : Call).unlogged.toList =
            [change.auditEntry current o.now] := by
          simp [Call.unlogged, hnext, hrecorded]
        have hnothing : call.unlogged.toList = [] := by simp [Call.unlogged, hpc]
        have hold := hinv.settings current hrow₀
        rw [hbefore, hnothing, List.append_nil] at hold
        rw [unlogged_of_alone_set hcall halone, hlogged, hlog, replay_concat, hrecorded]
        rw [hrow] at hsome
        replace hsome : database.store.privacyState.map (fun _ => change.apply current o.now) =
          some row := hsome
        rw [hrow₀, Option.map_some, Option.some.injEq] at hsome
        rw [← hsome, hchange, hold]
        rfl
  | logged entry reply hpc hentry hrow hlog hafter =>
      have hholds : call.holdsRow = true := by simp [Call.holdsRow, hpc, hentry]
      have halone := hholder hholds
      have hbefore := unlogged_of_alone hcall' halone
      have hfault : o.storeFault = none := by
        rw [hpc] at hguard
        simpa [hentry] using hguard
      refine hkeep ?_ ?_ ?_ ?_
      · exact fun j d hd hne _ => halone j d hd hne
      · exact fun j d change current hd _ hdpc =>
          hrow.trans (hinv.held j d change current hd hdpc)
      · intro change current hpc'
        cases hafter.symm.trans (hwriting hpc')
      · intro row hsome
        obtain ⟨entryId, hlog⟩ := hlog hfault
        have hold := hinv.settings row (hrow.symm.trans hsome)
        rw [hbefore, hentry] at hold
        rw [unlogged_of_alone_set hcall halone, unlogged_of_not_holdsRow hafter, hlog, hold]
        -- the entry that was to be logged is the last one of the log
        simp only [Option.toList_none, List.append_nil, Option.toList_some]
        rw [replay_concat, replay_concat, recordedChange_withId]
        rfl
  | erased hpc hcommand hrow hlog hafter =>
      have hfree : (process.calls.all fun c => !c.holdsRow) = true := by
        rw [hpc, hcommand] at hguard
        simpa [App.calls] using hguard
      refine hkeep ?_ ?_ ?_ ?_
      · exact fun j d hd _ _ => hnone hfree j d hd
      · intro j d change current hd _ hdpc
        cases (hnone hfree j d hd).symm.trans (hwriting hdpc)
      · intro change current hpc'
        cases hafter.symm.trans (hwriting hpc')
      · intro row hsome
        rw [hrow] at hsome
        rcases Option.map_eq_some_iff.1 hsome with ⟨_, _, rfl⟩
        rw [unlogged_of_alone_set hcall fun j d hd _ => hnone hfree j d hd,
          unlogged_of_not_holdsRow hafter, hlog]
        rfl

theorem accounted_step (hinv : Accounted app) (hguard : accountable app action = true)
    (h : (machine ext).step app action = some (app', es)) : Accounted app' := by
  cases appStep_of_step h with
  | launch hprocess => exact accounted_launch hinv hprocess
  | call => exact accounted_call hinv hguard h
  | exit =>
      refine hinv.frame rfl Iff.rfl rfl (by rintro _ _ ⟨⟩) ?_ (Or.inl rfl) trivial
      -- nothing is left to be logged
      refine (List.filterMap_eq_nil_iff.2 fun c hc => ?_).symm
      simpa using List.all_eq_true.1 hguard c hc
  | @invoke vault database process command =>
      refine hinv.frame rfl Iff.rfl rfl ?_ ?_ (Or.inl rfl) hinv.sweep
      · obtain ⟨_, _, hcalls⟩ := row_of_step h (by rintro _ ⟨⟩) (by rintro _ _ ⟨⟩)
        exact hcalls
      · show (process.calls ++ [_]).filterMap Call.unlogged = process.calls.filterMap Call.unlogged
        rw [List.filterMap_append]
        exact List.append_nil _
  | @observe vault database process o progress hstep =>
      have hstore := store_of_observationStep hstep
      refine hinv.frame ?_ (by simp) ?_ (fun _ _ hcall => Or.inl hcall) rfl (Or.inl ?_) hinv.sweep
      · show progress.store.schemaVersions = database.store.schemaVersions
        rcases hstore with hstore | ⟨event, hstore⟩ <;> rw [hstore]
        rfl
      · show progress.store.privacyState = database.store.privacyState
        rcases hstore with hstore | ⟨event, hstore⟩ <;> rw [hstore]
        rfl
      · show progress.store.auditLog = database.store.auditLog
        rcases hstore with hstore | ⟨event, hstore⟩ <;> rw [hstore]
        rfl
  | @sweep vault database process o progress hstep =>
      obtain ⟨_, _, _, hsweepStep, hstore, hsweep, _⟩ := sweep_of_step h
      obtain ⟨hquiet, hlog⟩ := logsQuietly_sweepStep hinv.sweep hsweepStep
      refine hinv.frame (schemaVersions_of_sweepStep hstep) (by simp)
        (unchanged_of_sweepStep hstep).1 (fun _ _ hcall => Or.inl hcall) rfl ?_ (hsweep ▸ hquiet)
      rw [hstore]
      exact hlog.imp_right fun ⟨entry, hquiet, hlog⟩ => ⟨entry, hquiet.2, hlog⟩
  | operate | notify =>
      exact hinv.frame rfl Iff.rfl rfl (fun _ _ hcall => Or.inl hcall) rfl (Or.inl rfl) hinv.sweep

/-- At most one change is still to be logged. -/
theorem Accounted.length_unlogged_le (hinv : Accounted app) : app.unlogged.length ≤ 1 := by
  by_cases hany : ∃ id call, app.call? id = some call ∧ call.holdsRow = true
  · obtain ⟨id, call, hcall, hholds⟩ := hany
    rw [unlogged_of_alone hcall fun j d hd hne => ?_]
    · cases call.unlogged <;> simp
    · by_contra hdholds
      exact hne (hinv.oneHolder j id d call hd hcall (by simpa using hdholds) hholds)
  · have hnothing : app.unlogged = [] := by
      refine List.filterMap_eq_nil_iff.2 fun call hmem => ?_
      obtain ⟨id, hcall⟩ := List.mem_iff_getElem?.1 hmem
      rw [← call?_eq] at hcall
      refine unlogged_of_not_holdsRow ?_
      by_contra hholds
      exact hany ⟨id, call, hcall, by simpa using hholds⟩
    simp [hnothing]

end Steps

/-- In the runs in which privacy commands do not overlap and their entries are written, replaying
the audit log and the one change that is still to be logged gives the settings of the stored row;
once every command has returned, the log alone does. -/
theorem settings_replayed {ext : Externals} {app : App} {history : List Effect}
    (hreach : (machine ext).Reach App.Initial (fun app action => accountable app action = true) app
      history) {row : PrivacyState} (hrow : app.privacyRow = some row) :
    settingsOf row = replay .initial (app.store.auditLog ++ app.unlogged) ∧
      app.unlogged.length ≤ 1 ∧
      ((∀ call ∈ app.calls, call.isReturned = true) →
        settingsOf row = replay .initial app.store.auditLog) := by
  have hinv : Accounted app := by
    refine hreach.invariant (fun app _ => Accounted app) ?_ ?_
    · intro app hinit
      refine ⟨fun _ => hinit.1, fun i j c d hc => ?_, fun id call change current hc => ?_,
        fun row hrow => ?_, ?_⟩
      · simp [App.call?, hinit.2] at hc
      · simp [App.call?, hinit.2] at hc
      · simp [App.privacyRow, hinit.1] at hrow
      · rw [hinit.sweep_eq]
        trivial
    · exact fun app _ action app' es hinv hguard hstep => accounted_step hinv hguard hstep
  have hsettings := hinv.settings row hrow
  refine ⟨hsettings, hinv.length_unlogged_le, fun hreturned => ?_⟩
  · have hnothing : app.unlogged = [] := by
      refine List.filterMap_eq_nil_iff.2 fun call hcall => ?_
      have h := hreturned call hcall
      unfold Call.isReturned at h
      split at h
      · rename_i hpc
        simp [Call.unlogged, hpc]
      · cases h
    rwa [hnothing, List.append_nil] at hsettings

/-- The user deletes everything, consents again and pauses, and the pause is still to be logged. -/
theorem settings_replayed_pausing :
    ∃ app history row,
      (machine .reference).Reach App.Initial (fun app action => accountable app action = true) app
        history ∧
      app.privacyRow = some row ∧ app.store.auditLog.length = 3 ∧ app.unlogged ≠ [] ∧
      settingsOf row = replay .initial (app.store.auditLog ++ app.unlogged) ∧
      app.unlogged.length ≤ 1 ∧
      ((∀ call ∈ app.calls, call.isReturned = true) →
        settingsOf row = replay .initial app.store.auditLog) := by
  obtain ⟨app, history, hreach, htest⟩ := exists_run
    (fun app action => accountable app action = true)
    (fun app _ => app.privacyRow.isSome && app.store.auditLog.length == 3 &&
      !app.unlogged.isEmpty)
    (.launch (.plain (.repeating 1) [.measured]) :: Action.consenting 0 2 ++
      Action.complete 3 .deleteAllData 3 ++ Action.consenting 4 2 ++
        Action.complete 7 .pauseObservation 3) (by decide +kernel)
  simp only [Bool.and_eq_true, beq_iff_eq, Bool.not_eq_true', List.isEmpty_eq_false_iff] at htest
  rcases htest with ⟨⟨hsome, hlength⟩, hunlogged⟩
  obtain ⟨row, hrow⟩ := Option.isSome_iff_exists.1 hsome
  exact ⟨app, history, row, hreach, hrow, hlength, hunlogged, settings_replayed hreach hrow⟩

end Desktop
end HiddenSteps
