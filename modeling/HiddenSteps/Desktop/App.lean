import HiddenSteps.Desktop.CommandSteps
import HiddenSteps.Desktop.LoopSteps
import HiddenSteps.Systems.Watched

/-!
# App — launches, commands and the two loops as one machine

A launch resolves the master key, opens the file and starts the two loops.  From then on a step of
the machine is a step of one command or one loop, a file operation, a notification of it by the
file-system watcher, a new command, or the end of the process.  Any interleaving of these is a run.
-/

namespace HiddenSteps
namespace Desktop

open EventStore Patterns Pipeline PrivacyEngine Recommendations Systems

/-- What the program takes from outside the repository. -/
structure Externals where
  redactor : Redaction.Scanner
  synthesis : Recommendations.Externals

/-- A running process. -/
structure Process where
  gate : DispatchGate
  policy : EnterprisePolicy
  sources : List Source
  observation : ObservationPc
  sweep : SweepPc
  calls : List Call

/-- The device: the vault, the encrypted file and the process, if there are any. -/
structure App where
  vault : Vault
  file : Option Database
  process : Option Process

namespace App

/-- The tables of the file; a device without a file has none. -/
def store (app : App) : Store :=
  match app.file with
  | none => .empty
  | some database => database.store

/-- The stored privacy row. -/
def privacyRow (app : App) : Option PrivacyState :=
  app.file.bind fun database => database.store.privacyState

/-- Where the observation loop stands. -/
def observation (app : App) : ObservationPc :=
  match app.process with
  | none => .stopped
  | some process => process.observation

def sources (app : App) : List Source :=
  match app.process with
  | none => []
  | some process => process.sources

/-- Where the sweep stands. -/
def sweep (app : App) : SweepPc :=
  match app.process with
  | none => .start
  | some process => process.sweep

def calls (app : App) : List Call :=
  match app.process with
  | none => []
  | some process => process.calls

end App

/-! ## Launch -/

/-- What a launch meets: the clock, a fresh key, failures of single calls, the policy file
(`some none` when it does not parse) and the sources that could be started. -/
structure LaunchInput where
  now : Timestamp
  freshKey : MasterKey
  vaultGetFails : Bool
  vaultSetFails : Bool
  openFails : Bool
  settingFails : Bool
  policyFails : Bool
  policyFile : Option (Option EnterprisePolicy)
  sources : List Source

/-- The key of the session and the vault afterwards. -/
def resolveMasterKey (vault : Vault) (input : LaunchInput) : MasterKey × Vault :=
  let fresh : MasterKey × Vault :=
    ( input.freshKey,
      if input.vaultSetFails then vault else vault.set masterKeyEntry input.freshKey.bytes )
  -- a read that fails is treated like an entry that is not there
  if input.vaultGetFails then fresh
  else
    match vault masterKeyEntry with
    | none => fresh
    | some existing =>
        if h : existing.length = 32 then ({ bytes := existing, length := h }, vault) else fresh

/-- `SqlCipherEventStore::open`: a new file is keyed, an existing one opens with its key only. -/
def openStore (file : Option Database) (key : MasterKey) (now : Timestamp) : Option Database :=
  match file with
  -- SQLCipher keys a new file with the first key it is given
  | none => some { key := key, store := Store.empty.migrate now }
  | some database =>
      if database.key = key then some { database with store := database.store.migrate now }
      else none

/-- The gate of a fresh process. -/
def rebuildGate (store : Store) (input : LaunchInput) : DispatchGate :=
  if !input.settingFails && getCloudConsent store then
    DispatchGate.new.grantGeneralCloudConsent
  else
    .new

/-- The policy of a fresh process; a policy file is persisted. -/
def resolveEnterprisePolicy (store : Store) (input : LaunchInput) : EnterprisePolicy × Store :=
  match input.policyFile with
  -- an unreadable file is treated like one that is not there
  | some (some policy) =>
      (policy, if input.policyFails then store else store.setEnterprisePolicy policy)
  | _ => ((if input.policyFails then none else store.getEnterprisePolicy).getD .unrestricted, store)

/-- A fresh process: both loops at their start, no command, nothing queued. -/
def Process.start (store : Store) (input : LaunchInput) : Process where
  gate := rebuildGate store input
  policy := (resolveEnterprisePolicy store input).1
  sources := input.sources.map fun s => { s with queue := s.queue.map fun _ => [], inFlight := [] }
  observation := if input.sources.isEmpty then .stopped else .tick
  sweep := .start
  calls := []

def launch (app : App) (input : LaunchInput) : App :=
  let (key, vault) := resolveMasterKey app.vault input
  let opened := if input.openFails then none else openStore app.file key input.now
  match opened with
  -- the program ends; what it has written to the vault stays
  | none => { app with vault := vault }
  | some database =>
      { vault := vault
        file := some { database with store := (resolveEnterprisePolicy database.store input).2 }
        process := some (.start database.store input) }

/-- A launch leaves the file alone, or opens it and starts a process. -/
theorem launch_cases (app : App) (input : LaunchInput) :
    (launch app input).vault = (resolveMasterKey app.vault input).2 ∧
      (((launch app input).file = app.file ∧ (launch app input).process = app.process) ∨
        ∃ database, input.openFails = false ∧
          openStore app.file (resolveMasterKey app.vault input).1 input.now = some database ∧
          (launch app input).file =
            some { database with store := (resolveEnterprisePolicy database.store input).2 } ∧
          (launch app input).process = some (.start database.store input)) := by
  unfold launch
  simp only
  split
  · exact ⟨rfl, Or.inl ⟨rfl, rfl⟩⟩
  · rename_i database hopened
    split at hopened
    · cases hopened
    · rename_i hopenFails
      exact ⟨rfl, Or.inr ⟨database, by simpa using hopenFails, hopened, rfl, rfl⟩⟩

theorem openStore_eq_some {file : Option Database} {key : MasterKey} {now : Timestamp}
    {database : Database} (h : openStore file key now = some database) :
    database.key = key ∧
      (file = none ∧ database.store = Store.empty.migrate now ∨
        ∃ old, file = some old ∧ old.key = key ∧ database.store = old.store.migrate now) := by
  cases file with
  | none =>
      cases h
      exact ⟨rfl, Or.inl ⟨rfl, rfl⟩⟩
  | some old =>
      simp only [openStore] at h
      split at h
      · rename_i hkey
        cases h
        exact ⟨hkey, Or.inr ⟨old, rfl, hkey, rfl⟩⟩
      · cases h

/-- Loading the policy writes the stored policy only. -/
theorem resolveEnterprisePolicy_store (store : Store) (input : LaunchInput) :
    ∃ policy, (resolveEnterprisePolicy store input).2 =
      { store with enterprisePolicy := policy } := by
  unfold resolveEnterprisePolicy
  split
  · split
    · exact ⟨store.enterprisePolicy, rfl⟩
    · exact ⟨_, rfl⟩
  · exact ⟨store.enterprisePolicy, rfl⟩

/-- An opened file is the migrated one; a file that was not there is an empty one. -/
theorem App.store_of_openStore {app : App} {key : MasterKey} {now : Timestamp}
    {database : Database} (h : openStore app.file key now = some database) :
    database.store = app.store.migrate now := by
  rcases openStore_eq_some h with ⟨_, ⟨hnone, hstore⟩ | ⟨old, hsome, _, hstore⟩⟩
  · rw [hstore, App.store, hnone]
  · rw [hstore, App.store, hsome]

/-- A launch writes the schema version, the privacy row and the policy only. -/
theorem launch_store (app : App) (input : LaunchInput) :
    ∃ versions row policy, (launch app input).store =
      { app.store with
        schemaVersions := versions
        privacyState := row
        enterprisePolicy := policy } := by
  rcases (launch_cases app input).2 with ⟨hfile, _⟩ | ⟨opened, _, hopened, hfile, _⟩
  · refine ⟨app.store.schemaVersions, app.store.privacyState, app.store.enterprisePolicy, ?_⟩
    rw [App.store, hfile]
    rfl
  · rcases resolveEnterprisePolicy_store opened.store input with ⟨policy, hpolicy⟩
    rcases Store.migrate_eq app.store input.now with ⟨versions, row, hmigrate⟩
    have hopened : opened.store = app.store.migrate input.now := App.store_of_openStore hopened
    refine ⟨versions, row, policy, ?_⟩
    rw [App.store, hfile]
    show (resolveEnterprisePolicy opened.store input).2 = _
    rw [hpolicy, hopened, hmigrate]

/-! ## Steps -/

inductive Action where
  | launch (input : LaunchInput)
  | exit
  | invoke (command : Command)
  | call (id : Nat) (o : Outside)
  | observe (o : Outside)
  | sweep (o : Outside)
  /-- A file operation happens where a source watches, or its watcher fails. -/
  | operate (source : Nat) (event : Option NotifyEvent)
  /-- The watcher of a source sends its next result to the queue. -/
  | notify (source : Nat)

namespace App

/-- Whether the stored privacy state permits observation. -/
def permitsObservation (store : Store) : Bool :=
  store.privacyState.any PrivacyState.permitsObservation

/-- The running command of an id. -/
def call? (app : App) (id : Nat) : Option Call :=
  app.process.bind fun process => process.calls[id]?

/-- Invoke a command. -/
def invoke (database : Database) (process : Process) (command : Command) : Process :=
  { process with calls := process.calls ++ [Call.begin command database.store.eventSeq] }

/-- Note a file operation, with the privacy state under which it happens. -/
def operate (database : Database) (process : Process) (source : Nat) (event : Option NotifyEvent) :
    Process :=
  let notification : Notification :=
    { event := event, permitted := permitsObservation database.store }
  { process with
    sources := process.sources.modify source fun s =>
      { s with inFlight := s.inFlight ++ [notification] } }

/-- Queue the next result of a watcher. -/
def deliver (process : Process) (source : Nat) : Process :=
  { process with sources := process.sources.modify source Source.send }

/-- A step of the running process. -/
def run (ext : Externals) (vault : Vault) (database : Database) (process : Process) :
    Action → Option (App × List Effect)
  | .launch _ => none
  | .exit => some ({ vault := vault, file := some database, process := none }, [])
  | .invoke command =>
      some
        ( { vault := vault, file := some database
            process := some (invoke database process command) },
          [] )
  | .call id o => do
      let call ← process.calls[id]?
      let shared : Shared := { vault := vault, database := database, gate := process.gate }
      let progress ← call.step process.policy o shared
      some
        ( { vault := progress.shared.vault
            file := some progress.shared.database
            process := some
              { process with
                gate := progress.shared.gate
                calls := process.calls.set id { call with pc := progress.pc } } },
          progress.effects )
  | .observe o => do
      let progress ← Observation.step (.new ext.redactor) process.observation o database.store
        process.sources
      some
        ( { vault := vault
            file := some { database with store := progress.store }
            process := some
              { process with sources := progress.sources, observation := progress.pc } },
          progress.effects )
  | .sweep o => do
      let progress ← Sweep.step ext.synthesis vault process.gate process.sweep o database.store
      some
        ( { vault := vault
            file := some { database with store := progress.store }
            process := some { process with sweep := progress.pc } },
          progress.effects )
  | .operate source event =>
      some
        ( { vault := vault, file := some database
            process := some (operate database process source event) },
          [] )
  | .notify source =>
      some ({ vault := vault, file := some database, process := some (deliver process source) }, [])

/-- A step of the device: a launch while no process runs, a step of the process while one does. -/
def step (ext : Externals) (app : App) (action : Action) : Option (App × List Effect) :=
  match app.process with
  | none =>
      match action with
      | .launch input => some (Desktop.launch app input, [])
      | _ => none
  | some process => app.file.bind fun database => run ext app.vault database process action

/-- No process runs and there is no file. -/
def Initial (app : App) : Prop :=
  app.file = none ∧ app.process = none

theorem Initial.store_eq {app : App} (h : app.Initial) : app.store = .empty := by
  rw [App.store, h.1]

theorem Initial.sweep_eq {app : App} (h : app.Initial) : app.sweep = .start := by
  rw [App.sweep, h.2]

end App

/-- The device as a machine. -/
def machine (ext : Externals) : Machine App Action Effect where
  step := App.step ext

/-! ## One step, by the task that takes it -/

/-- What a step of the device does. -/
inductive AppStep (ext : Externals) : App → Action → App → List Effect → Prop where
  | launch {app : App} {input : LaunchInput} (hprocess : app.process = none) :
      AppStep ext app (.launch input) (Desktop.launch app input) []
  | exit {vault : Vault} {database : Database} {process : Process} :
      AppStep ext ⟨vault, some database, some process⟩ .exit ⟨vault, some database, none⟩ []
  | invoke {vault : Vault} {database : Database} {process : Process} {command : Command} :
      AppStep ext ⟨vault, some database, some process⟩ (.invoke command)
        ⟨vault, some database, some (App.invoke database process command)⟩ []
  | call {vault : Vault} {database : Database} {process : Process} {id : Nat} {o : Outside}
      {call : Call} {progress : Progress} (hcall : process.calls[id]? = some call)
      (hstep : CallStep call o ⟨vault, database, process.gate⟩ call.pc progress) :
      AppStep ext ⟨vault, some database, some process⟩ (.call id o)
        ⟨progress.shared.vault, some progress.shared.database,
          some { process with
            gate := progress.shared.gate
            calls := process.calls.set id { call with pc := progress.pc } }⟩
        progress.effects
  | observe {vault : Vault} {database : Database} {process : Process} {o : Outside}
      {progress : ObservationProgress}
      (hstep : ObservationStep (.new ext.redactor) o database.store process.sources
        process.observation progress) :
      AppStep ext ⟨vault, some database, some process⟩ (.observe o)
        ⟨vault, some { database with store := progress.store },
          some { process with sources := progress.sources, observation := progress.pc }⟩
        progress.effects
  | sweep {vault : Vault} {database : Database} {process : Process} {o : Outside}
      {progress : SweepProgress}
      (hstep : SweepStep vault process.gate o database.store process.sweep progress) :
      AppStep ext ⟨vault, some database, some process⟩ (.sweep o)
        ⟨vault, some { database with store := progress.store },
          some { process with sweep := progress.pc }⟩
        progress.effects
  | operate {vault : Vault} {database : Database} {process : Process} {source : Nat}
      {event : Option NotifyEvent} :
      AppStep ext ⟨vault, some database, some process⟩ (.operate source event)
        ⟨vault, some database, some (App.operate database process source event)⟩ []
  | notify {vault : Vault} {database : Database} {process : Process} {source : Nat} :
      AppStep ext ⟨vault, some database, some process⟩ (.notify source)
        ⟨vault, some database, some (App.deliver process source)⟩ []

/-- The inversion of a step: exactly one task takes it. -/
theorem appStep_of_step {ext : Externals} {app app' : App} {action : Action} {es : List Effect}
    (h : (machine ext).step app action = some (app', es)) : AppStep ext app action app' es := by
  rcases app with ⟨vault, file, process⟩
  cases process with
  | none =>
      cases action with
      | launch input =>
          cases h
          exact .launch rfl
      | _ => cases h
  | some process =>
      cases file with
      | none => cases h
      | some database =>
          replace h : App.run ext vault database process action = some (app', es) := h
          cases action with
          | launch input => cases h
          | exit =>
              cases h
              exact .exit
          | invoke command =>
              cases h
              exact .invoke
          | call id o =>
              simp only [App.run, bind, Option.bind_eq_some_iff, Option.some.injEq,
                Prod.mk.injEq] at h
              rcases h with ⟨call, hcall, progress, hstep, rfl, rfl⟩
              exact .call hcall (callStep_of_step hstep)
          | observe o =>
              simp only [App.run, bind, Option.bind_eq_some_iff, Option.some.injEq,
                Prod.mk.injEq] at h
              rcases h with ⟨progress, hstep, rfl, rfl⟩
              exact .observe (observationStep_of_step hstep)
          | sweep o =>
              simp only [App.run, bind, Option.bind_eq_some_iff, Option.some.injEq,
                Prod.mk.injEq] at h
              rcases h with ⟨progress, hstep, rfl, rfl⟩
              exact .sweep (sweepStep_of_step hstep)
          | operate source event =>
              cases h
              exact .operate
          | notify source =>
              cases h
              exact .notify

/-! ## Inputs of a step at which nothing fails -/

/-- 32 equal bytes. -/
def MasterKey.repeating (b : UInt8) : MasterKey :=
  { bytes := List.replicate 32 b, length := by simp }

/-- Exact entropy, ASCII classes, and a provider whose answers never parse. -/
def Externals.reference : Externals where
  redactor := .reference
  synthesis :=
    { classes := .asciiAndArabicIndic
      parseFields := fun _ => .error "expected value at line 1 column 1"
      showFloat := fun q => toString q }

/-- A launch at which every call succeeds and no policy file is there. -/
def LaunchInput.plain (freshKey : MasterKey) (sources : List Source) : LaunchInput where
  now := 0
  freshKey := freshKey
  vaultGetFails := false
  vaultSetFails := false
  openFails := false
  settingFails := false
  policyFails := false
  policyFile := none
  sources := sources

/-- A step at which every call succeeds and nothing comes in. -/
def Outside.plain (now : Timestamp) : Outside where
  now := now
  storeFault := none
  lateFault := none
  vaultFault := none
  freshKey := .repeating 0
  polled := .ok []
  detected := []
  answer := .error "no answer"

/-- Invoke a command and take some of its steps, as the call of a number. -/
def Action.complete (id : Nat) (command : Command) (steps : Nat) : List Action :=
  .invoke command :: List.replicate steps (.call id (.plain 0))

/-- The user turns observation on and chooses a level: three calls from a number on. -/
def Action.consenting (first level : Nat) : List Action :=
  complete first .completeOnboarding 4 ++ complete (first + 1) .acknowledgePrivacyManifest 4 ++
    complete (first + 2) (.setPrivacyLevel ⟨level, ["metadata"]⟩) 4

/-- A file-system watcher. -/
def Source.watcher : Source :=
  { id := "linux.file_operations", minPrivacyLevel := .workflowMetadata, queue := some []
    inFlight := [] }

/-- A source that is measured when it is polled. -/
def Source.measured : Source :=
  { id := "linux.active_window", minPrivacyLevel := .applicationMetadata, queue := none
    inFlight := [] }

/-- Two windows get the focus in turn, three times. -/
def focusChanges : List CapturedSignal :=
  (List.replicate 3 ["a", "b"]).flatten.map fun app => ⟨"linux.active_window", .appFocusChange app⟩

/-- The pattern of the events of `focusChanges`, by the id of the first. -/
def focusPattern (first : Nat) : DetectedPattern :=
  { signature := ["app_focus_change:a", "app_focus_change:b"]
    occurrenceCount := 3
    firstSeenAt := 0
    lastSeenAt := 0
    estimatedMinutesPerOccurrence := 0
    contributingEventIds := List.range' first 6
    containsVerbatimStrings := false }

/-- A tick that captures `focusChanges` and ends. -/
def Action.capturing : List Action :=
  [.observe (.plain 0), .observe { Outside.plain 0 with polled := .ok focusChanges }] ++
    List.replicate 8 (.observe (.plain 0))

/-- A sweep that detects a pattern, with a number of steps after it has read the events. -/
def Action.sweeping (detected : DetectedPattern) (steps : Nat) : List Action :=
  [.sweep (.plain 0), .sweep (.plain 0),
      .sweep { Outside.plain 0 with detected := [detected] }] ++
    List.replicate steps (.sweep (.plain 0))

/-- A device with an empty vault and no file. -/
def App.fresh : App := { vault := fun _ => none, file := none, process := none }

theorem App.fresh_initial : App.Initial App.fresh := ⟨rfl, rfl⟩

/-- Executing some actions on a fresh device shows that a run with a tested outcome exists. -/
theorem exists_run (guard : App → Action → Prop) [∀ app action, Decidable (guard app action)]
    (test : App → List Effect → Bool) (actions : List Action)
    (hexec : ((machine .reference).exec guard App.fresh actions).any
      (fun r => test r.1 r.2) = true) :
    ∃ app history, (machine .reference).Reach App.Initial guard app history ∧
      test app history = true :=
  Machine.exists_reach (machine .reference) guard test actions App.fresh_initial hexec

/-- The same with a note beside the device. -/
theorem exists_watched_run {γ : Type} (note : App → Action → γ → γ) (blank : γ)
    (guard : App → Action → Prop) [∀ app action, Decidable (guard app action)]
    (test : App → γ → Bool) (actions : List Action)
    (hexec : (((machine .reference).watched note).exec (fun s action => guard s.1 action)
      (App.fresh, blank) actions).any (fun r => test r.1.1 r.1.2) = true) :
    ∃ watched history, Machine.WatchedReach (machine .reference) note blank App.Initial guard
      watched history ∧ test watched.1 watched.2 = true :=
  Machine.exists_reach _ (fun (s : App × γ) action => guard s.1 action) (fun s _ => test s.1 s.2)
    actions ⟨App.fresh_initial, rfl⟩ hexec

end Desktop
end HiddenSteps
