import HiddenSteps.Desktop.AuditReplay

/-!
# AuditTrail — the audit log as the record of completed commands

A command that changes something for the user logs one entry as it returns.  The note of a run is
the entry that each command calls for, taken from its arguments and from what it finds as it makes
its change.  The user's entries of the log are those of commands that have been completed, in their
order; none is missing as long as the entries are written and nothing erases them.
-/

namespace HiddenSteps
namespace Desktop

open EventStore PrivacyEngine Recommendations Systems

/-! ## Commands and their entries -/

/-- The action that a completed command logs. -/
def Command.auditAction : Command → Option String
  | .setAiProvider _ => some "provider_changed"
  | .setPrivacyLevel _ => some "privacy_level_changed"
  | .completeOnboarding => some "observation_started"
  | .acknowledgePrivacyManifest => some "privacy_manifest_reconsented"
  | .pauseObservation => some "observation_paused"
  | .resumeObservation => some "observation_resumed"
  | .deleteEvents _ => some "events_deleted"
  | .exportData => some "data_exported"
  | .setCloudConsent _ => some "cloud_consent_changed"
  | .deleteAllData | .setRecommendationStatus _ | .updateSettings _ _ => none

/-- The entry for what a command does to a store, when it has read the given privacy row. -/
def Command.auditEntry (policy : EnterprisePolicy) (command : Command) (store : Store)
    (read : Option PrivacyState) (now : Timestamp) : Option AuditEntry :=
  match command with
  | .setAiProvider request =>
      some (.new now .user "provider_changed" (.object [("provider_id", .string request.id)]))
  | .deleteEvents eventIds =>
      some (.new now .user "events_deleted"
        (.object [("count", .number (store.deleteEvents eventIds).1)]))
  | .exportData => some (.new now .user "data_exported" (.object []))
  | .setCloudConsent granted =>
      some (.new now .user "cloud_consent_changed" (.object [("granted", .bool granted)]))
  | .setPrivacyLevel _ | .completeOnboarding | .acknowledgePrivacyManifest | .pauseObservation
  | .resumeObservation =>
      (command.privacyCommand? policy).bind fun change =>
        read.map fun row => change.auditEntry row now
  | .deleteAllData | .setRecommendationStatus _ | .updateSettings _ _ => none

/-- The user's entries, first to last, without their ids. -/
def userEntries (log : List AuditEntry) : List AuditEntry :=
  (log.filter fun entry => entry.actor == .user).map fun entry => { entry with id := none }

/-- The commands that have been completed and log an entry, first to last. -/
def completedCommands (history : List Effect) : List Command :=
  history.filterMap fun
    | .returned command _ true => if command.auditAction.isSome then some command else none
    | _ => none

/-- The entries are written and not erased. -/
def keepsTrail (app : App) : Action → Bool
  | .call id o =>
      (app.call? id).all fun call =>
        match call.pc with
        | .start => call.command != .deleteAllData
        | .logging _ _ => o.storeFault.isNone
        | _ => true
  | _ => true

/-! ## The note of a run -/

/-- The privacy row that a command has read, and the entry that its latest step calls for. -/
structure CallNotes where
  read : Option PrivacyState
  due : Option AuditEntry

/-- The notes on a command after its next step. -/
def CallNotes.next (policy : EnterprisePolicy) (call : Call) (o : Outside) (store : Store)
    (notes : CallNotes) : CallNotes :=
  match call.pc with
  | .readingState _ => { notes with read := store.privacyState }
  | .logging _ _ => notes
  | _ => { notes with due := call.command.auditEntry policy store notes.read o.now }

/-- The entry that is due for a command whose next step completes it. -/
def Call.completion (call : Call) (notes : CallNotes) : List (Command × AuditEntry) :=
  match call.pc with
  | .logging _ _ => notes.due.toList.map fun entry => (call.command, entry)
  | _ => []

/-- The notes on the commands under way, by their ids, and the commands that have been completed,
each with the entry that was due. -/
structure TrailNotes where
  calls : Nat → CallNotes
  completed : List (Command × AuditEntry)

def TrailNotes.start : TrailNotes :=
  { calls := fun _ => { read := none, due := none }, completed := [] }

section Lists

variable {log : List AuditEntry} {history : List Effect}

theorem completedCommands_append (es : List Effect) :
    completedCommands (history ++ es) = completedCommands history ++ completedCommands es :=
  List.filterMap_append

end Lists

/-! ## Where a command stands -/

/-- `set_privacy_level` carries a change of the level. -/
theorem exists_setLevel {policy : EnterprisePolicy} {request : SetPrivacyLevelRequest}
    {change : PrivacyCommand}
    (h : (Command.setPrivacyLevel request).privacyCommand? policy = some change) :
    ∃ requested effective acknowledged, change = .setLevel requested effective acknowledged := by
  simp only [Command.privacyCommand?, checkPrivacyLevel] at h
  cases hlevel : PrivacyLevel.fromU8 request.level with
  | error e => simp [hlevel, Except.toOption] at h
  | ok level =>
      simp only [hlevel] at h
      split at h
      · cases h
      · cases h
        exact ⟨_, _, _, rfl⟩

/-- An entry that is due for a command is the user's, with the action of the command and no id. -/
structure IsEntryOf (command : Command) (entry : AuditEntry) : Prop where
  actor : entry.actor = .user
  action : command.auditAction = some entry.actionType
  id : entry.id = none

theorem isEntryOf_auditEntry {policy : EnterprisePolicy} {command : Command} {store : Store}
    {read : Option PrivacyState} {now : Timestamp} {entry : AuditEntry}
    (h : command.auditEntry policy store read now = some entry) : IsEntryOf command entry := by
  cases command with
  | setPrivacyLevel request =>
      obtain ⟨change, hchange, hentry⟩ := Option.bind_eq_some_iff.1 h
      obtain ⟨row, -, rfl⟩ := Option.map_eq_some_iff.1 hentry
      obtain ⟨requested, effective, acknowledged, rfl⟩ := exists_setLevel hchange
      exact ⟨rfl, rfl, rfl⟩
  | completeOnboarding | acknowledgePrivacyManifest | pauseObservation | resumeObservation =>
      cases read with
      | none => cases h
      | some row =>
          cases h
          exact ⟨rfl, rfl, rfl⟩
  | setAiProvider | deleteEvents | exportData | setCloudConsent =>
      cases h
      exact ⟨rfl, rfl, rfl⟩
  | deleteAllData | setRecommendationStatus | updateSettings => cases h

/-- A command is on its own way, and one that logs has the entry that is due. -/
def Call.Tracks (policy : EnterprisePolicy) (notes : CallNotes) (call : Call) : Prop :=
  match call.pc with
  | .storingProvider request _ => call.command = .setAiProvider request
  | .activatingProvider providerId =>
      ∃ request, call.command = .setAiProvider request ∧ request.id = providerId
  | .readingState change => call.command.privacyCommand? policy = some change
  | .writingState change current =>
      call.command.privacyCommand? policy = some change ∧ notes.read = some current
  | .openingGate granted => call.command = .setCloudConsent granted
  | .rekeying | .storingKey _ => call.command = .deleteAllData
  | .logging entry _ => notes.due = some entry ∧ IsEntryOf call.command entry
  | .start | .returned _ => True

/-- What a step of a command does to the log and what it reports. -/
inductive TrailStep (policy : EnterprisePolicy) (notes : CallNotes) (call : Call) (o : Outside)
    (shared : Shared) (progress : Progress) : Prop where
  | silent (hlog : progress.shared.store.auditLog = shared.store.auditLog)
      (hcompletion : call.completion notes = [])
      (hreport : completedCommands progress.effects = [])
      (htracks : ({ call with pc := progress.pc } : Call).Tracks policy
        (notes.next policy call o shared.store))
  | logged (entry : AuditEntry) (reply : Reply) (hpc : call.pc = .logging entry reply)
      (hentry : IsEntryOf call.command entry)
      (hlog : o.storeFault = none → ∃ id, progress.shared.store.auditLog =
        shared.store.auditLog ++ [{ entry with id := id }])
      (hfault : o.storeFault ≠ none → progress.shared.store.auditLog = shared.store.auditLog)
      (hcompletion : call.completion notes = [(call.command, entry)])
      (hreport : completedCommands progress.effects = [call.command])
      (htracks : ({ call with pc := progress.pc } : Call).Tracks policy
        (notes.next policy call o shared.store))
  | erased (hpc : call.pc = .start) (hcommand : call.command = .deleteAllData)
      (hlog : progress.shared.store.auditLog = [])
      (hreport : completedCommands progress.effects = [])
      (htracks : ({ call with pc := progress.pc } : Call).Tracks policy
        (notes.next policy call o shared.store))

section Inversion

variable {policy : EnterprisePolicy} {notes : CallNotes} {call : Call} {o : Outside}
  {shared : Shared} {progress : Progress}

theorem TrailStep.fail (message : String) (hcompletion : call.completion notes = []) :
    TrailStep policy notes call o shared (Call.fail call shared message) :=
  .silent rfl hcompletion rfl trivial

theorem TrailStep.guarded {fault : Option String} {go : Progress}
    (hcompletion : call.completion notes = [])
    (hgo : TrailStep policy notes call o shared go) :
    TrailStep policy notes call o shared (Call.guarded call shared fault go) := by
  cases fault with
  | none => exact hgo
  | some message => exact .fail message hcompletion

/-- A command that returns without an entry logs none. -/
theorem TrailStep.finish {reply : Reply} {shared' : Shared}
    (hlog : shared'.store.auditLog = shared.store.auditLog)
    (hcompletion : call.completion notes = []) (haction : call.command.auditAction = none) :
    TrailStep policy notes call o shared (Call.finish call shared' reply) :=
  .silent hlog hcompletion (by simp [Call.finish, completedCommands, haction]) trivial

/-- A command that goes on to log its entry has just called for it. -/
theorem TrailStep.change {entry : AuditEntry} {reply : Reply} {shared' : Shared}
    (hlog : shared'.store.auditLog = shared.store.auditLog)
    (hcompletion : call.completion notes = [])
    (hnext : notes.next policy call o shared.store =
      { notes with due := call.command.auditEntry policy shared.store notes.read o.now })
    (hentry : call.command.auditEntry policy shared.store notes.read o.now = some entry) :
    TrailStep policy notes call o shared (Call.goOn shared' (.logging entry reply)) :=
  .silent hlog hcompletion rfl ⟨by rw [hnext, ← hentry], isEntryOf_auditEntry hentry⟩

end Inversion

/-! ## Runs -/

/-- The user's entries are those that were due for completed commands. -/
structure Trail (app : App) (notes : TrailNotes) (history : List Effect) : Prop where
  tracks : ∀ policy id call, app.policy = some policy → app.call? id = some call →
    call.Tracks policy (notes.calls id)
  sweep : app.sweep.LogsQuietly
  completed : notes.completed.map Prod.fst = completedCommands history
  sublist : (userEntries app.store.auditLog).Sublist (notes.completed.map Prod.snd)

section Steps

variable {ext : Externals} {app app' : App} {notes : TrailNotes} {action : Action}
  {history es : List Effect}

/-- A step that completes no command. -/
theorem Trail.frame {notes' : TrailNotes} (hinv : Trail app notes history)
    (htracks : ∀ policy id call, app'.policy = some policy → app'.call? id = some call →
      call.Tracks policy (notes'.calls id))
    (hsweep : app'.sweep.LogsQuietly) (hcompleted : notes'.completed = notes.completed)
    (hlog : userEntries app'.store.auditLog = userEntries app.store.auditLog)
    (hreport : completedCommands es = []) :
    Trail app' notes' (history ++ es) ∧
      (keepsTrail app action = true →
        userEntries app.store.auditLog = notes.completed.map Prod.snd →
          userEntries app'.store.auditLog = notes'.completed.map Prod.snd) := by
  refine ⟨⟨htracks, hsweep, ?_, ?_⟩, fun _ h => ?_⟩
  · rw [hcompleted, completedCommands_append, hreport, List.append_nil]
    exact hinv.completed
  · rw [hlog, hcompleted]
    exact hinv.sublist
  · rw [hlog, hcompleted, h]

end Steps

end Desktop
end HiddenSteps
