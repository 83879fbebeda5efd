import HiddenSteps.Desktop.State

/-!
# Commands — the commands as sequences of atomic steps

A command locks the store once for each store call, so other tasks can run between two of its
calls.  `CallPc` is where a running command stands; `Call.step` is its next step.
-/

namespace HiddenSteps
namespace Desktop

open EventStore PrivacyEngine

/-! ## Commands on the privacy state -/

/-- A command that reads the privacy row, changes one field and writes the row back. -/
inductive PrivacyCommand where
  | setLevel (requested effective : PrivacyLevel) (acknowledgedPermissions : List String)
  | completeOnboarding
  | acknowledgeManifest
  | pause
  | resume
  deriving DecidableEq

namespace PrivacyCommand

/-- The row it writes for the row it read. -/
def apply (command : PrivacyCommand) (current : PrivacyState) (now : Timestamp) : PrivacyState :=
  match command with
  | setLevel _ effective _ => { current with currentLevel := effective, updatedAt := now }
  | completeOnboarding => { current with observationActive := true, updatedAt := now }
  | acknowledgeManifest =>
      { current with
        consentedManifestVersion := HiddenSteps.currentManifestVersion
        updatedAt := now }
  | pause => { current with observationActive := false, updatedAt := now }
  | resume => { current with observationActive := true, updatedAt := now }

/-- What it records in the audit log. -/
def auditEntry (command : PrivacyCommand) (current : PrivacyState) (now : Timestamp) :
    AuditEntry :=
  match command with
  | setLevel requested effective acknowledgedPermissions =>
      .new now .user "privacy_level_changed"
        (.object
          [("acknowledged_permissions", .array (acknowledgedPermissions.map .string)),
            ("from", .number current.currentLevel.asU8),
            ("requested", .number requested.asU8),
            ("to", .number effective.asU8)])
  | completeOnboarding => .new now .user "observation_started" (.object [])
  | acknowledgeManifest =>
      .new now .user "privacy_manifest_reconsented"
        (.object [("version", .number HiddenSteps.currentManifestVersion)])
  | pause => .new now .user "observation_paused" (.object [])
  | resume => .new now .user "observation_resumed" (.object [])

/-- What it returns. -/
def result (command : PrivacyCommand) : Json :=
  match command with
  | setLevel _ effective _ => .number effective.asU8
  | completeOnboarding => .bool true
  | acknowledgeManifest => .bool true
  | pause => .bool false
  | resume => .bool true

end PrivacyCommand

/-- The checks of `set_privacy_level` before it reads the row. -/
def checkPrivacyLevel (policy : EnterprisePolicy) (request : SetPrivacyLevelRequest) :
    Except String PrivacyCommand :=
  match PrivacyLevel.fromU8 request.level with
  | .error e => .error e.message
  | .ok requested =>
      if requested ≠ .manual ∧ request.acknowledgedPermissions = [] then
        .error ("raising to privacy level " ++ toString requested.asU8 ++
          " requires acknowledging the permissions it introduces")
      else
        .ok (.setLevel requested (policy.effectivePrivacyLevel requested)
          request.acknowledgedPermissions)

/-! ## Other checks -/

def allowedSettingKeys : List String := [cloudConsentSettingKey]

def checkSettingKey (key : String) : Except String Unit :=
  if allowedSettingKeys.contains key then .ok ()
  else .error ("setting key '" ++ key ++ "' is not accessible via this command")

theorem key_of_checkSettingKey {key : String} (h : checkSettingKey key = .ok ()) :
    key = cloudConsentSettingKey := by
  by_cases hkey : allowedSettingKeys.contains key
  · simpa [allowedSettingKeys] using hkey
  · rw [checkSettingKey, if_neg hkey] at h
    cases h

def parseRecommendationStatus (value : String) : Except String RecommendationStatus :=
  if value = "suggested" then .ok .suggested
  else if value = "implemented" then .ok .implemented
  else if value = "dismissed" then .ok .dismissed
  else .error ("unknown recommendation status '" ++ value ++ "'")

/-- The vault entry that holds a provider's key. -/
def providerKeyEntry (providerId : String) : String := "provider-key-" ++ providerId

theorem providerKeyEntry_ne_masterKeyEntry (providerId : String) :
    providerKeyEntry providerId ≠ masterKeyEntry := by
  intro h
  have hlist := congrArg String.toList h
  rw [providerKeyEntry, String.toList_append] at hlist
  have hhead : ("provider-key-".toList ++ providerId.toList).head? = some 'p' := rfl
  rw [hlist] at hhead
  exact absurd hhead (by decide)

/-! ## Steps -/

/-- What a command returns to the interface. -/
inductive Reply where
  | json (value : Json)
  | exported (data : ExportedData)
  deriving DecidableEq

inductive CallPc where
  | start
  | storingProvider (request : SetAiProviderRequest) (vaultKeyRef : Option String)
  | activatingProvider (providerId : String)
  | readingState (command : PrivacyCommand)
  | writingState (command : PrivacyCommand) (current : PrivacyState)
  | openingGate (granted : Bool)
  | rekeying
  | storingKey (key : MasterKey)
  | logging (entry : AuditEntry) (reply : Reply)
  | returned (result : Except String Reply)

/-- A command that has been invoked. -/
structure Call where
  command : Command
  pc : CallPc
  /-- The id of the last event stored before it was invoked. -/
  eventSeq : Nat

namespace Call

/-- A command at its first step. -/
def begin (command : Command) (eventSeq : Nat) : Call :=
  { command := command, pc := .start, eventSeq := eventSeq }

def isReturned (call : Call) : Bool :=
  match call.pc with
  | .returned _ => true
  | _ => false

end Call

/-- What a command reads and writes. -/
structure Shared where
  vault : Vault
  database : Database
  gate : DispatchGate

namespace Shared

def store (shared : Shared) : Store := shared.database.store

def withStore (shared : Shared) (store : Store) : Shared :=
  { shared with database := { shared.database with store := store } }

@[simp] theorem withStore_store (shared : Shared) (store : Store) :
    (shared.withStore store).store = store := rfl

@[simp] theorem withStore_vault (shared : Shared) (store : Store) :
    (shared.withStore store).vault = shared.vault := rfl

@[simp] theorem withStore_gate (shared : Shared) (store : Store) :
    (shared.withStore store).gate = shared.gate := rfl

@[simp] theorem withStore_key (shared : Shared) (store : Store) :
    (shared.withStore store).database.key = shared.database.key := rfl

end Shared

/-- The shared state after a step, where the command stands, and what it reports. -/
structure Progress where
  shared : Shared
  pc : CallPc
  effects : List Effect

namespace Call

/-- Go on to another step. -/
def goOn (shared : Shared) (pc : CallPc) : Progress :=
  { shared := shared, pc := pc, effects := [] }

/-- Return a value. -/
def finish (call : Call) (shared : Shared) (reply : Reply) : Progress :=
  { shared := shared, pc := .returned (.ok reply)
    effects := [.returned call.command call.eventSeq true] }

/-- Return an error. -/
def fail (call : Call) (shared : Shared) (message : String) : Progress :=
  { shared := shared, pc := .returned (.error message)
    effects := [.returned call.command call.eventSeq false] }

/-- A call that fails without a trace, or goes on. -/
def guarded (call : Call) (shared : Shared) (fault : Option String) (go : Progress) : Progress :=
  match fault with
  | some message => fail call shared message
  | none => go

/-- The step of a command that has just been invoked. -/
def startStep (policy : EnterprisePolicy) (call : Call) (o : Outside) (shared : Shared) :
    Progress :=
  match call.command with
  | .setAiProvider request =>
      if !policy.isProviderAllowed request.id then
        fail call shared ("'" ++ request.id ++
          "' is not on this device's enterprise-approved provider list")
      else
        match request.apiKey with
        -- without a key the configuration has no vault entry
        | none => goOn shared (.storingProvider request none)
        | some apiKey =>
            guarded call shared o.vaultFault
              (goOn { shared with vault := shared.vault.set (providerKeyEntry request.id) apiKey }
                (.storingProvider request (some (providerKeyEntry request.id))))
  | .setPrivacyLevel request =>
      match checkPrivacyLevel policy request with
      | .error message => fail call shared message
      | .ok command => goOn shared (.readingState command)
  | .completeOnboarding => goOn shared (.readingState .completeOnboarding)
  | .acknowledgePrivacyManifest => goOn shared (.readingState .acknowledgeManifest)
  | .pauseObservation => goOn shared (.readingState .pause)
  | .resumeObservation => goOn shared (.readingState .resume)
  | .deleteEvents eventIds =>
      let deleted := shared.store.deleteEvents eventIds
      guarded call shared o.storeFault
        (goOn (shared.withStore deleted.2)
          (.logging (.new o.now .user "events_deleted" (.object [("count", .number deleted.1)]))
            (.json (.number deleted.1))))
  | .exportData =>
      -- the reads lock the store one by one; only the reply depends on them
      guarded call shared o.storeFault
        (match shared.store.exportData with
         | .error e => fail call shared e.message
         | .ok data =>
             goOn shared (.logging (.new o.now .user "data_exported" (.object []))
               (.exported data)))
  | .deleteAllData =>
      guarded call shared o.storeFault
        -- `VACUUM` runs behind the committed transaction
        (let erased := shared.withStore (shared.store.deleteAllData o.now)
         let report : Effect := .erased shared.store.eventSeq
         match o.lateFault with
         | some message =>
             { fail call erased message with
               effects := [report, .returned call.command call.eventSeq false] }
         | none => { goOn erased .rekeying with effects := [report] })
  | .setRecommendationStatus request =>
      match parseRecommendationStatus request.status with
      | .error message => fail call shared message
      | .ok status =>
          guarded call shared o.storeFault
            (finish call (shared.withStore
              (shared.store.setRecommendationStatus request.id status request.dismissalReason))
              (.json (.bool true)))
  | .setCloudConsent granted =>
      guarded call shared o.storeFault
        -- the setting comes first; the gate follows in a step of its own
        (goOn (shared.withStore (shared.store.setSetting cloudConsentSettingKey (.bool granted)))
          (.openingGate granted))
  | .updateSettings key value =>
      match checkSettingKey key with
      | .error message => fail call shared message
      | .ok () =>
          guarded call shared o.storeFault
            -- the one allowed key is that of the consent; the gate is left as it is
            (finish call (shared.withStore (shared.store.setSetting key value))
              (.json (.bool true)))

/-- Write the active configuration of a provider. -/
def providerConfig (request : SetAiProviderRequest) (vaultKeyRef : Option String) :
    LlmProviderConfig :=
  { id := request.id
    providerType := request.providerType
    isLocal := request.isLocal
    modelName := request.modelName
    endpoint := request.endpoint
    vaultKeyRef := vaultKeyRef
    active := false }

/-- The next step of a command; none once it has returned. -/
def step (policy : EnterprisePolicy) (call : Call) (o : Outside) (shared : Shared) :
    Option Progress :=
  match call.pc with
  | .start => some (startStep policy call o shared)
  | .storingProvider request vaultKeyRef =>
      some (guarded call shared o.storeFault
        (goOn (shared.withStore
          (shared.store.upsertLlmProvider (providerConfig request vaultKeyRef)))
          (.activatingProvider request.id)))
  | .activatingProvider providerId =>
      some (guarded call shared o.storeFault
        -- a delete-all may have removed the configuration that was just stored
        (match shared.store.setActiveLlmProvider providerId with
         | .error e => fail call shared e.message
         | .ok store =>
             goOn (shared.withStore store)
               (.logging (.new o.now .user "provider_changed"
                 (.object [("provider_id", .string providerId)])) (.json (.bool true)))))
  | .readingState command =>
      some (guarded call shared o.storeFault
        (match shared.store.getPrivacyState with
         | .error e => fail call shared e.message
         | .ok current => goOn shared (.writingState command current)))
  | .writingState command current =>
      some (guarded call shared o.storeFault
        -- the whole row is written, whatever has happened to it since it was read
        (goOn (shared.withStore (shared.store.setPrivacyState (command.apply current o.now)))
          (.logging (command.auditEntry current o.now) (.json command.result))))
  | .openingGate granted =>
      -- the gate has a lock of its own, taken when the setting has been written
      some (goOn { shared with
          gate :=
            if granted then shared.gate.grantGeneralCloudConsent
            else shared.gate.revokeGeneralCloudConsent }
        (.logging (.new o.now .user "cloud_consent_changed"
          (.object [("granted", .bool granted)])) (.json (.bool granted))))
  | .rekeying =>
      some (guarded call shared o.storeFault
        -- the new key is in force before it is verified
        (let rekeyed := { shared with database := { shared.database with key := o.freshKey } }
         match o.lateFault with
         | some message => fail call rekeyed message
         | none => goOn rekeyed (.storingKey o.freshKey)))
  | .storingKey key =>
      some (guarded call shared o.vaultFault
        (finish call { shared with vault := shared.vault.set masterKeyEntry key.bytes }
          (.json (.bool true))))
  | .logging entry reply =>
      -- a failure to log does not fail the command
      some (finish call
        (match o.storeFault with
         | some _ => shared
         | none => shared.withStore (shared.store.appendAuditEntry entry).2) reply)
  | .returned _ => none

end Call

end Desktop
end HiddenSteps
