import HiddenSteps.EventStore.Store
import HiddenSteps.Pipeline.Process
import HiddenSteps.PrivacyEngine.Gate
import HiddenSteps.Recommendations.Synthesizer

/-!
# State — what the tasks of the desktop program share, and what they report

The encrypted file, the credential vault and the in-memory gate are shared by the commands and the
two background loops.  `Effect` lists what a run is judged by: each effect records an action of the
program together with the shared state it acted on.  The requests among them are those of sweeps.
-/

namespace HiddenSteps
namespace Desktop

open EventStore Patterns PrivacyEngine Recommendations

/-! ## The vault and the file -/

/-- 32 key bytes. -/
structure MasterKey where
  bytes : List UInt8
  length : bytes.length = 32
  deriving DecidableEq

/-- The entries of the operating system's credential vault. -/
abbrev Vault := String → Option (List UInt8)

def Vault.set (vault : Vault) (entry : String) (value : List UInt8) : Vault :=
  fun e => if e = entry then some value else vault e

@[simp] theorem Vault.set_same (vault : Vault) (entry : String) (value : List UInt8) :
    vault.set entry value entry = some value := by
  simp [Vault.set]

theorem Vault.set_ne (vault : Vault) {entry e : String} (value : List UInt8) (h : e ≠ entry) :
    vault.set entry value e = vault e := by
  simp [Vault.set, h]

def masterKeyEntry : String := "db-master-key"

/-- The encrypted file: the key it was last keyed with and its tables. -/
structure Database where
  key : MasterKey
  store : Store

/-! ## Sources of signals -/

inductive NotifyKind where
  | create
  | modify
  | remove
  | other
  deriving DecidableEq, Repr

/-- An event of the file-system watcher. -/
structure NotifyEvent where
  kind : NotifyKind
  paths : List String
  deriving DecidableEq

/-- A result of the watcher, `none` for a watcher error.  `permitted` records whether the stored
privacy state permitted observation when the file operation happened; the program does not read it. -/
structure Notification where
  event : Option NotifyEvent
  permitted : Bool
  deriving DecidableEq

/-- An observation source; a file-system watcher has a queue. -/
structure Source where
  id : String
  minPrivacyLevel : PrivacyLevel
  queue : Option (List Notification)
  /-- What has happened and has not been sent to the queue yet. -/
  inFlight : List Notification
  deriving DecidableEq

/-- What a source says of itself: `id` and `min_privacy_level`. -/
def Source.label (source : Source) : String × PrivacyLevel :=
  (source.id, source.minPrivacyLevel)

/-- Where a signal comes from: what a source measured when polled, or a file operation that
happened while observation was or was not permitted. -/
inductive Origin where
  | polled
  | fileOperation (permitted : Bool)
  deriving DecidableEq, Repr

structure TracedSignal where
  signal : CapturedSignal
  origin : Origin
  deriving DecidableEq

/-! ## Providers -/

/-- A live provider. -/
structure Provider where
  id : String
  isLocal : Bool
  endpoint : String
  apiKey : List UInt8
  model : String
  deriving DecidableEq

/-! ## Commands -/

structure SetAiProviderRequest where
  id : String
  providerType : String
  isLocal : Bool
  modelName : Option String
  endpoint : Option String
  apiKey : Option (List UInt8)
  deriving DecidableEq

structure SetPrivacyLevelRequest where
  level : Nat
  acknowledgedPermissions : List String
  deriving DecidableEq

structure SetRecommendationStatusRequest where
  id : Nat
  status : String
  dismissalReason : Option String
  deriving DecidableEq

/-- The commands that write to the store, the vault or the gate, twelve of the 26 registered ones.
The others write nothing and are no tasks of the machine; all but two of them only read, for the
interface to show.  `get_provider_detection` and `test_provider_connectivity` turn to a provider
outside the gate and the loops: the latter sends one fixed prompt, when the user asks for a check. -/
inductive Command where
  | setAiProvider (request : SetAiProviderRequest)
  | setPrivacyLevel (request : SetPrivacyLevelRequest)
  | completeOnboarding
  | acknowledgePrivacyManifest
  | pauseObservation
  | resumeObservation
  | deleteEvents (eventIds : List Nat)
  | exportData
  | deleteAllData
  | setRecommendationStatus (request : SetRecommendationStatusRequest)
  | setCloudConsent (granted : Bool)
  | updateSettings (key : String) (value : Json)
  deriving DecidableEq

/-! ## The outside of a step -/

/-- What the outside contributes to one step of a task: the clock, failures of the store and of the
vault with the texts of their errors, a fresh key, what a source measures, the order in which the
detector reports its patterns, and a provider's answer. -/
structure Outside where
  now : Timestamp
  storeFault : Option String
  /-- A failure behind the point where the store call took effect. -/
  lateFault : Option String
  vaultFault : Option String
  freshKey : MasterKey
  polled : Except String (List CapturedSignal)
  detected : List DetectedPattern
  answer : Except String String

/-! ## Effects -/

/-- What a sweep sends to a provider, and for which events. -/
structure Dispatch where
  provider : Provider
  request : CompletionRequest
  detected : DetectedPattern
  /-- The events the sweep read. -/
  events : List EventSummary
  deriving DecidableEq

inductive Effect where
  /-- A command returns; `eventSeq` is the id of the last event stored before it was invoked. -/
  | returned (command : Command) (eventSeq : Nat) (ok : Bool)
  /-- The transaction of a delete-all has committed. -/
  | erased (eventSeq : Nat)
  /-- A source is polled at a privacy level. -/
  | polled (source : String) (minPrivacyLevel level : PrivacyLevel)
  /-- An event is inserted; `row` is the stored privacy state at that moment. -/
  | stored (event : EventSummary) (origin : Origin) (row : Option PrivacyState)
  /-- The row of a pattern is inserted, or its statistics are updated, from a detected one. -/
  | patternStored (id : Nat) (detected : DetectedPattern)
  | recommendationStored (id : Nat) (detected : DetectedPattern)
  /-- A sweep sends a request; `consent` is what `get_cloud_consent` would return at that moment. -/
  | requested (dispatch : Dispatch) (consent : Bool)
  deriving DecidableEq

/-- Who reports an effect. -/
inductive Task where
  | command
  | observation
  | sweep
  deriving DecidableEq, Repr

def Effect.task : Effect → Task
  | returned .. | erased .. => .command
  | polled .. | stored .. => .observation
  | patternStored .. | recommendationStored .. | requested .. => .sweep

/-! ## Cloud consent -/

def cloudConsentSettingKey : String := "cloud_consent_general"

/-- `get_cloud_consent` -/
def getCloudConsent (store : Store) : Bool :=
  store.getSetting cloudConsentSettingKey == some (.bool true)

end Desktop
end HiddenSteps
