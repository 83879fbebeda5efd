import HiddenSteps.Domain.Event
import Mathlib.Data.Rat.Defs

/-!
# Records — patterns, recommendations, audit entries, providers and policies

Minutes and confidences are rationals.  A confidence, and what the tables hold, is the exact value
of a floating-point number; minutes are computed without the roundings of the source, whose numbers
only approximate them.
-/

namespace HiddenSteps

/-! ## Patterns -/

inductive PatternStatus where
  | active
  | stale
  | dismissed
  deriving DecidableEq, Repr

structure Pattern where
  id : Option Nat
  firstSeenAt : Timestamp
  lastSeenAt : Timestamp
  occurrenceCount : Nat
  estimatedMinutesPerOccurrence : Option ℚ
  sequenceSignature : Json
  status : PatternStatus
  deriving DecidableEq

/-! ## Recommendations -/

inductive RecommendationCategory where
  | shortcut
  | template
  | script
  | browserAutomation
  | rpa
  | workflowPlatform
  | aiAgent
  | hybrid
  deriving DecidableEq, Repr

inductive Level where
  | low
  | medium
  | high
  deriving DecidableEq, Repr

inductive RecommendationStatus where
  | suggested
  | implemented
  | dismissed
  deriving DecidableEq, Repr

structure Alternative where
  approach : String
  tradeoff : String
  deriving DecidableEq, Repr

structure Recommendation where
  id : Option Nat
  patternId : Nat
  createdAt : Timestamp
  title : String
  category : RecommendationCategory
  why : String
  confidence : ℚ
  estimatedTimeSavedMinutes : ℚ
  difficulty : Level
  maintenanceBurden : Level
  privacyImplications : String
  implementationEffort : String
  alternatives : List Alternative
  assumptions : List String
  ignoredInformation : List String
  generatingProvider : String
  status : RecommendationStatus
  dismissalReason : Option String
  deriving DecidableEq

/-! ## Audit log -/

inductive AuditActor where
  | user
  | system
  deriving DecidableEq, Repr

structure AuditEntry where
  id : Option Nat
  occurredAt : Timestamp
  actor : AuditActor
  actionType : String
  details : Json
  deriving DecidableEq

def AuditEntry.new (occurredAt : Timestamp) (actor : AuditActor) (actionType : String)
    (details : Json) : AuditEntry :=
  { id := none, occurredAt := occurredAt, actor := actor, actionType := actionType,
    details := details }

/-! ## Providers -/

structure LlmProviderConfig where
  id : String
  providerType : String
  isLocal : Bool
  modelName : Option String
  endpoint : Option String
  vaultKeyRef : Option String
  active : Bool
  deriving DecidableEq

/-! ## Enterprise policy -/

structure EnterprisePolicy where
  policySource : Option String
  privacyLevelFloor : Option Nat
  providerAllowlist : Option (List String)
  deriving DecidableEq

inductive PolicyError where
  | parse (message : String)
  | invalidFloor (error : PrivacyLevelError)
  deriving DecidableEq, Repr

def PolicyError.message : PolicyError → String
  | parse message => "failed to parse policy: " ++ message
  | invalidFloor error => "invalid privacy_level_floor: " ++ error.message

namespace EnterprisePolicy

/-- The check behind `serde_json::from_str`, which `read` is the result of. -/
def parse (read : Except String EnterprisePolicy) : Except PolicyError EnterprisePolicy :=
  match read with
  | .error message => .error (.parse message)
  | .ok policy =>
      match policy.privacyLevelFloor with
      | none => .ok policy
      | some floor =>
          match PrivacyLevel.fromU8 floor with
          | .error e => .error (.invalidFloor e)
          | .ok _ => .ok policy

/-- No constraints at all. -/
def unrestricted : EnterprisePolicy :=
  { policySource := none, privacyLevelFloor := none, providerAllowlist := none }

/-- Raise the user's choice to the floor, never lower it. -/
def effectivePrivacyLevel (policy : EnterprisePolicy) (userChoice : PrivacyLevel) :
    PrivacyLevel :=
  -- a floor that is no level is ignored
  match policy.privacyLevelFloor.bind fun f => (PrivacyLevel.fromU8 f).toOption with
  | some floor => if floor > userChoice then floor else userChoice
  | none => userChoice

def isProviderAllowed (policy : EnterprisePolicy) (providerId : String) : Bool :=
  match policy.providerAllowlist with
  | none => true
  | some allowed => allowed.any fun p => p == providerId

end EnterprisePolicy

end HiddenSteps
