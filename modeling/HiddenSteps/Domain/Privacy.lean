import Mathlib.Order.Lattice
import Mathlib.Order.Nat

/-!
# Privacy — privacy levels and the privacy state

Times are UTC instants, counted in nanoseconds since the epoch.
-/

namespace HiddenSteps

/-- A UTC instant in nanoseconds since the epoch. -/
abbrev Timestamp := Int

inductive PrivacyLevel where
  | manual
  | applicationMetadata
  | workflowMetadata
  | contextAware
  | maximumAssistance
  deriving DecidableEq, Repr

inductive PrivacyLevelError where
  | outOfRange (value : Nat)
  deriving DecidableEq, Repr

def PrivacyLevelError.message : PrivacyLevelError → String
  | outOfRange value => toString value ++ " is not a valid privacy level (expected 0-4)"

namespace PrivacyLevel

def asU8 : PrivacyLevel → Nat
  | manual => 0
  | applicationMetadata => 1
  | workflowMetadata => 2
  | contextAware => 3
  | maximumAssistance => 4

def all : List PrivacyLevel :=
  [manual, applicationMetadata, workflowMetadata, contextAware, maximumAssistance]

def fromU8 (value : Nat) : Except PrivacyLevelError PrivacyLevel :=
  match all.find? fun level => level.asU8 == value with
  | some level => .ok level
  | none => .error (.outOfRange value)

theorem asU8_injective : Function.Injective asU8 := by
  intro a b h
  cases a <;> cases b <;> first | rfl | cases h

/-- Each level is a superset of the one below it. -/
instance : LinearOrder PrivacyLevel :=
  LinearOrder.lift' asU8 asU8_injective

theorem le_maximumAssistance (level : PrivacyLevel) : level ≤ maximumAssistance := by
  cases level <;> decide

end PrivacyLevel

/-- The privacy manifest version this build ships with. -/
def currentManifestVersion : Int := 1

def requiresReconsent (consentedManifestVersion currentManifestVersion : Int) : Bool :=
  decide (consentedManifestVersion < currentManifestVersion)

structure PrivacyState where
  currentLevel : PrivacyLevel
  consentedManifestVersion : Int
  observationActive : Bool
  updatedAt : Timestamp
  deriving DecidableEq

namespace PrivacyState

/-- The state of a brand-new profile. -/
def initial (now : Timestamp) : PrivacyState where
  -- nothing is observed before the user has chosen a level and agreed to the manifest
  currentLevel := .manual
  consentedManifestVersion := 0
  observationActive := false
  updatedAt := now

/-- The test the observation loop makes at the start of a tick. -/
def permitsObservation (state : PrivacyState) : Bool :=
  !(!state.observationActive || state.currentLevel == .manual ||
    requiresReconsent state.consentedManifestVersion HiddenSteps.currentManifestVersion)

theorem permitsObservation_iff {state : PrivacyState} :
    state.permitsObservation = true ↔
      state.observationActive = true ∧ state.currentLevel ≠ .manual ∧
        HiddenSteps.currentManifestVersion ≤ state.consentedManifestVersion := by
  simp [permitsObservation, requiresReconsent, and_assoc]

end PrivacyState

end HiddenSteps
