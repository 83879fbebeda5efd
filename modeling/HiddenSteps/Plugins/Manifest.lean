import Mathlib.Data.List.Basic
import Mathlib.Tactic.Common

/-!
# Manifest — what a plugin declares
-/

namespace HiddenSteps
namespace Plugins

/-- The closed enumeration of what a plugin may be granted. -/
inductive Capability where
  | observeActiveWindow
  | observeClipboardMetadata
  | observeFileOperations
  | observeScreenshot
  | networkOutbound
  | filesystemReadMetadata
  | providerLlm
  | providerEmbedding
  | policyRead
  deriving DecidableEq, Repr

namespace Capability

def requiresLevelFour : Capability → Bool
  | observeScreenshot => true
  | _ => false

/-- The name of a capability in the text of an error. -/
def debug : Capability → String
  | observeActiveWindow => "ObserveActiveWindow"
  | observeClipboardMetadata => "ObserveClipboardMetadata"
  | observeFileOperations => "ObserveFileOperations"
  | observeScreenshot => "ObserveScreenshot"
  | networkOutbound => "NetworkOutbound"
  | filesystemReadMetadata => "FilesystemReadMetadata"
  | providerLlm => "ProviderLlm"
  | providerEmbedding => "ProviderEmbedding"
  | policyRead => "PolicyRead"

end Capability

structure PluginManifest where
  minPrivacyLevel : Nat
  capabilities : List Capability
  deriving DecidableEq, Repr

inductive ManifestError where
  | capabilityBelowRequiredLevel (capability : Capability) (minPrivacyLevel : Nat)
  | invalidPrivacyLevel (minPrivacyLevel : Nat)
  deriving DecidableEq, Repr

def ManifestError.message : ManifestError → String
  | capabilityBelowRequiredLevel capability level =>
      "capability " ++ capability.debug ++
        " requires min_privacy_level 4, but the manifest declares " ++ toString level
  | invalidPrivacyLevel level =>
      "min_privacy_level " ++ toString level ++ " is out of range (expected 0-4)"

namespace PluginManifest

def validate (manifest : PluginManifest) : Except ManifestError Unit :=
  if 4 < manifest.minPrivacyLevel then .error (.invalidPrivacyLevel manifest.minPrivacyLevel)
  else
    -- the first capability that asks for more than the manifest declares
    match manifest.capabilities.find? fun capability =>
        capability.requiresLevelFour && decide (manifest.minPrivacyLevel < 4) with
    | some capability =>
        .error (.capabilityBelowRequiredLevel capability manifest.minPrivacyLevel)
    | none => .ok ()

/-- A manifest is valid when its level is in range and covers each of its capabilities. -/
theorem validate_eq_ok_iff {manifest : PluginManifest} :
    manifest.validate = .ok () ↔ manifest.minPrivacyLevel ≤ 4 ∧
      ∀ capability ∈ manifest.capabilities, capability.requiresLevelFour →
        manifest.minPrivacyLevel = 4 := by
  unfold validate
  by_cases hrange : 4 < manifest.minPrivacyLevel
  · rw [if_pos hrange]
    constructor
    · intro h
      cases h
    · intro h
      exact absurd h.1 (Nat.not_le_of_lt hrange)
  · rw [if_neg hrange]
    have hle : manifest.minPrivacyLevel ≤ 4 := Nat.le_of_not_lt hrange
    cases hfind : manifest.capabilities.find? fun capability =>
        capability.requiresLevelFour && decide (manifest.minPrivacyLevel < 4) with
    | none =>
        refine ⟨fun _ => ⟨hle, ?_⟩, fun _ => rfl⟩
        intro capability hmem hfour
        have hcovered := List.find?_eq_none.1 hfind capability hmem
        simp only [hfour, Bool.true_and, decide_eq_true_eq] at hcovered
        exact Nat.le_antisymm hle (Nat.le_of_not_lt hcovered)
    | some capability =>
        refine ⟨fun h => (nomatch h), fun h => ?_⟩
        have hbelow := List.find?_some hfind
        simp only [Bool.and_eq_true, decide_eq_true_eq] at hbelow
        exact absurd (h.2 capability (List.mem_of_find?_eq_some hfind) hbelow.1)
          (Nat.ne_of_lt hbelow.2)

end PluginManifest

end Plugins
end HiddenSteps
