import HiddenSteps.EventStore.Store

/-!
# Labels — the texts of the variants in the tables

Every enumeration has a function to its text and a function back, written apart from one another.
They agree: a text is read as a variant exactly if it is the text of that variant.
-/

namespace HiddenSteps
namespace EventStore

/-- A `match` on the texts, with an error for every other one. -/
def fromLabel {α : Type} (what : String) (variants : List (String × α)) (value : String) :
    Except EventStoreError α :=
  match variants.lookup value with
  | some a => .ok a
  | none => .error (.invalidStoredValue ("unknown " ++ what ++ " '" ++ value ++ "'"))

/-- The texts read are the texts written if each arm has the text of its variant and none of the
variants is missing. -/
theorem fromLabel_eq_ok_iff {α : Type} {what : String} {variants : List (String × α)}
    {toStr : α → String} (harms : ∀ arm ∈ variants, arm.1 = toStr arm.2)
    (hall : ∀ a, variants.lookup (toStr a) = some a) {value : String} {a : α} :
    fromLabel what variants value = .ok a ↔ value = toStr a := by
  unfold fromLabel
  constructor
  · intro h
    cases hlookup : variants.lookup value with
    | none =>
        rw [hlookup] at h
        cases h
    | some b =>
        rw [hlookup] at h
        cases h
        obtain ⟨before, after, rfl, -⟩ := List.lookup_eq_some_iff.1 hlookup
        exact harms (value, a) (by simp)
  · rintro rfl
    rw [hall a]

theorem toStr_injective {α : Type} {toStr : α → String}
    {fromStr : String → Except EventStoreError α}
    (h : ∀ {value a}, fromStr value = .ok a ↔ value = toStr a) : Function.Injective toStr :=
  fun _ _ heq => Except.ok.inj ((h.2 rfl).symm.trans (h.2 heq))

/-! ## Events -/

def signalTypeToStr : SignalType → String
  | .appFocusChange => "app_focus_change"
  | .windowTitle => "window_title"
  | .shortcutUsed => "shortcut_used"
  | .appActionEvent => "app_action_event"
  | .browserDomainVisited => "browser_domain_visited"
  | .clipboardMetadata => "clipboard_metadata"
  | .fileOperationMetadata => "file_operation_metadata"
  | .ocrText => "ocr_text"
  | .screenshot => "screenshot"
  | .accessibilityTree => "accessibility_tree"

def signalTypeFromStr : String → Except EventStoreError SignalType :=
  fromLabel "signal_type"
    [ ("app_focus_change", .appFocusChange),
      ("window_title", .windowTitle),
      ("shortcut_used", .shortcutUsed),
      ("app_action_event", .appActionEvent),
      ("browser_domain_visited", .browserDomainVisited),
      ("clipboard_metadata", .clipboardMetadata),
      ("file_operation_metadata", .fileOperationMetadata),
      ("ocr_text", .ocrText),
      ("screenshot", .screenshot),
      ("accessibility_tree", .accessibilityTree) ]

theorem signalTypeFromStr_eq_ok_iff {value : String} {signalType : SignalType} :
    signalTypeFromStr value = .ok signalType ↔ value = signalTypeToStr signalType :=
  fromLabel_eq_ok_iff (by simp [signalTypeToStr]) fun a => by cases a <;> rfl

/-! ## Audit log -/

def actorToStr : AuditActor → String
  | .user => "user"
  | .system => "system"

def actorFromStr : String → Except EventStoreError AuditActor :=
  fromLabel "actor" [("user", .user), ("system", .system)]

theorem actorFromStr_eq_ok_iff {value : String} {actor : AuditActor} :
    actorFromStr value = .ok actor ↔ value = actorToStr actor :=
  fromLabel_eq_ok_iff (by simp [actorToStr]) fun a => by cases a <;> rfl

/-! ## Patterns -/

def patternStatusToStr : PatternStatus → String
  | .active => "active"
  | .stale => "stale"
  | .dismissed => "dismissed"

def patternStatusFromStr : String → Except EventStoreError PatternStatus :=
  fromLabel "pattern status"
    [("active", .active), ("stale", .stale), ("dismissed", .dismissed)]

theorem patternStatusFromStr_eq_ok_iff {value : String} {status : PatternStatus} :
    patternStatusFromStr value = .ok status ↔ value = patternStatusToStr status :=
  fromLabel_eq_ok_iff (by simp [patternStatusToStr]) fun a => by cases a <;> rfl

/-! ## Recommendations -/

def levelToStr : Level → String
  | .low => "low"
  | .medium => "medium"
  | .high => "high"

def levelFromStr : String → Except EventStoreError Level :=
  fromLabel "level" [("low", .low), ("medium", .medium), ("high", .high)]

theorem levelFromStr_eq_ok_iff {value : String} {level : Level} :
    levelFromStr value = .ok level ↔ value = levelToStr level :=
  fromLabel_eq_ok_iff (by simp [levelToStr]) fun a => by cases a <;> rfl

def recommendationCategoryToStr : RecommendationCategory → String
  | .shortcut => "shortcut"
  | .template => "template"
  | .script => "script"
  | .browserAutomation => "browser_automation"
  | .rpa => "rpa"
  | .workflowPlatform => "workflow_platform"
  | .aiAgent => "ai_agent"
  | .hybrid => "hybrid"

def recommendationCategoryFromStr : String → Except EventStoreError RecommendationCategory :=
  fromLabel "recommendation category"
    [ ("shortcut", .shortcut),
      ("template", .template),
      ("script", .script),
      ("browser_automation", .browserAutomation),
      ("rpa", .rpa),
      ("workflow_platform", .workflowPlatform),
      ("ai_agent", .aiAgent),
      ("hybrid", .hybrid) ]

theorem recommendationCategoryFromStr_eq_ok_iff {value : String}
    {category : RecommendationCategory} :
    recommendationCategoryFromStr value = .ok category ↔
      value = recommendationCategoryToStr category :=
  fromLabel_eq_ok_iff (by simp [recommendationCategoryToStr]) fun a => by cases a <;> rfl

def recommendationStatusToStr : RecommendationStatus → String
  | .suggested => "suggested"
  | .implemented => "implemented"
  | .dismissed => "dismissed"

def recommendationStatusFromStr : String → Except EventStoreError RecommendationStatus :=
  fromLabel "recommendation status"
    [("suggested", .suggested), ("implemented", .implemented), ("dismissed", .dismissed)]

theorem recommendationStatusFromStr_eq_ok_iff {value : String} {status : RecommendationStatus} :
    recommendationStatusFromStr value = .ok status ↔ value = recommendationStatusToStr status :=
  fromLabel_eq_ok_iff (by simp [recommendationStatusToStr]) fun a => by cases a <;> rfl

end EventStore
end HiddenSteps
