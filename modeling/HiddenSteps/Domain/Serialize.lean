import HiddenSteps.Domain.Json
import HiddenSteps.Domain.Records
import Mathlib.Data.List.Nodup
import Mathlib.Logic.Function.Basic

/-!
# Serialize — the records as JSON values

Every field of a record is written under its own name, so a record can be told from its JSON value.
-/

namespace HiddenSteps

namespace Json

/-- The object with the given members, in the order of a map ordered by key. -/
def ofFields (fields : List (String × Json)) : Json :=
  .object (fields.foldr (fun f members => insertField f.1 f.2 members) [])

def ofOption {α : Type} (toJson : α → Json) : Option α → Json
  | none => .null
  | some a => toJson a

def ofNat (n : Nat) : Json := .number n

theorem getField_cons (f : String × Json) (members : List (String × Json)) (name : String) :
    getField (f :: members) name = if f.1 = name then some f.2 else getField members name := by
  by_cases h : f.1 = name <;> simp [getField, h]

theorem getField_insertField (name other : String) (value : Json)
    (members : List (String × Json)) :
    getField (insertField name value members) other =
      if name = other then some value else getField members other := by
  induction members with
  | nil => rw [insertField, getField_cons]
  | cons f members ih =>
      unfold insertField
      split
      · -- the member of that name is replaced
        rename_i hf
        rw [getField_cons, getField_cons, beq_iff_eq.1 hf]
        by_cases h : name = other <;> simp [h]
      · rename_i hf
        split
        · rw [getField_cons]
        · rw [getField_cons, getField_cons, ih]
          by_cases h : name = other
          · have hne : f.1 ≠ other := fun heq => hf (beq_iff_eq.2 (heq.trans h.symm))
            simp [h, hne]
          · simp [h]

/-- A member that is the only one of its name is found in the object. -/
theorem getField_of_mem {fields : List (String × Json)} (hnodup : (fields.map Prod.fst).Nodup)
    {f : String × Json} (hf : f ∈ fields) :
    getField (fields.foldr (fun f members => insertField f.1 f.2 members) []) f.1 = some f.2 := by
  induction fields with
  | nil => cases hf
  | cons g fields ih =>
      rw [List.map_cons, List.nodup_cons] at hnodup
      rw [List.foldr_cons, getField_insertField]
      rcases List.mem_cons.1 hf with rfl | hmem
      · simp
      · have hne : g.1 ≠ f.1 := fun heq => hnodup.1 (heq ▸ List.mem_map_of_mem hmem)
        rw [if_neg hne, ih hnodup.2 hmem]

/-- Objects with the same distinct names of members are equal only if the members are. -/
theorem ofFields_inj {fields others : List (String × Json)}
    (h : ofFields fields = ofFields others) (hnames : fields.map Prod.fst = others.map Prod.fst)
    (hnodup : (fields.map Prod.fst).Nodup) : fields = others := by
  have hmembers : fields.foldr (fun f members => insertField f.1 f.2 members) [] =
      others.foldr (fun f members => insertField f.1 f.2 members) [] := by
    simpa only [ofFields, object.injEq] using h
  refine List.ext_getElem (by simpa using congrArg List.length hnames) fun i hi hi' => ?_
  have hname : fields[i].1 = others[i].1 := by
    have hget := List.getElem_of_eq hnames (i := i) (by simpa using hi)
    simpa using hget
  have hvalue := getField_of_mem hnodup (List.getElem_mem hi)
  rw [hmembers, hname, getField_of_mem (hnames ▸ hnodup) (List.getElem_mem hi')] at hvalue
  exact Prod.ext hname (Option.some.inj hvalue.symm)

theorem ofNat_injective : Function.Injective ofNat := by
  intro a b h
  exact Int.ofNat_inj.1 (number.inj h)

theorem ofOption_injective {α : Type} {toJson : α → Json} (hinj : Function.Injective toJson)
    (hnull : ∀ a, toJson a ≠ .null) : Function.Injective (ofOption toJson) := by
  intro a b h
  cases a with
  | none =>
      cases b with
      | none => rfl
      | some b => exact absurd h.symm (hnull b)
  | some a =>
      cases b with
      | none => exact absurd h (hnull a)
      | some b => exact congrArg some (hinj h)

end Json

/-! ## Variants -/

def PrivacyLevel.variant : PrivacyLevel → String
  | .manual => "Manual"
  | .applicationMetadata => "ApplicationMetadata"
  | .workflowMetadata => "WorkflowMetadata"
  | .contextAware => "ContextAware"
  | .maximumAssistance => "MaximumAssistance"

def SignalType.variant : SignalType → String
  | .appFocusChange => "app_focus_change"
  | .windowTitle => "window_title"
  | .shortcutUsed => "shortcut_used"
  | .appActionEvent => "app_action_event"
  | .browserDomainVisited => "browser_domain_visited"
  | .clipboardMetadata => "clipboard_metadata"
  | .fileOperationMetadata => "file_operation_metadata"
  | .ocrText => "ocr_text"
  | .screenshot => "screenshot"
  | .accessibilityTree => "accessibility_tree"

def PatternStatus.variant : PatternStatus → String
  | .active => "active"
  | .stale => "stale"
  | .dismissed => "dismissed"

def RecommendationCategory.variant : RecommendationCategory → String
  | .shortcut => "shortcut"
  | .template => "template"
  | .script => "script"
  | .browserAutomation => "browser_automation"
  | .rpa => "rpa"
  | .workflowPlatform => "workflow_platform"
  | .aiAgent => "ai_agent"
  | .hybrid => "hybrid"

def Level.variant : Level → String
  | .low => "low"
  | .medium => "medium"
  | .high => "high"

def RecommendationStatus.variant : RecommendationStatus → String
  | .suggested => "suggested"
  | .implemented => "implemented"
  | .dismissed => "dismissed"

def AuditActor.variant : AuditActor → String
  | .user => "user"
  | .system => "system"

/-! ## Records -/

/-- How the types of other crates are written: an `OffsetDateTime`, and a finite floating-point
number. -/
structure ScalarFormat where
  time : Timestamp → Json
  float : ℚ → Json
  time_injective : Function.Injective time
  float_injective : Function.Injective float
  time_ne_null : ∀ t, time t ≠ .null
  float_ne_null : ∀ x, float x ≠ .null

variable (format : ScalarFormat)

def PrivacyState.toJson (state : PrivacyState) : Json :=
  .ofFields
    [ ("current_level", .string state.currentLevel.variant),
      ("consented_manifest_version", .number state.consentedManifestVersion),
      ("observation_active", .bool state.observationActive),
      ("updated_at", format.time state.updatedAt) ]

def EventSummary.toJson (event : EventSummary) : Json :=
  .ofFields
    [ ("id", .ofOption .ofNat event.id),
      ("occurred_at", format.time event.occurredAt),
      ("source_id", .string event.sourceId),
      ("signal_type", .string event.signalType.variant),
      ("privacy_level_at_capture", .string event.privacyLevelAtCapture.variant),
      ("summary", event.summary),
      ("is_deep_mode", .bool event.isDeepMode),
      ("ttl_expires_at", .ofOption format.time event.ttlExpiresAt) ]

def AuditEntry.toJson (entry : AuditEntry) : Json :=
  .ofFields
    [ ("id", .ofOption .ofNat entry.id),
      ("occurred_at", format.time entry.occurredAt),
      ("actor", .string entry.actor.variant),
      ("action_type", .string entry.actionType),
      ("details", entry.details) ]

def Pattern.toJson (pattern : Pattern) : Json :=
  .ofFields
    [ ("id", .ofOption .ofNat pattern.id),
      ("first_seen_at", format.time pattern.firstSeenAt),
      ("last_seen_at", format.time pattern.lastSeenAt),
      ("occurrence_count", .ofNat pattern.occurrenceCount),
      ("estimated_minutes_per_occurrence",
        .ofOption format.float pattern.estimatedMinutesPerOccurrence),
      ("sequence_signature", pattern.sequenceSignature),
      ("status", .string pattern.status.variant) ]

def Alternative.toJson (alternative : Alternative) : Json :=
  .ofFields
    [ ("approach", .string alternative.approach),
      ("tradeoff", .string alternative.tradeoff) ]

def Recommendation.toJson (rec : Recommendation) : Json :=
  .ofFields
    [ ("id", .ofOption .ofNat rec.id),
      ("pattern_id", .ofNat rec.patternId),
      ("created_at", format.time rec.createdAt),
      ("title", .string rec.title),
      ("category", .string rec.category.variant),
      ("why", .string rec.why),
      ("confidence", format.float rec.confidence),
      ("estimated_time_saved_minutes", format.float rec.estimatedTimeSavedMinutes),
      ("difficulty", .string rec.difficulty.variant),
      ("maintenance_burden", .string rec.maintenanceBurden.variant),
      ("privacy_implications", .string rec.privacyImplications),
      ("implementation_effort", .string rec.implementationEffort),
      ("alternatives", .array (rec.alternatives.map Alternative.toJson)),
      ("assumptions", .array (rec.assumptions.map .string)),
      ("ignored_information", .array (rec.ignoredInformation.map .string)),
      ("generating_provider", .string rec.generatingProvider),
      ("status", .string rec.status.variant),
      ("dismissal_reason", .ofOption .string rec.dismissalReason) ]

/-! ## Reading a record back -/

theorem PrivacyLevel.variant_injective : Function.Injective PrivacyLevel.variant := by
  intro a b h
  cases a <;> cases b <;> first | rfl | exact absurd h (by decide)

theorem SignalType.variant_injective : Function.Injective SignalType.variant := by
  intro a b h
  cases a <;> cases b <;> first | rfl | exact absurd h (by decide)

theorem PatternStatus.variant_injective : Function.Injective PatternStatus.variant := by
  intro a b h
  cases a <;> cases b <;> first | rfl | exact absurd h (by decide)

theorem RecommendationCategory.variant_injective :
    Function.Injective RecommendationCategory.variant := by
  intro a b h
  cases a <;> cases b <;> first | rfl | exact absurd h (by decide)

theorem Level.variant_injective : Function.Injective Level.variant := by
  intro a b h
  cases a <;> cases b <;> first | rfl | exact absurd h (by decide)

theorem RecommendationStatus.variant_injective :
    Function.Injective RecommendationStatus.variant := by
  intro a b h
  cases a <;> cases b <;> first | rfl | exact absurd h (by decide)

theorem AuditActor.variant_injective : Function.Injective AuditActor.variant := by
  intro a b h
  cases a <;> cases b <;> first | rfl | exact absurd h (by decide)

namespace Json

theorem string_injective : Function.Injective Json.string := fun _ _ h => string.inj h

/-- A row id, which is missing before the row is stored. -/
theorem ofId_injective : Function.Injective (ofOption ofNat) :=
  ofOption_injective ofNat_injective fun _ h => by cases h

end Json

variable {format}

theorem PrivacyState.toJson_injective : Function.Injective (PrivacyState.toJson format) := by
  intro a b h
  unfold toJson at h
  have hfields := Json.ofFields_inj h rfl (by simp)
  cases a
  cases b
  simpa [PrivacyLevel.variant_injective.eq_iff, format.time_injective.eq_iff] using hfields

theorem EventSummary.toJson_injective : Function.Injective (EventSummary.toJson format) := by
  intro a b h
  unfold toJson at h
  have hfields := Json.ofFields_inj h rfl (by simp)
  have hexpires := Json.ofOption_injective format.time_injective format.time_ne_null
  cases a
  cases b
  simpa [Json.ofId_injective.eq_iff, hexpires.eq_iff, format.time_injective.eq_iff,
    SignalType.variant_injective.eq_iff, PrivacyLevel.variant_injective.eq_iff] using hfields

theorem AuditEntry.toJson_injective : Function.Injective (AuditEntry.toJson format) := by
  intro a b h
  unfold toJson at h
  have hfields := Json.ofFields_inj h rfl (by simp)
  cases a
  cases b
  simpa [Json.ofId_injective.eq_iff, format.time_injective.eq_iff,
    AuditActor.variant_injective.eq_iff] using hfields

theorem Pattern.toJson_injective : Function.Injective (Pattern.toJson format) := by
  intro a b h
  unfold toJson at h
  have hfields := Json.ofFields_inj h rfl (by simp)
  have hminutes := Json.ofOption_injective format.float_injective format.float_ne_null
  cases a
  cases b
  simpa [Json.ofId_injective.eq_iff, hminutes.eq_iff, format.time_injective.eq_iff,
    Json.ofNat_injective.eq_iff, PatternStatus.variant_injective.eq_iff] using hfields

theorem Alternative.toJson_injective : Function.Injective Alternative.toJson := by
  intro a b h
  unfold toJson at h
  have hfields := Json.ofFields_inj h rfl (by simp)
  cases a
  cases b
  simpa using hfields

theorem Recommendation.toJson_injective : Function.Injective (Recommendation.toJson format) := by
  intro a b h
  unfold toJson at h
  have hfields := Json.ofFields_inj h rfl (by simp)
  have halternatives := List.map_injective_iff.2 Alternative.toJson_injective
  have htexts := List.map_injective_iff.2 Json.string_injective
  have hreason := Json.ofOption_injective Json.string_injective fun _ hnull => by cases hnull
  cases a
  cases b
  simpa [Json.ofId_injective.eq_iff, hreason.eq_iff, halternatives.eq_iff, htexts.eq_iff,
    format.time_injective.eq_iff, format.float_injective.eq_iff, Json.ofNat_injective.eq_iff,
    RecommendationCategory.variant_injective.eq_iff, Level.variant_injective.eq_iff,
    RecommendationStatus.variant_injective.eq_iff] using hfields

end HiddenSteps
