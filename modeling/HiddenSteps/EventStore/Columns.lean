import HiddenSteps.EventStore.Labels
import HiddenSteps.Systems.RowFormats

/-!
# Columns — records as rows of the five tables that are listed

Records are bound by position and read by position, with the machine types of the program: 64-bit
ids, a 32-bit count, floating-point numbers of two precisions.  Instants and JSON values are of any
type with the conversions of other crates.
-/

namespace HiddenSteps
namespace EventStore
namespace Raw

open Systems SqlTables BinaryFloat

/-- The result of an operation; `none` when it panics. -/
abbrev Outcome := ExceptT EventStoreError Option

theorem pure_injective {α : Type} {a b : α} (h : (pure a : Outcome α) = pure b) : a = b :=
  Except.ok.inj (Option.some.inj h)

theorem of_exists_pure {α : Type} {x : Outcome α} {P : α → Prop} (h : ∃ a, x = pure a ∧ P a)
    {a : α} (ha : x = pure a) : P a := by
  obtain ⟨b, hb, hP⟩ := h
  rwa [pure_injective (ha.symm.trans hb)]

/-! ## Conversions -/

/-- A type that is written as JSON text and read from a JSON value. -/
structure JsonFormat (Value α : Type) where
  toString : α → Except String String
  fromValue : Value → Except String α

/-- The formatting and parsing of instants and JSON values. -/
structure Codecs (Time Value : Type) where
  /-- `OffsetDateTime::format(&Rfc3339)`; `none` for an instant that the format cannot write. -/
  formatRfc3339 : Time → Option String
  parseRfc3339 : String → Except String Time
  valueToString : Value → Except String String
  valueFromStr : String → Except String Value
  alternatives : JsonFormat Value (List Alternative)
  texts : JsonFormat Value (List String)

variable {Time Value : Type}

namespace Codecs

variable (c : Codecs Time Value)

/-- An instant that cannot be written is a panic. -/
def toRfc3339 (dt : Time) : Outcome String :=
  ExceptT.lift (c.formatRfc3339 dt)

def fromRfc3339 (text : String) : Except EventStoreError Time :=
  (c.parseRfc3339 text).mapError .timestamp

/-- `serde_json::to_string(..)?` -/
def toJsonText (written : Except String String) : Outcome String :=
  ExceptT.mk (some (written.mapError .serialization))

/-- The text of an instant is read as that instant. -/
def RereadsTime (dt : Time) : Prop :=
  ∃ text, c.formatRfc3339 dt = some text ∧ c.parseRfc3339 text = .ok dt

def RereadsValue (value : Value) : Prop :=
  ∃ text, c.valueToString value = .ok text ∧ c.valueFromStr text = .ok value

/-- The text of a list is read as a JSON value, which is read as that list. -/
def RereadsList {α : Type} (format : JsonFormat Value α) (a : α) : Prop :=
  ∃ text value, format.toString a = .ok text ∧ c.valueFromStr text = .ok value ∧
    format.fromValue value = .ok a

section Rereading

variable {c : Codecs Time Value}

theorem RereadsTime.parse_eq {dt : Time} {text : String} (h : c.RereadsTime dt)
    (hformat : c.formatRfc3339 dt = some text) : c.parseRfc3339 text = .ok dt := by
  obtain ⟨text', hformat', hparse⟩ := h
  rw [hformat, Option.some.injEq] at hformat'
  rw [hformat', hparse]

theorem toRfc3339_eq {dt : Time} {text : String} (h : c.formatRfc3339 dt = some text) :
    c.toRfc3339 dt = pure text := by
  rw [toRfc3339, h]
  rfl

theorem fromRfc3339_eq {dt : Time} {text : String} (h : c.parseRfc3339 text = .ok dt) :
    c.fromRfc3339 text = .ok dt := by
  rw [fromRfc3339, h]
  rfl

theorem rereads_option {dt : Option Time} (h : ∀ t, dt = some t → c.RereadsTime t) :
    ∃ text, dt.mapM c.toRfc3339 = pure text ∧ text.mapM c.fromRfc3339 = .ok dt := by
  cases dt with
  | none => exact ⟨none, rfl, rfl⟩
  | some t =>
      obtain ⟨text, hformat, hparse⟩ := h t rfl
      exact ⟨some text, by simp [toRfc3339_eq hformat], by simp [fromRfc3339_eq hparse]⟩

end Rereading

end Codecs

/-- The closure `map_err`. -/
def mapErr {α : Type} : Except EventStoreError α → Except SqlError α :=
  Except.mapError fun e => .fromSqlConversionFailure 0 "Text" e.message

@[simp] theorem mapErr_ok {α : Type} (a : α) : mapErr (.ok a) = .ok a := rfl

/-- The closure `parse_json`. -/
def parseJson (c : Codecs Time Value) (text : String) : Except SqlError Value :=
  mapErr ((c.valueFromStr text).mapError .serialization)

/-- `serde_json::from_value(parse_json(..)?)` -/
def parseList {α : Type} (c : Codecs Time Value) (format : JsonFormat Value α) (text : String) :
    Except SqlError α := do
  let value ← parseJson c text
  mapErr ((format.fromValue value).mapError .serialization)

theorem parseList_eq {α : Type} {c : Codecs Time Value} {format : JsonFormat Value α}
    {text : String} {value : Value} {a : α} (hvalue : c.valueFromStr text = .ok value)
    (ha : format.fromValue value = .ok a) : parseList c format text = .ok a := by
  rw [parseList, parseJson, hvalue, Except.mapError, mapErr_ok]
  exact congrArg (fun read => mapErr (read.mapError EventStoreError.serialization)) ha

/-- `CHECK (column IN (..))` -/
def checkIn (column : String) (texts : List String) (text : String) : Check where
  text := text
  holds row :=
    match row column with
    | .null => true
    | .text s => texts.contains s
    | _ => false

/-! ## Events -/

structure EventSummary (Time Value : Type) where
  id : Option Int
  occurredAt : Time
  sourceId : String
  signalType : SignalType
  privacyLevelAtCapture : PrivacyLevel
  summary : Value
  isDeepMode : Bool
  ttlExpiresAt : Option Time
  deriving DecidableEq

namespace EventSummary

def schema : Schema where
  name := "event_summaries"
  notNull := ["occurred_at", "source_id", "signal_type", "privacy_level_at_capture", "summary_json",
    "is_deep_mode"]
  checks := []

/-- The columns of the insertion. -/
def inserted : List String :=
  ["occurred_at", "source_id", "signal_type", "privacy_level_at_capture", "summary_json",
    "is_deep_mode", "ttl_expires_at"]

/-- The columns of the queries. -/
def selected : List String :=
  ["id", "occurred_at", "source_id", "signal_type", "privacy_level_at_capture", "summary_json",
    "is_deep_mode", "ttl_expires_at"]

def params (c : Codecs Time Value) (event : EventSummary Time Value) :
    Outcome (List SqlValue) := do
  return [
    toSql (← c.toRfc3339 event.occurredAt),
    toSql event.sourceId,
    toSql (signalTypeToStr event.signalType),
    toSql (event.privacyLevelAtCapture.asU8 : Int),
    toSql (← Codecs.toJsonText (c.valueToString event.summary)),
    toSql event.isDeepMode.toInt,
    toSql (← event.ttlExpiresAt.mapM c.toRfc3339)]

end EventSummary

def rowToEventSummary (c : Codecs Time Value) (row : Fetched) :
    Except SqlError (EventSummary Time Value) := do
  let id : Int ← row.get 0
  let occurredAt : String ← row.get 1
  let sourceId : String ← row.get 2
  let signalType : String ← row.get 3
  let privacyLevel : Int ← row.get 4
  let summaryJson : String ← row.get 5
  let isDeepMode : Int ← row.get 6
  let ttlExpiresAt : Option String ← row.get 7
  return {
    id := some id
    occurredAt := ← mapErr (c.fromRfc3339 occurredAt)
    sourceId := sourceId
    signalType := ← mapErr (signalTypeFromStr signalType)
    -- `as u8` keeps the last eight bits
    privacyLevelAtCapture := ← mapErr ((PrivacyLevel.fromU8 (privacyLevel % 256).toNat).mapError
      fun e => .invalidStoredValue e.message)
    summary := ← mapErr ((c.valueFromStr summaryJson).mapError .serialization)
    isDeepMode := isDeepMode != 0
    ttlExpiresAt := ← mapErr (ttlExpiresAt.mapM c.fromRfc3339) }

namespace EventSummary

/-- The conversions of the columns lose nothing. -/
structure Rereads (c : Codecs Time Value) (event : EventSummary Time Value) : Prop where
  occurredAt : c.RereadsTime event.occurredAt
  summary : c.RereadsValue event.summary
  ttlExpiresAt : ∀ ttl, event.ttlExpiresAt = some ttl → c.RereadsTime ttl

theorem exists_params {c : Codecs Time Value} {event : EventSummary Time Value}
    (h : event.Rereads c) :
    ∃ params, event.params c = pure params ∧ params.length = inserted.length ∧
      (∀ id : Int, rowToEventSummary c (selected.zip (toSql id :: params)) =
        .ok { event with id := some id }) ∧
      ∀ id : Int, schema.verify (.ofParams ("id" :: inserted) (toSql id :: params)) = .ok () := by
  obtain ⟨occurredAt, hoccurred, hoccurred'⟩ := h.occurredAt
  obtain ⟨summary, hsummary, hsummary'⟩ := h.summary
  obtain ⟨ttl, httl, httl'⟩ := Codecs.rereads_option h.ttlExpiresAt
  have htype := signalTypeFromStr_eq_ok_iff.2 (Eq.refl (signalTypeToStr event.signalType))
  have hlevel : PrivacyLevel.fromU8 ((event.privacyLevelAtCapture.asU8 : Int) % 256).toNat =
      .ok event.privacyLevelAtCapture := by
    cases event.privacyLevelAtCapture <;> rfl
  have hdeep : (event.isDeepMode.toInt != 0) = event.isDeepMode := by
    cases event.isDeepMode <;> rfl
  refine ⟨_, by
    rw [params, Codecs.toRfc3339_eq hoccurred, hsummary, httl]
    rfl, rfl, fun id => ?_, fun id => Schema.verify_eq_ok ?_ ?_⟩
  · simp [rowToEventSummary, selected, Fetched.get, Codecs.fromRfc3339_eq hoccurred', htype, hlevel,
      hsummary', hdeep, httl', Except.mapError, pure, Except.pure, ok_bind]
  · simp [schema, inserted, Row.ofParams, List.lookup_cons, toSql]
  · simp [schema]

/-- `event_summaries` -/
def format (c : Codecs Time Value) : RowFormat (EventSummary Time Value) where
  schema := schema
  inserted := inserted
  read := rowToEventSummary c
  id event := event.id
  withId id event := { event with id := some id }
  Params event params := event.Rereads c ∧ event.params c = pure params
  nodup := by decide
  id_withId _ _ := rfl
  length_params h := (of_exists_pure (exists_params h.1) h.2).1
  read_params h := (of_exists_pure (exists_params h.1) h.2).2.1

end EventSummary

/-! ## Audit log -/

structure AuditEntry (Time Value : Type) where
  id : Option Int
  occurredAt : Time
  actor : AuditActor
  actionType : String
  details : Value
  deriving DecidableEq

namespace AuditEntry

def schema : Schema where
  name := "audit_log"
  notNull := ["occurred_at", "actor", "action_type", "details_json"]
  checks := [checkIn "actor" ["user", "system"] "actor IN ('user', 'system')"]

def inserted : List String :=
  ["occurred_at", "actor", "action_type", "details_json"]

def selected : List String :=
  ["id", "occurred_at", "actor", "action_type", "details_json"]

def params (c : Codecs Time Value) (entry : AuditEntry Time Value) :
    Outcome (List SqlValue) := do
  return [
    toSql (← c.toRfc3339 entry.occurredAt),
    toSql (actorToStr entry.actor),
    toSql entry.actionType,
    toSql (← Codecs.toJsonText (c.valueToString entry.details))]

end AuditEntry

def rowToAuditEntry (c : Codecs Time Value) (row : Fetched) :
    Except SqlError (AuditEntry Time Value) := do
  let id : Int ← row.get 0
  let occurredAt : String ← row.get 1
  let actor : String ← row.get 2
  let actionType : String ← row.get 3
  let detailsJson : String ← row.get 4
  return {
    id := some id
    occurredAt := ← mapErr (c.fromRfc3339 occurredAt)
    actor := ← mapErr (actorFromStr actor)
    actionType := actionType
    details := ← mapErr ((c.valueFromStr detailsJson).mapError .serialization) }

namespace AuditEntry

structure Rereads (c : Codecs Time Value) (entry : AuditEntry Time Value) : Prop where
  occurredAt : c.RereadsTime entry.occurredAt
  details : c.RereadsValue entry.details

theorem exists_params {c : Codecs Time Value} {entry : AuditEntry Time Value}
    (h : entry.Rereads c) :
    ∃ params, entry.params c = pure params ∧ params.length = inserted.length ∧
      (∀ id : Int, rowToAuditEntry c (selected.zip (toSql id :: params)) =
        .ok { entry with id := some id }) ∧
      ∀ id : Int, schema.verify (.ofParams ("id" :: inserted) (toSql id :: params)) = .ok () := by
  obtain ⟨occurredAt, hoccurred, hoccurred'⟩ := h.occurredAt
  obtain ⟨details, hdetails, hdetails'⟩ := h.details
  have hactor := actorFromStr_eq_ok_iff.2 (Eq.refl (actorToStr entry.actor))
  refine ⟨_, by
    rw [params, Codecs.toRfc3339_eq hoccurred, hdetails]
    rfl, rfl, fun id => ?_, fun id => Schema.verify_eq_ok ?_ ?_⟩
  · simp [rowToAuditEntry, selected, Fetched.get, Codecs.fromRfc3339_eq hoccurred', hactor,
      hdetails', Except.mapError, pure, Except.pure, ok_bind]
  · simp [schema, inserted, Row.ofParams, List.lookup_cons, toSql]
  · cases hactor : entry.actor <;>
      simp [schema, inserted, Row.ofParams, List.lookup_cons, toSql, checkIn, actorToStr]

/-- `audit_log` -/
def format (c : Codecs Time Value) : RowFormat (AuditEntry Time Value) where
  schema := schema
  inserted := inserted
  read := rowToAuditEntry c
  id entry := entry.id
  withId id entry := { entry with id := some id }
  Params entry params := entry.Rereads c ∧ entry.params c = pure params
  nodup := by decide
  id_withId _ _ := rfl
  length_params h := (of_exists_pure (exists_params h.1) h.2).1
  read_params h := (of_exists_pure (exists_params h.1) h.2).2.1

end AuditEntry

/-! ## Patterns -/

structure Pattern (Time Value : Type) where
  id : Option Int
  firstSeenAt : Time
  lastSeenAt : Time
  occurrenceCount : UInt32
  estimatedMinutesPerOccurrence : Option F64
  sequenceSignature : Value
  status : PatternStatus
  deriving DecidableEq

namespace Pattern

def schema : Schema where
  name := "patterns"
  notNull := ["first_seen_at", "last_seen_at", "occurrence_count", "sequence_signature_json",
    "status"]
  checks := [checkIn "status" ["active", "stale", "dismissed"]
    "status IN ('active', 'stale', 'dismissed')"]

def inserted : List String :=
  ["first_seen_at", "last_seen_at", "occurrence_count", "estimated_minutes_per_occurrence",
    "sequence_signature_json", "status"]

def selected : List String :=
  ["id", "first_seen_at", "last_seen_at", "occurrence_count", "estimated_minutes_per_occurrence",
    "sequence_signature_json", "status"]

def params (c : Codecs Time Value) (pattern : Pattern Time Value) :
    Outcome (List SqlValue) := do
  return [
    toSql (← c.toRfc3339 pattern.firstSeenAt),
    toSql (← c.toRfc3339 pattern.lastSeenAt),
    toSql (pattern.occurrenceCount.toNat : Int),
    toSql pattern.estimatedMinutesPerOccurrence,
    toSql (← Codecs.toJsonText (c.valueToString pattern.sequenceSignature)),
    toSql (patternStatusToStr pattern.status)]

end Pattern

def rowToPattern (c : Codecs Time Value) (row : Fetched) :
    Except SqlError (Pattern Time Value) := do
  let id : Int ← row.get 0
  let firstSeenAt : String ← row.get 1
  let lastSeenAt : String ← row.get 2
  let occurrenceCount : Int ← row.get 3
  let estimatedMinutesPerOccurrence : Option F64 ← row.get 4
  let sequenceSignatureJson : String ← row.get 5
  let status : String ← row.get 6
  return {
    id := some id
    firstSeenAt := ← mapErr (c.fromRfc3339 firstSeenAt)
    lastSeenAt := ← mapErr (c.fromRfc3339 lastSeenAt)
    -- `as u32` keeps the last 32 bits
    occurrenceCount := .ofNat (occurrenceCount % 2 ^ 32).toNat
    estimatedMinutesPerOccurrence := estimatedMinutesPerOccurrence
    sequenceSignature := ← mapErr ((c.valueFromStr sequenceSignatureJson).mapError .serialization)
    status := ← mapErr (patternStatusFromStr status) }

namespace Pattern

structure Rereads (c : Codecs Time Value) (pattern : Pattern Time Value) : Prop where
  firstSeenAt : c.RereadsTime pattern.firstSeenAt
  lastSeenAt : c.RereadsTime pattern.lastSeenAt
  sequenceSignature : c.RereadsValue pattern.sequenceSignature

theorem ofNat_toNat_emod (n : UInt32) : UInt32.ofNat ((n.toNat : Int) % 2 ^ 32).toNat = n := by
  have hlt : n.toNat < 2 ^ 32 := n.toNat_lt
  have hmod : ((n.toNat : Int) % 2 ^ 32).toNat = n.toNat := by omega
  rw [hmod, UInt32.ofNat_toNat]

theorem exists_params {c : Codecs Time Value} {pattern : Pattern Time Value}
    (h : pattern.Rereads c) :
    ∃ params, pattern.params c = pure params ∧ params.length = inserted.length ∧
      (∀ id : Int, rowToPattern c (selected.zip (toSql id :: params)) =
        .ok { pattern with id := some id }) ∧
      ∀ id : Int, schema.verify (.ofParams ("id" :: inserted) (toSql id :: params)) = .ok () := by
  obtain ⟨firstSeen, hfirst, hfirst'⟩ := h.firstSeenAt
  obtain ⟨lastSeen, hlast, hlast'⟩ := h.lastSeenAt
  obtain ⟨signature, hsignature, hsignature'⟩ := h.sequenceSignature
  have hcount := ofNat_toNat_emod pattern.occurrenceCount
  have hstatus := patternStatusFromStr_eq_ok_iff.2 (Eq.refl (patternStatusToStr pattern.status))
  refine ⟨_, by
    rw [params, Codecs.toRfc3339_eq hfirst, Codecs.toRfc3339_eq hlast, hsignature]
    rfl, rfl, fun id => ?_, fun id => Schema.verify_eq_ok ?_ ?_⟩
  · simpa [rowToPattern, selected, Fetched.get, Codecs.fromRfc3339_eq hfirst',
      Codecs.fromRfc3339_eq hlast', hsignature', hstatus, Except.mapError, pure, Except.pure,
      ok_bind] using hcount
  · simp [schema, inserted, Row.ofParams, List.lookup_cons, toSql]
  · cases hstatus : pattern.status <;>
      simp [schema, inserted, Row.ofParams, List.lookup_cons, toSql, checkIn, patternStatusToStr]

/-- `patterns` -/
def format (c : Codecs Time Value) : RowFormat (Pattern Time Value) where
  schema := schema
  inserted := inserted
  read := rowToPattern c
  id pattern := pattern.id
  withId id pattern := { pattern with id := some id }
  Params pattern params := pattern.Rereads c ∧ pattern.params c = pure params
  nodup := by decide
  id_withId _ _ := rfl
  length_params h := (of_exists_pure (exists_params h.1) h.2).1
  read_params h := (of_exists_pure (exists_params h.1) h.2).2.1

end Pattern

/-! ## Recommendations -/

structure Recommendation (Time : Type) where
  id : Option Int
  patternId : Int
  createdAt : Time
  title : String
  category : RecommendationCategory
  why : String
  confidence : F32
  estimatedTimeSavedMinutes : F64
  difficulty : Level
  maintenanceBurden : Level
  privacyImplications : String
  implementationEffort : String
  alternatives : List Alternative
  assumptions : List String
  ignoredInformation : List String
  generatingProvider : String
  status : RecommendationStatus
  dismissalReason : Option String
  deriving DecidableEq

namespace Recommendation

/-- `CHECK (confidence BETWEEN 0 AND 1)` -/
def checkConfidence : Check where
  text := "confidence BETWEEN 0 AND 1"
  holds row :=
    match row "confidence" with
    | .null => true
    | .integer n => decide (0 ≤ n ∧ n ≤ 1)
    | .real x => decide (0 ≤ x.value ∧ x.value ≤ 1)
    | _ => false

def schema : Schema where
  name := "recommendations"
  notNull := ["pattern_id", "created_at", "title", "category", "why", "confidence",
    "estimated_time_saved_minutes", "difficulty", "maintenance_burden", "privacy_implications",
    "implementation_effort", "alternatives_json", "assumptions_json", "ignored_information_json",
    "generating_provider", "status"]
  checks := [
    checkConfidence,
    checkIn "difficulty" ["low", "medium", "high"] "difficulty IN ('low', 'medium', 'high')",
    checkIn "maintenance_burden" ["low", "medium", "high"]
      "maintenance_burden IN ('low', 'medium', 'high')",
    checkIn "status" ["suggested", "implemented", "dismissed"]
      "status IN ('suggested', 'implemented', 'dismissed')"]

def inserted : List String :=
  ["pattern_id", "created_at", "title", "category", "why", "confidence",
    "estimated_time_saved_minutes", "difficulty", "maintenance_burden", "privacy_implications",
    "implementation_effort", "alternatives_json", "assumptions_json", "ignored_information_json",
    "generating_provider", "status", "dismissal_reason"]

def selected : List String :=
  ["id", "pattern_id", "created_at", "title", "category", "why", "confidence",
    "estimated_time_saved_minutes", "difficulty", "maintenance_burden", "privacy_implications",
    "implementation_effort", "alternatives_json", "assumptions_json", "ignored_information_json",
    "generating_provider", "status", "dismissal_reason"]

def params (c : Codecs Time Value) (rec : Recommendation Time) : Outcome (List SqlValue) := do
  return [
    toSql rec.patternId,
    toSql (← c.toRfc3339 rec.createdAt),
    toSql rec.title,
    toSql (recommendationCategoryToStr rec.category),
    toSql rec.why,
    -- an `f32` is bound as an `f64`
    toSql rec.confidence.toF64,
    toSql rec.estimatedTimeSavedMinutes,
    toSql (levelToStr rec.difficulty),
    toSql (levelToStr rec.maintenanceBurden),
    toSql rec.privacyImplications,
    toSql rec.implementationEffort,
    toSql (← Codecs.toJsonText (c.alternatives.toString rec.alternatives)),
    toSql (← Codecs.toJsonText (c.texts.toString rec.assumptions)),
    toSql (← Codecs.toJsonText (c.texts.toString rec.ignoredInformation)),
    toSql rec.generatingProvider,
    toSql (recommendationStatusToStr rec.status),
    toSql rec.dismissalReason]

end Recommendation

def rowToRecommendation (c : Codecs Time Value) (row : Fetched) :
    Except SqlError (Recommendation Time) := do
  let id : Int ← row.get 0
  let patternId : Int ← row.get 1
  let createdAt : String ← row.get 2
  let title : String ← row.get 3
  let category : String ← row.get 4
  let why : String ← row.get 5
  let confidence : F64 ← row.get 6
  let estimatedTimeSavedMinutes : F64 ← row.get 7
  let difficulty : String ← row.get 8
  let maintenanceBurden : String ← row.get 9
  let privacyImplications : String ← row.get 10
  let implementationEffort : String ← row.get 11
  let alternativesJson : String ← row.get 12
  let assumptionsJson : String ← row.get 13
  let ignoredInformationJson : String ← row.get 14
  let generatingProvider : String ← row.get 15
  let status : String ← row.get 16
  let dismissalReason : Option String ← row.get 17
  let alternatives ← parseList c c.alternatives alternativesJson
  let assumptions ← parseList c c.texts assumptionsJson
  let ignoredInformation ← parseList c c.texts ignoredInformationJson
  return {
    id := some id
    patternId := patternId
    createdAt := ← mapErr (c.fromRfc3339 createdAt)
    title := title
    category := ← mapErr (recommendationCategoryFromStr category)
    why := why
    confidence := confidence.toF32
    estimatedTimeSavedMinutes := estimatedTimeSavedMinutes
    difficulty := ← mapErr (levelFromStr difficulty)
    maintenanceBurden := ← mapErr (levelFromStr maintenanceBurden)
    privacyImplications := privacyImplications
    implementationEffort := implementationEffort
    alternatives := alternatives
    assumptions := assumptions
    ignoredInformation := ignoredInformation
    generatingProvider := generatingProvider
    status := ← mapErr (recommendationStatusFromStr status)
    dismissalReason := dismissalReason }

namespace Recommendation

structure Rereads (c : Codecs Time Value) (rec : Recommendation Time) : Prop where
  createdAt : c.RereadsTime rec.createdAt
  alternatives : c.RereadsList c.alternatives rec.alternatives
  assumptions : c.RereadsList c.texts rec.assumptions
  ignoredInformation : c.RereadsList c.texts rec.ignoredInformation

theorem exists_params {c : Codecs Time Value} {rec : Recommendation Time} (h : rec.Rereads c) :
    ∃ params, rec.params c = pure params ∧ params.length = inserted.length ∧
      (∀ id : Int, rowToRecommendation c (selected.zip (toSql id :: params)) =
        .ok { rec with id := some id }) ∧
      (0 ≤ rec.confidence.value ∧ rec.confidence.value ≤ 1 →
        ∀ id : Int, schema.verify (.ofParams ("id" :: inserted) (toSql id :: params)) = .ok ()) := by
  obtain ⟨createdAt, hcreated, hcreated'⟩ := h.createdAt
  obtain ⟨alternatives, _, halternatives, hvalue₁, hread₁⟩ := h.alternatives
  obtain ⟨assumptions, _, hassumptions, hvalue₂, hread₂⟩ := h.assumptions
  obtain ⟨ignored, _, hignored, hvalue₃, hread₃⟩ := h.ignoredInformation
  have hcategory :=
    recommendationCategoryFromStr_eq_ok_iff.2 (Eq.refl (recommendationCategoryToStr rec.category))
  have hdifficulty := levelFromStr_eq_ok_iff.2 (Eq.refl (levelToStr rec.difficulty))
  have hburden := levelFromStr_eq_ok_iff.2 (Eq.refl (levelToStr rec.maintenanceBurden))
  have hstatus :=
    recommendationStatusFromStr_eq_ok_iff.2 (Eq.refl (recommendationStatusToStr rec.status))
  refine ⟨_, by
    rw [params, Codecs.toRfc3339_eq hcreated, halternatives, hassumptions, hignored]
    rfl, rfl, fun id => ?_, fun hconfidence id => Schema.verify_eq_ok ?_ ?_⟩
  · simp [rowToRecommendation, selected, Fetched.get, Codecs.fromRfc3339_eq hcreated', hcategory,
      hdifficulty, hburden, hstatus, parseList_eq hvalue₁ hread₁, parseList_eq hvalue₂ hread₂,
      parseList_eq hvalue₃ hread₃, pure, Except.pure, ok_bind]
  · simp [schema, inserted, Row.ofParams, List.lookup_cons, toSql]
  · have hlevel : ∀ level, levelToStr level = "low" ∨ levelToStr level = "medium" ∨
        levelToStr level = "high" := by
      intro level
      cases level <;> simp [levelToStr]
    have hlabel : recommendationStatusToStr rec.status = "suggested" ∨
        recommendationStatusToStr rec.status = "implemented" ∨
        recommendationStatusToStr rec.status = "dismissed" := by
      cases rec.status <;> simp [recommendationStatusToStr]
    have hrange : 0 ≤ rec.confidence.toF64.value ∧ rec.confidence.toF64.value ≤ 1 := hconfidence
    simp [schema, inserted, Row.ofParams, List.lookup_cons, toSql, checkConfidence, checkIn, hlevel,
      hlabel, hrange]

/-- `recommendations` -/
def format (c : Codecs Time Value) : RowFormat (Recommendation Time) where
  schema := schema
  inserted := inserted
  read := rowToRecommendation c
  id rec := rec.id
  withId id rec := { rec with id := some id }
  Params rec params := rec.Rereads c ∧ rec.params c = pure params
  nodup := by decide
  id_withId _ _ := rfl
  length_params h := (of_exists_pure (exists_params h.1) h.2).1
  read_params h := (of_exists_pure (exists_params h.1) h.2).2.1

end Recommendation

/-! ## Providers -/

namespace LlmProvider

def schema : Schema where
  name := "llm_providers"
  notNull := ["provider_type", "is_local", "active"]
  checks := []

def inserted : List String :=
  ["id", "provider_type", "is_local", "model_name", "endpoint", "vault_key_ref", "active"]

/-- The columns that `ON CONFLICT(id) DO UPDATE` sets. -/
def updated : List String :=
  ["provider_type", "is_local", "model_name", "endpoint", "vault_key_ref", "active"]

def selected : List String :=
  ["id", "provider_type", "is_local", "model_name", "endpoint", "vault_key_ref", "active"]

def params (provider : LlmProviderConfig) : List SqlValue :=
  [ toSql provider.id,
    toSql provider.providerType,
    toSql provider.isLocal,
    toSql provider.modelName,
    toSql provider.endpoint,
    toSql provider.vaultKeyRef,
    toSql provider.active ]

end LlmProvider

def rowToLlmProvider (row : Fetched) : Except SqlError LlmProviderConfig := do
  return {
    id := ← row.get 0
    providerType := ← row.get 1
    isLocal := ← row.get 2
    modelName := ← row.get 3
    endpoint := ← row.get 4
    vaultKeyRef := ← row.get 5
    active := ← row.get 6 }

theorem LlmProvider.read_params (provider : LlmProviderConfig) :
    rowToLlmProvider (selected.zip (params provider)) = .ok provider := by
  simp [rowToLlmProvider, selected, params, Fetched.get, pure, Except.pure, ok_bind]

theorem LlmProvider.verify_params (provider : LlmProviderConfig) :
    schema.verify (.ofParams inserted (params provider)) = .ok () := by
  refine Schema.verify_eq_ok ?_ ?_
  · simp [schema, inserted, params, Row.ofParams, List.lookup_cons, toSql]
  · simp [schema]

end Raw
end EventStore
end HiddenSteps
