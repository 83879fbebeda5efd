import HiddenSteps.Domain.Event
import HiddenSteps.Redaction.Engine

/-!
# Process — classify a signal, redact its texts, summarise it

`EventPipeline.process` is the path of a captured signal from its source to an event summary.  It
returns `none` where the program panics.
-/

namespace HiddenSteps
namespace Pipeline

open Redaction

/-! ## Classification -/

/-- The lowest privacy level at which a signal of the type may exist. -/
def minimumLevelFor : SignalType → PrivacyLevel
  | .appFocusChange | .windowTitle | .shortcutUsed => .applicationMetadata
  | .appActionEvent | .browserDomainVisited | .clipboardMetadata | .fileOperationMetadata =>
      .workflowMetadata
  | .ocrText | .screenshot | .accessibilityTree => .maximumAssistance

inductive FieldValue where
  | redactable (text : String)
  | passthrough (value : Json)
  deriving DecidableEq

inductive ClassifiedSignal where
  | fields (signalType : SignalType) (fields : List (String × FieldValue))
  | requiresExtraction (signalType : SignalType) (rawBytes : List UInt8)

def classify : CapturedPayload → ClassifiedSignal
  | .appFocusChange app => .fields .appFocusChange [("app", .redactable app)]
  | .windowTitle title => .fields .windowTitle [("title", .redactable title)]
  | .shortcutInvoked shortcut => .fields .shortcutUsed [("shortcut", .redactable shortcut)]
  | .browserDomainVisited domain => .fields .browserDomainVisited [("domain", .redactable domain)]
  | .clipboardMetadata contentType sizeBytes =>
      .fields .clipboardMetadata
        [("content_type", .passthrough (.string contentType)),
          ("size_bytes", .passthrough (.number sizeBytes))]
  | .fileOperation path operation =>
      .fields .fileOperationMetadata
        [("path", .redactable path), ("operation", .passthrough (.string operation))]
  | .ocrText text => .fields .ocrText [("text", .redactable text)]
  | .screenshot rawBytes => .requiresExtraction .screenshot rawBytes
  | .accessibilityTree serialized =>
      .fields .accessibilityTree [("tree", .redactable serialized)]

def ClassifiedSignal.signalType : ClassifiedSignal → SignalType
  | fields signalType _ => signalType
  | requiresExtraction signalType _ => signalType

/-! ## The pipeline -/

inductive DropReason where
  | redactionUncertain
  | ocrUnavailable
  | signalNotAllowedAtCurrentLevel
  deriving DecidableEq, Repr

inductive PipelineOutcome where
  | summarized (event : EventSummary)
  | dropped (reason : DropReason)
  deriving DecidableEq

/-- 90 days. -/
def defaultDeepModeTtl : Int := 90 * 24 * 60 * 60 * 1000000000

structure EventPipeline where
  redactor : Scanner
  /-- The text extractor: the text found in the bytes of a screenshot, if any. -/
  extract : List UInt8 → Option String
  deepModeTtl : Option Int

namespace EventPipeline

/-- No text extraction, the default retention window. -/
def new (redactor : Scanner) : EventPipeline :=
  { redactor := redactor, extract := fun _ => none, deepModeTtl := some defaultDeepModeTtl }

/-- Redact the fields one after the other; the inner `none` is an uncertain redaction. -/
def summarize (redactor : Scanner) :
    List (String × FieldValue) → List (String × Json) → Option (Option (List (String × Json)))
  | [], summary => some (some summary)
  | (name, .passthrough value) :: fields, summary =>
      summarize redactor fields (Json.insertField name value summary)
  | (name, .redactable text) :: fields, summary =>
      (RedactionEngine.scan redactor text.toList).bind fun
        | .clean t | .redacted t =>
            summarize redactor fields (Json.insertField name (.string (String.ofList t)) summary)
        -- one uncertain field drops the whole signal
        | .drop => some none

/-- The fields of a classified signal, once the text of binary content is extracted. -/
def extractFields (pipeline : EventPipeline) :
    ClassifiedSignal → Option (List (String × FieldValue))
  | .fields _ fields => some fields
  -- the extracted text goes through the scan like any other
  | .requiresExtraction _ rawBytes =>
      (pipeline.extract rawBytes).map fun text => [("text", .redactable text)]

def process (pipeline : EventPipeline) (signal : CapturedSignal) (privacyLevel : PrivacyLevel)
    (now : Timestamp) : Option PipelineOutcome :=
  let classified := classify signal.payload
  let signalType := classified.signalType
  -- a signal above the current level is not even looked at
  if minimumLevelFor signalType > privacyLevel then
    some (.dropped .signalNotAllowedAtCurrentLevel)
  else
    match pipeline.extractFields classified with
    | none => some (.dropped .ocrUnavailable)
    | some fields =>
        (summarize pipeline.redactor fields []).map fun
          | none => .dropped .redactionUncertain
          | some summary =>
              let ttlExpiresAt :=
                if privacyLevel == .maximumAssistance then pipeline.deepModeTtl.map (now + ·)
                else none
              .summarized (.new now signal.sourceId signalType privacyLevel (.object summary)
                ttlExpiresAt)

end EventPipeline

/-! ## What comes out -/

/-- The pipeline makes an event of a signal; when it does so matters for the retention only. -/
def EventPipeline.keeps (pipeline : EventPipeline) (signal : CapturedSignal)
    (privacyLevel : PrivacyLevel) : Bool :=
  match pipeline.process signal privacyLevel 0 with
  | some (.summarized _) => true
  | _ => false

/-- A signal is summarised when its level is admitted, its text can be extracted and no field of it
is uncertain. -/
theorem EventPipeline.process_eq_summarized {pipeline : EventPipeline} {signal : CapturedSignal}
    {level : PrivacyLevel} {now : Timestamp} {event : EventSummary}
    (h : pipeline.process signal level now = some (.summarized event)) :
    ∃ fields summary, minimumLevelFor (classify signal.payload).signalType ≤ level ∧
      pipeline.extractFields (classify signal.payload) = some fields ∧
      summarize pipeline.redactor fields [] = some (some summary) ∧
      ∃ ttlExpiresAt, event = .new now signal.sourceId (classify signal.payload).signalType level
        (.object summary) ttlExpiresAt := by
  unfold EventPipeline.process at h
  simp only at h
  split at h
  · simp at h
  · rename_i hlevel
    cases hfields : pipeline.extractFields (classify signal.payload) with
    | none => simp [hfields] at h
    | some fields =>
        simp only [hfields, Option.map_eq_some_iff] at h
        rcases h with ⟨summary, hsummary, h⟩
        cases summary with
        | none => cases h
        | some summary =>
            cases h
            exact ⟨fields, summary, not_lt.1 hlevel, rfl, hsummary, _, rfl⟩

theorem EventPipeline.process_of_summary {pipeline : EventPipeline} {signal : CapturedSignal}
    {level : PrivacyLevel} {fields : List (String × FieldValue)} {summary : List (String × Json)}
    (hlevel : minimumLevelFor (classify signal.payload).signalType ≤ level)
    (hfields : pipeline.extractFields (classify signal.payload) = some fields)
    (hsummary : summarize pipeline.redactor fields [] = some (some summary)) (now : Timestamp) :
    ∃ event, pipeline.process signal level now = some (.summarized event) ∧
      event.summary = .object summary := by
  let ttlExpiresAt := if level == .maximumAssistance then pipeline.deepModeTtl.map (now + ·) else none
  refine ⟨.new now signal.sourceId (classify signal.payload).signalType level (.object summary)
    ttlExpiresAt, ?_, rfl⟩
  simp only [EventPipeline.process, if_neg (not_lt.2 hlevel), hfields, hsummary, Option.map_some,
    ttlExpiresAt]

theorem EventPipeline.keeps_of_process {pipeline : EventPipeline} {signal : CapturedSignal}
    {level : PrivacyLevel} {now : Timestamp} {event : EventSummary}
    (h : pipeline.process signal level now = some (.summarized event)) :
    pipeline.keeps signal level = true := by
  rcases process_eq_summarized h with ⟨fields, summary, hlevel, hfields, hsummary, -⟩
  rcases process_of_summary hlevel hfields hsummary 0 with ⟨event', hprocess, -⟩
  rw [EventPipeline.keeps, hprocess]

theorem process_level {pipeline : EventPipeline} {signal : CapturedSignal} {level : PrivacyLevel}
    {now : Timestamp} {event : EventSummary}
    (h : pipeline.process signal level now = some (.summarized event)) :
    event.privacyLevelAtCapture = level ∧ event.id = none ∧
      minimumLevelFor event.signalType ≤ level := by
  rcases EventPipeline.process_eq_summarized h with ⟨fields, summary, hlevel, -, -, ttl, rfl⟩
  exact ⟨rfl, rfl, hlevel⟩

end Pipeline
end HiddenSteps
