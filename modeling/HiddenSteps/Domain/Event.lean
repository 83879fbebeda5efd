import HiddenSteps.Domain.Json
import HiddenSteps.Domain.Privacy

/-!
# Event — captured signals and event summaries
-/

namespace HiddenSteps

inductive SignalType where
  | appFocusChange
  | windowTitle
  | shortcutUsed
  | appActionEvent
  | browserDomainVisited
  | clipboardMetadata
  | fileOperationMetadata
  | ocrText
  | screenshot
  | accessibilityTree
  deriving DecidableEq, Repr

inductive CapturedPayload where
  | appFocusChange (appIdentifier : String)
  | windowTitle (title : String)
  | shortcutInvoked (shortcut : String)
  | browserDomainVisited (domain : String)
  | clipboardMetadata (contentType : String) (sizeBytes : Nat)
  | fileOperation (path operation : String)
  | ocrText (text : String)
  | screenshot (rawBytes : List UInt8)
  | accessibilityTree (serialized : String)
  deriving DecidableEq

/-- A raw signal, before redaction. -/
structure CapturedSignal where
  sourceId : String
  payload : CapturedPayload
  deriving DecidableEq

/-- What is stored of a signal. -/
structure EventSummary where
  id : Option Nat
  occurredAt : Timestamp
  sourceId : String
  signalType : SignalType
  privacyLevelAtCapture : PrivacyLevel
  summary : Json
  isDeepMode : Bool
  ttlExpiresAt : Option Timestamp
  deriving DecidableEq

namespace EventSummary

/-- A summary that has not been stored yet; deep mode follows from the level. -/
def new (occurredAt : Timestamp) (sourceId : String) (signalType : SignalType)
    (privacyLevelAtCapture : PrivacyLevel) (summary : Json) (ttlExpiresAt : Option Timestamp) :
    EventSummary :=
  let isDeepMode := privacyLevelAtCapture == .maximumAssistance
  { id := none
    occurredAt := occurredAt
    sourceId := sourceId
    signalType := signalType
    privacyLevelAtCapture := privacyLevelAtCapture
    summary := summary
    isDeepMode := isDeepMode
    -- only deep-mode events expire
    ttlExpiresAt := if isDeepMode then ttlExpiresAt else none }

end EventSummary

end HiddenSteps
