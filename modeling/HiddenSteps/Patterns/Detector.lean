import HiddenSteps.Domain.Records
import Mathlib.Data.List.Sort
import Mathlib.Data.Rat.Cast.Order

/-!
# Detector — repeated action sequences in an event history

A window of consecutive events has a signature, the list of its action keys.  For each window size
the detector groups the windows by signature, keeps the non-overlapping ones of each group and
reports the groups with enough of them.  The program collects the groups in a hash map, so the
order of the patterns of one window size is not determined; here it is the order of first
appearance.
-/

namespace HiddenSteps
namespace Patterns

/-! ## Action keys -/

/-- The file name of a path: its last component, unless that is `..` or there is none. -/
def fileName (path : List Char) : Option (List Char) :=
  match ((path.splitOn '/').filter fun c => c != [] && c != ['.']).getLast? with
  | some name => if name == ['.', '.'] then none else some name
  | none => none

/-- `Path::extension`: what follows the last dot of the file name, unless that dot starts it. -/
def extension (path : List Char) : Option (List Char) :=
  (fileName path).bind fun name =>
    let after := (name.reverse.takeWhile (· != '.')).reverse
    if after.length + 1 < name.length then some after else none

def signalTypeLabel : SignalType → String
  | .appFocusChange => "app_focus_change"
  | .windowTitle => "window_title"
  | .shortcutUsed => "shortcut_used"
  | .appActionEvent => "app_action_event"
  | .browserDomainVisited => "browser_domain_visited"
  | .clipboardMetadata => "clipboard_metadata"
  | .fileOperationMetadata => "file_operation_metadata"
  | .ocrText => "ocr_text"
  | .screenshot => "screenshot"
  | .accessibilityTree => "accessibility_tree"

/-- The identifying value of an event, for the signal types that have one. -/
def subject (event : EventSummary) : Option String := do
  let obj ← event.summary.asObject
  let strField := fun name => (Json.getField obj name).bind Json.asStr
  match event.signalType with
  | .appFocusChange => strField "app"
  | .shortcutUsed => strField "shortcut"
  | .browserDomainVisited => strField "domain"
  | .clipboardMetadata => strField "content_type"
  | .fileOperationMetadata =>
      let operation ← strField "operation"
      let ext := ((strField "path").bind fun path => extension path.toList).getD
        "no_extension".toList
      some (operation ++ ":" ++ String.ofList ext)
  | .windowTitle | .appActionEvent | .ocrText | .screenshot | .accessibilityTree => none

def actionKey (event : EventSummary) : String :=
  match subject event with
  | some subject => signalTypeLabel event.signalType ++ ":" ++ subject
  | none => event.sourceId ++ ":" ++ signalTypeLabel event.signalType

def signatureContainsVerbatim (signature : List String) : Bool :=
  signature.any fun key => "browser_domain_visited:".toList.isPrefixOf key.toList

/-! ## Occurrences -/

/-- A window of the history: where it starts and its events. -/
structure Occurrence where
  start : Nat
  slice : List EventSummary
  nonempty : slice ≠ []

namespace Occurrence

def first (o : Occurrence) : EventSummary := o.slice.head o.nonempty

def last (o : Occurrence) : EventSummary := o.slice.getLast o.nonempty

def signature (o : Occurrence) : List String := o.slice.map actionKey

/-- The time from its first to its last event, in minutes, without the roundings of the source. -/
def minutes (o : Occurrence) : ℚ :=
  ((o.last.occurredAt - o.first.occurredAt : Int) : ℚ) / 1000000000 / 60

end Occurrence

/-- The windows of a size, first to last. -/
def occurrencesOf (events : List EventSummary) (window : Nat) : List Occurrence :=
  (List.range (events.length + 1 - window)).filterMap fun start =>
    let slice := (events.drop start).take window
    if h : slice ≠ [] then some ⟨start, slice, h⟩ else none

/-- `groups.entry(signature).or_default().push(occurrence)` -/
def pushOccurrence (o : Occurrence) :
    List (List String × List Occurrence) → List (List String × List Occurrence)
  | [] => [(o.signature, [o])]
  -- groups keep the order of their first occurrence
  | g :: groups =>
      if g.1 = o.signature then (g.1, g.2 ++ [o]) :: groups
      else g :: pushOccurrence o groups

/-- Keep each occurrence that starts no earlier than the last kept one ends. -/
def selectFrom : Nat → List Occurrence → List Occurrence
  | _, [] => []
  | nextAllowedStart, o :: os =>
      -- the next one may start where this one ends
      if nextAllowedStart ≤ o.start then o :: selectFrom (o.start + o.slice.length) os
      else selectFrom nextAllowedStart os

def selectNonOverlapping (occurrences : List Occurrence) : List Occurrence :=
  selectFrom 0 (occurrences.insertionSort fun a b => a.start ≤ b.start)

/-! ## Detection -/

structure DetectedPattern where
  signature : List String
  occurrenceCount : Nat
  firstSeenAt : Timestamp
  lastSeenAt : Timestamp
  estimatedMinutesPerOccurrence : ℚ
  contributingEventIds : List Nat
  containsVerbatimStrings : Bool
  deriving DecidableEq

/-- `len() as u32` -/
def asU32 (n : Nat) : Nat := n % 2 ^ 32

/-- The pattern of a signature and its selected occurrences; a group has at least one. -/
def describe (signature : List String) : List Occurrence → Option DetectedPattern
  | [] => none
  | o :: os =>
      let all := o :: os
      some
        { signature := signature
          occurrenceCount := asU32 all.length
          firstSeenAt := os.foldl (fun t o => min t o.first.occurredAt) o.first.occurredAt
          lastSeenAt := os.foldl (fun t o => max t o.last.occurredAt) o.last.occurredAt
          estimatedMinutesPerOccurrence := (all.map Occurrence.minutes).sum / all.length
          contributingEventIds := all.flatMap fun o => o.slice.filterMap EventSummary.id
          containsVerbatimStrings := signatureContainsVerbatim signature }

structure PatternDetector where
  /-- The inclusive range of window sizes. -/
  minWindow : Nat
  maxWindow : Nat
  minOccurrences : Nat

namespace PatternDetector

/-- Windows of two to five events, at least three occurrences. -/
def standard : PatternDetector := { minWindow := 2, maxWindow := 5, minOccurrences := 3 }

def detectForWindow (detector : PatternDetector) (events : List EventSummary) (window : Nat) :
    List DetectedPattern :=
  let groups := (occurrencesOf events window).foldl (fun groups o => pushOccurrence o groups) []
  let selected := groups.map fun g => (g.1, selectNonOverlapping g.2)
  (selected.filter fun g => detector.minOccurrences ≤ asU32 g.2.length).filterMap fun g =>
    describe g.1 g.2

/-- Detect in a history that is sorted oldest first. -/
def detect (detector : PatternDetector) (events : List EventSummary) : List DetectedPattern :=
  (List.range' detector.minWindow (detector.maxWindow + 1 - detector.minWindow)).flatMap
    fun window =>
      -- `events.windows(0)` would panic
      if window = 0 ∨ events.length < window then [] else detector.detectForWindow events window

end PatternDetector

end Patterns
end HiddenSteps
