import HiddenSteps.Domain.TimeFmt
import HiddenSteps.Patterns.Detector

/-!
# Prompt — what a provider is asked, and the object in its answer
-/

namespace HiddenSteps
namespace Recommendations

open Patterns

structure AlternativeFields where
  approach : String
  tradeoff : String
  deriving DecidableEq

/-- The fields a provider fills in; none of them is a frequency or a time. -/
structure SynthesizedFields where
  title : String
  category : String
  why : String
  confidence : ℚ
  difficulty : String
  maintenanceBurden : String
  privacyImplications : String
  implementationEffort : String
  alternatives : List AlternativeFields
  assumptions : List String
  ignoredInformation : List String
  deriving DecidableEq

def systemPrompt : String :=
  "You are the Recommendation Engine inside HiddenSteps, a local-first workflow-intelligence tool. " ++
  "You are given a detected repeated workflow pattern — its action sequence, how many times it recurred, and over what time span — " ++
  "already computed by a deterministic detector. Your job is ONLY to judge and explain: pick the best remediation category, explain why, " ++
  "list alternatives, and state your confidence and assumptions. Do NOT invent or restate the frequency or time-span numbers in a way that " ++
  "contradicts what you were given — reason about them, but any specific count or duration you mention in prose must match exactly what " ++
  "was provided. Respond with a single JSON object only, no prose outside it, no markdown code fences, matching this shape: " ++
  "\x7b\"title\": string, \"category\": one of [\"shortcut\",\"template\",\"script\",\"browser_automation\",\"rpa\",\"workflow_platform\",\"ai_agent\",\"hybrid\"], " ++
  "\"why\": string, \"confidence\": number between 0 and 1, \"difficulty\": one of [\"low\",\"medium\",\"high\"], " ++
  "\"maintenance_burden\": one of [\"low\",\"medium\",\"high\"], \"privacy_implications\": string, \"implementation_effort\": string, " ++
  "\"alternatives\": [\x7b\"approach\": string, \"tradeoff\": string\x7d], \"assumptions\": [string], \"ignored_information\": [string]\x7d"

/-- A number of minutes with its sign and one digit after the point, halves to even.  The source
prints the floating-point number it has in place of this one, which may lie on the other side of a
half. -/
def formatTenths (minutes : ℚ) : String :=
  let scaled := (if minutes < 0 then -minutes else minutes) * 10
  let below := scaled.floor.toNat
  let rest := scaled - below
  let tenths :=
    if rest < 1 / 2 then below
    else if rest = 1 / 2 then below + below % 2
    else below + 1
  (if minutes < 0 then "-" else "") ++ toString (tenths / 10) ++ "." ++ toString (tenths % 10)

def joinWith (sep : String) : List String → String
  | [] => ""
  | [s] => s
  | s :: t :: rest => s ++ sep ++ joinWith sep (t :: rest)

def buildPrompt (patternIdHint : String) (detected : DetectedPattern) : String :=
  let totalMinutes := detected.estimatedMinutesPerOccurrence * detected.occurrenceCount
  "Detected pattern (internal id: " ++ patternIdHint ++ "):\n" ++
  "- Action sequence: " ++ joinWith " → " detected.signature ++ "\n" ++
  "- Observed " ++ toString detected.occurrenceCount ++ " times\n" ++
  "- First seen: " ++ String.ofList (TimeFmt.toRfc3339 detected.firstSeenAt) ++ "\n" ++
  "- Last seen: " ++ String.ofList (TimeFmt.toRfc3339 detected.lastSeenAt) ++ "\n" ++
  "- Estimated time per occurrence: " ++ formatTenths detected.estimatedMinutesPerOccurrence ++
    " minutes\n" ++
  "- Estimated total time so far: " ++ formatTenths totalMinutes ++ " minutes\n\n" ++
  "Produce the JSON object described in your instructions."

/-- The part of a text up to the brace that closes the object it starts with; the depth is an `i32`
that wraps. -/
def closeObject : Int32 → Bool → Bool → List Char → Option (List Char)
  | _, _, _, [] => none
  -- behind a backslash inside a string every character is plain
  | depth, true, true, c :: rest => (closeObject depth true false rest).map (c :: ·)
  | depth, true, false, c :: rest =>
      if c = '\\' then (closeObject depth true true rest).map (c :: ·)
      else if c = '\x22' then (closeObject depth false false rest).map (c :: ·)
      else (closeObject depth true false rest).map (c :: ·)
  -- outside strings only quotes and braces count
  | depth, false, escaped, c :: rest =>
      if c = '\x22' then (closeObject depth true escaped rest).map (c :: ·)
      else if c = '\x7b' then (closeObject (depth + 1) false escaped rest).map (c :: ·)
      else if c = '\x7d' then
        if depth - 1 = 0 then some [c] else (closeObject (depth - 1) false escaped rest).map (c :: ·)
      else (closeObject depth false escaped rest).map (c :: ·)

/-- The first balanced object of a text, read from its first opening brace on. -/
def extractJsonObject (text : List Char) : Option (List Char) :=
  match text.dropWhile (· != '\x7b') with
  | [] => none
  | start => closeObject 0 false false start

end Recommendations
end HiddenSteps
