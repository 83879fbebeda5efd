import HiddenSteps.Domain.Records
import HiddenSteps.Domain.TimeFmt
import Mathlib.Algebra.Group.Int.Defs
import Mathlib.Data.List.Sort

/-!
# Store — the tables of the event store and the operations on them

An `EventStore` holds the decoded rows of every table.  Row ids are never reused: a table with
`AUTOINCREMENT` keeps the largest id it has given out, and clearing the table does not reset it.
An operation here is one statement or one transaction of the program; it fails on the checks and
foreign keys of the schema.
-/

namespace HiddenSteps
namespace EventStore

inductive EventStoreError where
  | database (message : String)
  | serialization (message : String)
  | invalidKeyOrCorruptFile
  | timestamp (message : String)
  | invalidStoredValue (message : String)
  deriving DecidableEq, Repr

def EventStoreError.message : EventStoreError → String
  | database message => "database error: " ++ message
  | serialization message => "serialization error: " ++ message
  | invalidKeyOrCorruptFile =>
      "could not open the encrypted store — wrong key, or the file is not a HiddenSteps database"
  | timestamp message => "timestamp error: " ++ message
  | invalidStoredValue message => "stored value is not valid for its column: " ++ message

structure ObservationSourceRow where
  id : String
  displayName : String
  trustTier : String
  manifest : Json
  grantedCapabilities : Json
  minPrivacyLevel : Int
  enabled : Bool
  installedAt : Timestamp
  deriving DecidableEq

structure PatternEmbedding where
  patternId : Nat
  embedding : List UInt8
  dimensions : Nat
  deriving DecidableEq

structure WorkflowNode where
  id : Nat
  label : String
  nodeType : String
  deriving DecidableEq

structure WorkflowEdge where
  fromNodeId : Nat
  toNodeId : Nat
  patternId : Option Nat
  weight : Int
  deriving DecidableEq

/-- The rows of the tables, oldest first, and the largest ids given out. -/
structure Store where
  schemaVersions : List Int
  privacyState : Option PrivacyState
  observationSources : List ObservationSourceRow
  events : List EventSummary
  eventSeq : Nat
  patterns : List Pattern
  patternSeq : Nat
  patternEvents : List (Nat × Nat)
  patternEmbeddings : List PatternEmbedding
  workflowNodes : List WorkflowNode
  workflowEdges : List WorkflowEdge
  recommendations : List Recommendation
  recommendationSeq : Nat
  llmProviders : List LlmProviderConfig
  auditLog : List AuditEntry
  auditSeq : Nat
  settings : List (String × Json)
  enterprisePolicy : Option EnterprisePolicy
  deriving DecidableEq

namespace Store

def currentSchemaVersion : Int := 1

/-- A file whose tables have been created and that holds nothing yet. -/
def empty : Store where
  schemaVersions := []
  privacyState := none
  observationSources := []
  events := []
  eventSeq := 0
  patterns := []
  patternSeq := 0
  patternEvents := []
  patternEmbeddings := []
  workflowNodes := []
  workflowEdges := []
  recommendations := []
  recommendationSeq := 0
  llmProviders := []
  auditLog := []
  auditSeq := 0
  settings := []
  enterprisePolicy := none

/-- Record the schema version and insert the privacy row, once per file. -/
def migrate (store : Store) (now : Timestamp) : Store :=
  if store.schemaVersions.isEmpty then
    { store with
      schemaVersions := [currentSchemaVersion]
      privacyState := some (.initial now) }
  else
    store

/-! ## Privacy state and policy -/

def getPrivacyState (store : Store) : Except EventStoreError PrivacyState :=
  match store.privacyState with
  | some state => .ok state
  | none => .error (.database "Query returned no rows")

/-- An update of the one row; nothing happens while there is none. -/
def setPrivacyState (store : Store) (state : PrivacyState) : Store :=
  { store with privacyState := store.privacyState.map fun _ => state }

def getEnterprisePolicy (store : Store) : Option EnterprisePolicy := store.enterprisePolicy

def setEnterprisePolicy (store : Store) (policy : EnterprisePolicy) : Store :=
  { store with enterprisePolicy := some policy }

/-! ## Events -/

def insertEventSummary (store : Store) (event : EventSummary) : Nat × Store :=
  let id := store.eventSeq + 1
  (id, { store with events := store.events ++ [{ event with id := some id }], eventSeq := id })

/-- `ORDER BY occurred_at DESC`: later text first, and the later row first among equal texts. -/
def newestFirst (events : List EventSummary) : List EventSummary :=
  events.reverse.insertionSort fun a b =>
    TimeFmt.textLe (TimeFmt.toRfc3339 b.occurredAt) (TimeFmt.toRfc3339 a.occurredAt)

/-- `LIMIT n`; a negative limit is no limit. -/
def limited {α : Type} (limit : Int) (rows : List α) : List α :=
  if limit < 0 then rows else rows.take limit.toNat

def listRecentEvents (store : Store) (limit : Int) : List EventSummary :=
  limited limit (newestFirst store.events)

/-- Delete the events that meet a condition; their links to patterns go with them. -/
def deleteEventsWhere (store : Store) (p : EventSummary → Bool) : Nat × Store :=
  let gone := store.events.filter p
  ( gone.length,
    { store with
      events := store.events.filter fun e => !p e
      patternEvents := store.patternEvents.filter fun link =>
        !gone.any fun e => e.id == some link.2 } )

def deleteEvents (store : Store) (ids : List Nat) : Nat × Store :=
  store.deleteEventsWhere fun e => e.id.any ids.contains

def deleteExpiredEvents (store : Store) (now : Timestamp) : Nat × Store :=
  store.deleteEventsWhere fun e =>
    e.ttlExpiresAt.any fun ttl => TimeFmt.textLe (TimeFmt.toRfc3339 ttl) (TimeFmt.toRfc3339 now)

/-! ## Audit log -/

def appendAuditEntry (store : Store) (entry : AuditEntry) : Nat × Store :=
  let id := store.auditSeq + 1
  (id, { store with auditLog := store.auditLog ++ [{ entry with id := some id }], auditSeq := id })

def listAuditLog (store : Store) (limit : Int) : List AuditEntry :=
  limited limit (store.auditLog.reverse.insertionSort fun a b =>
    TimeFmt.textLe (TimeFmt.toRfc3339 b.occurredAt) (TimeFmt.toRfc3339 a.occurredAt))

/-! ## Delete all -/

/-- The transaction of `delete_all_data`: clear every table except the schema version and reset the
privacy row. -/
def deleteAllData (store : Store) (now : Timestamp) : Store :=
  { store with
    patternEvents := []
    patternEmbeddings := []
    workflowEdges := []
    workflowNodes := []
    recommendations := []
    patterns := []
    events := []
    observationSources := []
    llmProviders := []
    auditLog := []
    settings := []
    enterprisePolicy := none
    -- the sequence counters are not touched
    privacyState := store.privacyState.map fun _ => .initial now }

/-! ## Patterns -/

def insertPattern (store : Store) (pattern : Pattern) : Nat × Store :=
  let id := store.patternSeq + 1
  ( id,
    { store with
      patterns := store.patterns ++ [{ pattern with id := some id }]
      patternSeq := id } )

def updatePatternStats (store : Store) (patternId : Nat) (lastSeenAt : Timestamp)
    (occurrenceCount : Nat) (estimatedMinutesPerOccurrence : Option ℚ) : Store :=
  { store with
    patterns := store.patterns.map fun p =>
      if p.id = some patternId then
        { p with
          lastSeenAt := lastSeenAt
          occurrenceCount := occurrenceCount
          estimatedMinutesPerOccurrence := estimatedMinutesPerOccurrence }
      else p }

def setPatternStatus (store : Store) (patternId : Nat) (status : PatternStatus) : Store :=
  { store with
    patterns := store.patterns.map fun p =>
      if p.id = some patternId then { p with status := status } else p }

def listPatterns (store : Store) (statusFilter : Option PatternStatus) : List Pattern :=
  match statusFilter with
  | some status => store.patterns.filter fun p => p.status == status
  | none => store.patterns

def hasPattern (store : Store) (patternId : Nat) : Bool :=
  store.patterns.any fun p => p.id == some patternId

def hasEvent (store : Store) (eventId : Nat) : Bool :=
  store.events.any fun e => e.id == some eventId

/-- `INSERT OR IGNORE` of one link: a link that exists is ignored, a missing row is an error. -/
def linkPatternEvent (store : Store) (patternId eventId : Nat) : Except EventStoreError Store :=
  if store.patternEvents.contains (patternId, eventId) then .ok store
  else if store.hasPattern patternId && store.hasEvent eventId then
    .ok { store with patternEvents := store.patternEvents ++ [(patternId, eventId)] }
  else
    .error (.database "FOREIGN KEY constraint failed")

/-- The statements commit one by one: an error keeps the links made before it. -/
def linkPatternEvents (store : Store) (patternId : Nat) :
    List Nat → Except EventStoreError Unit × Store
  | [] => (.ok (), store)
  | eventId :: eventIds =>
      match store.linkPatternEvent patternId eventId with
      | .ok store' => store'.linkPatternEvents patternId eventIds
      | .error e => (.error e, store)

/-! ## Recommendations -/

def insertRecommendation (store : Store) (rec : Recommendation) :
    Except EventStoreError (Nat × Store) :=
  if ¬ (0 ≤ rec.confidence ∧ rec.confidence ≤ 1) then
    .error (.database "CHECK constraint failed: confidence BETWEEN 0 AND 1")
  else if !store.hasPattern rec.patternId then
    .error (.database "FOREIGN KEY constraint failed")
  else
    let id := store.recommendationSeq + 1
    .ok ( id,
      { store with
        recommendations := store.recommendations ++ [{ rec with id := some id }]
        recommendationSeq := id } )

def setRecommendationStatus (store : Store) (id : Nat) (status : RecommendationStatus)
    (dismissalReason : Option String) : Store :=
  { store with
    recommendations := store.recommendations.map fun r =>
      if r.id = some id then { r with status := status, dismissalReason := dismissalReason }
      else r }

/-! ## Providers -/

def upsertLlmProvider (store : Store) (provider : LlmProviderConfig) : Store :=
  { store with
    llmProviders :=
      -- `ON CONFLICT(id)`: the row keeps its place
      if store.llmProviders.any fun p => p.id == provider.id then
        store.llmProviders.map fun p => if p.id = provider.id then provider else p
      else
        store.llmProviders ++ [provider] }

def setActiveLlmProvider (store : Store) (providerId : String) : Except EventStoreError Store :=
  -- the update below would succeed on no row, too
  if store.llmProviders.any fun p => p.id == providerId then
    .ok { store with
      llmProviders := store.llmProviders.map fun p => { p with active := p.id == providerId } }
  else
    .error (.invalidStoredValue ("no llm_providers row to update (provider '" ++ providerId ++
      "' not registered?)"))

def getActiveLlmProvider (store : Store) : Option LlmProviderConfig :=
  store.llmProviders.find? fun p => p.active

/-! ## Settings -/

def getSetting (store : Store) (key : String) : Option Json :=
  (store.settings.find? fun s => s.1 == key).map Prod.snd

def setSetting (store : Store) (key : String) (value : Json) : Store :=
  { store with
    settings :=
      if store.settings.any fun s => s.1 == key then
        store.settings.map fun s => if s.1 == key then (key, value) else s
      else
        store.settings ++ [(key, value)] }

/-! ## Export -/

/-- `i64::MAX` -/
def maxLimit : Int := 2 ^ 63 - 1

end Store

structure ExportedData where
  privacyState : PrivacyState
  eventSummaries : List EventSummary
  auditLog : List AuditEntry
  patterns : List Pattern
  recommendations : List Recommendation
  deriving DecidableEq

def Store.exportData (store : Store) : Except EventStoreError ExportedData :=
  match store.getPrivacyState with
  | .error e => .error e
  | .ok privacyState =>
      .ok
        { privacyState := privacyState
          eventSummaries := store.listRecentEvents maxLimit
          auditLog := store.listAuditLog maxLimit
          patterns := store.listPatterns none
          recommendations := store.recommendations }

end EventStore
end HiddenSteps
