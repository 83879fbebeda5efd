import HiddenSteps.EventStore.Columns
import HiddenSteps.Systems.Machine

/-!
# RawStore — the operations of the store on rows of columns

An operation binds a record and changes rows, or reads rows back.  All rows that the operations can
produce can be read back, as long as the conversions of what they were given lose nothing.
-/

namespace HiddenSteps
namespace EventStore
namespace Raw

open Systems SqlTables BinaryFloat

/-- The tables whose records are listed, as rows. -/
structure RawStore where
  events : SqlTables.Table
  auditLog : SqlTables.Table
  patterns : SqlTables.Table
  recommendations : SqlTables.Table
  llmProviders : List Row

/-- `EventStoreError::from` -/
def ofSql {α : Type} : Except SqlError α → Except EventStoreError α :=
  Except.mapError fun e => .database e.message

/-- A statement whose errors are passed on with `?`. -/
def execute {α : Type} (result : Except SqlError α) : Outcome α :=
  ExceptT.mk (some (ofSql result))

/-- Bind the parameters of a record and insert its row. -/
def insertInto (schema : Schema) (columns : List String) (table : SqlTables.Table)
    (params : Outcome (List SqlValue)) : Outcome (Nat × SqlTables.Table) := do
  execute (table.insert schema columns (← params))

namespace RawStore

variable {Time Value : Type} (c : Codecs Time Value)

def empty : RawStore where
  events := .empty
  auditLog := .empty
  patterns := .empty
  recommendations := .empty
  llmProviders := []

/-- `WHERE id = ..` -/
def hasId (id : Int) (row : Row) : Bool :=
  row "id" == toSql id

/-- `WHERE status = ..`, without a filter every row. -/
def hasStatus (status : Option String) (row : Row) : Bool :=
  status.all fun text => row "status" == toSql text

/-- `ORDER BY occurred_at DESC`, the later row first among equal texts. -/
def newestFirst (rows : List Row) : List Row :=
  rows.reverse.insertionSort fun a b => (b "occurred_at").le (a "occurred_at")

/-! ## Events -/

def insertEventSummary (store : RawStore) (event : EventSummary Time Value) :
    Outcome (Nat × RawStore) := do
  let (id, events) ←
    insertInto EventSummary.schema EventSummary.inserted store.events (event.params c)
  return (id, { store with events := events })

def listRecentEvents (store : RawStore) (limit : Int) :
    Except EventStoreError (List (EventSummary Time Value)) :=
  ofSql (query (rowToEventSummary c) EventSummary.selected
    (Store.limited limit (newestFirst store.events.rows)))

def deleteEvents (store : RawStore) (ids : List Int) : RawStore :=
  { store with events := store.events.deleteWhere fun row => ids.any fun id => hasId id row }

def deleteExpiredEvents (store : RawStore) (now : Time) : Outcome RawStore := do
  let text ← c.toRfc3339 now
  return { store with
    events := store.events.deleteWhere fun row =>
      row "ttl_expires_at" != .null && (row "ttl_expires_at").le (toSql text) }

/-! ## Audit log -/

def appendAuditEntry (store : RawStore) (entry : AuditEntry Time Value) :
    Outcome (Nat × RawStore) := do
  let (id, auditLog) ←
    insertInto AuditEntry.schema AuditEntry.inserted store.auditLog (entry.params c)
  return (id, { store with auditLog := auditLog })

def listAuditLog (store : RawStore) (limit : Int) :
    Except EventStoreError (List (AuditEntry Time Value)) :=
  ofSql (query (rowToAuditEntry c) AuditEntry.selected
    (Store.limited limit (newestFirst store.auditLog.rows)))

/-! ## Patterns -/

def insertPattern (store : RawStore) (pattern : Pattern Time Value) :
    Outcome (Nat × RawStore) := do
  let (id, patterns) ←
    insertInto Pattern.schema Pattern.inserted store.patterns (pattern.params c)
  return (id, { store with patterns := patterns })

def setStatsColumns (lastSeenAt : String) (occurrenceCount : UInt32)
    (estimatedMinutesPerOccurrence : Option F64) (row : Row) : Row :=
  let row := Function.update row "last_seen_at" (toSql lastSeenAt)
  let row := Function.update row "occurrence_count" (toSql (occurrenceCount.toNat : Int))
  Function.update row "estimated_minutes_per_occurrence" (toSql estimatedMinutesPerOccurrence)

def updatePatternStats (store : RawStore) (patternId : Int) (lastSeenAt : Time)
    (occurrenceCount : UInt32) (estimatedMinutesPerOccurrence : Option F64) :
    Outcome RawStore := do
  let text ← c.toRfc3339 lastSeenAt
  let patterns ← execute (store.patterns.update Pattern.schema (hasId patternId)
    (setStatsColumns text occurrenceCount estimatedMinutesPerOccurrence))
  return { store with patterns := patterns }

def setPatternStatusColumns (status : PatternStatus) (row : Row) : Row :=
  Function.update row "status" (toSql (patternStatusToStr status))

def setPatternStatus (store : RawStore) (patternId : Int) (status : PatternStatus) :
    Outcome RawStore := do
  let patterns ← execute (store.patterns.update Pattern.schema (hasId patternId)
    (setPatternStatusColumns status))
  return { store with patterns := patterns }

def listPatterns (store : RawStore) (statusFilter : Option PatternStatus) :
    Except EventStoreError (List (Pattern Time Value)) :=
  ofSql (query (rowToPattern c) Pattern.selected
    (store.patterns.rows.filter (hasStatus (statusFilter.map patternStatusToStr))))

/-! ## Recommendations -/

/-- The row that a foreign key to `patterns` refers to. -/
def hasPattern (store : RawStore) (patternId : Int) : Bool :=
  store.patterns.rows.any (hasId patternId)

def insertRecommendation (store : RawStore) (rec : Recommendation Time) :
    Outcome (Nat × RawStore) := do
  let (id, recommendations) ←
    insertInto Recommendation.schema Recommendation.inserted store.recommendations (rec.params c)
  if !store.hasPattern rec.patternId then
    throw (.database "FOREIGN KEY constraint failed")
  return (id, { store with recommendations := recommendations })

def setRecommendationColumns (status : RecommendationStatus) (dismissalReason : Option String)
    (row : Row) : Row :=
  let row := Function.update row "status" (toSql (recommendationStatusToStr status))
  Function.update row "dismissal_reason" (toSql dismissalReason)

def setRecommendationStatus (store : RawStore) (id : Int) (status : RecommendationStatus)
    (dismissalReason : Option String) : Outcome RawStore := do
  let recommendations ← execute (store.recommendations.update Recommendation.schema (hasId id)
    (setRecommendationColumns status dismissalReason))
  return { store with recommendations := recommendations }

def listRecommendations (store : RawStore) (statusFilter : Option RecommendationStatus) :
    Except EventStoreError (List (Recommendation Time)) :=
  ofSql (query (rowToRecommendation c) Recommendation.selected
    (store.recommendations.rows.filter (hasStatus (statusFilter.map recommendationStatusToStr))))

/-! ## Providers -/

def upsertLlmProvider (store : RawStore) (provider : LlmProviderConfig) : Outcome RawStore := do
  let llmProviders ← execute (upsert LlmProvider.schema "id" LlmProvider.updated store.llmProviders
    (.ofParams LlmProvider.inserted (LlmProvider.params provider)))
  return { store with llmProviders := llmProviders }

def listLlmProviders (store : RawStore) : Except EventStoreError (List LlmProviderConfig) :=
  ofSql (query rowToLlmProvider LlmProvider.selected store.llmProviders)

def setActiveLlmProvider (store : RawStore) (providerId : String) : Outcome RawStore := do
  if store.llmProviders.any fun row => row "id" == toSql providerId then
    return { store with
      llmProviders := store.llmProviders.map fun row =>
        Function.update row "active" (toSql (row "id" == toSql providerId)) }
  else
    throw (.invalidStoredValue ("no llm_providers row to update (provider '" ++ providerId ++
      "' not registered?)"))

/-! ## Delete all -/

/-- What `delete_all_data` does to these tables; the largest ids given out are kept. -/
def deleteAllData (store : RawStore) (now : Time) : Outcome RawStore := do
  -- the instant is for the row of the privacy state
  let _ ← c.toRfc3339 now
  return {
    events := store.events.deleteWhere fun _ => true
    auditLog := store.auditLog.deleteWhere fun _ => true
    patterns := store.patterns.deleteWhere fun _ => true
    recommendations := store.recommendations.deleteWhere fun _ => true
    llmProviders := [] }

/-! ## Runs -/

inductive Operation (Time Value : Type) where
  | insertEventSummary (event : EventSummary Time Value)
  | deleteEvents (ids : List Int)
  | deleteExpiredEvents (now : Time)
  | appendAuditEntry (entry : AuditEntry Time Value)
  | insertPattern (pattern : Pattern Time Value)
  | updatePatternStats (patternId : Int) (lastSeenAt : Time) (occurrenceCount : UInt32)
      (estimatedMinutesPerOccurrence : Option F64)
  | setPatternStatus (patternId : Int) (status : PatternStatus)
  | insertRecommendation (rec : Recommendation Time)
  | setRecommendationStatus (id : Int) (status : RecommendationStatus)
      (dismissalReason : Option String)
  | upsertLlmProvider (provider : LlmProviderConfig)
  | setActiveLlmProvider (providerId : String)
  | deleteAllData (now : Time)

namespace Operation

def run (store : RawStore) : Operation Time Value → Outcome RawStore
  | insertEventSummary event => Prod.snd <$> store.insertEventSummary c event
  | deleteEvents ids => pure (store.deleteEvents ids)
  | deleteExpiredEvents now => store.deleteExpiredEvents c now
  | appendAuditEntry entry => Prod.snd <$> store.appendAuditEntry c entry
  | insertPattern pattern => Prod.snd <$> store.insertPattern c pattern
  | updatePatternStats patternId lastSeenAt occurrenceCount estimatedMinutesPerOccurrence =>
      store.updatePatternStats c patternId lastSeenAt occurrenceCount estimatedMinutesPerOccurrence
  | setPatternStatus patternId status => store.setPatternStatus patternId status
  | insertRecommendation rec => Prod.snd <$> store.insertRecommendation c rec
  | setRecommendationStatus id status dismissalReason =>
      store.setRecommendationStatus id status dismissalReason
  | upsertLlmProvider provider => store.upsertLlmProvider provider
  | setActiveLlmProvider providerId => store.setActiveLlmProvider providerId
  | deleteAllData now => store.deleteAllData c now

/-- The conversions of what is stored lose nothing. -/
def Rereads : Operation Time Value → Prop
  | insertEventSummary event => event.Rereads c
  | appendAuditEntry entry => entry.Rereads c
  | insertPattern pattern => pattern.Rereads c
  | updatePatternStats _ lastSeenAt _ _ => c.RereadsTime lastSeenAt
  | insertRecommendation rec => rec.Rereads c
  | _ => True

end Operation

/-- An operation that fails changes nothing; one that panics has no next state. -/
def machine : Machine RawStore (Operation Time Value) Empty where
  step store operation :=
    (operation.run c store).run.map fun
      | .ok store' => (store', [])
      | .error _ => (store, [])

/-- The contents that operations can have left behind. -/
def Reachable (store : RawStore) : Prop :=
  (machine c).Reach (· = empty) (fun _ operation => operation.Rereads c) store []

theorem reachable_empty : Reachable c empty :=
  .start rfl

variable {c}

theorem Reachable.run {store store' : RawStore} (h : Reachable c store)
    {operation : Operation Time Value} (hrereads : operation.Rereads c)
    (hrun : operation.run c store = pure store') : Reachable c store' := by
  have hstep : (machine c).step store operation = some (store', []) := by
    show (operation.run c store).run.map _ = _
    rw [hrun]
    rfl
  exact Machine.Reach.step h hrereads hstep

end RawStore

/-! ## What an operation that succeeds has done -/

section Succeeding

variable {α β : Type}

theorem eq_pure_of_bind {x : Outcome α} {f : α → Outcome β} {b : β}
    (h : (x >>= f) = pure b) : ∃ a, x = pure a ∧ f a = pure b := by
  rcases x with _ | e | a
  · cases h
  · cases h
  · exact ⟨a, rfl, h⟩

theorem eq_ok_of_execute {result : Except SqlError α} {a : α} (h : execute result = pure a) :
    result = .ok a := by
  cases result with
  | error e => cases h
  | ok b => exact congrArg Except.ok (pure_injective h)

end Succeeding

namespace RawStore

variable {Time Value : Type} {c : Codecs Time Value} {store store' : RawStore} {id : Nat}

theorem formatRfc3339_of_toRfc3339 {dt : Time} {text : String}
    (h : c.toRfc3339 dt = pure text) : c.formatRfc3339 dt = some text := by
  cases hformat : c.formatRfc3339 dt with
  | none =>
      rw [Codecs.toRfc3339, hformat] at h
      cases h
  | some text' =>
      rw [Codecs.toRfc3339_eq hformat] at h
      exact congrArg some (pure_injective h)

theorem insertEventSummary_eq_pure {event : EventSummary Time Value}
    (h : store.insertEventSummary c event = pure (id, store')) :
    ∃ events, insertInto EventSummary.schema EventSummary.inserted store.events (event.params c) =
        pure (id, events) ∧ store' = { store with events := events } := by
  obtain ⟨⟨id', events⟩, hinsert, h⟩ := eq_pure_of_bind h
  cases h
  exact ⟨events, hinsert, rfl⟩

theorem deleteExpiredEvents_eq_pure {now : Time}
    (h : store.deleteExpiredEvents c now = pure store') :
    ∃ text, c.formatRfc3339 now = some text ∧ store' = { store with
      events := store.events.deleteWhere fun row =>
        row "ttl_expires_at" != .null && (row "ttl_expires_at").le (toSql text) } := by
  obtain ⟨text, htext, h⟩ := eq_pure_of_bind h
  cases h
  exact ⟨text, formatRfc3339_of_toRfc3339 htext, rfl⟩

theorem appendAuditEntry_eq_pure {entry : AuditEntry Time Value}
    (h : store.appendAuditEntry c entry = pure (id, store')) :
    ∃ auditLog, insertInto AuditEntry.schema AuditEntry.inserted store.auditLog (entry.params c) =
        pure (id, auditLog) ∧ store' = { store with auditLog := auditLog } := by
  obtain ⟨⟨id', auditLog⟩, hinsert, h⟩ := eq_pure_of_bind h
  cases h
  exact ⟨auditLog, hinsert, rfl⟩

theorem insertPattern_eq_pure {pattern : Pattern Time Value}
    (h : store.insertPattern c pattern = pure (id, store')) :
    ∃ patterns, insertInto Pattern.schema Pattern.inserted store.patterns (pattern.params c) =
        pure (id, patterns) ∧ store' = { store with patterns := patterns } := by
  obtain ⟨⟨id', patterns⟩, hinsert, h⟩ := eq_pure_of_bind h
  cases h
  exact ⟨patterns, hinsert, rfl⟩

theorem updatePatternStats_eq_pure {patternId : Int} {lastSeenAt : Time} {occurrenceCount : UInt32}
    {minutes : Option F64}
    (h : store.updatePatternStats c patternId lastSeenAt occurrenceCount minutes = pure store') :
    ∃ text patterns, c.formatRfc3339 lastSeenAt = some text ∧
      store.patterns.update Pattern.schema (hasId patternId)
        (setStatsColumns text occurrenceCount minutes) = .ok patterns ∧
      store' = { store with patterns := patterns } := by
  obtain ⟨text, htext, h⟩ := eq_pure_of_bind h
  obtain ⟨patterns, hpatterns, h⟩ := eq_pure_of_bind h
  cases h
  exact ⟨text, patterns, formatRfc3339_of_toRfc3339 htext, eq_ok_of_execute hpatterns, rfl⟩

theorem setPatternStatus_eq_pure {patternId : Int} {status : PatternStatus}
    (h : store.setPatternStatus patternId status = pure store') :
    ∃ patterns, store.patterns.update Pattern.schema (hasId patternId)
        (setPatternStatusColumns status) = .ok patterns ∧
      store' = { store with patterns := patterns } := by
  obtain ⟨patterns, hpatterns, h⟩ := eq_pure_of_bind h
  cases h
  exact ⟨patterns, eq_ok_of_execute hpatterns, rfl⟩

theorem insertRecommendation_eq_pure {rec : Recommendation Time}
    (h : store.insertRecommendation c rec = pure (id, store')) :
    store.hasPattern rec.patternId = true ∧
      ∃ recommendations, insertInto Recommendation.schema Recommendation.inserted
          store.recommendations (rec.params c) = pure (id, recommendations) ∧
        store' = { store with recommendations := recommendations } := by
  obtain ⟨⟨id', recommendations⟩, hinsert, h⟩ := eq_pure_of_bind h
  dsimp only at h
  split at h
  · cases h
  · rename_i hpattern
    cases h
    exact ⟨by simpa using hpattern, recommendations, hinsert, rfl⟩

theorem setRecommendationStatus_eq_pure {recId : Int} {status : RecommendationStatus}
    {dismissalReason : Option String}
    (h : store.setRecommendationStatus recId status dismissalReason = pure store') :
    ∃ recommendations, store.recommendations.update Recommendation.schema (hasId recId)
        (setRecommendationColumns status dismissalReason) = .ok recommendations ∧
      store' = { store with recommendations := recommendations } := by
  obtain ⟨recommendations, hrecommendations, h⟩ := eq_pure_of_bind h
  cases h
  exact ⟨recommendations, eq_ok_of_execute hrecommendations, rfl⟩

theorem upsertLlmProvider_eq_pure {provider : LlmProviderConfig}
    (h : store.upsertLlmProvider provider = pure store') :
    ∃ rows, upsert LlmProvider.schema "id" LlmProvider.updated store.llmProviders
        (.ofParams LlmProvider.inserted (LlmProvider.params provider)) = .ok rows ∧
      store' = { store with llmProviders := rows } := by
  obtain ⟨rows, hupsert, h⟩ := eq_pure_of_bind h
  cases h
  exact ⟨rows, eq_ok_of_execute hupsert, rfl⟩

theorem setActiveLlmProvider_eq_pure {providerId : String}
    (h : store.setActiveLlmProvider providerId = pure store') :
    (store.llmProviders.any fun row => row "id" == toSql providerId) = true ∧
      store' = { store with
        llmProviders := store.llmProviders.map fun row =>
          Function.update row "active" (toSql (row "id" == toSql providerId)) } := by
  unfold setActiveLlmProvider at h
  split at h
  · rename_i hthere
    cases h
    exact ⟨hthere, rfl⟩
  · cases h

theorem deleteAllData_eq_pure {now : Time} (h : store.deleteAllData c now = pure store') :
    store' = {
      events := store.events.deleteWhere fun _ => true
      auditLog := store.auditLog.deleteWhere fun _ => true
      patterns := store.patterns.deleteWhere fun _ => true
      recommendations := store.recommendations.deleteWhere fun _ => true
      llmProviders := [] } := by
  obtain ⟨text, -, h⟩ := eq_pure_of_bind h
  cases h
  rfl

end RawStore

end Raw
end EventStore
end HiddenSteps
