import HiddenSteps.EventStore.Contents
import HiddenSteps.EventStore.Recent

/-!
# RoundTrip — a record that is inserted is listed with all its fields

Whatever the store holds, the record comes back under the id that it was given, and nothing else
does.  A recommendation has to be for a pattern that is stored.
-/

namespace HiddenSteps
namespace EventStore
namespace Raw

open Systems SqlTables BinaryFloat

/-- The list has the record, and nothing else under its key. -/
def ListedBack {α κ : Type} (key : α → κ) (listed : Except EventStoreError (List α)) (a : α) :
    Prop :=
  ∃ results, listed = .ok results ∧ a ∈ results ∧ ∀ b ∈ results, key b = key a → b = a

namespace RawStore

variable {Time Value : Type} {c : Codecs Time Value} {store : RawStore}

/-- Every record of the five types can be inserted and is listed back. -/
structure RoundTrips (c : Codecs Time Value) (store : RawStore) : Prop where
  eventSummary : ∀ event : EventSummary Time Value, event.Rereads c →
    ∃ (id : Nat) (store' : RawStore), store.insertEventSummary c event = pure (id, store') ∧
      ∀ limit : Int, limit < 0 ∨ (store'.events.rows.length : Int) ≤ limit →
        ListedBack EventSummary.id (store'.listRecentEvents c limit)
          { event with id := some (id : Int) }
  auditEntry : ∀ entry : AuditEntry Time Value, entry.Rereads c →
    ∃ (id : Nat) (store' : RawStore), store.appendAuditEntry c entry = pure (id, store') ∧
      ∀ limit : Int, limit < 0 ∨ (store'.auditLog.rows.length : Int) ≤ limit →
        ListedBack AuditEntry.id (store'.listAuditLog c limit) { entry with id := some (id : Int) }
  pattern : ∀ pattern : Pattern Time Value, pattern.Rereads c →
    ∃ (id : Nat) (store' : RawStore), store.insertPattern c pattern = pure (id, store') ∧
      ∀ filter, filter = none ∨ filter = some pattern.status →
        ListedBack Pattern.id (store'.listPatterns c filter) { pattern with id := some (id : Int) }
  recommendation : ∀ rec : Recommendation Time, rec.Rereads c →
    0 ≤ rec.confidence.value → rec.confidence.value ≤ 1 → store.hasPattern rec.patternId = true →
      ∃ (id : Nat) (store' : RawStore), store.insertRecommendation c rec = pure (id, store') ∧
        ∀ filter, filter = none ∨ filter = some rec.status →
          ListedBack Recommendation.id (store'.listRecommendations c filter)
            { rec with id := some (id : Int) }
  llmProvider : ∀ provider : LlmProviderConfig,
    ∃ store', store.upsertLlmProvider provider = pure store' ∧
      ListedBack LlmProviderConfig.id store'.listLlmProviders provider

/-! ## Listing an inserted row -/

theorem mem_newestFirst {rows : List Row} {row : Row} : row ∈ newestFirst rows ↔ row ∈ rows := by
  rw [newestFirst, (List.perm_insertionSort _ _).mem_iff, List.mem_reverse]

theorem limited_eq_self {α : Type} {limit : Int} {rows : List α}
    (h : limit < 0 ∨ (rows.length : Int) ≤ limit) : Store.limited limit rows = rows := by
  unfold Store.limited
  split
  · rfl
  · exact List.take_of_length_le (by omega)

section Inserting

variable {α : Type} {F : RowFormat α} {table : SqlTables.Table} {a : α} {params : List SqlValue}

/-- The table with the row of an insertion. -/
def appended (table : SqlTables.Table) (columns : List String) (params : List SqlValue) :
    SqlTables.Table :=
  { rows := table.rows ++ [table.newRow columns params], seq := table.seq + 1 }

theorem insertInto_eq_pure {schema : Schema} {columns : List String}
    {bound : Outcome (List SqlValue)} (hbound : bound = pure params)
    (hverify : schema.verify (table.newRow columns params) = .ok ()) :
    insertInto schema columns table bound = pure (table.seq + 1, appended table columns params) := by
  rw [insertInto, hbound, pure_bind, SqlTables.Table.insert, hverify]
  rfl

theorem listedBack_newRow (htable : F.Decodes table) (hparams : F.Params a params)
    {rows : List Row} (hrows : ∀ row ∈ rows, row ∈ (appended table F.inserted params).rows)
    (hnew : table.newRow F.inserted params ∈ rows) :
    ListedBack F.id (ofSql (query F.read F.selected rows)) (F.withId (table.seq + 1 : Nat) a) := by
  have hrows' : ∀ row ∈ rows, row ∈ table.rows ∨ row = table.newRow F.inserted params := by
    intro row hrow
    simpa [appended] using hrows row hrow
  obtain ⟨results, hquery, hmem, honly⟩ := htable.query_newRow hparams hrows' hnew
  refine ⟨results, by rw [hquery]; rfl, hmem, fun b hb hid => honly b hb ?_⟩
  rw [hid, F.id_withId]

/-- A list without a limit that matters is of all rows. -/
theorem listedBack_recent (htable : F.Decodes table) (hparams : F.Params a params) {limit : Int}
    (hlimit : limit < 0 ∨ ((appended table F.inserted params).rows.length : Int) ≤ limit) :
    ListedBack F.id
      (ofSql (query F.read F.selected
        (Store.limited limit (newestFirst (appended table F.inserted params).rows))))
      (F.withId (table.seq + 1 : Nat) a) := by
  have hlength : (newestFirst (appended table F.inserted params).rows).length =
      (appended table F.inserted params).rows.length := by
    rw [newestFirst, (List.perm_insertionSort _ _).length_eq, List.length_reverse]
  rw [limited_eq_self (by rwa [hlength])]
  exact listedBack_newRow htable hparams (fun row => mem_newestFirst.1)
    (mem_newestFirst.2 (by simp [appended]))

/-- A list that is not filtered, or by the status of the new row, has the new row. -/
theorem listedBack_filtered (htable : F.Decodes table) (hparams : F.Params a params)
    {i : Nat} {status : String} (hname : F.inserted[i]? = some "status")
    (hvalue : params[i]? = some (toSql status)) {filter : Option String}
    (hfilter : filter = none ∨ filter = some status) :
    ListedBack F.id
      (ofSql (query F.read F.selected
        ((appended table F.inserted params).rows.filter (hasStatus filter))))
      (F.withId (table.seq + 1 : Nat) a) := by
  refine listedBack_newRow htable hparams (fun row hrow => List.mem_of_mem_filter hrow) ?_
  refine List.mem_filter.2 ⟨by simp [appended], ?_⟩
  rcases hfilter with rfl | rfl
  · rfl
  · rw [hasStatus, Option.all_some, RowFormat.newRow_eq hparams hname hvalue, beq_self_eq_true]

end Inserting

theorem listedBack_upsert {rows rows' : List Row} {provider : LlmProviderConfig}
    (hrows : ∀ row ∈ rows, ∃ provider, LlmProvider.Holds provider row)
    (hupsert : upsert LlmProvider.schema "id" LlmProvider.updated rows
      (.ofParams LlmProvider.inserted (LlmProvider.params provider)) = .ok rows') :
    ListedBack LlmProviderConfig.id
      (ofSql (query rowToLlmProvider LlmProvider.selected rows')) provider := by
  obtain ⟨⟨new, hnew, hset⟩, hothers⟩ := upsert_eq_ok hupsert
  have hread : ∀ row ∈ rows', ∃ a, rowToLlmProvider (row.fetch LlmProvider.selected) = .ok a := by
    intro row hrow
    rcases hothers row hrow with ⟨hold, -⟩ | hset
    · obtain ⟨other, hother⟩ := hrows row hold
      exact ⟨other, hother.read_eq⟩
    · exact ⟨provider, (LlmProvider.holds_of_updated hset).read_eq⟩
  obtain ⟨results, hquery, hmem⟩ := exists_query hread
  refine ⟨results, by rw [hquery]; rfl,
    hmem new hnew provider (LlmProvider.holds_of_updated hset).read_eq, ?_⟩
  intro b hb hid
  obtain ⟨row, hrow, hb⟩ := exists_of_mem_query hquery hb
  rcases hothers row hrow with ⟨hold, hne⟩ | hset
  · -- the rows that are kept have other ids
    obtain ⟨other, hother⟩ := hrows row hold
    rw [hother.read_eq, Except.ok.injEq] at hb
    rw [hother.id_eq, (LlmProvider.holds_ofParams provider).id_eq, hb, hid] at hne
    exact absurd rfl hne
  · rw [(LlmProvider.holds_of_updated hset).read_eq, Except.ok.injEq] at hb
    exact hb.symm

theorem Decodes.roundTrips (h : store.Decodes c) : RoundTrips c store where
  eventSummary event hrereads := by
    obtain ⟨params, hparams, -, -, hverify⟩ := EventSummary.exists_params hrereads
    refine ⟨store.events.seq + 1,
      { store with events := appended store.events EventSummary.inserted params }, ?_,
      fun limit hlimit => ?_⟩
    · rw [insertEventSummary, insertInto_eq_pure hparams (hverify _)]
      rfl
    · exact listedBack_recent (F := EventSummary.format c) h.events ⟨hrereads, hparams⟩ hlimit
  auditEntry entry hrereads := by
    obtain ⟨params, hparams, -, -, hverify⟩ := AuditEntry.exists_params hrereads
    refine ⟨store.auditLog.seq + 1,
      { store with auditLog := appended store.auditLog AuditEntry.inserted params }, ?_,
      fun limit hlimit => ?_⟩
    · rw [appendAuditEntry, insertInto_eq_pure hparams (hverify _)]
      rfl
    · exact listedBack_recent (F := AuditEntry.format c) h.auditLog ⟨hrereads, hparams⟩ hlimit
  pattern pattern hrereads := by
    obtain ⟨params, hparams, -, -, hverify⟩ := Pattern.exists_params hrereads
    refine ⟨store.patterns.seq + 1,
      { store with patterns := appended store.patterns Pattern.inserted params }, ?_,
      fun filter hfilter => ?_⟩
    · rw [insertPattern, insertInto_eq_pure hparams (hverify _)]
      rfl
    · have hstatus := Pattern.getElem?_params_status (c := c) ⟨hrereads, hparams⟩
      refine listedBack_filtered (F := Pattern.format c) h.patterns ⟨hrereads, hparams⟩ rfl hstatus ?_
      exact hfilter.imp (fun hnone => by rw [hnone]; rfl) fun hsome => by rw [hsome]; rfl
  recommendation rec hrereads hlow hhigh hpattern := by
    obtain ⟨params, hparams, -, -, hverify⟩ := Recommendation.exists_params hrereads
    refine ⟨store.recommendations.seq + 1,
      { store with recommendations := appended store.recommendations Recommendation.inserted params },
      ?_, fun filter hfilter => ?_⟩
    · rw [insertRecommendation, insertInto_eq_pure hparams (hverify ⟨hlow, hhigh⟩ _), pure_bind]
      simp only [hpattern]
      rfl
    · have hstatus := Recommendation.getElem?_params_status (c := c) ⟨hrereads, hparams⟩
      refine listedBack_filtered (F := Recommendation.format c) h.recommendations
        ⟨hrereads, hparams⟩ rfl hstatus ?_
      exact hfilter.imp (fun hnone => by rw [hnone]; rfl) fun hsome => by rw [hsome]; rfl
  llmProvider provider := by
    obtain ⟨rows, hupsert⟩ := exists_upsert (LlmProvider.verify_params provider) "id"
      LlmProvider.updated store.llmProviders
    refine ⟨{ store with llmProviders := rows }, ?_, listedBack_upsert h.llmProviders hupsert⟩
    rw [upsertLlmProvider, hupsert]
    rfl

/-- The foreign key refuses a recommendation for a pattern that is not stored. -/
theorem insertRecommendation_unknown_pattern {rec : Recommendation Time} (hrereads : rec.Rereads c)
    (hlow : 0 ≤ rec.confidence.value) (hhigh : rec.confidence.value ≤ 1)
    (hpattern : store.hasPattern rec.patternId = false) :
    store.insertRecommendation c rec = throw (.database "FOREIGN KEY constraint failed") := by
  obtain ⟨params, hparams, -, -, hverify⟩ := Recommendation.exists_params hrereads
  rw [insertRecommendation, insertInto_eq_pure hparams (hverify ⟨hlow, hhigh⟩ _), pure_bind]
  simp only [hpattern]
  rfl

/-- Whatever operations have left behind, every record can be inserted and is listed back; a
recommendation can be if its pattern is stored. -/
theorem reachable_roundTrips (h : Reachable c store) : RoundTrips c store :=
  h.decodes.roundTrips

/-! ## One conversion of instants and JSON values -/

/-- 2025-07-27T07:06:45.5Z -/
def exampleTime : Timestamp := 1753600005500000000

/-- The conversions of one instant and of empty arrays and objects. -/
def exampleCodecs : Codecs Timestamp Json where
  formatRfc3339 t := some (String.ofList (TimeFmt.toRfc3339 t))
  parseRfc3339 text :=
    if text = String.ofList (TimeFmt.toRfc3339 exampleTime) then .ok exampleTime
    else .error "the 'year' component could not be parsed"
  valueToString
    | .object [] => .ok "{}"
    | .array [] => .ok "[]"
    | _ => .error "not among the examples"
  valueFromStr
    | "{}" => .ok (.object [])
    | "[]" => .ok (.array [])
    | _ => .error "expected value at line 1 column 1"
  alternatives :=
    { toString := fun
        | [] => .ok "[]"
        | _ => .error "not among the examples"
      fromValue := fun
        | .array [] => .ok []
        | _ => .error "invalid type" }
  texts :=
    { toString := fun
        | [] => .ok "[]"
        | _ => .error "not among the examples"
      fromValue := fun
        | .array [] => .ok []
        | _ => .error "invalid type" }

def examplePattern : Pattern Timestamp Json where
  id := none
  firstSeenAt := exampleTime
  lastSeenAt := exampleTime
  occurrenceCount := 3
  estimatedMinutesPerOccurrence := none
  sequenceSignature := .array []
  status := .active

def exampleRecommendation : Recommendation Timestamp where
  id := none
  patternId := 1
  createdAt := exampleTime
  title := "Automate it"
  category := .script
  why := "Seen three times."
  confidence := ⟨3 / 4, 3, -2, by norm_num, by norm_num, by norm_num⟩
  estimatedTimeSavedMinutes := .ofInt 12
  difficulty := .low
  maintenanceBurden := .medium
  privacyImplications := "none"
  implementationEffort := "an hour"
  alternatives := []
  assumptions := []
  ignoredInformation := []
  generatingProvider := "ollama"
  status := .suggested
  dismissalReason := none

theorem rereads_exampleTime : exampleCodecs.RereadsTime exampleTime :=
  ⟨_, rfl, by simp [exampleCodecs]⟩

theorem rereads_examplePattern : examplePattern.Rereads exampleCodecs where
  firstSeenAt := rereads_exampleTime
  lastSeenAt := rereads_exampleTime
  sequenceSignature := ⟨"[]", rfl, rfl⟩

theorem rereads_exampleRecommendation : exampleRecommendation.Rereads exampleCodecs where
  createdAt := rereads_exampleTime
  alternatives := ⟨"[]", .array [], rfl, rfl, rfl⟩
  assumptions := ⟨"[]", .array [], rfl, rfl, rfl⟩
  ignoredInformation := ⟨"[]", .array [], rfl, rfl, rfl⟩

theorem exampleRecommendation_confidence :
    0 ≤ exampleRecommendation.confidence.value ∧ exampleRecommendation.confidence.value ≤ 1 := by
  norm_num [exampleRecommendation]

/-- A store with the pattern. -/
def exampleStore : RawStore :=
  { empty with
    patterns := appended .empty Pattern.inserted
      [ .text "2025-07-27T07:06:45.5Z", .text "2025-07-27T07:06:45.5Z", .integer 3, .null,
        .text "[]", .text "active" ] }

theorem reachable_exampleStore : Reachable exampleCodecs exampleStore := by
  have hrereads : (Operation.insertPattern examplePattern).Rereads exampleCodecs :=
    rereads_examplePattern
  exact (reachable_empty exampleCodecs).run hrereads rfl

theorem exampleRecommendation_listed :
    ∃ (id : Nat) (store' : RawStore),
      exampleStore.insertRecommendation exampleCodecs exampleRecommendation = pure (id, store') ∧
        ListedBack Recommendation.id (store'.listRecommendations exampleCodecs (some .suggested))
          { exampleRecommendation with id := some (id : Int) } := by
  obtain ⟨id, store', hinsert, hlisted⟩ :=
    (reachable_roundTrips reachable_exampleStore).recommendation exampleRecommendation
      rereads_exampleRecommendation exampleRecommendation_confidence.1
      exampleRecommendation_confidence.2 rfl
  exact ⟨id, store', hinsert, hlisted _ (Or.inr rfl)⟩

/-- Without the pattern the recommendation is refused, whatever else it meets. -/
theorem unknown_pattern_refused :
    Reachable exampleCodecs empty ∧ exampleRecommendation.Rereads exampleCodecs ∧
      (0 ≤ exampleRecommendation.confidence.value ∧ exampleRecommendation.confidence.value ≤ 1) ∧
      empty.insertRecommendation exampleCodecs exampleRecommendation =
        throw (.database "FOREIGN KEY constraint failed") ∧
      ¬ ∃ (id : Nat) (store' : RawStore),
        empty.insertRecommendation exampleCodecs exampleRecommendation = pure (id, store') := by
  have hrefused : empty.insertRecommendation exampleCodecs exampleRecommendation =
      throw (.database "FOREIGN KEY constraint failed") :=
    insertRecommendation_unknown_pattern rereads_exampleRecommendation
      exampleRecommendation_confidence.1 exampleRecommendation_confidence.2 rfl
  refine ⟨reachable_empty _, rereads_exampleRecommendation, exampleRecommendation_confidence,
    hrefused, ?_⟩
  rintro ⟨id, store', hinsert⟩
  rw [hrefused] at hinsert
  cases hinsert

end RawStore

end Raw
end EventStore
end HiddenSteps
