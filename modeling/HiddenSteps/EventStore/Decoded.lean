import HiddenSteps.Domain.TimeOrder
import HiddenSteps.EventStore.Contents
import HiddenSteps.EventStore.StoreLaws

/-!
# Decoded — the decoded rows are the tables of the store

The operations on rows are those of the store on what the rows decode to, and the lists that are
read from the rows are the lists of the store.  Instants are UTC, as the store has them.
-/

namespace HiddenSteps
namespace EventStore
namespace Raw

open Systems SqlTables BinaryFloat

/-! ## Records -/

/-- What an instant and a JSON value stand for. -/
structure View (Time Value : Type) where
  instant : Time → Timestamp
  json : Value → Json

variable {Time Value : Type} {c : Codecs Time Value} {v : View Time Value}

namespace View

/-- The texts of the instants are those of UTC instants. -/
def Formats (v : View Time Value) (c : Codecs Time Value) : Prop :=
  ∀ dt text, c.formatRfc3339 dt = some text → text.toList = TimeFmt.toRfc3339 (v.instant dt)

def eventSummary (v : View Time Value) (event : EventSummary Time Value) :
    HiddenSteps.EventSummary where
  id := event.id.map Int.toNat
  occurredAt := v.instant event.occurredAt
  sourceId := event.sourceId
  signalType := event.signalType
  privacyLevelAtCapture := event.privacyLevelAtCapture
  summary := v.json event.summary
  isDeepMode := event.isDeepMode
  ttlExpiresAt := event.ttlExpiresAt.map v.instant

def auditEntry (v : View Time Value) (entry : AuditEntry Time Value) : HiddenSteps.AuditEntry where
  id := entry.id.map Int.toNat
  occurredAt := v.instant entry.occurredAt
  actor := entry.actor
  actionType := entry.actionType
  details := v.json entry.details

def pattern (v : View Time Value) (pattern : Pattern Time Value) : HiddenSteps.Pattern where
  id := pattern.id.map Int.toNat
  firstSeenAt := v.instant pattern.firstSeenAt
  lastSeenAt := v.instant pattern.lastSeenAt
  occurrenceCount := pattern.occurrenceCount.toNat
  estimatedMinutesPerOccurrence := pattern.estimatedMinutesPerOccurrence.map Number.value
  sequenceSignature := v.json pattern.sequenceSignature
  status := pattern.status

def recommendation (v : View Time Value) (rec : Recommendation Time) :
    HiddenSteps.Recommendation where
  id := rec.id.map Int.toNat
  patternId := rec.patternId.toNat
  createdAt := v.instant rec.createdAt
  title := rec.title
  category := rec.category
  why := rec.why
  confidence := rec.confidence.value
  estimatedTimeSavedMinutes := rec.estimatedTimeSavedMinutes.value
  difficulty := rec.difficulty
  maintenanceBurden := rec.maintenanceBurden
  privacyImplications := rec.privacyImplications
  implementationEffort := rec.implementationEffort
  alternatives := rec.alternatives
  assumptions := rec.assumptions
  ignoredInformation := rec.ignoredInformation
  generatingProvider := rec.generatingProvider
  status := rec.status
  dismissalReason := rec.dismissalReason

end View

/-! ## Columns -/

theorem lexLe_eq_textLe (s t : List Char) : lexLe Char.toNat s t = TimeFmt.textLe s t := by
  unfold lexLe
  induction s generalizing t with
  | nil => cases t <;> rfl
  | cons a s ih =>
      cases t with
      | nil => rfl
      | cons b t =>
          rw [TimeFmt.textLe, ← ih t, List.cons_lex_cons]
          rcases lt_trichotomy a.toNat b.toNat with hlt | heq | hgt
          · have hne : b ≠ a := fun h => absurd hlt (h ▸ lt_irrefl _)
            simp [hlt, hlt.not_gt, hne]
          · simp [Char.toNat_inj.1 heq]
          · have hne : a ≠ b := fun h => absurd hgt (h ▸ lt_irrefl _)
            simp [hgt, hgt.not_gt, hne]

/-- What a text column of an instant is compared with. -/
theorem le_text {dt dt' : Time} {text text' : String} (hv : v.Formats c)
    (h : c.formatRfc3339 dt = some text) (h' : c.formatRfc3339 dt' = some text') :
    SqlValue.le (toSql text) (toSql text') =
      TimeFmt.textLe (TimeFmt.toRfc3339 (v.instant dt)) (TimeFmt.toRfc3339 (v.instant dt')) := by
  rw [← hv dt text h, ← hv dt' text' h', ← lexLe_eq_textLe]
  rfl

section Rows

variable {n : Nat} {row : Row}

theorem hasId_iff {α : Type} {F : RowFormat α} {a : α} (h : F.Holds n a row) (hn : 0 < n)
    (id : Int) : RawStore.hasId id row = true ↔ n = id.toNat := by
  rw [RawStore.hasId, h.id_eq, beq_iff_eq]
  show SqlValue.integer n = .integer id ↔ _
  rw [SqlValue.integer.injEq]
  omega

theorem toSql_text_inj {s t : String} : (toSql s : SqlValue) = toSql t ↔ s = t := by
  show SqlValue.text s = .text t ↔ s = t
  rw [SqlValue.text.injEq]

theorem time_of_event {event : EventSummary Time Value}
    (h : (EventSummary.format c).Holds n event row) :
    ∃ text, c.formatRfc3339 event.occurredAt = some text ∧ row "occurred_at" = toSql text := by
  obtain ⟨params, ⟨hrereads, hparams⟩, hfetch⟩ := h
  obtain ⟨text, hformat, -⟩ := hrereads.occurredAt
  obtain ⟨_, hsummary, -⟩ := hrereads.summary
  obtain ⟨ttl, httl, -⟩ := Codecs.rereads_option hrereads.ttlExpiresAt
  rw [EventSummary.params, Codecs.toRfc3339_eq hformat, hsummary, httl] at hparams
  cases hparams
  exact ⟨text, hformat, eq_of_fetch hfetch (i := 1) rfl rfl⟩

theorem ttl_of_event {event : EventSummary Time Value}
    (h : (EventSummary.format c).Holds n event row) :
    (event.ttlExpiresAt = none ∧ row "ttl_expires_at" = .null) ∨
      ∃ ttl text, event.ttlExpiresAt = some ttl ∧ c.formatRfc3339 ttl = some text ∧
        row "ttl_expires_at" = toSql text := by
  obtain ⟨params, ⟨hrereads, hparams⟩, hfetch⟩ := h
  obtain ⟨text, hformat, -⟩ := hrereads.occurredAt
  obtain ⟨_, hsummary, -⟩ := hrereads.summary
  rw [EventSummary.params, Codecs.toRfc3339_eq hformat, hsummary] at hparams
  cases hexpires : event.ttlExpiresAt with
  | none =>
      rw [hexpires] at hparams
      cases hparams
      exact Or.inl ⟨rfl, eq_of_fetch hfetch (i := 7) rfl rfl⟩
  | some ttl =>
      obtain ⟨text, hformat, -⟩ := hrereads.ttlExpiresAt ttl hexpires
      rw [hexpires, Option.mapM_some, Codecs.toRfc3339_eq hformat] at hparams
      cases hparams
      exact Or.inr ⟨ttl, text, rfl, hformat, eq_of_fetch hfetch (i := 7) rfl rfl⟩

theorem time_of_auditEntry {entry : AuditEntry Time Value}
    (h : (AuditEntry.format c).Holds n entry row) :
    ∃ text, c.formatRfc3339 entry.occurredAt = some text ∧ row "occurred_at" = toSql text := by
  obtain ⟨params, ⟨hrereads, hparams⟩, hfetch⟩ := h
  obtain ⟨text, hformat, -⟩ := hrereads.occurredAt
  obtain ⟨_, hdetails, -⟩ := hrereads.details
  rw [AuditEntry.params, Codecs.toRfc3339_eq hformat, hdetails] at hparams
  cases hparams
  exact ⟨text, hformat, eq_of_fetch hfetch (i := 1) rfl rfl⟩

end Rows

/-! ## Operations -/

/-- The operation of the store that an operation on rows stands for. -/
def RawStore.Operation.onStore (v : View Time Value) (store : Store) :
    RawStore.Operation Time Value → Store
  | .insertEventSummary event => (store.insertEventSummary (v.eventSummary event)).2
  | .deleteEvents ids => (store.deleteEvents (ids.map Int.toNat)).2
  | .deleteExpiredEvents now => (store.deleteExpiredEvents (v.instant now)).2
  | .appendAuditEntry entry => (store.appendAuditEntry (v.auditEntry entry)).2
  | .insertPattern pattern => (store.insertPattern (v.pattern pattern)).2
  | .updatePatternStats patternId lastSeenAt occurrenceCount minutes =>
      store.updatePatternStats patternId.toNat (v.instant lastSeenAt) occurrenceCount.toNat
        (minutes.map Number.value)
  | .setPatternStatus patternId status => store.setPatternStatus patternId.toNat status
  | .insertRecommendation rec =>
      match store.insertRecommendation (v.recommendation rec) with
      | .ok (_, store') => store'
      | .error _ => store
  | .setRecommendationStatus id status dismissalReason =>
      store.setRecommendationStatus id.toNat status dismissalReason
  | .upsertLlmProvider provider => store.upsertLlmProvider provider
  | .setActiveLlmProvider providerId =>
      match store.setActiveLlmProvider providerId with
      | .ok store' => store'
      | .error _ => store
  | .deleteAllData now => store.deleteAllData (v.instant now)

namespace RawStore

/-- The rows show the five tables of the store. -/
structure Represents (v : View Time Value) (c : Codecs Time Value) (raw : RawStore)
    (store : Store) : Prop where
  events : (EventSummary.format c).Represents v.eventSummary raw.events.rows store.events
  eventSeq : raw.events.seq = store.eventSeq
  auditLog : (AuditEntry.format c).Represents v.auditEntry raw.auditLog.rows store.auditLog
  auditSeq : raw.auditLog.seq = store.auditSeq
  patterns : (Pattern.format c).Represents v.pattern raw.patterns.rows store.patterns
  patternSeq : raw.patterns.seq = store.patternSeq
  recommendations : (Recommendation.format c).Represents v.recommendation
    raw.recommendations.rows store.recommendations
  recommendationSeq : raw.recommendations.seq = store.recommendationSeq
  llmProviders : List.Forall₂ (fun row provider => LlmProvider.Holds provider row)
    raw.llmProviders store.llmProviders

theorem represents_empty : empty.Represents v c Store.empty where
  events := .nil
  eventSeq := rfl
  auditLog := .nil
  auditSeq := rfl
  patterns := .nil
  patternSeq := rfl
  recommendations := .nil
  recommendationSeq := rfl
  llmProviders := .nil

theorem represents_insertInto {α β : Type} {F : RowFormat α} {image : α → β} {bs : List β}
    {table table' : SqlTables.Table} {a : α} {id : Nat} {bound : Outcome (List SqlValue)}
    (htable : F.Represents image table.rows bs) {Rereads : Prop} (hrereads : Rereads)
    (hparams : ∀ params, F.Params a params ↔ Rereads ∧ bound = pure params)
    (h : insertInto F.schema F.inserted table bound = pure (id, table')) :
    table'.seq = table.seq + 1 ∧
      F.Represents image table'.rows (bs ++ [image (F.withId (table.seq + 1 : Nat) a)]) := by
  obtain ⟨params, hbound, hinsert⟩ := eq_pure_of_bind h
  obtain ⟨-, -, rfl⟩ := Table.insert_eq_ok (eq_ok_of_execute hinsert)
  exact ⟨rfl, htable.append ((hparams params).2 ⟨hrereads, hbound⟩)⟩

theorem represents_cleared {α β : Type} {F : RowFormat α} {image : α → β}
    (table : SqlTables.Table) :
    F.Represents image (table.deleteWhere fun _ => true).rows [] := by
  have hnone : (table.deleteWhere fun _ => true).rows = [] := by
    simp [SqlTables.Table.deleteWhere]
  rw [hnone]
  exact .nil

/-- The check of the table has been met. -/
theorem confidence_of_insertInto {table table' : SqlTables.Table} {id : Nat}
    {rec : Recommendation Time} (hrereads : rec.Rereads c)
    (h : insertInto Recommendation.schema Recommendation.inserted table (rec.params c) =
      pure (id, table')) :
    0 ≤ rec.confidence.value ∧ rec.confidence.value ≤ 1 := by
  obtain ⟨params, hparams, hinsert⟩ := eq_pure_of_bind h
  obtain ⟨hverify, -⟩ := Table.insert_eq_ok (eq_ok_of_execute hinsert)
  have hcheck : Recommendation.checkConfidence.holds
      (table.newRow Recommendation.inserted params) = true :=
    Schema.holds_of_verify hverify (by simp [Recommendation.schema])
  have hcolumn : table.newRow Recommendation.inserted params "confidence" =
      .real rec.confidence.toF64 :=
    RowFormat.newRow_eq (F := Recommendation.format c) ⟨hrereads, hparams⟩ rfl
      (Recommendation.getElem?_params_confidence (c := c) ⟨hrereads, hparams⟩)
  simpa [Recommendation.checkConfidence, hcolumn, Number.toF64] using hcheck

variable {raw raw' : RawStore} {store : Store}

theorem hasProviderId_iff {row : Row} {provider : LlmProviderConfig}
    (h : LlmProvider.Holds provider row) (providerId : String) :
    (row "id" == toSql providerId) = true ↔ (provider.id == providerId) = true := by
  rw [h.id_eq, beq_iff_eq, beq_iff_eq, toSql_text_inj]

theorem forall₂_setActive {rows : List Row} {providers : List LlmProviderConfig}
    (h : List.Forall₂ (fun row provider => LlmProvider.Holds provider row) rows providers)
    (providerId : String) :
    List.Forall₂ (fun row provider => LlmProvider.Holds provider row)
      (rows.map fun row => Function.update row "active" (toSql (row "id" == toSql providerId)))
      (providers.map fun provider => { provider with active := provider.id == providerId }) := by
  refine List.rel_map (fun row provider hrow => ?_) h
  rw [Bool.eq_iff_iff.2 (hasProviderId_iff hrow providerId)]
  exact LlmProvider.holds_setActive hrow _

theorem forall₂_upsert {rows rows' : List Row} {provider : LlmProviderConfig}
    (h : List.Forall₂ (fun row provider => LlmProvider.Holds provider row) rows store.llmProviders)
    (hupsert : upsert LlmProvider.schema "id" LlmProvider.updated rows
      (.ofParams LlmProvider.inserted (LlmProvider.params provider)) = .ok rows') :
    List.Forall₂ (fun row provider => LlmProvider.Holds provider row) rows'
      (store.upsertLlmProvider provider).llmProviders := by
  have hid := (LlmProvider.holds_ofParams provider).id_eq
  have hany : (rows.any fun row => row "id" == toSql provider.id) =
      store.llmProviders.any fun other => other.id == provider.id :=
    any_eq_of_forall₂ h fun row other hrow => hasProviderId_iff hrow provider.id
  rw [upsert, LlmProvider.verify_params, ok_bind, hid, hany] at hupsert
  unfold Store.upsertLlmProvider
  dsimp only
  split at hupsert
  · rename_i hthere
    cases hupsert
    rw [if_pos hthere]
    refine forall₂_map_ite h (fun row other hrow => ?_) fun row other hrow hkey => ?_
    · rw [hrow.id_eq, toSql_text_inj]
    · exact LlmProvider.holds_of_updated fun name => setColumns_eq (hkey.trans hid.symm)
  · rename_i hthere
    cases hupsert
    rw [if_neg hthere]
    exact List.rel_append h (.cons (LlmProvider.holds_ofParams provider) .nil)

theorem Represents.hasPattern_eq (h : raw.Represents v c store) (patternId : Int) :
    raw.hasPattern patternId = store.hasPattern patternId.toNat := by
  refine any_eq_of_forall₂ h.patterns ?_
  rintro row _ ⟨n, pattern, hn, hrow, rfl⟩
  rw [hasId_iff hrow hn, beq_iff_eq]
  exact ⟨congrArg some, Option.some.inj⟩

/-- An update of the row with an id is an update of the record with that id. -/
theorem represents_update {α β : Type} {F : RowFormat α} {image : α → β} {bs : List β}
    {table table' : SqlTables.Table} {id : Int} {f : Row → Row} (idOf : β → Option Nat) (g : β → β)
    (htable : F.Represents image table.rows bs)
    (hid : ∀ (n : Nat) a, idOf (image (F.withId n a)) = some n)
    (hfg : ∀ n a row, F.Holds n a row →
      ∃ a', F.Holds n a' (f row) ∧ g (image (F.withId n a)) = image (F.withId n a'))
    (hupdate : table.update F.schema (hasId id) f = .ok table') :
    table'.seq = table.seq ∧
      F.Represents image table'.rows
        (bs.map fun b => if idOf b = some id.toNat then g b else b) := by
  rw [Table.update_eq_ok hupdate]
  refine ⟨rfl, forall₂_map_ite htable ?_ ?_⟩
  · rintro row _ ⟨n, a, hn, hrow, rfl⟩
    rw [hasId_iff hrow hn, hid, Option.some.injEq]
  · rintro row _ ⟨n, a, hn, hrow, rfl⟩ -
    obtain ⟨a', hrow', himage⟩ := hfg n a row hrow
    exact ⟨n, a', hn, hrow', himage⟩

/-- The condition under which an event has expired. -/
theorem expired_iff (hv : v.Formats c) {now : Time} {text : String}
    (hnow : c.formatRfc3339 now = some text) {row : Row} {event : HiddenSteps.EventSummary}
    (h : (EventSummary.format c).Shows v.eventSummary row event) :
    (row "ttl_expires_at" != .null && (row "ttl_expires_at").le (toSql text)) = true ↔
      (event.ttlExpiresAt.any fun ttl =>
        TimeFmt.textLe (TimeFmt.toRfc3339 ttl) (TimeFmt.toRfc3339 (v.instant now))) = true := by
  obtain ⟨n, event, hn, hrow, rfl⟩ := h
  rcases ttl_of_event hrow with ⟨hnone, hnull⟩ | ⟨ttl, expires, hsome, hformat, hcolumn⟩
  · simp [View.eventSummary, EventSummary.format, hnone, hnull]
  · have hne : (toSql expires : SqlValue) ≠ .null := ReadsBack.toSql_ne_null expires
    simp [View.eventSummary, EventSummary.format, hsome, hcolumn, hne, le_text hv hformat hnow]

theorem Represents.run (hv : v.Formats c) (h : raw.Represents v c store)
    {operation : Operation Time Value} (hrereads : operation.Rereads c)
    (hrun : operation.run c raw = pure raw') : raw'.Represents v c (operation.onStore v store) := by
  cases operation with
  | insertEventSummary event =>
      obtain ⟨_, hinsert, hrun⟩ := eq_pure_of_bind hrun
      cases hrun
      obtain ⟨events, hevents, hraw⟩ := insertEventSummary_eq_pure hinsert
      obtain ⟨hseq, hrows⟩ := represents_insertInto h.events hrereads (fun _ => Iff.rfl) hevents
      rw [h.eventSeq] at hseq hrows
      rw [hraw]
      exact { h with events := hrows, eventSeq := hseq }
  | deleteEvents ids =>
      cases hrun
      refine { h with events := forall₂_filter h.events ?_ }
      rintro row _ ⟨n, event, hn, hrow, rfl⟩
      have hid : ∀ id : Int, hasId id row = true ↔ id.toNat = n := fun id =>
        (hasId_iff hrow hn id).trans eq_comm
      simp [View.eventSummary, EventSummary.format, hid]
  | deleteExpiredEvents now =>
      obtain ⟨text, hnow, rfl⟩ := deleteExpiredEvents_eq_pure hrun
      refine { h with events := forall₂_filter h.events fun row event hrow => ?_ }
      rw [Bool.not_eq_true', Bool.not_eq_true', ← Bool.not_eq_true, ← Bool.not_eq_true,
        expired_iff hv hnow hrow]
  | appendAuditEntry entry =>
      obtain ⟨_, hinsert, hrun⟩ := eq_pure_of_bind hrun
      cases hrun
      obtain ⟨auditLog, hauditLog, hraw⟩ := appendAuditEntry_eq_pure hinsert
      obtain ⟨hseq, hrows⟩ := represents_insertInto h.auditLog hrereads (fun _ => Iff.rfl) hauditLog
      rw [h.auditSeq] at hseq hrows
      rw [hraw]
      exact { h with auditLog := hrows, auditSeq := hseq }
  | insertPattern pattern =>
      obtain ⟨_, hinsert, hrun⟩ := eq_pure_of_bind hrun
      cases hrun
      obtain ⟨patterns, hpatterns, hraw⟩ := insertPattern_eq_pure hinsert
      obtain ⟨hseq, hrows⟩ := represents_insertInto h.patterns hrereads (fun _ => Iff.rfl) hpatterns
      rw [h.patternSeq] at hseq hrows
      rw [hraw]
      exact { h with patterns := hrows, patternSeq := hseq }
  | updatePatternStats patternId lastSeenAt occurrenceCount minutes =>
      obtain ⟨text, patterns, hformat, hpatterns, rfl⟩ := updatePatternStats_eq_pure hrun
      have hparse := hrereads.parse_eq hformat
      let updated : HiddenSteps.Pattern → HiddenSteps.Pattern := fun p => { p with
        lastSeenAt := v.instant lastSeenAt
        occurrenceCount := occurrenceCount.toNat
        estimatedMinutesPerOccurrence := minutes.map Number.value }
      obtain ⟨hseq, hrows⟩ := represents_update HiddenSteps.Pattern.id updated h.patterns
        (fun _ _ => rfl) (fun n pattern row hrow =>
          ⟨_, Pattern.holds_setStatsColumns hrow hformat hparse occurrenceCount minutes, rfl⟩)
        hpatterns
      exact { h with patterns := hrows, patternSeq := hseq.trans h.patternSeq }
  | setPatternStatus patternId status =>
      obtain ⟨patterns, hpatterns, rfl⟩ := setPatternStatus_eq_pure hrun
      let updated : HiddenSteps.Pattern → HiddenSteps.Pattern := fun p => { p with status := status }
      obtain ⟨hseq, hrows⟩ := represents_update HiddenSteps.Pattern.id updated h.patterns
        (fun _ _ => rfl) (fun n pattern row hrow =>
          ⟨_, Pattern.holds_setPatternStatusColumns hrow status, rfl⟩) hpatterns
      exact { h with patterns := hrows, patternSeq := hseq.trans h.patternSeq }
  | insertRecommendation rec =>
      obtain ⟨_, hinsert, hrun⟩ := eq_pure_of_bind hrun
      cases hrun
      obtain ⟨hpattern, recommendations, hrecommendations, hraw⟩ :=
        insertRecommendation_eq_pure hinsert
      obtain ⟨hseq, hrows⟩ :=
        represents_insertInto h.recommendations hrereads (fun _ => Iff.rfl) hrecommendations
      rw [h.recommendationSeq] at hseq hrows
      have hconfidence : 0 ≤ (v.recommendation rec).confidence ∧
          (v.recommendation rec).confidence ≤ 1 :=
        confidence_of_insertInto hrereads hrecommendations
      rw [h.hasPattern_eq] at hpattern
      have hstore := Store.insertRecommendation_of_accepted hconfidence hpattern
      rw [hraw, Operation.onStore, hstore]
      exact { h with recommendations := hrows, recommendationSeq := hseq }
  | setRecommendationStatus id status dismissalReason =>
      obtain ⟨recommendations, hrecommendations, rfl⟩ := setRecommendationStatus_eq_pure hrun
      let updated : HiddenSteps.Recommendation → HiddenSteps.Recommendation := fun r =>
        { r with status := status, dismissalReason := dismissalReason }
      obtain ⟨hseq, hrows⟩ := represents_update HiddenSteps.Recommendation.id updated
        h.recommendations (fun _ _ => rfl) (fun n rec row hrow =>
          ⟨_, Recommendation.holds_setRecommendationColumns hrow status dismissalReason, rfl⟩)
        hrecommendations
      exact { h with
        recommendations := hrows, recommendationSeq := hseq.trans h.recommendationSeq }
  | upsertLlmProvider provider =>
      obtain ⟨rows, hupsert, rfl⟩ := upsertLlmProvider_eq_pure hrun
      exact { h with llmProviders := forall₂_upsert h.llmProviders hupsert }
  | setActiveLlmProvider providerId =>
      obtain ⟨hthere, rfl⟩ := setActiveLlmProvider_eq_pure hrun
      rw [any_eq_of_forall₂ h.llmProviders fun row provider hrow =>
        hasProviderId_iff hrow providerId] at hthere
      rw [Operation.onStore, Store.setActiveLlmProvider, if_pos hthere]
      exact { h with llmProviders := forall₂_setActive h.llmProviders providerId }
  | deleteAllData now =>
      cases deleteAllData_eq_pure hrun
      exact {
        events := represents_cleared _
        eventSeq := h.eventSeq
        auditLog := represents_cleared _
        auditSeq := h.auditSeq
        patterns := represents_cleared _
        patternSeq := h.patternSeq
        recommendations := represents_cleared _
        recommendationSeq := h.recommendationSeq
        llmProviders := .nil }

/-- Every run on rows is one of the store. -/
theorem Reachable.exists_represents (hv : v.Formats c) (h : Reachable c raw) :
    ∃ store, raw.Represents v c store := by
  refine h.invariant (fun raw _ => ∃ store, raw.Represents v c store) ?_ ?_
  · rintro raw rfl
    exact ⟨_, represents_empty⟩
  · rintro raw history operation raw' effects ⟨store, hstore⟩ hrereads hstep
    obtain ⟨result, hrun, hresult⟩ := Option.map_eq_some_iff.1 hstep
    cases result with
    | ok next =>
        cases hresult
        exact ⟨_, hstore.run hv hrereads hrun⟩
    | error e =>
        cases hresult
        exact ⟨store, hstore⟩

/-! ## Lists -/

section Listing

variable {α β : Type} {F : RowFormat α} {image : α → β} {rows : List Row} {bs : List β}

theorem exists_listed (h : F.Represents image rows bs) :
    ∃ results, ofSql (query F.read F.selected rows) = .ok results ∧ results.map image = bs := by
  obtain ⟨results, hquery, hmap⟩ := h.query_eq
  exact ⟨results, by rw [hquery]; rfl, hmap⟩

/-- Rows are sorted by the texts of the instants that they show. -/
theorem represents_recent (hv : v.Formats c) (h : F.Represents image rows bs)
    {time : β → Timestamp}
    (htime : ∀ row b, F.Shows image row b →
      ∃ dt text, v.instant dt = time b ∧ c.formatRfc3339 dt = some text ∧
        row "occurred_at" = toSql text) (limit : Int) :
    F.Represents image (Store.limited limit (newestFirst rows))
      (Store.limited limit (bs.reverse.insertionSort fun a b =>
        TimeFmt.textLe (TimeFmt.toRfc3339 (time b)) (TimeFmt.toRfc3339 (time a)))) := by
  have hsorted : F.Represents image (newestFirst rows) (bs.reverse.insertionSort fun a b =>
      TimeFmt.textLe (TimeFmt.toRfc3339 (time b)) (TimeFmt.toRfc3339 (time a))) := by
    refine forall₂_insertionSort (List.rel_reverse h) fun row b row' b' hrow hrow' => ?_
    obtain ⟨dt, text, hdt, hformat, hcolumn⟩ := htime row b hrow
    obtain ⟨dt', text', hdt', hformat', hcolumn'⟩ := htime row' b' hrow'
    rw [hcolumn, hcolumn', le_text hv hformat' hformat, hdt, hdt']
  unfold Store.limited
  split
  · exact hsorted
  · exact List.forall₂_take _ hsorted

end Listing

theorem Represents.listRecentEvents (hv : v.Formats c) (h : raw.Represents v c store)
    (limit : Int) :
    ∃ results, raw.listRecentEvents c limit = .ok results ∧
      results.map v.eventSummary = store.listRecentEvents limit := by
  refine exists_listed (F := EventSummary.format c) (represents_recent hv h.events ?_ limit)
  rintro row _ ⟨n, event, -, hrow, rfl⟩
  obtain ⟨text, hformat, hcolumn⟩ := time_of_event hrow
  exact ⟨event.occurredAt, text, rfl, hformat, hcolumn⟩

theorem Represents.listAuditLog (hv : v.Formats c) (h : raw.Represents v c store) (limit : Int) :
    ∃ results, raw.listAuditLog c limit = .ok results ∧
      results.map v.auditEntry = store.listAuditLog limit := by
  refine exists_listed (F := AuditEntry.format c) (represents_recent hv h.auditLog ?_ limit)
  rintro row _ ⟨n, entry, -, hrow, rfl⟩
  obtain ⟨text, hformat, hcolumn⟩ := time_of_auditEntry hrow
  exact ⟨entry.occurredAt, text, rfl, hformat, hcolumn⟩

theorem Represents.listPatterns (h : raw.Represents v c store)
    (statusFilter : Option PatternStatus) :
    ∃ results, raw.listPatterns c statusFilter = .ok results ∧
      results.map v.pattern = store.listPatterns statusFilter := by
  have hfiltered : (Pattern.format c).Represents v.pattern
      (raw.patterns.rows.filter (hasStatus (statusFilter.map patternStatusToStr)))
      (store.patterns.filter fun p => statusFilter.all fun status => p.status == status) := by
    refine forall₂_filter h.patterns ?_
    rintro row _ ⟨n, pattern, -, ⟨params, hparams, hfetch⟩, rfl⟩
    have hcolumn : row "status" = toSql (patternStatusToStr pattern.status) :=
      eq_of_fetch hfetch (i := 6) rfl (Pattern.getElem?_params_status hparams)
    cases statusFilter with
    | none => exact Iff.rfl
    | some status =>
        simp [hasStatus, hcolumn, toSql_text_inj,
          (toStr_injective patternStatusFromStr_eq_ok_iff).eq_iff, View.pattern, Pattern.format]
  obtain ⟨results, hlisted, hmap⟩ := exists_listed hfiltered
  refine ⟨results, hlisted, hmap.trans ?_⟩
  cases statusFilter with
  | none => exact List.filter_true _
  | some status => rfl

theorem Represents.listRecommendations (h : raw.Represents v c store)
    (statusFilter : Option RecommendationStatus) :
    ∃ results, raw.listRecommendations c statusFilter = .ok results ∧
      results.map v.recommendation =
        store.recommendations.filter fun r => statusFilter.all fun status => r.status == status := by
  refine exists_listed (F := Recommendation.format c) (forall₂_filter h.recommendations ?_)
  rintro row _ ⟨n, rec, -, ⟨params, hparams, hfetch⟩, rfl⟩
  have hcolumn : row "status" = toSql (recommendationStatusToStr rec.status) :=
    eq_of_fetch hfetch (i := 16) rfl (Recommendation.getElem?_params_status hparams)
  cases statusFilter with
  | none => exact Iff.rfl
  | some status =>
      simp [hasStatus, hcolumn, toSql_text_inj,
        (toStr_injective recommendationStatusFromStr_eq_ok_iff).eq_iff, View.recommendation,
        Recommendation.format]

theorem Represents.listLlmProviders (h : raw.Represents v c store) :
    raw.listLlmProviders = .ok store.llmProviders := by
  have hquery : query rowToLlmProvider LlmProvider.selected raw.llmProviders =
      .ok store.llmProviders :=
    query_eq_ok_iff.2 (h.llmProviders.imp fun row provider hrow => hrow.read_eq)
  rw [RawStore.listLlmProviders, hquery]
  rfl

end RawStore

end Raw
end EventStore
end HiddenSteps
