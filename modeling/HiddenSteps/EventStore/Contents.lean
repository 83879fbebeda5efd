import HiddenSteps.EventStore.RawStore

/-!
# Contents — every row can be read back

All operations keep that the rows of a table have the columns of records with ids that have been
given out: insertions bind a record, updates set columns to what another record is bound by.
-/

namespace HiddenSteps
namespace EventStore
namespace Raw

open Systems SqlTables BinaryFloat

variable {Time Value : Type} {c : Codecs Time Value}

/-! ## Updates of a row -/

namespace Pattern

variable {n : Nat} {pattern : Pattern Time Value} {row : Row}

theorem params_status (pattern : Pattern Time Value) (status : PatternStatus) :
    ({ pattern with status := status } : Pattern Time Value).params c =
      (fun params => params.set 5 (toSql (patternStatusToStr status))) <$> pattern.params c := by
  simp [params]

theorem getElem?_params_status {params : List SqlValue} (h : (format c).Params pattern params) :
    params[5]? = some (toSql (patternStatusToStr pattern.status)) := by
  have hset : params = params.set 5 (toSql (patternStatusToStr pattern.status)) :=
    pure_injective (h.2.symm.trans ((params_status pattern _).trans (by rw [h.2]; rfl)))
  have hlength : params.length = 6 := (format c).length_params h
  rw [hset, List.getElem?_set_self (by omega)]

theorem holds_setPatternStatusColumns (h : (format c).Holds n pattern row)
    (status : PatternStatus) :
    (format c).Holds n { pattern with status := status }
      (RawStore.setPatternStatusColumns status row) := by
  obtain ⟨params, ⟨hrereads, hparams⟩, hfetch⟩ := h
  refine ⟨_, ⟨⟨hrereads.1, hrereads.2, hrereads.3⟩, ?_⟩,
    fetch_update (format c).nodup hfetch (i := 6) rfl _⟩
  rw [params_status, hparams]
  rfl

theorem holds_setStatsColumns (h : (format c).Holds n pattern row) {lastSeenAt : Time}
    {text : String} (hformat : c.formatRfc3339 lastSeenAt = some text)
    (hparse : c.parseRfc3339 text = .ok lastSeenAt) (occurrenceCount : UInt32)
    (minutes : Option F64) :
    (format c).Holds n
      { pattern with
        lastSeenAt := lastSeenAt
        occurrenceCount := occurrenceCount
        estimatedMinutesPerOccurrence := minutes }
      (RawStore.setStatsColumns text occurrenceCount minutes row) := by
  obtain ⟨params, ⟨hrereads, hparams⟩, hfetch⟩ := h
  have hlastSeen := fetch_update (format c).nodup hfetch (i := 2) rfl (toSql text)
  have hcount := fetch_update (format c).nodup hlastSeen (i := 3) rfl
    (toSql (occurrenceCount.toNat : Int))
  have hminutes := fetch_update (format c).nodup hcount (i := 4) rfl (toSql minutes)
  refine ⟨_, ⟨⟨hrereads.1, ⟨text, hformat, hparse⟩, hrereads.3⟩, ?_⟩, hminutes⟩
  obtain ⟨_, hfirst, -⟩ := hrereads.1
  obtain ⟨_, hlast, -⟩ := hrereads.2
  obtain ⟨_, hsignature, -⟩ := hrereads.3
  rw [Pattern.params, Codecs.toRfc3339_eq hfirst, Codecs.toRfc3339_eq hlast, hsignature] at hparams
  rw [Pattern.params, Codecs.toRfc3339_eq hfirst, Codecs.toRfc3339_eq hformat, hsignature]
  cases hparams
  rfl

end Pattern

namespace Recommendation

variable {n : Nat} {rec : Recommendation Time} {row : Row}

theorem params_status (rec : Recommendation Time) (status : RecommendationStatus)
    (dismissalReason : Option String) :
    { rec with status := status, dismissalReason := dismissalReason }.params c =
      (fun params => (params.set 15 (toSql (recommendationStatusToStr status))).set 16
        (toSql dismissalReason)) <$> rec.params c := by
  simp [params]

theorem getElem?_params_status {params : List SqlValue} (h : (format c).Params rec params) :
    params[15]? = some (toSql (recommendationStatusToStr rec.status)) := by
  have hset : params = (params.set 15 (toSql (recommendationStatusToStr rec.status))).set 16
      (toSql rec.dismissalReason) :=
    pure_injective (h.2.symm.trans ((params_status rec _ _).trans (by rw [h.2]; rfl)))
  have hlength : params.length = 17 := (format c).length_params h
  rw [hset, List.getElem?_set_ne (by decide), List.getElem?_set_self (by omega)]

theorem getElem?_params_confidence {params : List SqlValue} (h : (format c).Params rec params) :
    params[5]? = some (toSql rec.confidence.toF64) := by
  obtain ⟨hrereads, hparams⟩ := h
  obtain ⟨_, hcreated, -⟩ := hrereads.createdAt
  obtain ⟨_, _, halternatives, -⟩ := hrereads.alternatives
  obtain ⟨_, _, hassumptions, -⟩ := hrereads.assumptions
  obtain ⟨_, _, hignored, -⟩ := hrereads.ignoredInformation
  rw [Recommendation.params, Codecs.toRfc3339_eq hcreated, halternatives, hassumptions, hignored]
    at hparams
  cases hparams
  rfl

theorem holds_setRecommendationColumns (h : (format c).Holds n rec row)
    (status : RecommendationStatus) (dismissalReason : Option String) :
    (format c).Holds n { rec with status := status, dismissalReason := dismissalReason }
      (RawStore.setRecommendationColumns status dismissalReason row) := by
  obtain ⟨params, ⟨hrereads, hparams⟩, hfetch⟩ := h
  have hstatus := fetch_update (format c).nodup hfetch (i := 16) rfl
    (toSql (recommendationStatusToStr status))
  have hreason := fetch_update (format c).nodup hstatus (i := 17) rfl (toSql dismissalReason)
  refine ⟨_, ⟨⟨hrereads.1, hrereads.2, hrereads.3, hrereads.4⟩, ?_⟩, hreason⟩
  rw [params_status, hparams]
  rfl

end Recommendation

namespace LlmProvider

/-- The row has the columns of a provider. -/
def Holds (provider : LlmProviderConfig) (row : Row) : Prop :=
  row.fetch selected = selected.zip (params provider)

theorem Holds.read_eq {provider : LlmProviderConfig} {row : Row} (h : Holds provider row) :
    rowToLlmProvider (row.fetch selected) = .ok provider := by
  rw [h, read_params]

theorem Holds.id_eq {provider : LlmProviderConfig} {row : Row} (h : Holds provider row) :
    row "id" = toSql provider.id :=
  eq_of_fetch h (i := 0) rfl rfl

theorem holds_ofParams (provider : LlmProviderConfig) :
    Holds provider (.ofParams inserted (params provider)) :=
  fetch_ofParams (by decide) rfl

/-- A row that agrees with the new one on the columns that are set. -/
theorem holds_of_updated {provider : LlmProviderConfig} {row : Row}
    (h : ∀ name ∈ "id" :: updated, row name = Row.ofParams inserted (params provider) name) :
    Holds provider row := by
  rw [Holds, ← holds_ofParams provider]
  exact List.map_congr_left fun name hname => by rw [h name hname]

theorem holds_setActive {provider : LlmProviderConfig} {row : Row} (h : Holds provider row)
    (active : Bool) :
    Holds { provider with active := active } (Function.update row "active" (toSql active)) :=
  fetch_update (by decide) h (i := 6) rfl _

end LlmProvider

/-! ## Operations -/

namespace RawStore

variable {store store' : RawStore}

/-- Every row has the columns of a record. -/
structure Decodes (c : Codecs Time Value) (store : RawStore) : Prop where
  events : (EventSummary.format c).Decodes store.events
  auditLog : (AuditEntry.format c).Decodes store.auditLog
  patterns : (Pattern.format c).Decodes store.patterns
  recommendations : (Recommendation.format c).Decodes store.recommendations
  llmProviders : ∀ row ∈ store.llmProviders, ∃ provider, LlmProvider.Holds provider row

theorem decodes_empty (c : Codecs Time Value) : empty.Decodes c where
  events := RowFormat.decodes_empty _
  auditLog := RowFormat.decodes_empty _
  patterns := RowFormat.decodes_empty _
  recommendations := RowFormat.decodes_empty _
  llmProviders := by
    intro row hrow
    cases hrow

theorem decodes_insertInto {α : Type} {F : RowFormat α} {table table' : SqlTables.Table} {a : α}
    {id : Nat} {bound : Outcome (List SqlValue)} (htable : F.Decodes table) {Rereads : Prop}
    (hrereads : Rereads) (hparams : ∀ params, F.Params a params ↔ Rereads ∧ bound = pure params)
    (h : insertInto F.schema F.inserted table bound = pure (id, table')) : F.Decodes table' := by
  obtain ⟨params, hbound, hinsert⟩ := eq_pure_of_bind h
  exact htable.insert ((hparams params).2 ⟨hrereads, hbound⟩) (eq_ok_of_execute hinsert)

theorem Decodes.run (h : store.Decodes c) {operation : Operation Time Value}
    (hrereads : operation.Rereads c) (hrun : operation.run c store = pure store') :
    store'.Decodes c := by
  cases operation with
  | insertEventSummary event =>
      obtain ⟨_, hinsert, hrun⟩ := eq_pure_of_bind hrun
      cases hrun
      obtain ⟨events, hevents, hstore⟩ := insertEventSummary_eq_pure hinsert
      rw [hstore]
      exact { h with events := decodes_insertInto h.events hrereads (fun _ => Iff.rfl) hevents }
  | deleteEvents ids =>
      cases hrun
      exact { h with events := h.events.deleteWhere _ }
  | deleteExpiredEvents now =>
      obtain ⟨text, -, rfl⟩ := deleteExpiredEvents_eq_pure hrun
      exact { h with events := h.events.deleteWhere _ }
  | appendAuditEntry entry =>
      obtain ⟨_, hinsert, hrun⟩ := eq_pure_of_bind hrun
      cases hrun
      obtain ⟨auditLog, hauditLog, hstore⟩ := appendAuditEntry_eq_pure hinsert
      have hrows := decodes_insertInto h.auditLog hrereads (fun _ => Iff.rfl) hauditLog
      rw [hstore]
      exact { h with auditLog := hrows }
  | insertPattern pattern =>
      obtain ⟨_, hinsert, hrun⟩ := eq_pure_of_bind hrun
      cases hrun
      obtain ⟨patterns, hpatterns, hstore⟩ := insertPattern_eq_pure hinsert
      have hrows := decodes_insertInto h.patterns hrereads (fun _ => Iff.rfl) hpatterns
      rw [hstore]
      exact { h with patterns := hrows }
  | updatePatternStats patternId lastSeenAt occurrenceCount minutes =>
      obtain ⟨text, patterns, hformat, hpatterns, rfl⟩ := updatePatternStats_eq_pure hrun
      have hparse := hrereads.parse_eq hformat
      have hrows := h.patterns.update (fun n pattern row hrow =>
        ⟨_, Pattern.holds_setStatsColumns hrow hformat hparse occurrenceCount minutes⟩) hpatterns
      exact { h with patterns := hrows }
  | setPatternStatus patternId status =>
      obtain ⟨patterns, hpatterns, rfl⟩ := setPatternStatus_eq_pure hrun
      have hrows := h.patterns.update (fun n pattern row hrow =>
        ⟨_, Pattern.holds_setPatternStatusColumns hrow status⟩) hpatterns
      exact { h with patterns := hrows }
  | insertRecommendation rec =>
      obtain ⟨_, hinsert, hrun⟩ := eq_pure_of_bind hrun
      cases hrun
      obtain ⟨-, recommendations, hrecommendations, hstore⟩ := insertRecommendation_eq_pure hinsert
      have hrows := decodes_insertInto h.recommendations hrereads (fun _ => Iff.rfl) hrecommendations
      rw [hstore]
      exact { h with recommendations := hrows }
  | setRecommendationStatus id status dismissalReason =>
      obtain ⟨recommendations, hrecommendations, rfl⟩ := setRecommendationStatus_eq_pure hrun
      have hrows := h.recommendations.update (fun n rec row hrow =>
        ⟨_, Recommendation.holds_setRecommendationColumns hrow status dismissalReason⟩)
        hrecommendations
      exact { h with recommendations := hrows }
  | upsertLlmProvider provider =>
      obtain ⟨rows, hupsert, rfl⟩ := upsertLlmProvider_eq_pure hrun
      refine { h with llmProviders := fun row hrow => ?_ }
      rcases (upsert_eq_ok hupsert).2 row hrow with ⟨hold, -⟩ | hset
      · exact h.llmProviders row hold
      · exact ⟨provider, LlmProvider.holds_of_updated hset⟩
  | setActiveLlmProvider providerId =>
      obtain ⟨-, rfl⟩ := setActiveLlmProvider_eq_pure hrun
      refine { h with llmProviders := fun row hrow => ?_ }
      obtain ⟨old, hold, rfl⟩ := List.mem_map.1 hrow
      obtain ⟨provider, hprovider⟩ := h.llmProviders old hold
      exact ⟨_, LlmProvider.holds_setActive hprovider _⟩
  | deleteAllData now =>
      cases deleteAllData_eq_pure hrun
      exact {
        events := h.events.deleteWhere _
        auditLog := h.auditLog.deleteWhere _
        patterns := h.patterns.deleteWhere _
        recommendations := h.recommendations.deleteWhere _
        llmProviders := fun row hrow => by cases hrow }

/-- Whatever the operations have left behind can be read back. -/
theorem Reachable.decodes (h : Reachable c store) : store.Decodes c := by
  refine h.invariant (fun store _ => store.Decodes c) ?_ ?_
  · rintro store rfl
    exact decodes_empty c
  · intro store history operation store' effects hdecodes hrereads hstep
    obtain ⟨result, hrun, hresult⟩ := Option.map_eq_some_iff.1 hstep
    cases result with
    | ok next =>
        cases hresult
        exact hdecodes.run hrereads hrun
    | error e =>
        cases hresult
        exact hdecodes

end RawStore

end Raw
end EventStore
end HiddenSteps
