import HiddenSteps.Domain.Serialize
import HiddenSteps.EventStore.Recent
import Mathlib.Data.Multiset.Basic

/-!
# Export — what an exported file tells about the store

The rows of the five tables that `export_data` reads can be read back from the file.  The links of
patterns to events, the settings, the provider configurations and the applied policy are not in it.
-/

namespace HiddenSteps
namespace EventStore

/-- The tables that hold user data, as the collections of rows they are. -/
structure UserData where
  eventSummaries : Multiset EventSummary
  patterns : Multiset Pattern
  patternEvents : Multiset (Nat × Nat)
  recommendations : Multiset Recommendation
  auditLog : Multiset AuditEntry
  privacyState : Option PrivacyState
  settings : Multiset (String × Json)
  -- a configuration refers to its secret, which is in the vault
  llmProviders : Multiset LlmProviderConfig
  enterprisePolicy : Option EnterprisePolicy
  deriving DecidableEq

def ExportedData.toJson (format : ScalarFormat) (data : ExportedData) : Json :=
  .ofFields
    [ ("privacy_state", data.privacyState.toJson format),
      ("event_summaries", .array (data.eventSummaries.map (EventSummary.toJson format))),
      ("audit_log", .array (data.auditLog.map (AuditEntry.toJson format))),
      ("patterns", .array (data.patterns.map (Pattern.toJson format))),
      ("recommendations", .array (data.recommendations.map (Recommendation.toJson format))) ]

theorem ExportedData.toJson_injective {format : ScalarFormat} :
    Function.Injective (ExportedData.toJson format) := by
  intro a b h
  unfold toJson at h
  have hfields := Json.ofFields_inj h rfl (by simp)
  have hevents := List.map_injective_iff.2 (@EventSummary.toJson_injective format)
  cases a
  cases b
  simpa [PrivacyState.toJson_injective.eq_iff, hevents.eq_iff,
    (List.map_injective_iff.2 AuditEntry.toJson_injective).eq_iff,
    (List.map_injective_iff.2 Pattern.toJson_injective).eq_iff,
    (List.map_injective_iff.2 Recommendation.toJson_injective).eq_iff] using hfields

/-- The first day of a year, counted from the epoch. -/
def yearStart (year : Int) : Int :=
  365 * (year - 1) + (year - 1) / 4 - (year - 1) / 100 + (year - 1) / 400 - 719162

/-- A UTC instant as the array of its year, day of the year, hour, minute, second, nanosecond and
the three parts of its offset. -/
def timeTuple (t : Timestamp) : Json :=
  let days := t / 86400000000000
  let seconds := t % 86400000000000 / 1000000000
  let year := (TimeFmt.civilFromDays days).1
  .array
    [ .number year, .number (days - yearStart year + 1), .number (seconds / 3600),
      .number (seconds / 60 % 60), .number (seconds % 60), .number (t % 1000000000),
      .number 0, .number 0, .number 0 ]

example : timeTuple 1753600005500000000 =
    .array ([2025, 208, 7, 6, 45, 500000000, 0, 0, 0].map .number) := by decide +kernel

theorem eq_of_quotient_remainder {n s t : Int} (hquotient : s / n = t / n)
    (hremainder : s % n = t % n) : s = t := by
  rw [← Int.mul_ediv_add_emod s n, hquotient, hremainder, Int.mul_ediv_add_emod]

theorem timeTuple_injective : Function.Injective timeTuple := by
  have hhours : ∀ n : Int, n / 3600 = n / 60 / 60 := by omega
  intro a b h
  simp only [timeTuple, Json.array.injEq, List.cons.injEq, Json.number.injEq, and_true] at h
  rcases h with ⟨hyear, hday, hhour, hminute, hsecond, hnanos⟩
  rw [hhours, hhours (b % _ / _)] at hhour
  have hseconds : a % 86400000000000 / 1000000000 = b % 86400000000000 / 1000000000 :=
    eq_of_quotient_remainder (eq_of_quotient_remainder hhour hminute) hsecond
  have hofDay : a % 86400000000000 = b % 86400000000000 := by
    refine eq_of_quotient_remainder hseconds ?_
    rw [Int.emod_emod_of_dvd _ (by decide), Int.emod_emod_of_dvd _ (by decide), hnanos]
  -- the day of the year counts from the start of the same year
  rw [hyear] at hday
  exact eq_of_quotient_remainder ((Int.sub_left_inj _).1 ((Int.add_left_inj _).1 hday)) hofDay

/-- A format in which a fraction stands as its numerator and denominator. -/
def tupleFormat : ScalarFormat where
  time := timeTuple
  float x := .array [.number x.num, .ofNat x.den]
  time_injective := timeTuple_injective
  float_injective := by
    intro x y h
    simp only [Json.array.injEq, List.cons.injEq, Json.number.injEq, Json.ofNat_injective.eq_iff,
      and_true] at h
    exact Rat.ext h.1 h.2
  time_ne_null := by simp [timeTuple]
  float_ne_null := by simp

namespace Store

/-- The JSON value that `export_data` returns. -/
def exportJson (format : ScalarFormat) (store : Store) : Except EventStoreError Json :=
  store.exportData.map (ExportedData.toJson format)

def userData (store : Store) : UserData where
  eventSummaries := store.events
  patterns := store.patterns
  patternEvents := store.patternEvents
  recommendations := store.recommendations
  auditLog := store.auditLog
  privacyState := store.privacyState
  settings := store.settings
  llmProviders := store.llmProviders
  enterprisePolicy := store.enterprisePolicy

/-- The rows of a table have distinct positive ids of 64 bits, so there are no more rows than ids. -/
structure RowsCounted (store : Store) : Prop where
  events : (store.events.length : Int) ≤ maxLimit
  auditLog : (store.auditLog.length : Int) ≤ maxLimit

/-- The tables with user data that `export_data` does not read have the same rows. -/
structure SameUnread (store store' : Store) : Prop where
  patternEvents : store.patternEvents.Perm store'.patternEvents
  settings : store.settings.Perm store'.settings
  llmProviders : store.llmProviders.Perm store'.llmProviders
  enterprisePolicy : store.enterprisePolicy = store'.enterprisePolicy

variable {store store' : Store} {format : ScalarFormat} {json : Json}

theorem limited_maxLimit {α : Type} {rows : List α} (h : (rows.length : Int) ≤ maxLimit) :
    limited maxLimit rows = rows := by
  rw [limited, if_neg (by decide)]
  exact List.take_of_length_le (Int.le_toNat (by decide) |>.2 h)

theorem listRecentEvents_perm (h : store.RowsCounted) :
    (store.listRecentEvents maxLimit).Perm store.events := by
  have hsorted := newestFirst_perm store.events
  rw [listRecentEvents, limited_maxLimit (by rw [hsorted.length_eq]; exact h.events)]
  exact hsorted

theorem listAuditLog_perm (h : store.RowsCounted) :
    (store.listAuditLog maxLimit).Perm store.auditLog := by
  rw [listAuditLog]
  have hsorted := (List.perm_insertionSort (fun a b : AuditEntry =>
    TimeFmt.textLe (TimeFmt.toRfc3339 b.occurredAt) (TimeFmt.toRfc3339 a.occurredAt))
    store.auditLog.reverse).trans (List.reverse_perm _)
  rw [limited_maxLimit (by rw [hsorted.length_eq]; exact h.auditLog)]
  exact hsorted

theorem exportJson_eq_ok (h : store.exportJson format = .ok json) :
    ∃ data, store.exportData = .ok data ∧ json = data.toJson format := by
  unfold exportJson at h
  cases hdata : store.exportData with
  | error e =>
      rw [hdata] at h
      cases h
  | ok data =>
      rw [hdata] at h
      cases h
      exact ⟨data, rfl, rfl⟩

theorem exportData_eq_ok {data : ExportedData} (h : store.exportData = .ok data) :
    store.privacyState = some data.privacyState ∧
      data.eventSummaries = store.listRecentEvents maxLimit ∧
      data.auditLog = store.listAuditLog maxLimit ∧ data.patterns = store.patterns ∧
      data.recommendations = store.recommendations := by
  unfold exportData getPrivacyState at h
  cases hstate : store.privacyState with
  | none => simp [hstate] at h
  | some state =>
      simp only [hstate, Except.ok.injEq] at h
      subst h
      exact ⟨rfl, rfl, rfl, rfl, rfl⟩

/-- Two stores with the same exported file have the same rows in the tables that it is made of. -/
theorem read_eq_of_exportJson_eq (hrows : store.RowsCounted) (hrows' : store'.RowsCounted)
    (h : store.exportJson format = .ok json) (h' : store'.exportJson format = .ok json) :
    store.privacyState = store'.privacyState ∧ store.events.Perm store'.events ∧
      store.auditLog.Perm store'.auditLog ∧ store.patterns = store'.patterns ∧
      store.recommendations = store'.recommendations := by
  rcases exportJson_eq_ok h with ⟨data, hdata, hjson⟩
  rcases exportJson_eq_ok h' with ⟨data', hdata', hjson'⟩
  -- the file determines the data, and the data the rows
  have hsame : data = data' := ExportedData.toJson_injective (hjson.symm.trans hjson')
  subst hsame
  rcases exportData_eq_ok hdata with ⟨hstate, hevents, haudit, hpatterns, hrecs⟩
  rcases exportData_eq_ok hdata' with ⟨hstate', hevents', haudit', hpatterns', hrecs'⟩
  refine ⟨hstate.trans hstate'.symm, ?_, ?_, hpatterns.symm.trans hpatterns',
    hrecs.symm.trans hrecs'⟩
  · have hlists := hevents.symm.trans hevents'
    exact (listRecentEvents_perm hrows).symm.trans (hlists ▸ listRecentEvents_perm hrows')
  · have hlists := haudit.symm.trans haudit'
    exact (listAuditLog_perm hrows).symm.trans (hlists ▸ listAuditLog_perm hrows')

/-- Two stores with the same exported file hold the same user data exactly if they agree on the
tables that the export leaves out. -/
theorem userData_eq_iff_of_exportJson_eq (hrows : store.RowsCounted) (hrows' : store'.RowsCounted)
    (h : store.exportJson format = .ok json) (h' : store'.exportJson format = .ok json) :
    store.userData = store'.userData ↔ SameUnread store store' := by
  obtain ⟨hstate, hevents, haudit, hpatterns, hrecs⟩ :=
    read_eq_of_exportJson_eq hrows hrows' h h'
  constructor
  · intro hdata
    simp only [userData, UserData.mk.injEq, Multiset.coe_eq_coe] at hdata
    rcases hdata with ⟨-, -, hlinks, -, -, -, hsettings, hproviders, hpolicy⟩
    exact ⟨hlinks, hsettings, hproviders, hpolicy⟩
  · rintro ⟨hlinks, hsettings, hproviders, hpolicy⟩
    simp only [userData, UserData.mk.injEq, Multiset.coe_eq_coe]
    exact ⟨hevents, hpatterns ▸ .rfl, hlinks, hrecs ▸ .rfl, haudit, hstate, hsettings, hproviders,
      hpolicy⟩

/-- A fresh profile whose owner has consented to cloud providers. -/
def consenting : Store := (empty.migrate 0).setSetting "cloud_consent_general" (.bool true)

theorem userData_eq_iff_of_exportJson_consenting :
    (empty.migrate 0).userData = consenting.userData ↔ SameUnread (empty.migrate 0) consenting :=
  @userData_eq_iff_of_exportJson_eq _ _ tupleFormat _ ⟨by decide, by decide⟩
    ⟨by decide, by decide⟩ rfl rfl

/-- The consent is not in the file. -/
theorem setting_not_exported :
    ¬ ∀ store store' : Store, store.RowsCounted → store'.RowsCounted →
      ∀ (format : ScalarFormat) (json : Json), store.exportJson format = .ok json →
        store'.exportJson format = .ok json → store.userData = store'.userData := by
  intro h
  have hsame := h (empty.migrate 0) consenting ⟨by decide, by decide⟩ ⟨by decide, by decide⟩
    tupleFormat _ rfl rfl
  exact absurd (congrArg UserData.settings hsame) (by decide)

end Store
end EventStore
end HiddenSteps
