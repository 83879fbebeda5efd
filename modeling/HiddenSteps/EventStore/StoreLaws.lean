import HiddenSteps.EventStore.Store

/-!
# StoreLaws — what the operations of the store change

The operations that are not a single record update, each by what it leaves behind.
-/

namespace HiddenSteps
namespace EventStore
namespace Store

variable {store store' : Store}

/-- A migration writes the schema version and the privacy row only. -/
theorem migrate_eq (store : Store) (now : Timestamp) :
    ∃ versions row, store.migrate now =
      { store with schemaVersions := versions, privacyState := row } := by
  unfold migrate
  split
  · exact ⟨_, _, rfl⟩
  · exact ⟨store.schemaVersions, store.privacyState, rfl⟩

theorem setActiveLlmProvider_eq_ok {providerId : String}
    (h : store.setActiveLlmProvider providerId = .ok store') :
    ∃ providers, store' = { store with llmProviders := providers } := by
  unfold setActiveLlmProvider at h
  split at h
  · cases h
    exact ⟨_, rfl⟩
  · cases h

theorem insertRecommendation_eq_ok {rec : Recommendation} {id : Nat}
    (h : store.insertRecommendation rec = .ok (id, store')) :
    store.hasPattern rec.patternId = true ∧ id = store.recommendationSeq + 1 ∧
      store' = { store with
        recommendations := store.recommendations ++ [{ rec with id := some id }]
        recommendationSeq := id } := by
  unfold insertRecommendation at h
  split at h
  · cases h
  · split at h
    · cases h
    · rename_i hpattern
      cases h
      exact ⟨by simpa using hpattern, rfl, rfl⟩

theorem insertRecommendation_of_accepted {rec : Recommendation}
    (hconfidence : 0 ≤ rec.confidence ∧ rec.confidence ≤ 1)
    (hpattern : store.hasPattern rec.patternId = true) :
    store.insertRecommendation rec =
      .ok (store.recommendationSeq + 1, { store with
        recommendations :=
          store.recommendations ++ [{ rec with id := some (store.recommendationSeq + 1) }]
        recommendationSeq := store.recommendationSeq + 1 }) := by
  rw [insertRecommendation, if_neg (not_not_intro hconfidence), hpattern]
  rfl

/-- Linking adds links of the pattern to events of the list, if both rows are there. -/
theorem linkPatternEvents_eq (store : Store) (patternId : Nat) (eventIds : List Nat) :
    ∃ links, (store.linkPatternEvents patternId eventIds).2 =
        { store with patternEvents := store.patternEvents ++ links } ∧
      ∀ link ∈ links, link.1 = patternId ∧ link.2 ∈ eventIds ∧
        store.hasPattern patternId = true := by
  induction eventIds generalizing store with
  | nil => exact ⟨[], by simp [linkPatternEvents], by simp⟩
  | cons eventId eventIds ih =>
      simp only [linkPatternEvents, linkPatternEvent]
      by_cases hlink : store.patternEvents.contains (patternId, eventId) = true
      · -- the link is there already
        rcases ih store with ⟨links, hstore, hlinks⟩
        simp only [hlink, if_true]
        refine ⟨links, hstore, ?_⟩
        intro link hmem
        rcases hlinks link hmem with ⟨h₁, h₂, h₃⟩
        exact ⟨h₁, List.mem_cons_of_mem _ h₂, h₃⟩
      · simp only [hlink, Bool.false_eq_true, if_false]
        by_cases hrows : (store.hasPattern patternId && store.hasEvent eventId) = true
        · simp only [hrows, if_true]
          obtain ⟨links, hstore, hlinks⟩ :=
            ih { store with patternEvents := store.patternEvents ++ [(patternId, eventId)] }
          have hpattern : store.hasPattern patternId = true := (Bool.and_eq_true_iff.1 hrows).1
          refine ⟨(patternId, eventId) :: links, by rw [hstore]; simp, ?_⟩
          rintro link (_ | ⟨_, hmem⟩)
          · exact ⟨rfl, by simp, hpattern⟩
          · rcases hlinks link hmem with ⟨h₁, h₂, _⟩
            exact ⟨h₁, List.mem_cons_of_mem _ h₂, hpattern⟩
        · -- a foreign key fails and ends the loop
          simp only [hrows, Bool.false_eq_true, if_false]
          exact ⟨[], by simp, by simp⟩

/-- With all rows there, every event of the list is linked in the end. -/
theorem mem_linkPatternEvents {patternId : Nat} {eventIds : List Nat}
    (hpattern : store.hasPattern patternId = true)
    (hevents : ∀ eventId ∈ eventIds, store.hasEvent eventId = true) :
    ∀ eventId ∈ eventIds,
      (patternId, eventId) ∈ (store.linkPatternEvents patternId eventIds).2.patternEvents := by
  induction eventIds generalizing store with
  | nil => simp
  | cons first eventIds ih =>
      rcases List.forall_mem_cons.1 hevents with ⟨hfirst, hrest⟩
      -- both foreign keys hold, so the first insertion succeeds and keeps the rows
      obtain ⟨store', hlink, hmem, hpattern', hrest'⟩ :
          ∃ store', store.linkPatternEvent patternId first = .ok store' ∧
            (patternId, first) ∈ store'.patternEvents ∧ store'.hasPattern patternId = true ∧
            ∀ eventId ∈ eventIds, store'.hasEvent eventId = true := by
        unfold linkPatternEvent
        by_cases hlinked : store.patternEvents.contains (patternId, first) = true
        · rw [if_pos hlinked]
          exact ⟨store, rfl, List.contains_iff_mem.1 hlinked, hpattern, hrest⟩
        · rw [if_neg hlinked, hpattern, hfirst]
          exact ⟨_, rfl, by simp, hpattern, hrest⟩
      rcases linkPatternEvents_eq store' patternId eventIds with ⟨links, hstore, -⟩
      have hgo : (store.linkPatternEvents patternId (first :: eventIds)).2 =
          (store'.linkPatternEvents patternId eventIds).2 := by
        rw [linkPatternEvents, hlink]
      rw [hgo]
      intro eventId hid
      rcases List.mem_cons.1 hid with rfl | hid
      · -- a link that has been made stays
        rw [hstore]
        exact List.mem_append_left _ hmem
      · exact ih hpattern' hrest' eventId hid

/-! ## Updating rows -/

/-- An update of some rows that leaves a column alone. -/
theorem map_updated {α β : Type} (column : α → β) {p : α → Prop} [DecidablePred p] {update : α → α}
    (hcolumn : ∀ row, column (update row) = column row) (rows : List α) :
    (rows.map fun row => if p row then update row else row).map column = rows.map column := by
  rw [List.map_map]
  refine List.map_congr_left fun row _ => ?_
  rw [Function.comp_apply]
  split
  · exact hcolumn row
  · rfl

theorem ids_updatePatternStats (store : Store) (patternId : Nat) (lastSeenAt : Timestamp)
    (occurrenceCount : Nat) (minutes : Option ℚ) :
    (store.updatePatternStats patternId lastSeenAt occurrenceCount minutes).patterns.map (·.id) =
      store.patterns.map (·.id) := by
  rw [updatePatternStats, map_updated]
  exact fun _ => rfl

/-! ## Reading the events -/

theorem mem_of_mem_limited {α : Type} {limit : Int} {rows : List α} {a : α}
    (h : a ∈ limited limit rows) : a ∈ rows := by
  unfold limited at h
  split at h
  · exact h
  · exact List.mem_of_mem_take h

theorem mem_of_mem_listRecentEvents {limit : Int} {event : EventSummary}
    (h : event ∈ store.listRecentEvents limit) : event ∈ store.events := by
  have hmem := mem_of_mem_limited h
  -- sorting and reversing keep the rows
  rw [newestFirst, List.mem_insertionSort] at hmem
  exact List.mem_reverse.1 hmem

/-! ## Settings -/

theorem find?_replaced {settings : List (String × Json)} {key : String} (value : Json)
    (h : (settings.any fun s => s.1 == key) = true) :
    ((settings.map fun s => if s.1 == key then (key, value) else s).find? fun s => s.1 == key) =
      some (key, value) := by
  induction settings with
  | nil => simp at h
  | cons s settings ih =>
      rw [List.map_cons]
      by_cases hs : (s.1 == key) = true
      · rw [if_pos hs, List.find?_cons_of_pos (by simp)]
      · rw [if_neg hs, List.find?_cons_of_neg (by simpa using hs)]
        exact ih (by simpa [hs] using h)

theorem getSetting_setSetting (store : Store) (key : String) (value : Json) :
    (store.setSetting key value).getSetting key = some value := by
  unfold getSetting setSetting
  simp only
  split
  · -- `ON CONFLICT DO UPDATE`
    rename_i hany
    rw [find?_replaced value hany]
    rfl
  · rename_i hany
    have hnone : (store.settings.find? fun s => s.1 == key) = none := by
      rw [List.find?_eq_none]
      exact fun s hs hkey => hany (List.any_eq_true.2 ⟨s, hs, hkey⟩)
    simp [List.find?_append, hnone]

end Store
end EventStore
end HiddenSteps
