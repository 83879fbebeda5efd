import HiddenSteps.Domain.TimeOrder
import HiddenSteps.EventStore.Schema
import Mathlib.Data.List.Nodup
import Mathlib.Data.List.Pairwise

/-!
# References — the events of a pattern, and what keeps them linked

The events that a pattern was detected from are read by a join of the link table with the events.
The links are a set of pairs whose two rows exist, and every operation of the store keeps them so.
-/

namespace HiddenSteps
namespace EventStore
namespace Store

open TimeFmt

variable {store store' : Store}

/-! ## The events of a pattern -/

def listRecommendations (store : Store) (statusFilter : Option RecommendationStatus) :
    List Recommendation :=
  match statusFilter with
  | some status => store.recommendations.filter fun r => r.status == status
  | none => store.recommendations

/-- `event_summaries JOIN pattern_events`, the rows of one pattern. -/
def joinedEvents (store : Store) (patternId : Nat) : List EventSummary :=
  (store.patternEvents.filter fun link => link.1 == patternId).flatMap fun link =>
    store.events.filter fun e => e.id == some link.2

/-- The joined rows `ORDER BY occurred_at ASC`, which compares the texts. -/
def listPatternEvents (store : Store) (patternId : Nat) : List EventSummary :=
  (store.joinedEvents patternId).insertionSort fun a b =>
    textLe (toRfc3339 a.occurredAt) (toRfc3339 b.occurredAt)

theorem listPatternEvents_perm (store : Store) (patternId : Nat) :
    (store.listPatternEvents patternId).Perm (store.joinedEvents patternId) :=
  List.perm_insertionSort _ _

/-- The events of a pattern are the stored events that are linked to it. -/
theorem mem_listPatternEvents {patternId : Nat} {event : EventSummary} :
    event ∈ store.listPatternEvents patternId ↔
      event ∈ store.events ∧
        ∃ eventId, event.id = some eventId ∧ (patternId, eventId) ∈ store.patternEvents := by
  rw [(listPatternEvents_perm store patternId).mem_iff, joinedEvents, List.mem_flatMap]
  constructor
  · rintro ⟨⟨id, eventId⟩, hlink, hevent⟩
    rcases List.mem_filter.1 hlink with ⟨hmem, hpattern⟩
    rcases List.mem_filter.1 hevent with ⟨hstored, hid⟩
    obtain rfl : id = patternId := beq_iff_eq.1 hpattern
    exact ⟨hstored, eventId, beq_iff_eq.1 hid, hmem⟩
  · rintro ⟨hevent, eventId, hid, hlink⟩
    exact ⟨(patternId, eventId), List.mem_filter.2 ⟨hlink, beq_self_eq_true _⟩,
      List.mem_filter.2 ⟨hevent, beq_iff_eq.2 hid⟩⟩

theorem listPatternEvents_pairwise (store : Store) (patternId : Nat) :
    (store.listPatternEvents patternId).Pairwise fun a b =>
      textLe (toRfc3339 a.occurredAt) (toRfc3339 b.occurredAt) = true := by
  let earlier : EventSummary → EventSummary → Prop := fun a b =>
    textLe (toRfc3339 a.occurredAt) (toRfc3339 b.occurredAt) = true
  have htotal : Std.Total earlier := ⟨fun a b => textLe_total _ _⟩
  have htrans : IsTrans EventSummary earlier := ⟨fun a b c => textLe_trans⟩
  exact List.pairwise_insertionSort earlier _

/-- No event is read twice when links and ids are unique. -/
theorem nodup_listPatternEvents (hlinks : store.patternEvents.Nodup)
    (hids : (store.events.map (·.id)).Nodup) (patternId : Nat) :
    (store.listPatternEvents patternId).Nodup := by
  rw [(listPatternEvents_perm store patternId).nodup_iff, joinedEvents, List.nodup_flatMap]
  constructor
  · exact fun link _ => (List.Nodup.of_map _ hids).filter _
  · refine (hlinks.filter _).imp_of_mem ?_
    intro link other hlink hother hne event hevent hevent'
    -- two links of one pattern differ in the event
    rcases List.mem_filter.1 hlink with ⟨_, hpattern⟩
    rcases List.mem_filter.1 hother with ⟨_, hpattern'⟩
    refine hne (Prod.ext ((beq_iff_eq.1 hpattern).trans (beq_iff_eq.1 hpattern').symm) ?_)
    have hid := beq_iff_eq.1 (List.mem_filter.1 hevent).2
    have hid' := beq_iff_eq.1 (List.mem_filter.1 hevent').2
    exact Option.some.inj (hid.symm.trans hid')

/-! ## What keeps the links -/

/-- The ids of a table with `AUTOINCREMENT`: each its own, and given out by now. -/
structure GivenIds (ids : List (Option Nat)) (seq : Nat) : Prop where
  distinct : ids.Nodup
  given : ∀ i ∈ ids, ∃ id ≤ seq, i = some id

theorem GivenIds.sublist {ids ids' : List (Option Nat)} {seq : Nat} (h : GivenIds ids seq)
    (hsublist : ids'.Sublist ids) : GivenIds ids' seq :=
  ⟨h.distinct.sublist hsublist, fun i hi => h.given i (hsublist.subset hi)⟩

theorem GivenIds.inserted {ids : List (Option Nat)} {seq : Nat} (h : GivenIds ids seq) :
    GivenIds (ids ++ [some (seq + 1)]) (seq + 1) := by
  constructor
  · have hfresh : some (seq + 1) ∉ ids := by
      intro hmem
      rcases h.given _ hmem with ⟨id, hle, hid⟩
      rw [Option.some.injEq] at hid
      omega
    exact h.distinct.append (List.nodup_singleton _) (by simpa using hfresh)
  · intro i hi
    rcases List.mem_append.1 hi with hi | hi
    · rcases h.given i hi with ⟨id, hle, hid⟩
      exact ⟨id, hle.trans (Nat.le_succ _), hid⟩
    · exact ⟨seq + 1, le_rfl, List.mem_singleton.1 hi⟩

/-- The references lead to rows, no link is there twice, and ids are unique. -/
structure Consistent (store : Store) : Prop where
  foreignKeys : store.ForeignKeys
  links : store.patternEvents.Nodup
  events : GivenIds (store.events.map (·.id)) store.eventSeq
  patterns : GivenIds (store.patterns.map (·.id)) store.patternSeq
  recommendations : GivenIds (store.recommendations.map (·.id)) store.recommendationSeq

/-- A store in which rows and links may be gone, and none is new. -/
structure Prunes (store store' : Store) : Prop where
  events : store'.events.Sublist store.events
  eventSeq : store'.eventSeq = store.eventSeq
  patterns : (store'.patterns.map (·.id)).Sublist (store.patterns.map (·.id))
  patternSeq : store'.patternSeq = store.patternSeq
  links : store'.patternEvents.Sublist store.patternEvents
  recommendations : (store'.recommendations.map fun r => (r.id, r.patternId)).Sublist
    (store.recommendations.map fun r => (r.id, r.patternId))
  recommendationSeq : store'.recommendationSeq = store.recommendationSeq
  foreignKeys : store.ForeignKeys → store'.ForeignKeys

theorem Prunes.consistent (h : Prunes store store') (hold : store.Consistent) :
    store'.Consistent where
  foreignKeys := h.foreignKeys hold.foreignKeys
  links := hold.links.sublist h.links
  events := h.eventSeq ▸ hold.events.sublist (h.events.map _)
  patterns := h.patternSeq ▸ hold.patterns.sublist h.patterns
  recommendations := by
    have hsublist := h.recommendations.map Prod.fst
    simp only [List.map_map] at hsublist
    exact h.recommendationSeq ▸ hold.recommendations.sublist hsublist

/-- The row of a recommendation that is left was there before. -/
theorem Prunes.mem_recommendations (h : Prunes store store') {r' : Recommendation}
    (hr' : r' ∈ store'.recommendations) :
    ∃ r ∈ store.recommendations, r.id = r'.id ∧ r.patternId = r'.patternId := by
  have hmem := h.recommendations.subset (List.mem_map_of_mem hr')
  rcases List.mem_map.1 hmem with ⟨r, hr, heq⟩
  exact ⟨r, hr, congrArg Prod.fst heq, congrArg Prod.snd heq⟩

/-- The ids of the patterns say which patterns there are. -/
theorem hasPattern_iff_mem {id : Nat} :
    store.hasPattern id = true ↔ some id ∈ store.patterns.map (·.id) := by
  simp [hasPattern]

/-- Foreign keys hold when the rows that are referred to stay. -/
theorem ForeignKeys.of_eq (hkeys : store.ForeignKeys)
    (hpatterns : ∀ id, store.hasPattern id = true → store'.hasPattern id = true)
    (hevents : ∀ id, store.hasEvent id = true → store'.hasEvent id = true)
    (hnodes : store'.workflowNodes = store.workflowNodes)
    (hlinks : store'.patternEvents = store.patternEvents)
    (hembeddings : store'.patternEmbeddings = store.patternEmbeddings)
    (hedges : store'.workflowEdges = store.workflowEdges)
    (hrecommendations : (store'.recommendations.map fun r => (r.id, r.patternId)) =
      store.recommendations.map fun r => (r.id, r.patternId)) : store'.ForeignKeys where
  patternEvents := by
    intro link hlink
    rcases hkeys.patternEvents link (hlinks ▸ hlink) with ⟨hpattern, hevent⟩
    exact ⟨hpatterns _ hpattern, hevents _ hevent⟩
  patternEmbeddings := by
    rw [hembeddings]
    exact fun e he => hpatterns _ (hkeys.patternEmbeddings e he)
  workflowEdges := by
    rw [hedges]
    intro e he
    rcases hkeys.workflowEdges e he with ⟨hfrom, hto, hpattern⟩
    have hnode : ∀ id, store'.hasNode id = store.hasNode id := fun id => by
      rw [hasNode, hasNode, hnodes]
    exact ⟨(hnode _).trans hfrom, (hnode _).trans hto, fun id hid => hpatterns id (hpattern id hid)⟩
  recommendations := by
    intro r' hr'
    have hmem := List.mem_map_of_mem (f := fun r => (r.id, r.patternId)) hr'
    rw [hrecommendations] at hmem
    rcases List.mem_map.1 hmem with ⟨r, hr, heq⟩
    have hpattern : r.patternId = r'.patternId := congrArg Prod.snd heq
    rw [← hpattern]
    exact hpatterns _ (hkeys.recommendations r hr)

/-- Columns other than these do not matter. -/
theorem Prunes.of_eq (hpatterns : store'.patterns.map (·.id) = store.patterns.map (·.id))
    (hpatternSeq : store'.patternSeq = store.patternSeq) (hevents : store'.events = store.events)
    (heventSeq : store'.eventSeq = store.eventSeq)
    (hnodes : store'.workflowNodes = store.workflowNodes)
    (hlinks : store'.patternEvents = store.patternEvents)
    (hembeddings : store'.patternEmbeddings = store.patternEmbeddings)
    (hedges : store'.workflowEdges = store.workflowEdges)
    (hrecommendations : (store'.recommendations.map fun r => (r.id, r.patternId)) =
      store.recommendations.map fun r => (r.id, r.patternId))
    (hrecommendationSeq : store'.recommendationSeq = store.recommendationSeq) :
    Prunes store store' where
  events := by rw [hevents]
  eventSeq := heventSeq
  patterns := by rw [hpatterns]
  patternSeq := hpatternSeq
  links := by rw [hlinks]
  recommendations := by rw [hrecommendations]
  recommendationSeq := hrecommendationSeq
  foreignKeys := fun hkeys => hkeys.of_eq
    (fun id h => by rwa [hasPattern_iff_mem, hpatterns, ← hasPattern_iff_mem])
    (fun id h => by rwa [hasEvent, hevents]) hnodes hlinks hembeddings hedges hrecommendations

theorem Prunes.refl (store : Store) : Prunes store store :=
  .of_eq rfl rfl rfl rfl rfl rfl rfl rfl rfl rfl

/-- Links go with their events. -/
theorem prunes_deleteEventsWhere (store : Store) (p : EventSummary → Bool) :
    Prunes store (store.deleteEventsWhere p).2 where
  events := List.filter_sublist
  eventSeq := rfl
  patterns := List.Sublist.refl _
  patternSeq := rfl
  links := List.filter_sublist
  recommendations := List.Sublist.refl _
  recommendationSeq := rfl
  foreignKeys := by
    intro hkeys
    refine ⟨?_, hkeys.patternEmbeddings, hkeys.workflowEdges, hkeys.recommendations⟩
    intro link hlink
    rcases List.mem_filter.1 hlink with ⟨hlink, hstays⟩
    refine ⟨(hkeys.patternEvents link hlink).1, ?_⟩
    rcases List.any_eq_true.1 (hkeys.patternEvents link hlink).2 with ⟨event, hevent, hid⟩
    refine List.any_eq_true.2 ⟨event, List.mem_filter.2 ⟨hevent, ?_⟩, hid⟩
    -- the event of a link that stays is not among the deleted ones
    by_contra hgone
    have hgone : p event = true := by simpa using hgone
    have hany : ((store.events.filter p).any fun e => e.id == some link.2) = true :=
      List.any_eq_true.2 ⟨event, List.mem_filter.2 ⟨hevent, hgone⟩, hid⟩
    simp [hany] at hstays

theorem prunes_deleteAllData (store : Store) (now : Timestamp) :
    Prunes store (store.deleteAllData now) where
  events := List.nil_sublist _
  eventSeq := rfl
  patterns := List.nil_sublist _
  patternSeq := rfl
  links := List.nil_sublist _
  recommendations := List.nil_sublist _
  recommendationSeq := rfl
  foreignKeys := fun _ => by constructor <;> rintro _ ⟨⟩

theorem prunes_setRecommendationStatus (store : Store) (id : Nat) (status : RecommendationStatus)
    (dismissalReason : Option String) :
    Prunes store (store.setRecommendationStatus id status dismissalReason) := by
  refine .of_eq rfl rfl rfl rfl rfl rfl rfl rfl ?_ rfl
  rw [setRecommendationStatus, map_updated]
  exact fun _ => rfl

theorem prunes_updatePatternStats (store : Store) (patternId : Nat) (lastSeenAt : Timestamp)
    (occurrenceCount : Nat) (minutes : Option ℚ) :
    Prunes store (store.updatePatternStats patternId lastSeenAt occurrenceCount minutes) :=
  .of_eq (ids_updatePatternStats _ _ _ _ _) rfl rfl rfl rfl rfl rfl rfl rfl rfl

theorem consistent_insertPattern (h : store.Consistent) (pattern : Pattern) :
    (store.insertPattern pattern).2.Consistent where
  foreignKeys := by
    refine h.foreignKeys.of_eq ?_ (fun _ h => h) rfl rfl rfl rfl rfl
    intro id hid
    simp only [hasPattern, insertPattern, List.any_append]
    exact Bool.or_eq_true_iff.2 (Or.inl hid)
  links := h.links
  events := h.events
  patterns := by
    simp only [insertPattern, List.map_append]
    exact h.patterns.inserted
  recommendations := h.recommendations

theorem consistent_insertEventSummary (h : store.Consistent) (event : EventSummary) :
    (store.insertEventSummary event).2.Consistent where
  foreignKeys := by
    refine h.foreignKeys.of_eq (fun _ h => h) ?_ rfl rfl rfl rfl rfl
    intro id hid
    simp only [hasEvent, insertEventSummary, List.any_append]
    exact Bool.or_eq_true_iff.2 (Or.inl hid)
  links := h.links
  events := by
    simp only [insertEventSummary, List.map_append]
    exact h.events.inserted
  patterns := h.patterns
  recommendations := h.recommendations

/-- A link is made only between rows that are there, and only once. -/
theorem consistent_linkPatternEvents {patternId : Nat} {eventIds : List Nat}
    (h : store.Consistent) : (store.linkPatternEvents patternId eventIds).2.Consistent := by
  induction eventIds generalizing store with
  | nil => exact h
  | cons eventId eventIds ih =>
      simp only [linkPatternEvents, linkPatternEvent]
      by_cases hlink : store.patternEvents.contains (patternId, eventId) = true
      · simp only [hlink, if_true]
        exact ih h
      simp only [hlink, Bool.false_eq_true, if_false]
      by_cases hrows : (store.hasPattern patternId && store.hasEvent eventId) = true
      · simp only [hrows, if_true]
        refine ih ⟨⟨?_, h.foreignKeys.patternEmbeddings, h.foreignKeys.workflowEdges,
          h.foreignKeys.recommendations⟩, ?_, h.events, h.patterns, h.recommendations⟩
        · intro link hmem
          rcases List.mem_append.1 hmem with hmem | hmem
          · exact h.foreignKeys.patternEvents link hmem
          · rw [List.mem_singleton.1 hmem]
            exact Bool.and_eq_true_iff.1 hrows
        · have hnew : (patternId, eventId) ∉ store.patternEvents := by
            simpa using hlink
          exact h.links.append (List.nodup_singleton _) (by simpa using hnew)
      · simp only [hrows, Bool.false_eq_true, if_false]
        exact h

theorem consistent_insertRecommendation {recommendation : Recommendation} {id : Nat}
    (h : store.Consistent)
    (hinsert : store.insertRecommendation recommendation = .ok (id, store')) :
    store'.Consistent := by
  rcases insertRecommendation_eq_ok hinsert with ⟨hpattern, rfl, rfl⟩
  refine ⟨⟨h.foreignKeys.patternEvents, h.foreignKeys.patternEmbeddings,
    h.foreignKeys.workflowEdges, ?_⟩, h.links, h.events, h.patterns, ?_⟩
  · intro r hr
    rcases List.mem_append.1 hr with hr | hr
    · exact h.foreignKeys.recommendations r hr
    · rw [List.mem_singleton.1 hr]
      exact hpattern
  · simp only [List.map_append]
    exact h.recommendations.inserted

end Store
end EventStore
end HiddenSteps
