import HiddenSteps.Desktop.TableSteps
import HiddenSteps.Patterns.DetectorLaws

/-!
# Provenance — which captured events a sweep works with

Event ids are never reused, so the events of the store, the events a sweep has read and the events
a detected pattern is made of are all traced to the one insertion that gave them their id.
-/

namespace HiddenSteps
namespace Desktop

open EventStore Patterns PrivacyEngine Systems

/-! ## What a step does to the events -/

theorem mem_of_mem_deleteEventsWhere {store : Store} {p : EventSummary → Bool}
    {event : EventSummary} (h : event ∈ (store.deleteEventsWhere p).2.events) :
    event ∈ store.events :=
  List.mem_of_mem_filter h

/-- A command inserts no event. -/
theorem TableStep.events {store store' : Store} {command : Command} {es : List Effect}
    (h : TableStep store (some command) es store') :
    (∀ event ∈ store'.events, event ∈ store.events) ∧ store'.eventSeq = store.eventSeq := by
  cases h with
  | same hsame => exact ⟨fun event hmem => hsame.events ▸ hmem, hsame.eventSeq⟩
  | eventsDeleted => exact ⟨fun event => mem_of_mem_deleteEventsWhere, rfl⟩
  | erased => exact ⟨fun event hmem => (by cases hmem), rfl⟩
  | statusSet => exact ⟨fun event hmem => hmem, rfl⟩

/-- A sweep inserts no event. -/
theorem events_of_sweepStep {vault : Vault} {gate : DispatchGate} {o : Outside} {store : Store}
    {pc : SweepPc} {progress : SweepProgress} (h : SweepStep vault gate o store pc progress) :
    (∀ event ∈ progress.store.events, event ∈ store.events) ∧
      progress.store.eventSeq = store.eventSeq := by
  refine ⟨?_, (unchanged_of_sweepStep h).2.2⟩
  cases h with
  | started hstore =>
      rcases hstore with rfl | rfl
      · exact fun event hmem => hmem
      · exact fun event => mem_of_mem_deleteEventsWhere
  | logged hstore => rcases hstore with rfl | rfl <;> exact fun event hmem => hmem
  | @linked _ pattern _ hstore =>
      obtain ⟨links, hlinks, _⟩ := Store.linkPatternEvents_eq store pattern.id
        pattern.detected.contributingEventIds
      rcases hstore with rfl | rfl
      · exact fun event hmem => hmem
      · rw [Desktop.linked, hlinks]
        exact fun event hmem => hmem
  | recommended hinsert =>
      rcases Store.insertRecommendation_eq_ok hinsert with ⟨_, _, rfl⟩
      exact fun event hmem => hmem
  | _ => exact fun event hmem => hmem

/-- A step inserts one event, under the next id, and reports it; or it inserts none. -/
theorem events_of_appStep {ext : Externals} {app app' : App} {action : Action} {es : List Effect}
    (h : AppStep ext app action app' es) :
    (∃ event origin row, es = [.stored event origin row] ∧
        event.id = some (app.store.eventSeq + 1) ∧
        app'.store.events = app.store.events ++ [event] ∧
        app'.store.eventSeq = app.store.eventSeq + 1 ∧ app'.sweep = app.sweep) ∨
      ((∀ event ∈ app'.store.events, event ∈ app.store.events) ∧
        app'.store.eventSeq = app.store.eventSeq ∧
        ∀ event origin row, .stored event origin row ∉ es) := by
  cases h with
  | @launch app input hprocess =>
      rcases launch_store app input with ⟨versions, row, policy, hstore⟩
      exact Or.inr (by rw [hstore]; exact ⟨fun event hmem => hmem, rfl, by simp⟩)
  | exit | invoke | operate | notify => exact Or.inr ⟨fun event hmem => hmem, rfl, by simp⟩
  | call hcall hstep =>
      rcases (tableStep_of_callStep hstep).events with ⟨hevents, hseq⟩
      refine Or.inr ⟨hevents, hseq, ?_⟩
      intro event origin row hmem
      cases task_of_callStep hstep _ hmem
  | sweep hstep =>
      rcases events_of_sweepStep hstep with ⟨hevents, hseq⟩
      refine Or.inr ⟨hevents, hseq, ?_⟩
      intro event origin row hmem
      cases task_of_sweepStep hstep _ hmem
  | @observe vault database process o progress hstep =>
      generalize hpc : process.observation = pc at hstep
      cases hstep with
      | stored => exact Or.inl ⟨_, _, _, rfl, rfl, rfl, rfl, rfl⟩
      | _ => exact Or.inr ⟨fun event hmem => hmem, rfl, by simp⟩

/-! ## The events of a sweep -/

/-- The event has been stored in the course of a history. -/
def StoredIn (history : List Effect) (event : EventSummary) : Prop :=
  ∃ origin row, .stored event origin row ∈ history

theorem StoredIn.append {history : List Effect} {event : EventSummary}
    (h : StoredIn history event) (es : List Effect) : StoredIn (history ++ es) event := by
  rcases h with ⟨origin, row, hmem⟩
  exact ⟨origin, row, List.mem_append_left _ hmem⟩

/-- A detected pattern is made of some of the events. -/
def MadeOf (events : List EventSummary) (detected : DetectedPattern) : Prop :=
  ∀ id ∈ detected.contributingEventIds, ∃ event ∈ events, event.id = some id

/-- The events and patterns that a sweep holds meet two conditions. -/
def SweepPc.Holds (E : List EventSummary → Prop)
    (D : List EventSummary → DetectedPattern → Prop) : SweepPc → Prop
  | .logging _ next => next.Holds E D
  | .readingPatterns _ events detected => E events ∧ ∀ d ∈ detected, D events d
  | .patterns context => E context.events ∧ ∀ d ∈ context.rest, D context.events d
  | .linking context pattern | .synthesizing context pattern _ =>
      E context.events ∧ D context.events pattern.detected ∧
        ∀ d ∈ context.rest, D context.events d
  | _ => True

/-- A sweep holds what it has read and detected, and no more. -/
theorem holds_of_sweepStep {vault : Vault} {gate : DispatchGate} {o : Outside} {store : Store}
    {pc : SweepPc} {progress : SweepProgress} {E : List EventSummary → Prop}
    {D : List EventSummary → DetectedPattern → Prop}
    (hread : ∀ events, (∀ event ∈ events, event ∈ store.events) →
      E events ∧ ∀ detected ∈ PatternDetector.standard.detect events, D events detected)
    (hinv : pc.Holds E D) (h : SweepStep vault gate o store pc progress) :
    progress.pc.Holds E D := by
  cases h with
  | started _ hnext => rcases hnext with rfl | ⟨entry, rfl⟩ <;> trivial
  | logged => exact hinv
  | @eventsRead state events hevents hdetected =>
      have hstore : ∀ event ∈ events, event ∈ store.events := by
        intro event hmem
        rw [hevents] at hmem
        exact Store.mem_of_mem_listRecentEvents (List.mem_reverse.1 hmem)
      rcases hread events hstore with ⟨hE, hD⟩
      exact ⟨hE, fun detected hmem => hD detected (hdetected.mem_iff.1 hmem)⟩
  | patternsRead => exact hinv
  | skipped hrest | updated hrest => exact ⟨hinv.1, fun d hd => hinv.2 d (by simp [hrest, hd])⟩
  | inserted hrest =>
      exact ⟨hinv.1, hinv.2 _ (by simp [hrest]), fun d hd => hinv.2 d (by simp [hrest, hd])⟩
  | linked => exact hinv
  | synthesisEnded hnext =>
      rcases hnext with rfl | ⟨entry, rfl⟩ <;> exact ⟨hinv.1, hinv.2.2⟩
  | recommended => exact ⟨hinv.1, hinv.2.2⟩
  | providerRead | providerBuilt | allowed | requested | again | answered => exact hinv
  | _ => trivial

theorem SweepPc.Holds.mono {E E' : List EventSummary → Prop}
    {D D' : List EventSummary → DetectedPattern → Prop} (hE : ∀ events, E events → E' events)
    (hD : ∀ events detected, D events detected → D' events detected) {pc : SweepPc}
    (h : pc.Holds E D) : pc.Holds E' D' := by
  induction pc with
  | logging entry next ih => exact ih h
  | readingPatterns | patterns => exact ⟨hE _ h.1, fun d hd => hD _ d (h.2 d hd)⟩
  | linking | synthesizing =>
      exact ⟨hE _ h.1, hD _ _ h.2.1, fun d hd => hD _ d (h.2.2 d hd)⟩
  | _ => trivial

/-- A step that is not the sweep's own reports nothing of a sweep; it leaves the sweep where it is
or puts it at its start. -/
theorem sweep_of_appStep {ext : Externals} {app app' : App} {action : Action} {es : List Effect}
    (h : AppStep ext app action app' es) (hother : ∀ o, action ≠ .sweep o) :
    (∀ e ∈ es, e.task ≠ .sweep) ∧ (app'.sweep = app.sweep ∨ app'.sweep = .start) := by
  cases h with
  | @launch app input hprocess =>
      refine ⟨by simp, Or.inr ?_⟩
      rcases (launch_cases app input).2 with ⟨_, hsame⟩ | ⟨_, _, _, _, hstart⟩
      · rw [App.sweep, hsame, hprocess]
      · rw [App.sweep, hstart]
        rfl
  | exit => exact ⟨by simp, Or.inr rfl⟩
  | invoke | operate | notify => exact ⟨by simp, Or.inl rfl⟩
  | call _ hstep => exact ⟨fun e he => by rw [task_of_callStep hstep e he]; decide, Or.inl rfl⟩
  | observe hstep =>
      exact ⟨fun e he => by rw [task_of_observationStep hstep e he]; decide, Or.inl rfl⟩
  | sweep => exact absurd rfl (hother _)

/-! ## Every event is traced to its insertion -/

/-- Stored events have the ids given out so far, each its own; the store and the sweep hold stored
events only; a request is for a pattern made of events the sweep has read. -/
structure Provenance (app : App) (history : List Effect) : Prop where
  ids : ∀ event, StoredIn history event → ∃ id, event.id = some id ∧ id ≤ app.store.eventSeq
  unique : ∀ event event', StoredIn history event → StoredIn history event' →
    event.id = event'.id → event = event'
  events : ∀ event ∈ app.store.events, StoredIn history event
  sweep : app.sweep.Holds (fun events => ∀ event ∈ events, StoredIn history event) MadeOf
  requests : ∀ dispatch consent, .requested dispatch consent ∈ history →
    (∀ event ∈ dispatch.events, StoredIn history event) ∧
      MadeOf dispatch.events dispatch.detected

theorem Provenance.stored {app app' : App} {history : List Effect} {event : EventSummary}
    {origin : Origin} {row : Option PrivacyState} (hinv : Provenance app history)
    (hid : event.id = some (app.store.eventSeq + 1))
    (hevents : app'.store.events = app.store.events ++ [event])
    (hseq : app'.store.eventSeq = app.store.eventSeq + 1) (hsweep : app'.sweep = app.sweep) :
    Provenance app' (history ++ [.stored event origin row]) := by
  have hold : ∀ e, StoredIn (history ++ [.stored event origin row]) e →
      StoredIn history e ∨ e = event := by
    rintro e ⟨origin', row', hmem⟩
    rcases List.mem_append.1 hmem with hmem | hmem
    · exact Or.inl ⟨origin', row', hmem⟩
    · cases List.mem_singleton.1 hmem
      exact Or.inr rfl
  have hnew : StoredIn (history ++ [.stored event origin row]) event := ⟨origin, row, by simp⟩
  -- the id of the new event is larger than all given out before
  have hfresh : ∀ e, StoredIn history e → e.id ≠ event.id := by
    intro e he heq
    rcases hinv.ids e he with ⟨id, hid', hle⟩
    rw [hid', hid, Option.some.injEq] at heq
    omega
  refine ⟨?_, ?_, ?_, ?_, ?_⟩
  · intro e he
    rcases hold e he with he | rfl
    · rcases hinv.ids e he with ⟨id, hid', hle⟩
      exact ⟨id, hid', by omega⟩
    · exact ⟨_, hid, by omega⟩
  -- an id is shared by two old events, or by the new event with itself
  · intro e e' he he' heq
    rcases hold e he with hstored | hevent <;> rcases hold e' he' with hstored' | hevent'
    · exact hinv.unique e e' hstored hstored' heq
    · exact absurd (heq.trans (congrArg _ hevent')) (hfresh e hstored)
    · exact absurd (heq.symm.trans (congrArg _ hevent)) (hfresh e' hstored')
    · rw [hevent, hevent']
  · intro e he
    rw [hevents] at he
    rcases List.mem_append.1 he with he | he
    · exact (hinv.events e he).append _
    · rw [List.mem_singleton.1 he]
      exact hnew
  · rw [hsweep]
    exact hinv.sweep.mono (fun events h e he => (h e he).append _) fun _ _ h => h
  · intro d c hd
    have hd : .requested d c ∈ history := by simpa using hd
    rcases hinv.requests d c hd with ⟨hevents, hmade⟩
    exact ⟨fun e he => (hevents e he).append _, hmade⟩

theorem provenance_step {ext : Externals} {app app' : App} {history es : List Effect}
    {action : Action} (hinv : Provenance app history)
    (h : (machine ext).step app action = some (app', es)) : Provenance app' (history ++ es) := by
  have hstep := appStep_of_step h
  rcases events_of_appStep hstep with
    ⟨event, origin, row, rfl, hid, hevents, hseq, hsweep⟩ | ⟨hevents, hseq, hnone⟩
  · exact hinv.stored hid hevents hseq hsweep
  have hold : ∀ e, StoredIn (history ++ es) e → StoredIn history e := by
    rintro e ⟨origin, row, hmem⟩
    exact ⟨origin, row, (List.mem_append.1 hmem).resolve_right (hnone e origin row)⟩
  have hsweep := sweep_of_appStep hstep
  refine ⟨?_, fun e e' he he' => hinv.unique e e' (hold e he) (hold e' he'),
    fun e he => (hinv.events e (hevents e he)).append _, ?_, ?_⟩
  · intro e he
    rcases hinv.ids e (hold e he) with ⟨id, hid, hle⟩
    exact ⟨id, hid, hle.trans_eq hseq.symm⟩
  · have happend : ∀ events : List EventSummary, (∀ e ∈ events, StoredIn history e) →
        ∀ e ∈ events, StoredIn (history ++ es) e :=
      fun events h e he => (h e he).append es
    refine SweepPc.Holds.mono happend (fun _ _ h => h) ?_
    cases hstep with
    | @sweep vault database process o progress hsweepStep =>
        refine holds_of_sweepStep ?_ hinv.sweep hsweepStep
        intro events hmem
        exact ⟨fun e he => hinv.events e (hmem e he), fun d hd id hid => mem_of_detect hd hid⟩
    | _ =>
        rcases (hsweep (by rintro o ⟨⟩)).2 with hsame | hstart
        · rw [hsame]
          exact hinv.sweep
        · rw [hstart]
          trivial
  · intro d c hd
    rcases List.mem_append.1 hd with hd | hd
    · rcases hinv.requests d c hd with ⟨hread, hmade⟩
      exact ⟨fun e he => (hread e he).append _, hmade⟩
    · cases hstep with
      | @sweep vault database process o progress hsweepStep =>
          have hholds := hinv.sweep
          replace hholds : process.sweep.Holds _ _ := hholds
          generalize process.sweep = pc at hsweepStep hholds
          cases hsweepStep with
          -- the request is for the pattern that the sweep holds
          | requested =>
              cases List.mem_singleton.1 hd
              exact ⟨fun e he => (hholds.1 e he).append _, hholds.2.1⟩
          | updated =>
              simp only at hd
              split at hd <;> simp at hd
          | _ => simp at hd
      | _ => exact absurd rfl ((hsweep (by rintro o ⟨⟩)).1 _ hd)

/-- Provenance holds along every run. -/
theorem provenance_of_reach {ext : Externals} {guard : App → Action → Prop} {app : App}
    {history : List Effect} (hreach : (machine ext).Reach App.Initial guard app history) :
    Provenance app history := by
  refine hreach.invariant Provenance ?_ ?_
  · intro app hinitial
    have hstore := hinitial.store_eq
    have hsweep := hinitial.sweep_eq
    refine ⟨?_, ?_, ?_, ?_, ?_⟩
    · rintro e ⟨origin, row, hmem⟩
      simp at hmem
    · rintro e e' ⟨origin, row, hmem⟩
      simp at hmem
    · rw [hstore]
      rintro e ⟨⟩
    · rw [hsweep]
      trivial
    · intro d c hmem
      simp at hmem
  · intro app history action app' es hinv _ hstep
    exact provenance_step hinv hstep

end Desktop
end HiddenSteps
