import HiddenSteps.Desktop.Keeping
import HiddenSteps.Desktop.Observing
import HiddenSteps.Domain.TimeOrder

/-!
# Retention — when a raw observation goes

An event of the highest level expires ninety days after its capture, and the next sweep that can
delete does so; no other event expires.  Between two sweeps nothing expires, and the expiry compares
texts, so it is exact to the second.
-/

namespace HiddenSteps
namespace Desktop

open EventStore Patterns Pipeline PrivacyEngine Systems TimeFmt

/-- In nanoseconds. -/
def second : Int := 1000000000

/-- An instant counts as over when its text does, within a second of when it is. -/
theorem lt_of_textLe {a b : Timestamp} (ha : InYears a) (hb : InYears b)
    (h : textLe (toRfc3339 a) (toRfc3339 b) = true) : a < b + second := by
  have hseconds : secondsOf a ≤ secondsOf b := by
    rcases (textLe_toRfc3339_iff ha hb).1 h with hlt | ⟨heq, _⟩
    · exact hlt.le
    · exact heq.le
  have hint : ∀ s t : Int, s / 1000000000 ≤ t / 1000000000 → s < t + 1000000000 := by
    intro s t
    omega
  exact hint a b hseconds

theorem textLe_of_le {a b : Timestamp} (ha : InYears a) (hb : InYears b) (h : a + second ≤ b) :
    textLe (toRfc3339 a) (toRfc3339 b) = true := by
  refine (textLe_toRfc3339_iff ha hb).2 (Or.inl ?_)
  have hint : ∀ s t : Int, s + 1000000000 ≤ t → s / 1000000000 < t / 1000000000 := by
    intro s t
    omega
  exact hint a b h

/-! ## The retention of an event -/

/-- An event expires ninety days after its capture, if it is of deep mode. -/
structure Dated (event : EventSummary) : Prop where
  ttl : event.ttlExpiresAt =
    if event.isDeepMode then some (event.occurredAt + defaultDeepModeTtl) else none
  inYears : InYears (event.occurredAt + defaultDeepModeTtl)

theorem process_dated {redactor : Redaction.Scanner} {signal : CapturedSignal}
    {level : PrivacyLevel} {now : Timestamp} {event : EventSummary}
    (h : (EventPipeline.new redactor).process signal level now = some (.summarized event)) :
    event.occurredAt = now ∧ event.ttlExpiresAt =
      if event.isDeepMode then some (event.occurredAt + defaultDeepModeTtl) else none := by
  unfold EventPipeline.process at h
  simp only at h
  split at h
  · simp at h
  · split at h
    · simp at h
    · rcases Option.map_eq_some_iff.1 h with ⟨summary, _, hout⟩
      cases summary with
      | none => cases hout
      | some summary =>
          cases hout
          refine ⟨rfl, ?_⟩
          simp only [EventSummary.new, EventPipeline.new]
          split <;> simp_all

/-! ## One step -/

section Steps

variable {ext : Externals} {app app' : App} {action : Action} {o : Outside} {es : List Effect}

/-- An event in the store was there before the step, or the step has captured it. -/
theorem captured_of_step (h : (machine ext).step app action = some (app', es)) :
    ∀ event ∈ app'.store.events, event ∈ app.store.events ∨
      ∃ o, action = .observe o ∧ event.occurredAt = o.now ∧ event.ttlExpiresAt =
        if event.isDeepMode then some (event.occurredAt + defaultDeepModeTtl) else none := by
  have hstep := appStep_of_step h
  have hevents := events_of_appStep hstep
  have hquiet := observation_of_appStep hstep
  cases hstep with
  | @observe vault database process o progress hobserve =>
      generalize process.observation = pc at hobserve
      cases hobserve with
      | stored hprocess =>
          rcases process_dated hprocess with ⟨hoccurred, httl⟩
          intro event hmem
          rcases List.mem_append.1 hmem with hmem | hmem
          · exact Or.inl hmem
          · cases List.mem_singleton.1 hmem
            exact Or.inr ⟨o, rfl, hoccurred, httl⟩
      | _ => exact fun event hmem => Or.inl hmem
  | _ =>
      have htask := (hquiet (by rintro o ⟨⟩)).1
      rcases hevents with ⟨event, origin, row, hes, _⟩ | ⟨hevents, _, _⟩
      · refine absurd rfl (htask (.stored event origin row) ?_)
        rw [hes]
        exact List.mem_singleton_self _
      · exact fun event hmem => Or.inl (hevents event hmem)

/-- What a sweep that begins leaves has not expired. -/
theorem unexpired_of_step (hstart : app.sweep = .start) (hfault : o.storeFault = none)
    (h : (machine ext).step app (.sweep o) = some (app', es)) :
    ∀ event ∈ app'.store.events, event ∈ app.store.events ∧
      ∀ ttl ∈ event.ttlExpiresAt, textLe (toRfc3339 ttl) (toRfc3339 o.now) = false := by
  rcases sweep_of_step h with ⟨process, progress, _, hstep, hstore, _, _⟩
  rw [hstart] at hstep
  simp only [Sweep.step, hfault, Option.some.injEq] at hstep
  subst hstep
  rw [hstore]
  intro event hmem
  rcases List.mem_filter.1 hmem with ⟨hmem, hkept⟩
  refine ⟨hmem, fun ttl httl => ?_⟩
  simpa [Option.mem_def.1 httl] using hkept

/-- A sweep keeps what has not expired. -/
theorem kept_of_sweepStep {vault : Vault} {gate : DispatchGate} {store : Store} {pc : SweepPc}
    {progress : SweepProgress} (h : SweepStep vault gate o store pc progress)
    {event : EventSummary} (hmem : event ∈ store.events)
    (hunexpired : ∀ ttl ∈ event.ttlExpiresAt,
      textLe (toRfc3339 ttl) (toRfc3339 o.now) = false) : event ∈ progress.store.events := by
  cases h with
  | started hstore =>
      rcases hstore with rfl | rfl
      · exact hmem
      · refine List.mem_filter.2 ⟨hmem, ?_⟩
        rw [Bool.not_eq_true', Option.any_eq_false]
        intro ttl httl
        simpa using hunexpired ttl httl
  | logged hstore => rcases hstore with rfl | rfl <;> exact hmem
  | @linked _ pattern _ hstore =>
      obtain ⟨links, hlinks, _⟩ := Store.linkPatternEvents_eq store pattern.id
        pattern.detected.contributingEventIds
      rcases hstore with rfl | rfl
      · exact hmem
      · rw [Desktop.linked, hlinks]
        exact hmem
  | recommended hinsert =>
      rcases Store.insertRecommendation_eq_ok hinsert with ⟨_, _, rfl⟩
      exact hmem
  | _ => exact hmem

end Steps

/-! ## Runs -/

/-- The clock stays within the years that the texts can say. -/
def inYears : Action → Bool
  | .observe o => InYears (o.now + defaultDeepModeTtl)
  | .sweep o => InYears o.now
  | _ => true

theorem dated_of_reach {ext : Externals} {app : App} {history : List Effect}
    (hreach : (machine ext).Reach App.Initial (fun _ action => inYears action = true) app history) :
    ∀ event ∈ app.store.events, Dated event := by
  refine hreach.invariant (fun app _ => ∀ event ∈ app.store.events, Dated event) ?_ ?_
  · intro app hinitial
    rw [hinitial.store_eq]
    rintro event ⟨⟩
  · intro app _ action app' es hdated hyears hstep event hmem
    rcases captured_of_step hstep event hmem with hold | ⟨o, rfl, hoccurred, httl⟩
    · exact hdated event hold
    · have hyear := of_decide_eq_true hyears
      exact ⟨httl, hoccurred ▸ hyear⟩

/-- The clock is not set back before a time. -/
def clockFrom (since : Timestamp) : Action → Bool
  | .observe o => since ≤ o.now
  | _ => true

/-- No command deletes events, and no sweep begins after a time. -/
def sparesUntil (last : Timestamp) (app : App) : Action → Bool
  | .call id _ => (app.call? id).all fun call => !call.command.deletes
  | .sweep o => InYears o.now && o.now ≤ last
  | _ => true

/-- Deep-mode events go with the first sweep after their retention, and no event goes before.  As long
as the clock is not set back behind a sweep whose deletion does not fail, no deep-mode event is
stored that was older than ninety days and a second when that sweep began; until the next one it may
get older.  And an event stays in all runs without deletions whose sweeps begin at least a second
before its retention ends, or forever if it is not of deep mode. -/
theorem retention {ext : Externals} {app : App} {history : List Effect}
    (hreach : (machine ext).Reach App.Initial (fun _ action => inYears action = true) app history) :
    (∀ o app' es later after, app.sweep = .start → o.storeFault = none → InYears o.now →
      (machine ext).step app (.sweep o) = some (app', es) →
      (machine ext).Reach (· = app') (fun _ action => clockFrom o.now action = true) later after →
      ∀ event ∈ later.store.events, event.isDeepMode = true →
        o.now < event.occurredAt + defaultDeepModeTtl + second) ∧
      ∀ last later after,
        (machine ext).Reach (· = app) (fun app action => sparesUntil last app action = true) later
          after →
        ∀ event ∈ app.store.events,
          (event.isDeepMode = true →
            last + second ≤ event.occurredAt + defaultDeepModeTtl) →
          event ∈ later.store.events := by
  have hdated := dated_of_reach hreach
  refine ⟨?_, ?_⟩
  · intro o app' es later after hstart hfault hyear hstep hlater
    refine hlater.invariant (fun later _ => ∀ event ∈ later.store.events,
      event.isDeepMode = true → o.now < event.occurredAt + defaultDeepModeTtl + second) ?_ ?_
    · rintro _ rfl event hmem hdeep
      rcases unexpired_of_step hstart hfault hstep event hmem with ⟨hold, hunexpired⟩
      have hd := hdated event hold
      have httl := hd.ttl
      rw [if_pos hdeep] at httl
      by_contra hover
      have hexpired := textLe_of_le hd.inYears hyear (not_lt.1 hover)
      rw [hunexpired _ (Option.mem_def.2 httl)] at hexpired
      cases hexpired
    · intro s _ action s' es' hinv hclock hstep' event hmem hdeep
      rcases captured_of_step hstep' event hmem with hold | ⟨o', rfl, hoccurred, _⟩
      · exact hinv event hold hdeep
      · -- a new event has its retention before it
        rw [hoccurred]
        have hint : ∀ s t : Int, s ≤ t → s < t + 7776000000000000 + 1000000000 := by
          intro s t
          omega
        exact hint _ _ (of_decide_eq_true hclock)
  · intro last later after hlater event hmem hretained
    refine hlater.invariant (fun later _ => event ∈ later.store.events) ?_ ?_
    · rintro _ rfl
      exact hmem
    · intro s _ action s' es hmem' hspares hstep
      by_cases hsweep : ∃ o, action = .sweep o
      · rcases hsweep with ⟨o, rfl⟩
        rcases sweep_of_step hstep with ⟨process, progress, _, hsweepStep, hstore, _, _⟩
        rw [hstore]
        refine kept_of_sweepStep (sweepStep_of_step hsweepStep) hmem' fun ttl httl => ?_
        rcases Bool.and_eq_true_iff.1 hspares with ⟨hyear, hlast⟩
        have hd := hdated event hmem
        have hlives : event.isDeepMode = true ∧ event.occurredAt + defaultDeepModeTtl = ttl := by
          have httl' := hd.ttl.symm.trans (Option.mem_def.1 httl)
          split at httl'
          · rename_i hdeep
            exact ⟨hdeep, Option.some.inj httl'⟩
          · cases httl'
        rcases hlives with ⟨hdeep, rfl⟩
        by_contra hexpired
        have hlt := lt_of_textLe hd.inYears (of_decide_eq_true hyear) (by simpa using hexpired)
        have hle := Int.add_le_add_right (of_decide_eq_true hlast) second
        exact absurd (hretained hdeep) (not_le.2 (hlt.trans_le hle))
      · have hkeeps : keepsEvents s action = true := by
          cases action with
          | call id o => exact hspares
          | sweep o => exact absurd ⟨o, rfl⟩ hsweep
          | _ => rfl
        exact (keeps_of_appStep (appStep_of_step hstep) hkeeps fun o ho => hsweep ⟨o, ho⟩).events.subset
          hmem'

/-- Events are captured in deep mode, and a sweep begins a second after their retention. -/
theorem retention_expiring :
    ∃ app history app' es, (machine .reference).Reach App.Initial
        (fun _ action => inYears action = true) app history ∧
      app.sweep = .start ∧ app.store.events ≠ [] ∧
      (∀ event ∈ app.store.events, event.isDeepMode = true) ∧
      (machine .reference).step app (.sweep (.plain (defaultDeepModeTtl + second))) =
        some (app', es) ∧
      app'.store.events = [] ∧
      ∀ event ∈ app'.store.events, event.isDeepMode = true →
        defaultDeepModeTtl + second < event.occurredAt + defaultDeepModeTtl + second := by
  obtain ⟨app, history, hreach, htest⟩ := exists_run
    (fun _ action => inYears action = true)
    (fun app _ => decide (app.sweep = .start) && decide (app.store.events ≠ []) &&
      app.store.events.all (fun event => event.isDeepMode) &&
      ((machine .reference).step app (.sweep (.plain (defaultDeepModeTtl + second)))).any fun r =>
        decide (r.1.store.events = []))
    (.launch (.plain (.repeating 1) [.measured]) :: Action.consenting 0 4 ++ Action.capturing)
    (by decide +kernel)
  simp only [Bool.and_eq_true, decide_eq_true_eq, List.all_eq_true] at htest
  rcases htest with ⟨⟨⟨hstart, hevents⟩, hdeep⟩, hsweep⟩
  rcases (Option.any_eq_true _ _).1 hsweep with ⟨r, hr, hgone⟩
  replace hgone := of_decide_eq_true hgone
  exact ⟨app, history, r.1, r.2, hreach, hstart, hevents, hdeep, hr, hgone,
    (retention hreach).1 (.plain _) r.1 r.2 r.1 [] hstart rfl (by decide) hr (.start rfl)⟩

end Desktop
end HiddenSteps
