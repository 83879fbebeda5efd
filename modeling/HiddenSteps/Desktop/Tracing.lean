import HiddenSteps.Desktop.Keeping

/-!
# Tracing — from the count of a pattern to its events

A new pattern is linked to the events it was detected in.  A pattern that is known gets the count of
the last detection but no link, so its count outruns its links as soon as it recurs.  A run in which
known patterns have no new events leaves every detected pattern traced at the end of its sweep.
-/

namespace HiddenSteps
namespace Desktop

open EventStore Patterns PrivacyEngine Systems

/-- The row of a detected pattern has its count and is linked to all its events. -/
def Traced (store : Store) (detected : DetectedPattern) : Prop :=
  ∃ p ∈ store.patterns, p.sequenceSignature = (patternRow detected).sequenceSignature ∧
    p.occurrenceCount = detected.occurrenceCount ∧
    ∃ id, p.id = some id ∧
      ∀ eventId ∈ detected.contributingEventIds, (id, eventId) ∈ store.patternEvents

/-! ## The condition -/

/-- All events of a detected pattern are linked to a row. -/
def linkedTo (store : Store) (detected : DetectedPattern) (p : Pattern) : Bool :=
  p.id.any fun id =>
    detected.contributingEventIds.all fun eventId => store.patternEvents.contains (id, eventId)

/-- The store can be reached where a sweep handles what it has detected, and a pattern that is known
already has no event that is not linked to it. -/
def tracingSafe (app : App) (action : Action) : Bool :=
  keepsEvents app action &&
    match action with
    | .sweep o =>
        match app.sweep with
        | .readingPatterns .. | .linking .. => o.storeFault.isNone
        | .patterns context =>
            match context.rest with
            | [] => true
            | detected :: _ =>
                o.storeFault.isNone &&
                  (known context.existing detected).all (linkedTo app.store detected)
        | _ => true
    | _ => true

/-! ## The invariant -/

/-- Every pattern of a sweep is still to be handled or traced. -/
structure SweepContext.Tracing (store : Store) (pending : DetectedPattern → Prop)
    (context : SweepContext) : Prop where
  handled : ∀ d ∈ PatternDetector.standard.detect context.events, pending d ∨ Traced store d
  rest : ∀ d ∈ context.rest, d ∈ PatternDetector.standard.detect context.events
  existing : ∀ p ∈ context.existing, HasRow store p.id p.sequenceSignature
  events : ∀ e ∈ context.events, e ∈ store.events

/-- The row of a new pattern. -/
structure NewPattern.Inserted (store : Store) (context : SweepContext) (pattern : NewPattern) :
    Prop where
  detected : pattern.detected ∈ PatternDetector.standard.detect context.events
  row : ∃ p ∈ store.patterns, p.id = some pattern.id ∧
    p.sequenceSignature = (patternRow pattern.detected).sequenceSignature ∧
    p.occurrenceCount = pattern.detected.occurrenceCount

def SweepPc.Tracing (store : Store) : SweepPc → Prop
  | .logging _ next => next.Tracing store
  | .readingPatterns _ events detected =>
      detected.Perm (PatternDetector.standard.detect events) ∧ ∀ e ∈ events, e ∈ store.events
  | .patterns context => context.Tracing store (· ∈ context.rest)
  | .linking context pattern =>
      context.Tracing store (fun d => d ∈ context.rest ∨ d = pattern.detected) ∧
        pattern.Inserted store context
  | .synthesizing context _ _ => context.Tracing store (· ∈ context.rest)
  | _ => True

section Frame

variable {store store' : Store}

theorem Traced.keeps (hkeeps : Keeps store store') {d : DetectedPattern} (h : Traced store d) :
    Traced store' d := by
  unfold Traced
  rw [hkeeps.patterns, hkeeps.links]
  exact h

theorem SweepContext.Tracing.keeps (hkeeps : Keeps store store') {context : SweepContext}
    {pending : DetectedPattern → Prop} (h : context.Tracing store pending) :
    context.Tracing store' pending where
  handled := fun d hd => (h.handled d hd).imp_right (Traced.keeps hkeeps)
  rest := h.rest
  existing := fun p hp => (h.existing p hp).of_patterns hkeeps.patterns
  events := fun e he => hkeeps.events.subset (h.events e he)

theorem NewPattern.Inserted.keeps (hkeeps : Keeps store store') {context : SweepContext}
    {pattern : NewPattern} (h : pattern.Inserted store context) :
    pattern.Inserted store' context :=
  ⟨h.detected, hkeeps.patterns ▸ h.row⟩

theorem SweepPc.Tracing.keeps (hkeeps : Keeps store store') {pc : SweepPc}
    (h : pc.Tracing store) : pc.Tracing store' := by
  induction pc with
  | logging entry next ih => exact ih h
  | readingPatterns => exact ⟨h.1, fun e he => hkeeps.events.subset (h.2 e he)⟩
  | patterns | synthesizing => exact SweepContext.Tracing.keeps hkeeps h
  | linking => exact ⟨h.1.keeps hkeeps, h.2.keeps hkeeps⟩
  | _ => trivial

end Frame

/-! ## Handling a detected pattern -/

section Handling

variable {store : Store} {context : SweepContext} {detected : DetectedPattern}
  {rest : List DetectedPattern}

/-- A known pattern whose events are linked is traced when its count is written. -/
theorem SweepContext.Tracing.updated (hrows : RowIds store)
    (h : context.Tracing store (· ∈ context.rest)) (hrest : context.rest = detected :: rest)
    {p : Pattern} (hknown : known context.existing detected = some p)
    (hlinked : linkedTo store detected p = true) {id : Nat} (hid : p.id = some id)
    (lastSeenAt : Timestamp) (minutes : Option ℚ) :
    SweepContext.Tracing
      (store.updatePatternStats id lastSeenAt detected.occurrenceCount minutes)
      (· ∈ rest) { context with rest := rest } := by
  rcases known_eq_some hknown with ⟨hexisting, hsignature⟩
  rcases h.existing p hexisting with ⟨q, hq, hqid, hqsignature⟩
  have hdetected := h.rest detected (hrest ▸ List.mem_cons_self)
  have hlinks : ∀ eventId ∈ detected.contributingEventIds,
      (id, eventId) ∈ store.patternEvents := by
    simpa [linkedTo, hid] using hlinked
  -- the row gets the count, and the links it needs are there by assumption
  have htraced : Traced
      (store.updatePatternStats id lastSeenAt detected.occurrenceCount minutes) detected := by
    refine ⟨_, List.mem_map_of_mem hq, ?_, ?_, id, ?_, hlinks⟩
    · rw [if_pos (hqid.trans hid)]
      exact hqsignature.trans hsignature
    · rw [if_pos (hqid.trans hid)]
    · rw [if_pos (hqid.trans hid)]
      exact hqid.trans hid
  refine ⟨?_, fun d hd => h.rest d (hrest ▸ List.mem_cons_of_mem _ hd), ?_, h.events⟩
  · intro d hd
    rcases h.handled d hd with hpending | ⟨r, hr, hrsignature, hrcount, rid, hrid, hrlinks⟩
    · rw [hrest] at hpending
      rcases List.mem_cons.1 hpending with rfl | hpending
      · exact Or.inr htraced
      · exact Or.inl hpending
    · by_cases hsame : r.id = some id
      ·
        -- the row that changes is the row of the pattern at hand
        have hrow := signature_of_known hrows h.existing hknown hr (hsame.trans hid.symm)
        have heq : d = detected := detected_eq_of_row hd hdetected (hrsignature.symm.trans hrow)
        exact Or.inr (heq ▸ htraced)
      ·
        -- every other row is left alone
        refine Or.inr ⟨_, List.mem_map_of_mem hr, ?_⟩
        rw [if_neg hsame]
        exact ⟨hrsignature, hrcount, rid, hrid, hrlinks⟩
  · exact fun p' hp' => (h.existing p' hp').updated _ _ _ _

/-- A new pattern gets a row with its count. -/
theorem SweepContext.Tracing.inserted (h : context.Tracing store (· ∈ context.rest))
    (hrest : context.rest = detected :: rest) :
    SweepPc.Tracing (store.insertPattern (patternRow detected)).2
      (.linking { context with rest := rest }
        ⟨(store.insertPattern (patternRow detected)).1, detected⟩) := by
  have hdetected := h.rest detected (hrest ▸ List.mem_cons_self)
  constructor
  -- the pattern at hand is pending until its events are linked
  · refine ⟨?_, fun d hd => h.rest d (hrest ▸ List.mem_cons_of_mem _ hd), ?_, h.events⟩
    · intro d hd
      rcases h.handled d hd with hpending | ⟨r, hr, htraced⟩
      · rw [hrest] at hpending
        exact Or.inl (List.mem_cons.1 hpending).symm
      · exact Or.inr ⟨r, List.mem_append_left _ hr, htraced⟩
    · exact fun p hp => (h.existing p hp).inserted _
  · exact ⟨hdetected, _, List.mem_append_right _ (List.mem_singleton_self _), rfl, rfl, rfl⟩

/-- Linking a new pattern completes its trace: all its events are still there. -/
theorem SweepContext.Tracing.linked {pattern : NewPattern}
    (h : context.Tracing store (fun d => d ∈ context.rest ∨ d = pattern.detected))
    (hpattern : pattern.Inserted store context) :
    context.Tracing (Desktop.linked store pattern) (· ∈ context.rest) := by
  rcases hpattern.row with ⟨p, hp, hpid, hpsignature, hpcount⟩
  have hthere : store.hasPattern pattern.id = true :=
    List.any_eq_true.2 ⟨p, hp, beq_iff_eq.2 hpid⟩
  -- no foreign key can fail, since the events of the sweep have not been deleted
  have hevents : ∀ eventId ∈ pattern.detected.contributingEventIds,
      store.hasEvent eventId = true := by
    intro eventId hid
    rcases mem_of_detect hpattern.detected hid with ⟨e, he, heid⟩
    exact List.any_eq_true.2 ⟨e, h.events e he, beq_iff_eq.2 heid⟩
  have hlinked := Store.mem_linkPatternEvents hthere hevents
  rcases Store.linkPatternEvents_eq store pattern.id pattern.detected.contributingEventIds with
    ⟨links, hstore, -⟩
  -- links are only added, so what was traced stays traced
  have hold : ∀ d, Traced store d → Traced (Desktop.linked store pattern) d := by
    rintro d ⟨r, hr, hrsignature, hrcount, rid, hrid, hrlinks⟩
    rw [Desktop.linked, hstore]
    exact ⟨r, hr, hrsignature, hrcount, rid, hrid,
      fun eventId hid => List.mem_append_left _ (hrlinks eventId hid)⟩
  have hpatterns : (Desktop.linked store pattern).patterns = store.patterns := by
    rw [Desktop.linked, hstore]
  have hkept : (Desktop.linked store pattern).events = store.events := by
    rw [Desktop.linked, hstore]
  refine ⟨?_, h.rest, ?_, fun e he => hkept ▸ h.events e he⟩
  · intro d hd
    rcases h.handled d hd with (hpending | rfl) | htraced
    · exact Or.inl hpending
    · refine Or.inr ⟨p, hpatterns ▸ hp, hpsignature, hpcount, pattern.id, hpid, hlinked⟩
    · exact Or.inr (hold d htraced)
  · exact fun p' hp' => (h.existing p' hp').of_patterns hpatterns

end Handling

/-! ## Steps of the sweep -/

section Sweep

variable {ext : Recommendations.Externals} {vault : Vault} {gate : DispatchGate} {o : Outside}
  {store : Store} {progress : SweepProgress}

/-- The rows of the patterns and the sweep that works on them. -/
structure TracingInvariant (store : Store) (sweep : SweepPc) : Prop where
  rows : RowIds store
  sweep : sweep.Tracing store

theorem TracingInvariant.of_keeps {store' : Store} {sweep sweep' : SweepPc}
    (h : TracingInvariant store sweep) (hkeeps : Keeps store store')
    (hsweep : sweep'.Tracing store) : TracingInvariant store' sweep' :=
  ⟨h.rows.keeps hkeeps, hsweep.keeps hkeeps⟩

theorem traces_patterns {context : SweepContext}
    (hinv : TracingInvariant store (.patterns context))
    (hsafe : ∀ detected rest, context.rest = detected :: rest → o.storeFault = none ∧
      ∀ p, known context.existing detected = some p → linkedTo store detected p = true)
    (h : Sweep.step ext vault gate (.patterns context) o store = some progress) :
    Establishes TracingInvariant Traced (.patterns context) progress := by
  have hsweep : context.Tracing store (· ∈ context.rest) := hinv.sweep
  cases hrest : context.rest with
  | nil =>
      simp only [Sweep.step, hrest] at h
      cases h
      -- the sweep ends here: nothing is pending any more
      refine ⟨⟨hinv.rows, trivial⟩, ?_⟩
      rintro events ⟨⟩ - d hd
      rcases hsweep.handled d hd with hpending | htraced
      · rw [hrest] at hpending
        cases hpending
      · exact htraced
  | cons detected rest =>
      rcases hsafe detected rest hrest with ⟨hfault, hlinked⟩
      rcases handled_of_step hrest hfault h with ⟨p, hknown, hpc, hrow⟩ | ⟨-, hstore, hpc⟩
      · rcases hrow with ⟨hnone, -⟩ | ⟨id, hid, hstore⟩
        ·
          -- the row that the sweep has read is still there, so it has an id
          rcases hsweep.existing p (known_eq_some hknown).1 with ⟨q, hq, hqid, -⟩
          rcases hinv.rows.given q hq with ⟨id, hid, -⟩
          rw [hqid, hnone] at hid
          cases hid
        · apply Establishes.of_detection _ (by rw [hpc]; rfl)
          rw [hpc, hstore]
          exact ⟨hinv.rows.updated _ _ _ _,
            hsweep.updated hinv.rows hrest hknown (hlinked p hknown) hid _ _⟩
      · apply Establishes.of_detection _ (by rw [hpc]; rfl)
        rw [hpc, hstore]
        exact ⟨hinv.rows.inserted _, hsweep.inserted hrest⟩

theorem traces_sweep {pc : SweepPc} (hinv : TracingInvariant store pc)
    (hstart : pc = .start →
      (o.storeFault.isSome || (store.deleteExpiredEvents o.now).1 == 0) = true)
    (hreading : ∀ state events detected, pc = .readingPatterns state events detected →
      o.storeFault = none)
    (hlinking : ∀ context pattern, pc = .linking context pattern → o.storeFault = none)
    (hpatterns : ∀ context detected rest, pc = .patterns context →
      context.rest = detected :: rest → o.storeFault = none ∧
        ∀ p, known context.existing detected = some p → linkedTo store detected p = true)
    (h : Sweep.step ext vault gate pc o store = some progress) :
    Establishes TracingInvariant Traced pc progress := by
  have hsweep := hinv.sweep
  cases pc with
  | start =>
      rcases keeps_started h (hstart rfl) with ⟨hkeeps, hpc | ⟨entry, hpc⟩⟩
      · exact .of_detection (hinv.of_keeps hkeeps (hpc ▸ trivial)) (by rw [hpc]; rfl)
      · exact .of_detection (hinv.of_keeps hkeeps (hpc ▸ trivial)) (by rw [hpc]; rfl)
  | logging entry next =>
      rcases keeps_logged h with ⟨hkeeps, hpc⟩
      exact .of_detection (hinv.of_keeps hkeeps (hpc ▸ hsweep)) (by rw [hpc]; rfl)
  | readingState =>
      cases sweepStep_of_step h with
      | failed | stateRead => exact .of_detection ⟨hinv.rows, trivial⟩ rfl
  | readingEvents state =>
      cases sweepStep_of_step h with
      | failed | nothingDetected => exact .of_detection ⟨hinv.rows, trivial⟩ rfl
      | eventsRead hevents hdetected =>
          refine ⟨⟨hinv.rows, hdetected, ?_⟩, by rintro events ⟨⟩⟩
          intro e he
          -- the events that are read are rows of the store
          rw [hevents] at he
          exact Store.mem_of_mem_listRecentEvents (List.mem_reverse.1 he)
  | readingPatterns state events detected =>
      simp only [Sweep.step, hreading state events detected rfl] at h
      cases h
      refine .of_detection ⟨hinv.rows, ?_, ?_, ?_, hsweep.2⟩ rfl
      · exact fun d hd => Or.inl (hsweep.1.mem_iff.2 hd)
      · exact fun d hd => hsweep.1.mem_iff.1 hd
      · exact fun p hp => ⟨p, hp, rfl, rfl⟩
  | patterns context =>
      exact traces_patterns hinv (fun detected rest => hpatterns context detected rest rfl) h
  | linking context pattern =>
      simp only [Sweep.step, hlinking context pattern rfl] at h
      cases h
      refine .of_detection ⟨?_, hsweep.1.linked hsweep.2⟩ rfl
      -- the rows of the patterns are not touched
      rcases Store.linkPatternEvents_eq store pattern.id pattern.detected.contributingEventIds
        with ⟨links, hstore, -⟩
      simp only [hstore]
      exact ⟨hinv.rows.distinct, hinv.rows.given⟩
  | synthesizing context pattern pc =>
      rcases keeps_synthesizing h with ⟨hkeeps, hgoes⟩
      -- a synthesis goes on or returns to the patterns of the same sweep
      have hnext : progress.pc.Tracing store ∧
          progress.pc.detection = some context.events := by
        generalize progress.pc = next at hgoes
        cases hgoes <;> exact ⟨hsweep, rfl⟩
      exact .of_detection (hinv.of_keeps hkeeps hnext.1) hnext.2

end Sweep

/-! ## Runs -/

theorem traces_app {ext : Externals} {app app' : App} {action : Action} {es : List Effect}
    (hinv : TracingInvariant app.store app.sweep) (hsafe : tracingSafe app action = true)
    (h : (machine ext).step app action = some (app', es)) :
    TracingInvariant app'.store app'.sweep ∧
      ∀ o, action = .sweep o → ∀ events, app.sweep.detection = some events →
        app'.sweep.detection = none →
          ∀ d ∈ PatternDetector.standard.detect events, Traced app'.store d := by
  rcases Bool.and_eq_true_iff.1 hsafe with ⟨hkept, hsafe⟩
  cases action with
  | sweep o =>
      rcases sweep_of_step h with ⟨process, progress, -, hstep, hstore, hpc, -⟩
      have htracing : Establishes TracingInvariant Traced app.sweep progress := by
        apply traces_sweep hinv _ _ _ _ hstep
        -- the condition on the action, one place of the sweep after the other
        · intro hstart
          simpa [keepsEvents, hstart] using hkept
        · intro state events detected hreading
          simpa [hreading] using hsafe
        · intro context pattern hlinking
          simpa [hlinking] using hsafe
        · intro context detected rest hpatterns hrest
          simpa [hpatterns, hrest, Option.all_eq_true] using hsafe
      rw [hstore, hpc]
      refine ⟨htracing.invariant, ?_⟩
      rintro _ - events hbefore hafter
      exact htracing.ended events hbefore hafter
  | _ =>
      -- another task deletes nothing, and a sweep is where it was or has not begun
      have hstep := appStep_of_step h
      refine ⟨?_, by rintro o ⟨⟩⟩
      have hkeeps := keeps_of_appStep hstep hkept (by rintro o ⟨⟩)
      apply hinv.of_keeps hkeeps
      rcases (sweep_of_appStep hstep (by rintro o ⟨⟩)).2 with hpc | hpc <;> rw [hpc]
      · exact hinv.sweep
      · trivial

theorem tracingInvariant_of_reach {ext : Externals} {app : App} {history : List Effect}
    (hreach : (machine ext).Reach App.Initial (fun app action => tracingSafe app action = true)
      app history) : TracingInvariant app.store app.sweep := by
  refine hreach.invariant (fun app _ => TracingInvariant app.store app.sweep) ?_ ?_
  · intro app hinitial
    rw [hinitial.store_eq, hinitial.sweep_eq]
    exact ⟨⟨List.nodup_nil, by rintro p ⟨⟩⟩, trivial⟩
  · intro app history action app' es hinv hsafe hstep
    exact (traces_app hinv hsafe hstep).1

/-- When a sweep ends, every pattern it has detected is traced. -/
theorem counts_traced_of_tracingSafe {ext : Externals} {app app' : App}
    {history es : List Effect} {o : Outside} {events : List EventSummary}
    (hreach : (machine ext).Reach App.Initial (fun app action => tracingSafe app action = true)
      app history)
    (hsafe : tracingSafe app (.sweep o) = true)
    (hstep : (machine ext).step app (.sweep o) = some (app', es))
    (hbefore : app.sweep.detection = some events) (hafter : app'.sweep.detection = none) :
    ∀ d ∈ PatternDetector.standard.detect events, Traced app'.store d :=
  (traces_app (tracingInvariant_of_reach hreach) hsafe hstep).2 o rfl events hbefore hafter

/-- Two sweeps over the same events. -/
def resweptRun : List Action :=
  .launch (.plain (.repeating 1) [.measured]) :: Action.consenting 0 2 ++ Action.capturing ++
    Action.sweeping (focusPattern 1) 5 ++ Action.sweeping (focusPattern 1) 2

theorem counts_traced_resweptRun :
    ∃ app history app' es events,
      (machine .reference).Reach App.Initial
        (fun app action => tracingSafe app action = true) app history ∧
      (machine .reference).step app (.sweep (.plain 0)) = some (app', es) ∧
      PatternDetector.standard.detect events ≠ [] ∧
      ∀ d ∈ PatternDetector.standard.detect events, Traced app'.store d := by
  obtain ⟨app, history, app', es, events, hreach, hsafe, hstep, hbefore, hafter, htest⟩ :=
    exists_sweepEnd .reference tracingSafe
      (fun _ events => decide (PatternDetector.standard.detect events ≠ [])) resweptRun
      (by decide +kernel)
  exact ⟨app, history, app', es, events, hreach, hstep, of_decide_eq_true htest,
    counts_traced_of_tracingSafe hreach hsafe hstep hbefore hafter⟩

/-- The patterns of `focusChanges` and one turn more. -/
def recurredPatterns : List DetectedPattern :=
  [{ focusPattern 1 with occurrenceCount := 4, contributingEventIds := List.range' 1 8 },
    { focusPattern 2 with signature := ["app_focus_change:b", "app_focus_change:a"] }]

/-- A tick that captures one turn more. -/
def Action.capturingTurn : List Action :=
  [.observe (.plain 0), .observe { Outside.plain 0 with polled := .ok (focusChanges.take 2) }] ++
    List.replicate 4 (.observe (.plain 0))

/-- A known pattern recurs: its count grows from three to four, its links do not. -/
theorem count_outruns_links :
    ¬ ∀ ext app app' history es o events,
      (machine ext).Reach App.Initial (fun app action => keepsEvents app action = true) app
        history →
      keepsEvents app (.sweep o) = true →
      (machine ext).step app (.sweep o) = some (app', es) →
      app.sweep.detection = some events → app'.sweep.detection = none →
        ∀ d ∈ PatternDetector.standard.detect events, Traced app'.store d := by
  intro h
  obtain ⟨app, history, app', es, events, hreach, hsafe, hstep, hbefore, hafter, htest⟩ :=
    exists_sweepEnd .reference keepsEvents
      (fun app events => (PatternDetector.standard.detect events).any fun d =>
        d.contributingEventIds.any fun eventId =>
          app.store.patternEvents.all fun link => link.2 != eventId)
      (.launch (.plain (.repeating 1) [.measured]) :: Action.consenting 0 2 ++
        Action.capturing ++ Action.sweeping (focusPattern 1) 5 ++
        Action.capturingTurn ++
        [.sweep (.plain 0), .sweep (.plain 0),
          .sweep { Outside.plain 0 with detected := recurredPatterns }] ++
        List.replicate 5 (.sweep (.plain 0)))
      (by decide +kernel)
  rcases List.any_eq_true.1 htest with ⟨d, hd, htest⟩
  rcases List.any_eq_true.1 htest with ⟨eventId, hid, hunlinked⟩
  -- an event of the last turn is linked to no row at all
  obtain ⟨p, -, -, -, id, -, hlinks⟩ :=
    h _ app app' history es _ events hreach hsafe hstep hbefore hafter d hd
  have hne := List.all_eq_true.1 hunlinked _ (hlinks eventId hid)
  simp at hne

end Desktop
end HiddenSteps
