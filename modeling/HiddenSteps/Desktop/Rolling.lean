import HiddenSteps.Desktop.Keeping
import HiddenSteps.Patterns.Growth

/-!
# Rolling — statistics that do not go backwards

A sweep detects patterns in the latest events only and overwrites the statistics of the patterns it
knows.  Where events are only added, and in the order of their times, the statistics still go back
when the texts of the times are in another order, or when the limit cuts off events in which a
pattern has been seen.  In the runs without such a sweep the statistics of every row grow.
-/

namespace HiddenSteps
namespace Desktop

open EventStore Patterns PrivacyEngine Systems

/-- Every row is still there, and its count and its last time are not smaller. -/
def StatsGrow (store store' : Store) : Prop :=
  ∀ p ∈ store.patterns, ∃ p' ∈ store'.patterns,
    p'.id = p.id ∧ p.occurrenceCount ≤ p'.occurrenceCount ∧ p.lastSeenAt ≤ p'.lastSeenAt

instance (store store' : Store) : Decidable (StatsGrow store store') :=
  inferInstanceAs (Decidable (∀ p ∈ _, ∃ p' ∈ _, _))

theorem StatsGrow.of_patterns {store store' : Store} (h : store'.patterns = store.patterns) :
    StatsGrow store store' :=
  fun p hp => ⟨p, h ▸ hp, rfl, le_rfl, le_rfl⟩

theorem StatsGrow.trans {store₁ store₂ store₃ : Store} (h : StatsGrow store₁ store₂)
    (h' : StatsGrow store₂ store₃) : StatsGrow store₁ store₃ := by
  intro p hp
  rcases h p hp with ⟨q, hq, hqid, hqcount, hqlast⟩
  rcases h' q hq with ⟨r, hr, hrid, hrcount, hrlast⟩
  exact ⟨r, hr, hrid.trans hqid, hqcount.trans hrcount, hqlast.trans hrlast⟩

/-! ## The condition -/

/-- No event is deleted, and the events are stored in the order of their times. -/
def addsInOrder (app : App) (action : Action) : Bool :=
  keepsEvents app action &&
    decide (app.store.events.Pairwise fun a b => a.occurredAt ≤ b.occurredAt)

/-- The events a sweep should read. -/
def latestEvents (store : Store) : List EventSummary :=
  latest eventHistoryLimit.toNat store.events

/-- The events that the limit cuts off. -/
def cutOff (store : Store) : List EventSummary :=
  store.events.take (store.events.length - eventHistoryLimit.toNat)

/-- The rows that are read are the last ones stored, in their order. -/
def readsLatest (store : Store) : Bool :=
  (store.listRecentEvents eventHistoryLimit).reverse == latestEvents store

/-- What the limit cuts off is older than every row whose pattern is detected again. -/
def cutsOlder (store : Store) : Bool :=
  store.patterns.all fun p =>
    (PatternDetector.standard.detect (latestEvents store)).all fun d =>
      p.sequenceSignature != (patternRow d).sequenceSignature ||
        (cutOff store).all fun e => decide (e.occurredAt < p.firstSeenAt)

/-- Where a sweep reads the events, it reads the last ones in their order, and no event in which a
pattern has been seen is cut off. -/
def rollingSafe (app : App) (action : Action) : Bool :=
  addsInOrder app action &&
    match action with
    | .sweep o =>
        match app.sweep with
        | .readingEvents _ => o.storeFault.isSome || (readsLatest app.store && cutsOlder app.store)
        | _ => true
    | _ => true

/-! ## The invariant -/

/-- The statistics of a row do not exceed those of a detected pattern, which is not first seen
earlier. -/
structure Follows (p : Pattern) (d : DetectedPattern) : Prop where
  occurrenceCount : p.occurrenceCount ≤ d.occurrenceCount
  lastSeenAt : p.lastSeenAt ≤ d.lastSeenAt
  firstSeenAt : p.firstSeenAt ≤ d.firstSeenAt

/-- The statistics of a row are those of a pattern detected at an earlier length of the history. -/
def Reported (store : Store) (p : Pattern) : Prop :=
  ∃ history d, history <+: store.events ∧
    d ∈ PatternDetector.standard.detect (latest eventHistoryLimit.toNat history) ∧
    p.sequenceSignature = (patternRow d).sequenceSignature ∧
    p.occurrenceCount = d.occurrenceCount ∧ p.lastSeenAt = d.lastSeenAt ∧
    p.firstSeenAt ≤ d.firstSeenAt

/-- Events that were the latest ones at an earlier length of the history. -/
def WereLatest (store : Store) (events : List EventSummary) : Prop :=
  ∃ history, history <+: store.events ∧ events = latest eventHistoryLimit.toNat history

/-- The rows of patterns that a sweep has still to handle have not more than it has detected. -/
def RowsFollow (store : Store) (detected : List DetectedPattern) : Prop :=
  ∀ d ∈ detected, ∀ p ∈ store.patterns,
    p.sequenceSignature = (patternRow d).sequenceSignature → Follows p d

structure SweepContext.Rolling (store : Store) (context : SweepContext) : Prop where
  read : WereLatest store context.events
  rest : ∀ d ∈ context.rest, d ∈ PatternDetector.standard.detect context.events
  existing : ∀ p ∈ context.existing, HasRow store p.id p.sequenceSignature
  follow : RowsFollow store context.rest

def SweepPc.Rolling (store : Store) : SweepPc → Prop
  | .logging _ next => next.Rolling store
  | .readingPatterns _ events detected =>
      WereLatest store events ∧ (∀ d ∈ detected, d ∈ PatternDetector.standard.detect events) ∧
        RowsFollow store detected
  | .patterns context | .linking context _ | .synthesizing context _ _ => context.Rolling store
  | _ => True

structure RollingInvariant (store : Store) (sweep : SweepPc) : Prop where
  rows : RowIds store
  reported : ∀ p ∈ store.patterns, Reported store p
  sweep : sweep.Rolling store

section Frame

variable {store store' : Store}

theorem Reported.mono (hevents : store.events <+: store'.events) {p : Pattern}
    (h : Reported store p) : Reported store' p := by
  rcases h with ⟨history, d, hhistory, hreported⟩
  exact ⟨history, d, hhistory.trans hevents, hreported⟩

theorem WereLatest.mono (hevents : store.events <+: store'.events) {events : List EventSummary}
    (h : WereLatest store events) : WereLatest store' events := by
  rcases h with ⟨history, hhistory, hlatest⟩
  exact ⟨history, hhistory.trans hevents, hlatest⟩

theorem RowsFollow.of_patterns (hpatterns : store'.patterns = store.patterns)
    {detected : List DetectedPattern} (h : RowsFollow store detected) :
    RowsFollow store' detected := by
  intro d hd p hp
  rw [hpatterns] at hp
  exact h d hd p hp

theorem SweepContext.Rolling.frame (hevents : store.events <+: store'.events)
    (hpatterns : store'.patterns = store.patterns) {context : SweepContext}
    (h : context.Rolling store) : context.Rolling store' where
  read := h.read.mono hevents
  rest := h.rest
  existing := fun p hp => (h.existing p hp).of_patterns hpatterns
  follow := h.follow.of_patterns hpatterns

theorem SweepPc.Rolling.frame (hevents : store.events <+: store'.events)
    (hpatterns : store'.patterns = store.patterns) {pc : SweepPc} (h : pc.Rolling store) :
    pc.Rolling store' := by
  induction pc with
  | logging entry next ih => exact ih h
  | readingPatterns => exact ⟨h.1.mono hevents, h.2.1, h.2.2.of_patterns hpatterns⟩
  | patterns | linking | synthesizing => exact SweepContext.Rolling.frame hevents hpatterns h
  | _ => trivial

/-- Steps that do not touch the rows keep the invariant. -/
theorem RollingInvariant.keeps {sweep sweep' : SweepPc} (h : RollingInvariant store sweep)
    (hkeeps : Keeps store store') (hsweep : sweep'.Rolling store) :
    RollingInvariant store' sweep' where
  rows := h.rows.keeps hkeeps
  reported := by
    rw [hkeeps.patterns]
    exact fun p hp => (h.reported p hp).mono hkeeps.events
  sweep := hsweep.frame hkeeps.events hkeeps.patterns

end Frame

/-! ## Handling a detected pattern -/

section Handling

variable {store : Store} {context : SweepContext} {detected : DetectedPattern}
  {rest : List DetectedPattern}

theorem SweepContext.Rolling.tail (h : context.Rolling store)
    (hrest : context.rest = detected :: rest) :
    SweepContext.Rolling store { context with rest := rest } where
  read := h.read
  rest := fun d hd => h.rest d (hrest ▸ List.mem_cons_of_mem _ hd)
  existing := h.existing
  follow := fun d hd => h.follow d (hrest ▸ List.mem_cons_of_mem _ hd)

/-- The row of a known pattern takes the statistics of the detected one. -/
theorem RollingInvariant.updated (h : RollingInvariant store (.patterns context))
    (hrest : context.rest = detected :: rest) {p : Pattern}
    (hknown : known context.existing detected = some p) {id : Nat} (hid : p.id = some id)
    (minutes : Option ℚ) :
    RollingInvariant
        (store.updatePatternStats id detected.lastSeenAt detected.occurrenceCount minutes)
        (.patterns { context with rest := rest }) ∧
      StatsGrow store
        (store.updatePatternStats id detected.lastSeenAt detected.occurrenceCount minutes) := by
  have hsweep : context.Rolling store := h.sweep
  have hdetected := hsweep.rest detected (hrest ▸ List.mem_cons_self)
  have hrow : ∀ r ∈ store.patterns, r.id = some id →
      r.sequenceSignature = (patternRow detected).sequenceSignature ∧ Follows r detected := by
    intro r hr hrid
    have hsignature := signature_of_known h.rows hsweep.existing hknown hr (hrid.trans hid.symm)
    exact ⟨hsignature, hsweep.follow detected (hrest ▸ List.mem_cons_self) r hr hsignature⟩
  refine ⟨⟨h.rows.updated _ _ _ _, ?_, ?_⟩, ?_⟩
  · intro r' hr'
    rcases List.mem_map.1 hr' with ⟨r, hr, rfl⟩
    split
    -- the row that changes reports what the sweep has detected
    · rename_i hrid
      rcases hrow r hr hrid with ⟨hsignature, hfollows⟩
      rcases hsweep.read with ⟨history, hhistory, hlatest⟩
      exact ⟨history, detected, hhistory, hlatest ▸ hdetected, hsignature, rfl, rfl,
        hfollows.firstSeenAt⟩
    · exact h.reported r hr
  · have htail := hsweep.tail hrest
    refine ⟨htail.read, htail.rest, fun p hp => (htail.existing p hp).updated _ _ _ _, ?_⟩
    intro d hd r' hr' hsignature'
    rcases List.mem_map.1 hr' with ⟨r, hr, rfl⟩
    split at hsignature'
    ·
      -- the row that changes belongs to the pattern at hand
      rename_i hrid
      rcases hrow r hr hrid with ⟨hsignature, hfollows⟩
      have hsame : d = detected := by
        apply detected_eq_of_row (htail.rest d hd) hdetected
        exact hsignature'.symm.trans hsignature
      rw [if_pos hrid, hsame]
      exact ⟨le_rfl, le_rfl, hfollows.firstSeenAt⟩
    ·
      -- the other rows still follow what is left to be handled
      rename_i hrid
      rw [if_neg hrid]
      exact htail.follow d hd r hr hsignature'
  · intro r hr
    refine ⟨_, List.mem_map_of_mem hr, ?_⟩
    split
    · rename_i hrid
      rcases hrow r hr hrid with ⟨-, hfollows⟩
      exact ⟨rfl, hfollows.occurrenceCount, hfollows.lastSeenAt⟩
    · exact ⟨rfl, le_rfl, le_rfl⟩

/-- A new pattern gets a row with its statistics. -/
theorem RollingInvariant.inserted (h : RollingInvariant store (.patterns context))
    (hrest : context.rest = detected :: rest) (pattern : NewPattern) :
    RollingInvariant (store.insertPattern (patternRow detected)).2
        (.linking { context with rest := rest } pattern) ∧
      StatsGrow store (store.insertPattern (patternRow detected)).2 := by
  have hsweep : context.Rolling store := h.sweep
  have hdetected := hsweep.rest detected (hrest ▸ List.mem_cons_self)
  refine ⟨⟨h.rows.inserted _, ?_, ?_⟩, ?_⟩
  · intro r hr
    rcases List.mem_append.1 hr with hr | hr
    · exact h.reported r hr
    -- the new row reports what the sweep has detected
    · rw [List.mem_singleton.1 hr]
      rcases hsweep.read with ⟨history, hhistory, hlatest⟩
      exact ⟨history, detected, hhistory, hlatest ▸ hdetected, rfl, rfl, rfl, le_rfl⟩
  · have htail := hsweep.tail hrest
    refine ⟨htail.read, htail.rest, fun p hp => (htail.existing p hp).inserted _, ?_⟩
    intro d hd r hr hsignature
    rcases List.mem_append.1 hr with hr | hr
    · exact htail.follow d hd r hr hsignature
    -- no other pattern of the sweep has the signature of the new row
    · rw [List.mem_singleton.1 hr] at hsignature ⊢
      have hsame : d = detected :=
        detected_eq_of_row (htail.rest d hd) hdetected hsignature.symm
      rw [hsame]
      exact ⟨le_rfl, le_rfl, le_rfl⟩
  · exact fun r hr => ⟨r, List.mem_append_left _ hr, rfl, le_rfl, le_rfl⟩

end Handling

/-! ## Reading the events -/

/-- A row does not exceed what is detected again in the events that are read now. -/
theorem rowsFollow_of_cutsOlder {store : Store} (hreported : ∀ p ∈ store.patterns, Reported store p)
    (hsorted : store.events.Pairwise fun a b => a.occurredAt ≤ b.occurredAt)
    (hcuts : cutsOlder store = true) {detected : List DetectedPattern}
    (hdetected : ∀ d ∈ detected, d ∈ PatternDetector.standard.detect (latestEvents store)) :
    RowsFollow store detected := by
  intro d hd p hp hsignature
  rcases hreported p hp with ⟨history, before, hhistory, hbefore, hrow, hcount, hlast, hfirst⟩
  have hsame : before.signature = d.signature := signature_eq_of_row (hrow.symm.trans hsignature)
  -- the row is as old as its first report, so what is cut off is older than both
  have holder : ∀ e ∈ cutOff store, e.occurredAt < before.firstSeenAt := by
    intro e he
    have hall := List.all_eq_true.1 (List.all_eq_true.1 hcuts p hp) d (hdetected d hd)
    rw [hsignature, bne_self_eq_false, Bool.false_or] at hall
    exact lt_of_lt_of_le (of_decide_eq_true (List.all_eq_true.1 hall e he)) hfirst
  rcases detected_grows_latest hhistory hbefore (hdetected d hd) hsame holder hsorted
    (by decide) with ⟨hcount', hlast', hfirst'⟩
  exact ⟨hcount ▸ hcount', hlast ▸ hlast', hfirst.trans hfirst'⟩

/-! ## Steps of the sweep -/

section Sweep

variable {ext : Recommendations.Externals} {vault : Vault} {gate : DispatchGate} {o : Outside}
  {store : Store} {progress : SweepProgress}

/-- What the sweep reads is the end of the history, where growth is known. -/
theorem rolls_readingEvents {state : PrivacyState}
    (hinv : RollingInvariant store (.readingEvents state))
    (hsorted : store.events.Pairwise fun a b => a.occurredAt ≤ b.occurredAt)
    (hreading : (o.storeFault.isSome || (readsLatest store && cutsOlder store)) = true)
    (h : Sweep.step ext vault gate (.readingEvents state) o store = some progress) :
    RollingInvariant progress.store progress.pc ∧ StatsGrow store progress.store := by
  simp only [Sweep.step] at h
  split at h
  · cases h
    exact ⟨⟨hinv.rows, hinv.reported, trivial⟩, .of_patterns rfl⟩
  · rename_i hfault
    rw [hfault, Option.isSome_none, Bool.false_or, Bool.and_eq_true_iff, readsLatest,
      beq_iff_eq] at hreading
    rw [hreading.1] at h
    split at h
    · rename_i hdetected
      split at h
      · cases h
        exact ⟨⟨hinv.rows, hinv.reported, trivial⟩, .of_patterns rfl⟩
      · cases h
        have hall : ∀ d ∈ o.detected,
            d ∈ PatternDetector.standard.detect (latestEvents store) :=
          fun d hd => hdetected.mem_iff.1 hd
        refine ⟨⟨hinv.rows, hinv.reported, ⟨_, List.prefix_refl _, rfl⟩, hall, ?_⟩,
          .of_patterns rfl⟩
        exact rowsFollow_of_cutsOlder hinv.reported hsorted hreading.2 hall
    · cases h

theorem rolls_sweep {pc : SweepPc} (hinv : RollingInvariant store pc)
    (hsorted : store.events.Pairwise fun a b => a.occurredAt ≤ b.occurredAt)
    (hstart : pc = .start →
      (o.storeFault.isSome || (store.deleteExpiredEvents o.now).1 == 0) = true)
    (hreading : ∀ state, pc = .readingEvents state →
      (o.storeFault.isSome || (readsLatest store && cutsOlder store)) = true)
    (h : Sweep.step ext vault gate pc o store = some progress) :
    RollingInvariant progress.store progress.pc ∧ StatsGrow store progress.store := by
  have hsweep := hinv.sweep
  cases pc with
  | start =>
      rcases keeps_started h (hstart rfl) with ⟨hkeeps, hpc | ⟨entry, hpc⟩⟩
      · exact ⟨hinv.keeps hkeeps (hpc ▸ trivial), .of_patterns hkeeps.patterns⟩
      · exact ⟨hinv.keeps hkeeps (hpc ▸ trivial), .of_patterns hkeeps.patterns⟩
  | logging entry next =>
      rcases keeps_logged h with ⟨hkeeps, hpc⟩
      exact ⟨hinv.keeps hkeeps (hpc ▸ hsweep), .of_patterns hkeeps.patterns⟩
  | readingState =>
      cases sweepStep_of_step h with
      | failed | stateRead => exact ⟨⟨hinv.rows, hinv.reported, trivial⟩, .of_patterns rfl⟩
  | readingEvents state => exact rolls_readingEvents hinv hsorted (hreading state rfl) h
  | readingPatterns state events detected =>
      cases sweepStep_of_step h with
      | failed => exact ⟨⟨hinv.rows, hinv.reported, trivial⟩, .of_patterns rfl⟩
      | patternsRead =>
          refine ⟨⟨hinv.rows, hinv.reported, hsweep.1, hsweep.2.1, ?_, hsweep.2.2⟩,
            .of_patterns rfl⟩
          exact fun p hp => ⟨p, hp, rfl, rfl⟩
  | patterns context =>
      cases sweepStep_of_step h with
      | failed | ended =>
          exact ⟨⟨hinv.rows, hinv.reported, trivial⟩, .of_patterns rfl⟩
      | skipped hrest =>
          exact ⟨⟨hinv.rows, hinv.reported, SweepContext.Rolling.tail hsweep hrest⟩,
            .of_patterns rfl⟩
      | updated hrest hknown hid => exact hinv.updated hrest hknown hid _
      | inserted hrest => exact hinv.inserted hrest _
  | linking context pattern =>
      rcases linked_of_step h with ⟨⟨links, hstore⟩, hpc⟩
      have hcontext : context.Rolling store := hsweep
      -- links are no part of the invariant
      have hnext : context.Rolling { store with patternEvents := links } := by
        refine hcontext.frame ?_ ?_
        · exact List.prefix_refl _
        · rfl
      rw [hstore, hpc]
      exact ⟨⟨⟨hinv.rows.distinct, hinv.rows.given⟩, hinv.reported, hnext⟩, .of_patterns rfl⟩
  | synthesizing context pattern pc =>
      rcases keeps_synthesizing h with ⟨hkeeps, hgoes⟩
      have hnext : progress.pc.Rolling store := by
        generalize progress.pc = next at hgoes
        cases hgoes <;> exact hsweep
      exact ⟨hinv.keeps hkeeps hnext, .of_patterns hkeeps.patterns⟩

end Sweep

/-! ## Runs -/

theorem rolls_app {ext : Externals} {app app' : App} {action : Action} {es : List Effect}
    (hinv : RollingInvariant app.store app.sweep) (hsafe : rollingSafe app action = true)
    (h : (machine ext).step app action = some (app', es)) :
    RollingInvariant app'.store app'.sweep ∧ StatsGrow app.store app'.store := by
  rcases Bool.and_eq_true_iff.1 hsafe with ⟨hadds, hreads⟩
  rcases Bool.and_eq_true_iff.1 hadds with ⟨hkept, hsorted⟩
  cases action with
  | sweep o =>
      rcases sweep_of_step h with ⟨process, progress, -, hstep, hstore, hpc, -⟩
      rw [hstore, hpc]
      apply rolls_sweep hinv (of_decide_eq_true hsorted) _ _ hstep
      · intro hstart
        simpa [keepsEvents, hstart] using hkept
      · intro state hreading
        simpa [hreading] using hreads
  | _ =>
      -- only the sweep writes rows of patterns
      have hstep := appStep_of_step h
      have hkeeps := keeps_of_appStep hstep hkept (by rintro o ⟨⟩)
      refine ⟨hinv.keeps hkeeps ?_, .of_patterns hkeeps.patterns⟩
      rcases (sweep_of_appStep hstep (by rintro o ⟨⟩)).2 with hpc | hpc <;> rw [hpc]
      · exact hinv.sweep
      · trivial

theorem rollingInvariant_of_reach {ext : Externals} {app : App} {history : List Effect}
    (hreach : (machine ext).Reach App.Initial (fun app action => rollingSafe app action = true)
      app history) : RollingInvariant app.store app.sweep := by
  refine hreach.invariant (fun app _ => RollingInvariant app.store app.sweep) ?_ ?_
  · intro app hinitial
    rw [hinitial.store_eq, hinitial.sweep_eq]
    exact ⟨⟨List.nodup_nil, by rintro p ⟨⟩⟩, by rintro p ⟨⟩, trivial⟩
  · intro app history action app' es hinv hsafe hstep
    exact (rolls_app hinv hsafe hstep).1

/-- From any state of a run to any later one, the statistics of every row grow. -/
theorem stats_grow_of_rollingSafe {ext : Externals} {app app' : App}
    {history history' : List Effect}
    (hreach : (machine ext).Reach App.Initial (fun app action => rollingSafe app action = true)
      app history)
    (hlater : (machine ext).Reach (· = app) (fun app action => rollingSafe app action = true)
      app' history') : StatsGrow app.store app'.store := by
  have hinv := rollingInvariant_of_reach hreach
  -- growth from the first state on is kept along with the invariant
  have hgrows : RollingInvariant app'.store app'.sweep ∧ StatsGrow app.store app'.store := by
    refine hlater.invariant
      (fun app' _ => RollingInvariant app'.store app'.sweep ∧ StatsGrow app.store app'.store) ?_ ?_
    · rintro s rfl
      exact ⟨hinv, .of_patterns rfl⟩
    · rintro s h action s' es ⟨hinv, hgrows⟩ hsafe hstep
      rcases rolls_app hinv hsafe hstep with ⟨hinv', hgrows'⟩
      exact ⟨hinv', hgrows.trans hgrows'⟩
  exact hgrows.2

/-- A tick that captures focus changes at the given times and ends. -/
def Action.capturingAt (apps : List String) (times : List Timestamp) : List Action :=
  [.observe (.plain 0),
      .observe { Outside.plain 0 with
        polled := .ok (apps.map fun app => ⟨"linux.active_window", .appFocusChange app⟩) }] ++
    times.map (fun t => .observe (.plain t)) ++ List.replicate 2 (.observe (.plain 0))

/-- A sweep that detects patterns, with a number of steps after it has read the events. -/
def Action.sweepingAll (detected : List DetectedPattern) (steps : Nat) : List Action :=
  [.sweep (.plain 0), .sweep (.plain 0), .sweep { Outside.plain 0 with detected := detected }] ++
    List.replicate steps (.sweep (.plain 0))

/-- Four turns, the first event a tenth of a second after a full one and the others at its half. -/
def turns : List DetectedPattern :=
  [{ focusPattern 1 with
      occurrenceCount := 4
      firstSeenAt := 100000000
      lastSeenAt := 500000000
      estimatedMinutesPerOccurrence := 1 / 600
      contributingEventIds := List.range' 1 8 },
    { focusPattern 2 with
      signature := ["app_focus_change:b", "app_focus_change:a"]
      firstSeenAt := 500000000
      lastSeenAt := 500000000 }]

/-- The turns are captured and detected. -/
def Action.turning : List Action :=
  .launch (.plain (.repeating 1) [.measured]) :: Action.consenting 0 2 ++
    Action.capturingAt ["a", "b", "a", "b", "a", "b", "a", "b"]
      (100000000 :: List.replicate 7 500000000) ++
    Action.sweepingAll turns 8

/-- The same turns and one more. -/
def furtherTurns : List DetectedPattern :=
  [{ focusPattern 1 with
      occurrenceCount := 5
      firstSeenAt := 100000000
      lastSeenAt := 500000000
      estimatedMinutesPerOccurrence := 1 / 750
      contributingEventIds := List.range' 1 10 },
    { focusPattern 2 with
      signature := ["app_focus_change:b", "app_focus_change:a"]
      occurrenceCount := 4
      firstSeenAt := 500000000
      lastSeenAt := 500000000
      contributingEventIds := List.range' 2 8 }]

theorem stats_grow_furtherTurns :
    ∃ app history app' history',
      (machine .reference).Reach App.Initial
        (fun app action => rollingSafe app action = true) app history ∧
      (machine .reference).Reach (· = app) (fun app action => rollingSafe app action = true) app'
        history' ∧
      app.store.patterns ≠ app'.store.patterns ∧ StatsGrow app.store app'.store := by
  obtain ⟨app, history, app', history', hreach, hlater, htest⟩ :=
    Machine.exists_reach_later (machine .reference)
      (fun app action => rollingSafe app action = true)
      (fun app action => rollingSafe app action = true)
      (fun app app' => decide (app.store.patterns ≠ app'.store.patterns)) Action.turning
      (Action.capturingAt ["a", "b"] [500000000, 500000000] ++ Action.sweepingAll furtherTurns 4)
      App.fresh_initial (by decide +kernel)
  exact ⟨app, history, app', history', hreach, hlater, of_decide_eq_true htest,
    stats_grow_of_rollingSafe hreach hlater⟩

/-- The turns after an event that is read as if it came after the first one. -/
def interruptedTurns : List DetectedPattern :=
  [{ focusPattern 2 with
      signature := ["app_focus_change:b", "app_focus_change:a"]
      firstSeenAt := 500000000
      lastSeenAt := 500000000 },
    { focusPattern 3 with
      firstSeenAt := 500000000
      lastSeenAt := 500000000 }]

/-- One event is added a nanosecond after the last one, and a count falls from four to three. -/
theorem count_falls :
    ¬ ∀ ext app app' history history',
      (machine ext).Reach App.Initial (fun app action => addsInOrder app action = true) app
        history →
      (machine ext).Reach (· = app) (fun app action => addsInOrder app action = true) app'
        history' → StatsGrow app.store app'.store := by
  intro h
  obtain ⟨app, history, app', history', hreach, hlater, htest⟩ :=
    Machine.exists_reach_later (machine .reference)
      (fun app action => addsInOrder app action = true)
      (fun app action => addsInOrder app action = true)
      (fun app app' => !decide (StatsGrow app.store app'.store)) Action.turning
      (Action.capturingAt ["c"] [500000001] ++ Action.sweepingAll interruptedTurns 4)
      App.fresh_initial (by decide +kernel)
  have hgrow := h _ app app' history history' hreach hlater
  simp [hgrow] at htest

end Desktop
end HiddenSteps
