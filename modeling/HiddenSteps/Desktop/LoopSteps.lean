import HiddenSteps.Desktop.ObservationLoop
import HiddenSteps.Desktop.RecommendationLoop
import HiddenSteps.EventStore.StoreLaws

/-!
# LoopSteps — what one step of a background loop can do

`ObservationStep` and `SweepStep` list the possible steps of the two loops; the inversion lemmas
derive them from the step functions.
-/

namespace HiddenSteps
namespace Desktop

open EventStore Patterns Pipeline PrivacyEngine Recommendations

/-! ## The observation loop -/

inductive ObservationStep (pipeline : EventPipeline) (o : Outside) (store : Store)
    (sources : List Source) : ObservationPc → ObservationProgress → Prop where
  | ended {pc : ObservationPc} :
      ObservationStep pipeline o store sources pc ⟨store, sources, .stopped, []⟩
  | waited : ObservationStep pipeline o store sources .tick ⟨store, sources, .tick, []⟩
  | began {state : PrivacyState} (hstore : o.storeFault = none)
      (hread : store.privacyState = some state) (hpermits : state.permitsObservation = true) :
      ObservationStep pipeline o store sources .tick ⟨store, sources, .polling state 0, []⟩
  | tickEnded {state : PrivacyState} {next : Nat} (hlast : sources[next]? = none) :
      ObservationStep pipeline o store sources (.polling state next) ⟨store, sources, .tick, []⟩
  | polled {state : PrivacyState} {next : Nat} {source : Source}
      (hsource : sources[next]? = some source) :
      ObservationStep pipeline o store sources (.polling state next)
        ⟨store, sources.set next (source.poll o.polled).1,
          .storing state (next + 1) (source.poll o.polled).2,
          [.polled source.id source.minPrivacyLevel state.currentLevel]⟩
  | sourceEnded {state : PrivacyState} {next : Nat} :
      ObservationStep pipeline o store sources (.storing state next [])
        ⟨store, sources, .polling state next, []⟩
  | dropped {state : PrivacyState} {next : Nat} {traced : TracedSignal}
      {signals : List TracedSignal} :
      ObservationStep pipeline o store sources (.storing state next (traced :: signals))
        ⟨store, sources, .storing state next signals, []⟩
  | stored {state : PrivacyState} {next : Nat} {traced : TracedSignal}
      {signals : List TracedSignal} {event : EventSummary}
      (hprocess : pipeline.process traced.signal state.currentLevel o.now =
        some (.summarized event)) :
      ObservationStep pipeline o store sources (.storing state next (traced :: signals))
        ⟨(store.insertEventSummary event).2, sources, .storing state next signals,
          [.stored { event with id := some (store.insertEventSummary event).1 } traced.origin
            store.privacyState]⟩

theorem observationStep_of_step {pipeline : EventPipeline} {pc : ObservationPc} {o : Outside}
    {store : Store} {sources : List Source} {progress : ObservationProgress}
    (h : Observation.step pipeline pc o store sources = some progress) :
    ObservationStep pipeline o store sources pc progress := by
  cases pc with
  | tick =>
      simp only [Observation.step] at h
      split at h
      · rename_i state hstore hread
        have hrow : store.privacyState = some state := by
          unfold Store.getPrivacyState at hread
          split at hread
          · rename_i hrow
            cases hread
            exact hrow
          · cases hread
        split at h
        · rename_i hpermits
          cases h
          exact .began hstore hrow hpermits
        · cases h
          exact .waited
      · cases h
        exact .ended
  | polling state next =>
      simp only [Observation.step] at h
      split at h
      · rename_i hlast
        cases h
        exact .tickEnded hlast
      · rename_i source hsource
        cases h
        exact .polled hsource
  | storing state next signals =>
      -- one signal of the batch at a time
      cases signals with
      | nil =>
          cases h
          exact .sourceEnded
      | cons traced signals =>
          simp only [Observation.step] at h
          split at h
          · cases h
            exact .ended
          · cases h
            exact .dropped
          · rename_i event hprocess
            split at h
            · -- an insertion that fails loses the event
              cases h
              exact .dropped
            · cases h
              exact .stored hprocess
  | stopped => cases h

theorem task_of_observationStep {pipeline : EventPipeline} {pc : ObservationPc} {o : Outside}
    {store : Store} {sources : List Source} {progress : ObservationProgress}
    (h : ObservationStep pipeline o store sources pc progress) :
    ∀ e ∈ progress.effects, e.task = .observation := by
  cases h <;> simp [Effect.task]

/-- The observation loop only inserts events. -/
theorem store_of_observationStep {pipeline : EventPipeline} {pc : ObservationPc} {o : Outside}
    {store : Store} {sources : List Source} {progress : ObservationProgress}
    (h : ObservationStep pipeline o store sources pc progress) :
    progress.store = store ∨ ∃ event, progress.store = (store.insertEventSummary event).2 := by
  cases h with
  | stored => exact Or.inr ⟨_, rfl⟩
  | _ => exact Or.inl rfl

/-! ## The recommendation loop -/

/-- The links of a new pattern are stored as far as they can be, or not at all. -/
def linked (store : Store) (pattern : NewPattern) : Store :=
  (store.linkPatternEvents pattern.id pattern.detected.contributingEventIds).2

inductive SweepStep (vault : Vault) (gate : DispatchGate) (o : Outside) (store : Store) :
    SweepPc → SweepProgress → Prop where
  | started {store' : Store} {next : SweepPc}
      (hstore : store' = store ∨ store' = (store.deleteExpiredEvents o.now).2)
      (hnext : next = .readingState ∨ ∃ entry, next = .logging entry .readingState) :
      SweepStep vault gate o store .start ⟨store', next, []⟩
  | logged {entry : AuditEntry} {next : SweepPc} {store' : Store}
      (hstore : store' = store ∨ store' = (store.appendAuditEntry entry).2) :
      SweepStep vault gate o store (.logging entry next) ⟨store', next, []⟩
  | failed {pc : SweepPc} {entry : AuditEntry} :
      SweepStep vault gate o store pc ⟨store, .logging entry .start, []⟩
  | stateRead {state : PrivacyState} :
      SweepStep vault gate o store .readingState ⟨store, .readingEvents state, []⟩
  | nothingDetected {state : PrivacyState} :
      SweepStep vault gate o store (.readingEvents state) ⟨store, .start, []⟩
  | eventsRead {state : PrivacyState} {events : List EventSummary}
      (hevents : events = (store.listRecentEvents eventHistoryLimit).reverse)
      (hdetected : o.detected.Perm (PatternDetector.standard.detect events)) :
      SweepStep vault gate o store (.readingEvents state)
        ⟨store, .readingPatterns state events o.detected, []⟩
  | patternsRead {state : PrivacyState} {events : List EventSummary}
      {detected : List DetectedPattern} :
      SweepStep vault gate o store (.readingPatterns state events detected)
        ⟨store, .patterns ⟨state, events, store.patterns, detected⟩, []⟩
  | ended {context : SweepContext} (hrest : context.rest = []) :
      SweepStep vault gate o store (.patterns context) ⟨store, .start, []⟩
  | skipped {context : SweepContext} {detected : DetectedPattern} {rest : List DetectedPattern}
      (hrest : context.rest = detected :: rest) :
      SweepStep vault gate o store (.patterns context)
        ⟨store, .patterns { context with rest := rest }, []⟩
  | updated {context : SweepContext} {detected : DetectedPattern} {rest : List DetectedPattern}
      {p : Pattern} {id : Nat} (hrest : context.rest = detected :: rest)
      (hknown : known context.existing detected = some p) (hid : p.id = some id) :
      SweepStep vault gate o store (.patterns context)
        ⟨store.updatePatternStats id detected.lastSeenAt detected.occurrenceCount
            (some detected.estimatedMinutesPerOccurrence),
          .patterns { context with rest := rest },
          if store.hasPattern id then [.patternStored id detected] else []⟩
  | inserted {context : SweepContext} {detected : DetectedPattern} {rest : List DetectedPattern}
      (hrest : context.rest = detected :: rest)
      (hknown : known context.existing detected = none) :
      SweepStep vault gate o store (.patterns context)
        ⟨(store.insertPattern (patternRow detected)).2,
          .linking { context with rest := rest }
            ⟨(store.insertPattern (patternRow detected)).1, detected⟩,
          [.patternStored (store.insertPattern (patternRow detected)).1 detected]⟩
  | linked {context : SweepContext} {pattern : NewPattern} {store' : Store}
      (hstore : store' = store ∨ store' = linked store pattern) :
      SweepStep vault gate o store (.linking context pattern)
        ⟨store', .synthesizing context pattern .getProvider, []⟩
  | synthesisEnded {context : SweepContext} {pattern : NewPattern} {pc : SynthesisPc}
      {next : SweepPc}
      (hnext : next = .patterns context ∨ ∃ entry, next = .logging entry (.patterns context)) :
      SweepStep vault gate o store (.synthesizing context pattern pc) ⟨store, next, []⟩
  | providerRead {context : SweepContext} {pattern : NewPattern} {config : LlmProviderConfig} :
      SweepStep vault gate o store (.synthesizing context pattern .getProvider)
        ⟨store, .synthesizing context pattern (.buildProvider config), []⟩
  | providerBuilt {context : SweepContext} {pattern : NewPattern} {config : LlmProviderConfig}
      {provider : Provider} (hbuild : buildProvider vault o.vaultFault config = some provider) :
      SweepStep vault gate o store (.synthesizing context pattern (.buildProvider config))
        ⟨store, .synthesizing context pattern (.snapshotGate provider), []⟩
  | allowed {context : SweepContext} {pattern : NewPattern} {provider : Provider}
      (hallow : Synthesis.decide gate provider context.privacyState.currentLevel
        pattern.detected = .allow) :
      SweepStep vault gate o store (.synthesizing context pattern (.snapshotGate provider))
        ⟨store, .synthesizing context pattern (.requesting ⟨provider, gate, .new⟩), []⟩
  | requested {context : SweepContext} {pattern : NewPattern} {gated : GatedProvider}
      (hallow : Synthesis.decide gated.gate gated.provider context.privacyState.currentLevel
        pattern.detected = .allow) :
      SweepStep vault gate o store (.synthesizing context pattern (.requesting gated))
        ⟨store, .synthesizing context pattern (.awaiting gated),
          [.requested
            ⟨gated.provider, synthesisRequest pattern.id pattern.detected, pattern.detected,
              context.events⟩ (getCloudConsent store)]⟩
  | again {context : SweepContext} {pattern : NewPattern} {gated : GatedProvider}
      {attempts : Attempts} (hleft : 1 < gated.attempts.left) :
      SweepStep vault gate o store (.synthesizing context pattern (.awaiting gated))
        ⟨store, .synthesizing context pattern (.requesting { gated with attempts := attempts }),
          []⟩
  | answered {context : SweepContext} {pattern : NewPattern} {gated : GatedProvider}
      {recommendation : Recommendation} (hpattern : recommendation.patternId = pattern.id) :
      SweepStep vault gate o store (.synthesizing context pattern (.awaiting gated))
        ⟨store, .synthesizing context pattern (.inserting recommendation), []⟩
  | recommended {context : SweepContext} {pattern : NewPattern}
      {recommendation : Recommendation} {id : Nat} {store' : Store}
      (hinsert : store.insertRecommendation recommendation = .ok (id, store')) :
      SweepStep vault gate o store (.synthesizing context pattern (.inserting recommendation))
        ⟨store', .patterns context, [.recommendationStored id pattern.detected]⟩

section Inversion

variable {ext : Externals} {vault : Vault} {gate : DispatchGate} {o : Outside} {store : Store}

theorem sweepStep_synthesis (context : SweepContext) (pattern : NewPattern) (pc : SynthesisPc) :
    let progress := Synthesis.step ext vault gate context pattern pc o store
    SweepStep vault gate o store (.synthesizing context pattern pc)
      ⟨progress.store, Synthesis.resume context pattern progress.next, progress.effects⟩ := by
  -- every way out of a synthesis leads back to the loop over the patterns
  have hstop : ∀ (pc : SynthesisPc) (log : Option AuditEntry),
      SweepStep vault gate o store (.synthesizing context pattern pc)
        ⟨store, Synthesis.resume context pattern (.done log), []⟩ := by
    intro pc log
    cases log with
    | none => exact .synthesisEnded (Or.inl rfl)
    | some entry => exact .synthesisEnded (Or.inr ⟨entry, rfl⟩)
  cases pc with
  | getProvider =>
      simp only [Synthesis.step]
      split
      · exact .providerRead
      · exact hstop _ _
  | buildProvider config =>
      simp only [Synthesis.step]
      split
      · rename_i hbuild
        exact .providerBuilt hbuild
      · exact hstop _ _
  | snapshotGate provider =>
      simp only [Synthesis.step]
      split
      · rename_i hallow
        exact .allowed hallow
      · exact hstop _ _
  | requesting gated =>
      simp only [Synthesis.step]
      split
      · rename_i hallow
        exact .requested hallow
      · exact hstop _ _
  | awaiting gated =>
      simp only [Synthesis.step]
      split
      · rename_i hagain
        exact .again (nextAttempt_again hagain)
      · rename_i hfinished
        exact .answered (nextAttempt_patternId hfinished)
      · exact hstop _ _
  | inserting recommendation =>
      simp only [Synthesis.step]
      split
      · rename_i hinsert
        exact .recommended hinsert
      · exact hstop _ _

theorem sweepStep_patterns {context : SweepContext} {progress : SweepProgress}
    (h : Sweep.step ext vault gate (.patterns context) o store = some progress) :
    SweepStep vault gate o store (.patterns context) progress := by
  simp only [Sweep.step] at h
  split at h
  · rename_i hrest
    cases h
    exact .ended hrest
  · rename_i detected rest hrest
    split at h
    · -- a known signature only gets new statistics
      rename_i p hknown
      -- a stored row has an id
      split at h
      · rename_i id _ hid
        cases h
        exact .updated hrest hknown hid
      · cases h
        exact .skipped hrest
    · rename_i hknown
      -- an insertion that fails ends the sweep
      split at h
      · cases h
        exact .failed
      · cases h
        exact .inserted hrest hknown

/-- The inversion of a step of the sweep. -/
theorem sweepStep_of_step {pc : SweepPc} {progress : SweepProgress}
    (h : Sweep.step ext vault gate pc o store = some progress) :
    SweepStep vault gate o store pc progress := by
  cases pc with
  | start =>
      simp only [Sweep.step] at h
      split at h
      · cases h
        exact .started (Or.inl rfl) (Or.inr ⟨_, rfl⟩)
      · cases h
        refine .started (Or.inr rfl) ?_
        -- expired events are logged only if there were any
        split
        · exact Or.inr ⟨_, rfl⟩
        · exact Or.inl rfl
  | logging entry next =>
      simp only [Sweep.step] at h
      split at h
      -- a log entry that cannot be written is lost
      · cases h
        exact .logged (Or.inl rfl)
      · cases h
        exact .logged (Or.inr rfl)
  | readingState =>
      simp only [Sweep.step] at h
      split at h
      · cases h
        exact .failed
      · cases h
        exact .failed
      · cases h
        exact .stateRead
  | readingEvents state =>
      simp only [Sweep.step] at h
      split at h
      · cases h
        exact .failed
      · -- the detector reports its patterns in the order of a hash map
        split at h
        · rename_i hdetected
          split at h
          · cases h
            exact .nothingDetected
          · cases h
            exact .eventsRead rfl hdetected
        · cases h
  | readingPatterns state events detected =>
      simp only [Sweep.step] at h
      split at h
      · cases h
        exact .failed
      · cases h
        exact .patternsRead
  | patterns context => exact sweepStep_patterns h
  | linking context pattern =>
      simp only [Sweep.step] at h
      split at h
      -- the result of linking is ignored
      · cases h
        exact .linked (Or.inl rfl)
      · cases h
        exact .linked (Or.inr rfl)
  | synthesizing context pattern synthesis =>
      cases h
      exact sweepStep_synthesis context pattern synthesis

theorem task_of_sweepStep {pc : SweepPc} {progress : SweepProgress}
    (h : SweepStep vault gate o store pc progress) : ∀ e ∈ progress.effects, e.task = .sweep := by
  cases h with
  | updated =>
      intro e he
      simp only at he
      split at he
      · simp only [List.mem_singleton] at he
        rw [he]
        rfl
      · simp at he
  | _ => simp [Effect.task]

/-- A sweep leaves the privacy row, the settings and the count of events alone. -/
theorem unchanged_of_sweepStep {pc : SweepPc} {progress : SweepProgress}
    (h : SweepStep vault gate o store pc progress) :
    progress.store.privacyState = store.privacyState ∧
      progress.store.settings = store.settings ∧ progress.store.eventSeq = store.eventSeq := by
  cases h with
  | started hstore => rcases hstore with rfl | rfl <;> exact ⟨rfl, rfl, rfl⟩
  | logged hstore => rcases hstore with rfl | rfl <;> exact ⟨rfl, rfl, rfl⟩
  | @linked _ pattern _ hstore =>
      obtain ⟨links, hlinks, _⟩ := Store.linkPatternEvents_eq store pattern.id
        pattern.detected.contributingEventIds
      rcases hstore with rfl | rfl
      · exact ⟨rfl, rfl, rfl⟩
      · -- linking changes the link table only
        rw [Desktop.linked, hlinks]
        exact ⟨rfl, rfl, rfl⟩
  | recommended hinsert =>
      rcases Store.insertRecommendation_eq_ok hinsert with ⟨_, _, rfl⟩
      exact ⟨rfl, rfl, rfl⟩
  | _ => exact ⟨rfl, rfl, rfl⟩

/-- A sweep leaves the providers and the persisted policy alone. -/
theorem configuration_of_sweepStep {pc : SweepPc} {progress : SweepProgress}
    (h : SweepStep vault gate o store pc progress) :
    progress.store.llmProviders = store.llmProviders ∧
      progress.store.enterprisePolicy = store.enterprisePolicy := by
  cases h with
  | started hstore => rcases hstore with rfl | rfl <;> exact ⟨rfl, rfl⟩
  | logged hstore => rcases hstore with rfl | rfl <;> exact ⟨rfl, rfl⟩
  | @linked _ pattern _ hstore =>
      obtain ⟨links, hlinks, _⟩ := Store.linkPatternEvents_eq store pattern.id
        pattern.detected.contributingEventIds
      rcases hstore with rfl | rfl
      · exact ⟨rfl, rfl⟩
      · rw [Desktop.linked, hlinks]
        exact ⟨rfl, rfl⟩
  | recommended hinsert =>
      rcases Store.insertRecommendation_eq_ok hinsert with ⟨_, _, rfl⟩
      exact ⟨rfl, rfl⟩
  | _ => exact ⟨rfl, rfl⟩

end Inversion

end Desktop
end HiddenSteps
