import HiddenSteps.Desktop.Explanations
import HiddenSteps.Desktop.Keeping

/-!
# Resweep — a sweep over events that have been swept

A sweep that is not disturbed leaves every pattern it has detected recorded as it was detected.  As
long as no event comes or goes, later sweeps detect the same patterns, find their rows and write what
the rows say: the patterns, their links and their recommendations stay, and nothing is asked.
-/

namespace HiddenSteps
namespace Desktop

open EventStore Patterns PrivacyEngine Recommendations Systems

/-! ## Settled stores -/

/-- The row says what was detected. -/
structure Records (p : Pattern) (d : DetectedPattern) : Prop where
  signature : p.sequenceSignature = (patternRow d).sequenceSignature
  lastSeenAt : p.lastSeenAt = d.lastSeenAt
  occurrenceCount : p.occurrenceCount = d.occurrenceCount
  minutes : p.estimatedMinutesPerOccurrence = some d.estimatedMinutesPerOccurrence

def Recorded (store : Store) (d : DetectedPattern) : Prop := ∃ p ∈ store.patterns, Records p d

/-- The events that a sweep reads. -/
def currentEvents (store : Store) : List EventSummary :=
  (store.listRecentEvents eventHistoryLimit).reverse

/-- Everything that can be detected is recorded. -/
def Settled (store : Store) : Prop :=
  ∀ d ∈ PatternDetector.standard.detect (currentEvents store), Recorded store d

/-- A row that says what was detected is not changed by writing it again. -/
theorem updatePatternStats_of_records {store : Store} {p : Pattern} {d : DetectedPattern} {id : Nat}
    (hids : (store.patterns.map (·.id)).Nodup) (hp : p ∈ store.patterns) (hid : p.id = some id)
    (h : Records p d) :
    store.updatePatternStats id d.lastSeenAt d.occurrenceCount
      (some d.estimatedMinutesPerOccurrence) = store := by
  have hrows : (store.patterns.map fun q =>
      if q.id = some id then
        { q with
          lastSeenAt := d.lastSeenAt
          occurrenceCount := d.occurrenceCount
          estimatedMinutesPerOccurrence := some d.estimatedMinutesPerOccurrence }
      else q) = store.patterns := by
    refine (List.map_congr_left fun q hq => ?_).trans (List.map_id _)
    split
    · rename_i hqid
      -- ids are distinct, so this is the row at hand
      rw [List.inj_on_of_nodup_map hids hq hp (hqid.trans hid.symm), ← h.lastSeenAt,
        ← h.occurrenceCount, ← h.minutes]
      rfl
    · rfl
  rw [Store.updatePatternStats, hrows]

/-! ## A sweep records what it detects -/

/-- A step of a sweep that handles a detected pattern reaches the store, and nothing erases the
rows meanwhile. -/
def recordsAll (app : App) : Action → Bool
  | .call id _ => (app.call? id).all fun call => call.command != .deleteAllData
  | .sweep o =>
      match app.sweep with
      | .readingPatterns .. => o.storeFault.isNone
      | .patterns context => context.rest.isEmpty || o.storeFault.isNone
      | _ => true
  | _ => true

/-- Every pattern of a sweep is still to be handled or recorded. -/
structure SweepContext.Recording (store : Store) (context : SweepContext) : Prop where
  handled : ∀ d ∈ PatternDetector.standard.detect context.events,
    d ∈ context.rest ∨ Recorded store d
  rest : ∀ d ∈ context.rest, d ∈ PatternDetector.standard.detect context.events
  existing : ∀ p ∈ context.existing, HasRow store p.id p.sequenceSignature

def SweepPc.Recording (store : Store) : SweepPc → Prop
  | .logging _ next => next.Recording store
  | .readingPatterns _ events detected => detected.Perm (PatternDetector.standard.detect events)
  | .patterns context | .linking context _ | .synthesizing context _ _ => context.Recording store
  | _ => True

structure RecordingInvariant (store : Store) (sweep : SweepPc) : Prop where
  rows : RowIds store
  sweep : sweep.Recording store

section Frame

variable {store store' : Store}

theorem Recorded.of_patterns {d : DetectedPattern} (h : Recorded store d)
    (hpatterns : store'.patterns = store.patterns) : Recorded store' d := by
  rcases h with ⟨p, hp, hrecords⟩
  exact ⟨p, hpatterns ▸ hp, hrecords⟩

theorem SweepPc.Recording.of_patterns {pc : SweepPc} (h : pc.Recording store)
    (hpatterns : store'.patterns = store.patterns) : pc.Recording store' := by
  have hcontext : ∀ context : SweepContext, context.Recording store → context.Recording store' :=
    fun _ h => ⟨fun d hd => (h.handled d hd).imp_right (·.of_patterns hpatterns), h.rest,
      fun p hp => (h.existing p hp).of_patterns hpatterns⟩
  induction pc with
  | logging entry next ih => exact ih h
  | readingPatterns => exact h
  | patterns | linking | synthesizing => exact hcontext _ h
  | _ => trivial

/-- The rows of the patterns are left alone. -/
theorem RecordingInvariant.of_patterns {sweep sweep' : SweepPc}
    (h : RecordingInvariant store sweep) (hpatterns : store'.patterns = store.patterns)
    (hpatternSeq : store'.patternSeq = store.patternSeq) (hsweep : sweep'.Recording store) :
    RecordingInvariant store' sweep' where
  rows :=
    { distinct := hpatterns ▸ h.rows.distinct
      given := by
        rw [hpatterns, hpatternSeq]
        exact h.rows.given }
  sweep := hsweep.of_patterns hpatterns

end Frame

section Handling

variable {store : Store} {context : SweepContext} {detected : DetectedPattern}
  {rest : List DetectedPattern}

/-- The row of a known pattern gets what was detected. -/
theorem SweepContext.Recording.updated (hrows : RowIds store) (h : context.Recording store)
    (hrest : context.rest = detected :: rest) {p : Pattern}
    (hknown : known context.existing detected = some p) {id : Nat} (hid : p.id = some id) :
    SweepContext.Recording
      (store.updatePatternStats id detected.lastSeenAt detected.occurrenceCount
        (some detected.estimatedMinutesPerOccurrence))
      { context with rest := rest } := by
  rcases known_eq_some hknown with ⟨hexisting, hsignature⟩
  rcases h.existing p hexisting with ⟨q, hq, hqid, hqsignature⟩
  have hdetected := h.rest detected (hrest ▸ List.mem_cons_self)
  have hrecorded : Recorded
      (store.updatePatternStats id detected.lastSeenAt detected.occurrenceCount
        (some detected.estimatedMinutesPerOccurrence)) detected := by
    refine ⟨_, List.mem_map_of_mem hq, ?_⟩
    rw [if_pos (hqid.trans hid)]
    exact ⟨hqsignature.trans hsignature, rfl, rfl, rfl⟩
  refine ⟨?_, fun d hd => h.rest d (hrest ▸ List.mem_cons_of_mem _ hd),
    fun p' hp' => (h.existing p' hp').updated _ _ _ _⟩
  intro d hd
  rcases h.handled d hd with hpending | ⟨r, hr, hrecords⟩
  · rw [hrest] at hpending
    rcases List.mem_cons.1 hpending with rfl | hpending
    · exact Or.inr hrecorded
    · exact Or.inl hpending
  · by_cases hsame : r.id = some id
    · -- the row that changes is the row of the pattern at hand
      have hrow := signature_of_known hrows h.existing hknown hr (hsame.trans hid.symm)
      have heq : d = detected :=
        detected_eq_of_row hd hdetected (hrecords.signature.symm.trans hrow)
      exact Or.inr (heq ▸ hrecorded)
    · refine Or.inr ⟨_, List.mem_map_of_mem hr, ?_⟩
      rw [if_neg hsame]
      exact hrecords

/-- A new pattern gets a row that says what was detected. -/
theorem SweepContext.Recording.inserted (h : context.Recording store)
    (hrest : context.rest = detected :: rest) :
    SweepContext.Recording (store.insertPattern (patternRow detected)).2
      { context with rest := rest } where
  handled := by
    intro d hd
    rcases h.handled d hd with hpending | ⟨r, hr, hrecords⟩
    · rw [hrest] at hpending
      rcases List.mem_cons.1 hpending with rfl | hpending
      · exact Or.inr ⟨_, List.mem_append_right _ (List.mem_singleton_self _), rfl, rfl, rfl, rfl⟩
      · exact Or.inl hpending
    · exact Or.inr ⟨r, List.mem_append_left _ hr, hrecords⟩
  rest := fun d hd => h.rest d (hrest ▸ List.mem_cons_of_mem _ hd)
  existing := fun p hp => (h.existing p hp).inserted _

end Handling

section Sweep

variable {ext : Recommendations.Externals} {vault : Vault} {gate : DispatchGate} {o : Outside}
  {store : Store} {progress : SweepProgress}

theorem records_patterns {context : SweepContext}
    (hinv : RecordingInvariant store (.patterns context))
    (hfault : ∀ detected rest, context.rest = detected :: rest → o.storeFault = none)
    (h : Sweep.step ext vault gate (.patterns context) o store = some progress) :
    Establishes RecordingInvariant Recorded (.patterns context) progress := by
  have hsweep : context.Recording store := hinv.sweep
  cases hrest : context.rest with
  | nil =>
      simp only [Sweep.step, hrest] at h
      cases h
      refine ⟨⟨hinv.rows, trivial⟩, ?_⟩
      rintro events ⟨⟩ - d hd
      -- nothing is pending any more
      refine (hsweep.handled d hd).resolve_left fun hpending => ?_
      rw [hrest] at hpending
      cases hpending
  | cons detected rest =>
      rcases handled_of_step hrest (hfault detected rest hrest) h with
        ⟨p, hknown, hpc, hrow⟩ | ⟨-, hstore, hpc⟩
      · rcases hrow with ⟨hnone, -⟩ | ⟨id, hid, hstore⟩
        · -- the row that the sweep has read is still there, so it has an id
          rcases hsweep.existing p (known_eq_some hknown).1 with ⟨q, hq, hqid, -⟩
          rcases hinv.rows.given q hq with ⟨id, hid, -⟩
          rw [hqid, hnone] at hid
          cases hid
        · refine .of_detection ?_ (by rw [hpc]; rfl)
          rw [hpc, hstore]
          exact ⟨hinv.rows.updated _ _ _ _, hsweep.updated hinv.rows hrest hknown hid⟩
      · refine .of_detection ?_ (by rw [hpc]; rfl)
        rw [hpc, hstore]
        exact ⟨hinv.rows.inserted _, hsweep.inserted hrest⟩

theorem records_sweep {pc : SweepPc} (hinv : RecordingInvariant store pc)
    (hreading : ∀ state events detected, pc = .readingPatterns state events detected →
      o.storeFault = none)
    (hpatterns : ∀ context detected rest, pc = .patterns context →
      context.rest = detected :: rest → o.storeFault = none)
    (h : Sweep.step ext vault gate pc o store = some progress) :
    Establishes RecordingInvariant Recorded pc progress := by
  have hsweep := hinv.sweep
  cases pc with
  | start =>
      cases sweepStep_of_step h with
      | failed => exact .of_detection ⟨hinv.rows, trivial⟩ rfl
      | started hstore hnext =>
          refine .of_detection ?_ (by rcases hnext with rfl | ⟨entry, rfl⟩ <;> rfl)
          refine hinv.of_patterns ?_ ?_ ?_
          · rcases hstore with rfl | rfl <;> rfl
          · rcases hstore with rfl | rfl <;> rfl
          · rcases hnext with rfl | ⟨entry, rfl⟩ <;> trivial
  | logging entry next =>
      rcases keeps_logged h with ⟨hkeeps, hpc⟩
      exact .of_detection
        (hinv.of_patterns hkeeps.patterns hkeeps.patternSeq (hpc ▸ hsweep)) (by rw [hpc]; rfl)
  | readingState =>
      cases sweepStep_of_step h with
      | failed | stateRead => exact .of_detection ⟨hinv.rows, trivial⟩ rfl
  | readingEvents state =>
      cases sweepStep_of_step h with
      | failed | nothingDetected => exact .of_detection ⟨hinv.rows, trivial⟩ rfl
      | eventsRead hevents hdetected => exact ⟨⟨hinv.rows, hdetected⟩, by rintro events ⟨⟩⟩
  | readingPatterns state events detected =>
      simp only [Sweep.step, hreading state events detected rfl] at h
      cases h
      refine .of_detection ⟨hinv.rows, ?_, ?_, ?_⟩ rfl
      · exact fun d hd => Or.inl (hsweep.mem_iff.2 hd)
      · exact fun d hd => hsweep.mem_iff.1 hd
      · exact fun p hp => ⟨p, hp, rfl, rfl⟩
  | patterns context =>
      exact records_patterns hinv (fun detected rest => hpatterns context detected rest rfl) h
  | linking context pattern =>
      rcases linked_of_step h with ⟨⟨links, hstore⟩, hpc⟩
      refine .of_detection ?_ (by rw [hpc]; rfl)
      rw [hpc]
      exact hinv.of_patterns (by rw [hstore]) (by rw [hstore]) hsweep
  | synthesizing context pattern pc =>
      rcases keeps_synthesizing h with ⟨hkeeps, hgoes⟩
      -- a synthesis goes on or returns to the patterns of the same sweep
      have hnext : progress.pc.Recording store ∧
          progress.pc.detection = some context.events := by
        generalize progress.pc = next at hgoes
        cases hgoes <;> exact ⟨hsweep, rfl⟩
      exact .of_detection (hinv.of_patterns hkeeps.patterns hkeeps.patternSeq hnext.1) hnext.2

end Sweep

/-- A step that does not erase everything leaves the rows of the patterns alone. -/
theorem TableStep.patterns {store store' : Store} {command : Option Command} {es : List Effect}
    (h : TableStep store command es store') (hcommand : command ≠ some .deleteAllData) :
    store'.patterns = store.patterns ∧ store'.patternSeq = store.patternSeq := by
  cases h with
  | same hsame => exact ⟨hsame.patterns, hsame.patternSeq⟩
  | erased => exact absurd rfl hcommand
  | captured | eventsDeleted | statusSet => exact ⟨rfl, rfl⟩

theorem commandOf_of_recordsAll {app : App} {action : Action} (h : recordsAll app action = true) :
    app.commandOf action ≠ some .deleteAllData := by
  cases action with
  | call id o =>
      intro hcommand
      rcases Option.map_eq_some_iff.1 hcommand with ⟨call, hcall, herases⟩
      simp [recordsAll, hcall, herases] at h
  | _ => exact nofun

theorem records_app {ext : Externals} {app app' : App} {action : Action} {es : List Effect}
    (hinv : RecordingInvariant app.store app.sweep) (hrecords : recordsAll app action = true)
    (h : (machine ext).step app action = some (app', es)) :
    RecordingInvariant app'.store app'.sweep ∧
      ∀ o, action = .sweep o → ∀ events, app.sweep.detection = some events →
        app'.sweep.detection = none →
          ∀ d ∈ PatternDetector.standard.detect events, Recorded app'.store d := by
  cases action with
  | sweep o =>
      rcases sweep_of_step h with ⟨process, progress, -, hsweepStep, hstore, hpc, -⟩
      have hestablishes : Establishes RecordingInvariant Recorded app.sweep progress := by
        refine records_sweep hinv ?_ ?_ hsweepStep
        · intro state events detected hreading
          simpa [recordsAll, hreading] using hrecords
        · intro context detected rest hpatterns hrest
          simpa [recordsAll, hpatterns, hrest] using hrecords
      rw [hstore, hpc]
      refine ⟨hestablishes.invariant, ?_⟩
      rintro _ - events hbefore hafter
      exact hestablishes.ended events hbefore hafter
  | _ =>
      -- another task leaves the rows alone, and a sweep is where it was or has not begun
      have hstep := appStep_of_step h
      rcases (tableStep_of_appStep hstep (by rintro o ⟨⟩)).patterns
          (commandOf_of_recordsAll hrecords) with ⟨hpatterns, hpatternSeq⟩
      refine ⟨hinv.of_patterns hpatterns hpatternSeq ?_, by rintro o ⟨⟩⟩
      rcases (sweep_of_appStep hstep (by rintro o ⟨⟩)).2 with hpc | hpc <;> rw [hpc]
      · exact hinv.sweep
      · trivial

/-! ## Later sweeps -/

def Effect.isStored : Effect → Bool
  | .stored .. => true
  | _ => false

/-- No event is deleted or stored by the step. -/
def bringsNothing (ext : Externals) (app : App) (action : Action) : Bool :=
  keepsEvents app action &&
    ((machine ext).step app action).all fun r => r.2.all fun e => !e.isStored

/-- A sweep that holds detected patterns of a settled store only, with the rows it has read. -/
def SweepPc.Quiet (base : Store) : SweepPc → Prop
  | .logging _ next => next.Quiet base
  | .readingPatterns _ _ detected =>
      ∀ d ∈ detected, d ∈ PatternDetector.standard.detect (currentEvents base)
  | .patterns context => context.existing = base.patterns ∧
      ∀ d ∈ context.rest, d ∈ PatternDetector.standard.detect (currentEvents base)
  | .linking .. | .synthesizing .. => False
  | _ => True

/-- The rows are those of a settled store. -/
structure Quiet (base store : Store) (sweep : SweepPc) : Prop where
  events : store.events = base.events
  patterns : store.patterns = base.patterns
  links : store.patternEvents = base.patternEvents
  recommendations : (store.recommendations.map fun r => (r.id, r.patternId)) =
    base.recommendations.map fun r => (r.id, r.patternId)
  sweep : sweep.Quiet base

/-- What a quiet step reports. -/
def Effect.Asks : Effect → Prop
  | .requested .. | .recommendationStored .. => True
  | _ => False

/-- A sweep that has ended holds nothing. -/
theorem quiet_of_detection {base : Store} {pc : SweepPc} (h : pc.detection = none) :
    pc.Quiet base := by
  induction pc with
  | logging entry next ih => exact ih h
  | readingPatterns | patterns | linking | synthesizing => cases h
  | _ => trivial

section Quiet

variable {base store : Store} {vault : Vault} {gate : DispatchGate} {o : Outside} {pc : SweepPc}
  {progress : SweepProgress}

/-- A settled pattern is known, and its row says what was detected. -/
theorem known_of_settled (hsettled : Settled base)
    (hsignatures : (base.patterns.map (·.sequenceSignature)).Nodup) {d : DetectedPattern}
    (hd : d ∈ PatternDetector.standard.detect (currentEvents base)) :
    ∃ p ∈ base.patterns, known base.patterns d = some p ∧ Records p d := by
  obtain ⟨p, hp, hrecords⟩ := hsettled d hd
  cases hknown : known base.patterns d with
  | none => exact absurd hrecords.signature (known_eq_none hknown p hp)
  | some q =>
      rcases known_eq_some hknown with ⟨hq, hsignature⟩
      have heq : q = p := List.inj_on_of_nodup_map hsignatures hq hp
        (hsignature.trans hrecords.signature.symm)
      exact ⟨q, hq, rfl, heq ▸ hrecords⟩

/-- The step of a sweep that is past its start. -/
theorem Quiet.sweepStep (hsettled : Settled base)
    (hsignatures : (base.patterns.map (·.sequenceSignature)).Nodup)
    (hids : (base.patterns.map (·.id)).Nodup) (h : Quiet base store pc) (hpc : pc ≠ .start)
    (hstep : SweepStep vault gate o store pc progress) :
    Quiet base progress.store progress.pc ∧ ∀ e ∈ progress.effects, ¬ e.Asks := by
  have hsweep := h.sweep
  have hgoes : ∀ next : SweepPc, next.Quiet base →
      Quiet base store next ∧ ∀ e ∈ ([] : List Effect), ¬ e.Asks := fun next hnext =>
    ⟨⟨h.events, h.patterns, h.links, h.recommendations, hnext⟩, by simp⟩
  cases hstep with
  | started => exact absurd rfl hpc
  | logged hstore =>
      rcases hstore with rfl | rfl
      · exact hgoes _ hsweep
      · exact ⟨⟨h.events, h.patterns, h.links, h.recommendations, hsweep⟩, by simp⟩
  | eventsRead hevents hdetected =>
      refine hgoes _ fun d hd => ?_
      have hcurrent : currentEvents base = (store.listRecentEvents eventHistoryLimit).reverse := by
        rw [currentEvents, Store.listRecentEvents, Store.listRecentEvents, h.events]
      rw [hcurrent, ← hevents]
      exact hdetected.mem_iff.1 hd
  | patternsRead => exact hgoes _ ⟨h.patterns, hsweep⟩
  | skipped hrest =>
      exact hgoes _ ⟨hsweep.1, fun d hd => hsweep.2 d (hrest ▸ List.mem_cons_of_mem _ hd)⟩
  | @updated context detected rest p id hrest hknown hid =>
      obtain ⟨q, hq, hknown', hrecords⟩ := known_of_settled hsettled hsignatures
        (hsweep.2 detected (hrest ▸ List.mem_cons_self))
      rw [hsweep.1, hknown', Option.some.injEq] at hknown
      subst hknown
      -- the row is written as it is
      have hsame := updatePatternStats_of_records (h.patterns ▸ hids) (h.patterns ▸ hq) hid hrecords
      have hrest' : ∀ d ∈ rest, d ∈ PatternDetector.standard.detect (currentEvents base) :=
        fun d hd => hsweep.2 d (hrest ▸ List.mem_cons_of_mem _ hd)
      refine ⟨?_, ?_⟩
      · show Quiet base (store.updatePatternStats _ _ _ _) _
        rw [hsame]
        exact ⟨h.events, h.patterns, h.links, h.recommendations, hsweep.1, hrest'⟩
      · intro e he
        replace he : e ∈ if store.hasPattern id then [Effect.patternStored id detected] else [] := he
        split at he
        · rw [List.mem_singleton.1 he]
          exact fun hasks => hasks
        · cases he
  | @inserted context detected rest hrest hknown =>
      obtain ⟨q, _, hknown', _⟩ := known_of_settled hsettled hsignatures
        (hsweep.2 detected (hrest ▸ List.mem_cons_self))
      rw [hsweep.1, hknown'] at hknown
      cases hknown
  | linked | synthesisEnded | providerRead | providerBuilt | allowed | requested | again | answered
  | recommended => exact hsweep.elim
  | _ => exact hgoes _ trivial

/-- A sweep that begins without anything to expire. -/
theorem Quiet.started {ext : Recommendations.Externals} (h : Quiet base store .start)
    (hkeeps : (o.storeFault.isSome || (store.deleteExpiredEvents o.now).1 == 0) = true)
    (hstep : Sweep.step ext vault gate .start o store = some progress) :
    Quiet base progress.store progress.pc ∧ ∀ e ∈ progress.effects, ¬ e.Asks := by
  rcases keeps_started hstep hkeeps with ⟨hkept, hnext⟩
  have hpc : progress.pc.Quiet base := by
    rcases hnext with hnext | ⟨entry, hnext⟩ <;> rw [hnext] <;> trivial
  cases sweepStep_of_step hstep with
  | failed => exact ⟨⟨h.events, h.patterns, h.links, h.recommendations, trivial⟩, by simp⟩
  | started hstore =>
      refine ⟨⟨?_, hkept.patterns.trans h.patterns, hkept.links.trans h.links, ?_, hpc⟩, by simp⟩
      · -- what is kept is a prefix, and an expiry adds nothing
        refine Eq.trans ?_ h.events
        rcases hstore with rfl | rfl
        · rfl
        · exact List.filter_sublist.antisymm hkept.events.sublist
      · rcases hstore with rfl | rfl <;> exact h.recommendations

end Quiet

/-- The events and the ids of the recommendations stay. -/
structure Stays (store store' : Store) : Prop where
  events : store'.events = store.events
  recommendations : (store'.recommendations.map fun r => (r.id, r.patternId)) =
    store.recommendations.map fun r => (r.id, r.patternId)

theorem TableStep.stays {store store' : Store} {command : Option Command} {es : List Effect}
    (h : TableStep store command es store')
    (hdeletes : (command.all fun command => !command.deletes) = true)
    (hnone : ∀ e ∈ es, e.isStored = false) : Stays store store' := by
  cases h with
  | same hsame => exact ⟨hsame.events, by rw [hsame.recommendations]⟩
  | captured => cases hnone _ (List.mem_singleton_self _)
  | eventsDeleted | erased => cases hdeletes
  | statusSet =>
      refine ⟨rfl, Store.map_updated _ ?_ _⟩
      exact fun _ => rfl

section Runs

variable {ext : Externals} {app app' : App} {action : Action} {es : List Effect} {base : Store}

theorem quiet_step (hsettled : Settled base)
    (hsignatures : (base.patterns.map (·.sequenceSignature)).Nodup)
    (hids : (base.patterns.map (·.id)).Nodup) (hinv : Quiet base app.store app.sweep)
    (hguard : bringsNothing ext app action = true)
    (h : (machine ext).step app action = some (app', es)) :
    Quiet base app'.store app'.sweep ∧ ∀ e ∈ es, ¬ e.Asks := by
  rcases Bool.and_eq_true_iff.1 hguard with ⟨hkeeps, hnone⟩
  rw [h, Option.all_some] at hnone
  have hstep := appStep_of_step h
  cases action with
  | sweep o =>
      rcases sweep_of_step h with ⟨process, progress, -, hsweepStep, hstore, hpc, rfl⟩
      rw [hstore, hpc]
      by_cases hstart : app.sweep = .start
      · rw [hstart] at hsweepStep hinv
        refine hinv.started ?_ hsweepStep
        simpa [keepsEvents, hstart] using hkeeps
      · exact hinv.sweepStep hsettled hsignatures hids hstart (sweepStep_of_step hsweepStep)
  | _ =>
      have hkept := keeps_of_appStep hstep hkeeps (by rintro o ⟨⟩)
      have hstays := (tableStep_of_appStep hstep (by rintro o ⟨⟩)).stays
        (commandOf_of_keepsEvents hkeeps) (by simpa using hnone)
      rcases sweep_of_appStep hstep (by rintro o ⟨⟩) with ⟨htask, hpc⟩
      refine ⟨⟨hstays.events.trans hinv.events, hkept.patterns.trans hinv.patterns,
        hkept.links.trans hinv.links, hstays.recommendations.trans hinv.recommendations, ?_⟩, ?_⟩
      · rcases hpc with hpc | hpc <;> rw [hpc]
        · exact hinv.sweep
        · trivial
      · intro e he hasks
        have hsweep := htask e he
        cases e <;> first | exact hasks | exact hsweep rfl

end Runs

/-- A sweep that is not disturbed settles the store for the events it has read.  Later sweeps over
the same events leave the patterns, their links and the recommendations as they are, and no provider
is asked, whatever else happens and whichever steps fail. -/
theorem resweep_quiet {ext : Externals} {app₀ app app' later : App}
    {history₀ history es after : List Effect} {o : Outside} {events : List EventSummary}
    (hhistory : (machine ext).Reach App.Initial Machine.always app₀ history₀)
    (hstart : app₀.sweep = .start)
    (hreach : (machine ext).Reach (· = app₀) (fun app action => recordsAll app action = true) app
      history)
    (hlast : recordsAll app (.sweep o) = true)
    (hstep : (machine ext).step app (.sweep o) = some (app', es))
    (hbefore : app.sweep.detection = some events) (hafter : app'.sweep.detection = none)
    (hcurrent : currentEvents app'.store = events)
    (hlater : (machine ext).Reach (· = app')
      (fun app action => bringsNothing ext app action = true) later after) :
    Settled app'.store ∧ later.store.patterns = app'.store.patterns ∧
      later.store.patternEvents = app'.store.patternEvents ∧
      (later.store.recommendations.map fun r => (r.id, r.patternId)) =
        (app'.store.recommendations.map fun r => (r.id, r.patternId)) ∧
      ∀ e ∈ after, ¬ e.Asks := by
  have hinv : RecordingInvariant app.store app.sweep := by
    refine hreach.invariant (fun app _ => RecordingInvariant app.store app.sweep) ?_ ?_
    · rintro _ rfl
      have hpatterns := (explained_of_reach hhistory).consistent.patterns
      refine ⟨⟨hpatterns.distinct, fun p hp => ?_⟩, hstart ▸ trivial⟩
      obtain ⟨id, hle, hid⟩ := hpatterns.given _ (List.mem_map_of_mem hp)
      exact ⟨id, hid, hle⟩
    · exact fun app _ action app' es hinv hguard hstep => (records_app hinv hguard hstep).1
  have hsettled : Settled app'.store := by
    intro d hd
    rw [hcurrent] at hd
    exact (records_app hinv hlast hstep).2 o rfl events hbefore hafter d hd
  have hreach' : (machine ext).Reach App.Initial Machine.always app' (history₀ ++ history ++ es) :=
    (hhistory.trans (hreach.mono fun _ _ _ => trivial)).step trivial hstep
  have hone : app'.OneRow :=
    hreach'.invariant (fun app _ => app.OneRow) (fun app hinit => oneRow_initial hinit)
      fun app _ action app' es hinv _ hstep => oneRow_machineStep hinv hstep
  have hids := (explained_of_reach hreach').consistent.patterns.distinct
  have hquiet : Quiet app'.store later.store later.sweep ∧ ∀ e ∈ after, ¬ e.Asks := by
    refine hlater.invariant
      (fun app after => Quiet app'.store app.store app.sweep ∧ ∀ e ∈ after, ¬ e.Asks) ?_ ?_
    · rintro _ rfl
      exact ⟨⟨rfl, rfl, rfl, rfl, quiet_of_detection hafter⟩, by simp⟩
    · rintro s h action s' es ⟨hinv, hasks⟩ hguard hstep
      rcases quiet_step hsettled hone.signatures hids hinv hguard hstep with ⟨hinv', hasks'⟩
      refine ⟨hinv', fun e he => ?_⟩
      exact (List.mem_append.1 he).elim (hasks e) (hasks' e)
  exact ⟨hsettled, hquiet.1.patterns, hquiet.1.links, hquiet.1.recommendations, hquiet.2⟩

/-- The second of two sweeps writes the statistics of the one pattern again. -/
theorem resweep_quiet_rewriting :
    ∃ app' later after detected,
      (machine .reference).Reach (· = app')
        (fun app action => bringsNothing .reference app action = true) later after ∧
      .patternStored 1 detected ∈ after ∧
      Settled app'.store ∧ later.store.patterns = app'.store.patterns ∧
      later.store.patternEvents = app'.store.patternEvents ∧
      (later.store.recommendations.map fun r => (r.id, r.patternId)) =
        (app'.store.recommendations.map fun r => (r.id, r.patternId)) ∧
      ∀ e ∈ after, ¬ e.Asks := by
  obtain ⟨app₀, history₀, app, history, app', es, events, hhistory, hstart, hreach, hlast, hstep,
      hbefore, hafter, htest⟩ :=
    exists_laterSweepEnd .reference recordsAll
      (fun app events => decide (currentEvents app.store = events) &&
        ((machine .reference).exec (fun app action => bringsNothing .reference app action = true)
          app (Action.sweeping (focusPattern 1) 2)).any fun r =>
            decide (.patternStored 1 (focusPattern 1) ∈ r.2))
      (.launch (.plain (.repeating 1) [.measured]) :: Action.consenting 0 2 ++ Action.capturing)
      (Action.sweeping (focusPattern 1) 4) (by decide +kernel)
  rcases Bool.and_eq_true_iff.1 htest with ⟨hcurrent, hexec⟩
  obtain ⟨later, after, hlater, hstored⟩ :
      ∃ later after, (machine .reference).Reach (· = app')
        (fun app action => bringsNothing .reference app action = true) later after ∧
        decide (.patternStored 1 (focusPattern 1) ∈ after) = true :=
    @Machine.exists_reach _ _ _ (· = app') (machine .reference)
      (fun app action => bringsNothing .reference app action = true) _
      (fun _ after => decide (.patternStored 1 (focusPattern 1) ∈ after)) app'
      (Action.sweeping (focusPattern 1) 2) rfl hexec
  exact ⟨app', later, after, focusPattern 1, hlater, of_decide_eq_true hstored,
    resweep_quiet hhistory hstart hreach hlast hstep hbefore hafter (of_decide_eq_true hcurrent)
      hlater⟩

end Desktop
end HiddenSteps
