import HiddenSteps.Desktop.SweepEnds
import HiddenSteps.Desktop.Uniqueness

/-!
# Suggestions — which detected patterns get a recommendation

A recommendation is synthesised in the sweep that inserts the row of a pattern, and in no later one.
So a sweep at which everything succeeds leaves a recommendation for every active row it has inserted,
and none for a row that has been waiting for one since an earlier sweep.
-/

namespace HiddenSteps
namespace Desktop

open EventStore Patterns PrivacyEngine Recommendations Systems

/-! ## Suggested patterns -/

def Recommended (store : Store) (id : Option Nat) : Prop :=
  ∃ r ∈ store.recommendations, id = some r.patternId

/-- Every active row of a detected pattern has a recommendation. -/
def Suggested (store : Store) (detected : DetectedPattern) : Prop :=
  ∀ p ∈ store.patterns, p.sequenceSignature = (patternRow detected).sequenceSignature →
    p.status = .active → Recommended store p.id

instance (store : Store) (id : Option Nat) : Decidable (Recommended store id) :=
  inferInstanceAs (Decidable (∃ r ∈ store.recommendations, id = some r.patternId))

instance (store : Store) (detected : DetectedPattern) : Decidable (Suggested store detected) :=
  inferInstanceAs (Decidable (∀ p ∈ store.patterns, _ → _ → _))

/-! ## Conditions on a sweep -/

/-- The step of a synthesis succeeds: a provider is active and can be built, the gate allows the
dispatch, the answer is acceptable and the store can be reached. -/
def synthesisSucceeds (ext : Recommendations.Externals) (vault : Vault) (gate : DispatchGate)
    (store : Store) (o : Outside) (context : SweepContext) (pattern : NewPattern) :
    SynthesisPc → Bool
  | .getProvider => o.storeFault.isNone && store.getActiveLlmProvider.isSome
  | .buildProvider config => (buildProvider vault o.vaultFault config).isSome
  | .snapshotGate provider =>
      Synthesis.decide gate provider context.privacyState.currentLevel pattern.detected = .allow
  | .requesting gated =>
      Synthesis.decide gated.gate gated.provider context.privacyState.currentLevel
        pattern.detected = .allow
  | .awaiting gated =>
      match o.answer with
      | .ok text =>
          (tryBuild ext gated.provider.id pattern.id pattern.detected o.now text).toBool
      | .error _ => false
  | .inserting _ => o.storeFault.isNone

/-- A sweep at which everything succeeds: a provider is active when it reads the events, the store
can be reached and every synthesis succeeds. -/
def sweepSucceeds (ext : Externals) (app : App) : Action → Bool
  | .sweep o =>
      match app.sweep, app.process with
      | .readingEvents _, _ =>
          (app.store.getActiveLlmProvider.bind (buildProvider app.vault o.vaultFault)).isSome
      | .readingPatterns .., _ => o.storeFault.isNone
      | .patterns context, _ => context.rest.isEmpty || o.storeFault.isNone
      | .synthesizing context pattern pc, some process =>
          synthesisSucceeds ext.synthesis app.vault process.gate app.store o context pattern pc
      | _, _ => true
  | _ => true

/-- A pattern that is known already has its recommendation. -/
def knownSuggested (app : App) : Action → Bool
  | .sweep _ =>
      match app.sweep with
      | .patterns context =>
          match context.rest with
          | [] => true
          | detected :: _ =>
              (known context.existing detected).isNone || decide (Suggested app.store detected)
      | _ => true
  | _ => true

/-! ## Steps that insert nothing -/

/-- Rows may go or get new statistics, and a row that stays keeps its recommendation. -/
structure Carries (store store' : Store) : Prop where
  rows : ∀ p' ∈ store'.patterns, ∃ p ∈ store.patterns, p.id = p'.id ∧
    p.sequenceSignature = p'.sequenceSignature ∧ p.status = p'.status
  recommended : store'.patterns = [] ∨ ∀ id, Recommended store id → Recommended store' id

theorem Carries.of_eq {store store' : Store} (hpatterns : store'.patterns = store.patterns)
    (hrecommendations : store'.recommendations = store.recommendations) :
    Carries store store' := by
  refine ⟨fun p hp => ⟨p, hpatterns ▸ hp, rfl, rfl, rfl⟩, Or.inr ?_⟩
  rintro id ⟨r, hr, hid⟩
  exact ⟨r, hrecommendations ▸ hr, hid⟩

theorem Carries.refl (store : Store) : Carries store store := .of_eq rfl rfl

theorem carries_updatePatternStats (store : Store) (patternId : Nat) (lastSeenAt : Timestamp)
    (occurrenceCount : Nat) (minutes : Option ℚ) :
    Carries store (store.updatePatternStats patternId lastSeenAt occurrenceCount minutes) := by
  refine ⟨?_, Or.inr fun id h => h⟩
  intro p' hp'
  rcases List.mem_map.1 hp' with ⟨p, hp, rfl⟩
  refine ⟨p, hp, ?_⟩
  split <;> exact ⟨rfl, rfl, rfl⟩

theorem carries_setRecommendationStatus (store : Store) (id : Nat) (status : RecommendationStatus)
    (dismissalReason : Option String) :
    Carries store (store.setRecommendationStatus id status dismissalReason) := by
  refine ⟨fun p hp => ⟨p, hp, rfl, rfl, rfl⟩, Or.inr ?_⟩
  rintro patternId ⟨r, hr, hid⟩
  refine ⟨_, List.mem_map_of_mem hr, ?_⟩
  split <;> exact hid

theorem TableStep.carries {store store' : Store} {command : Option Command} {es : List Effect}
    (h : TableStep store command es store') : Carries store store' := by
  cases h with
  | same hsame => exact .of_eq hsame.patterns hsame.recommendations
  | captured | eventsDeleted => exact .of_eq rfl rfl
  | erased => exact ⟨by rintro p ⟨⟩, Or.inl rfl⟩
  | statusSet => exact carries_setRecommendationStatus _ _ _ _

/-! ## The invariant -/

/-- Every pattern of a sweep is still to be handled or suggested. -/
structure SweepContext.Suggesting (store : Store) (pending : DetectedPattern → Prop)
    (context : SweepContext) : Prop where
  handled : ∀ d ∈ PatternDetector.standard.detect context.events, pending d ∨ Suggested store d
  rest : ∀ d ∈ context.rest, d ∈ PatternDetector.standard.detect context.events

/-- The row of a new pattern is the only one with its signature. -/
structure NewPattern.OnlyRow (store : Store) (context : SweepContext) (pattern : NewPattern) :
    Prop where
  detected : pattern.detected ∈ PatternDetector.standard.detect context.events
  only : ∀ p ∈ store.patterns,
    p.sequenceSignature = (patternRow pattern.detected).sequenceSignature →
      p.id = some pattern.id

/-- A recommendation that the store takes. -/
def SynthesisPc.Acceptable (pattern : NewPattern) : SynthesisPc → Prop
  | .inserting r => r.patternId = pattern.id ∧ 0 ≤ r.confidence ∧ r.confidence ≤ 1
  | _ => True

def SweepPc.Suggesting (store : Store) : SweepPc → Prop
  | .logging _ next => next.Suggesting store
  | .readingPatterns _ events detected => detected.Perm (PatternDetector.standard.detect events)
  | .patterns context => context.Suggesting store (· ∈ context.rest)
  | .linking context pattern =>
      context.Suggesting store (fun d => d ∈ context.rest ∨ d = pattern.detected) ∧
        pattern.OnlyRow store context
  | .synthesizing context pattern pc =>
      (context.Suggesting store (fun d => d ∈ context.rest ∨ d = pattern.detected) ∧
        pattern.OnlyRow store context) ∧ pc.Acceptable pattern
  | _ => True

section Frame

variable {store store' : Store}

theorem Suggested.carries (hcarries : Carries store store') {d : DetectedPattern}
    (h : Suggested store d) : Suggested store' d := by
  intro p' hp' hsignature hactive
  rcases hcarries.rows p' hp' with ⟨p, hp, hid, hsame, hstatus⟩
  have hrecommended := h p hp (hsame.trans hsignature) (hstatus.trans hactive)
  rcases hcarries.recommended with hnone | hkept
  -- where recommendations go, all rows have gone
  · rw [hnone] at hp'
    cases hp'
  · exact hid ▸ hkept p.id hrecommended

theorem SweepContext.Suggesting.carries (hcarries : Carries store store')
    {context : SweepContext} {pending : DetectedPattern → Prop}
    (h : context.Suggesting store pending) : context.Suggesting store' pending :=
  ⟨fun d hd => (h.handled d hd).imp_right (Suggested.carries hcarries), h.rest⟩

theorem NewPattern.OnlyRow.carries (hcarries : Carries store store') {context : SweepContext}
    {pattern : NewPattern} (h : pattern.OnlyRow store context) :
    pattern.OnlyRow store' context := by
  refine ⟨h.detected, ?_⟩
  intro p' hp' hsignature
  rcases hcarries.rows p' hp' with ⟨p, hp, hid, hsame, -⟩
  exact hid ▸ h.only p hp (hsame.trans hsignature)

theorem SweepPc.Suggesting.carries (hcarries : Carries store store') {pc : SweepPc}
    (h : pc.Suggesting store) : pc.Suggesting store' := by
  induction pc with
  | logging entry next ih => exact ih h
  | readingPatterns => exact h
  | patterns => exact SweepContext.Suggesting.carries hcarries h
  | linking => exact ⟨h.1.carries hcarries, h.2.carries hcarries⟩
  | synthesizing => exact ⟨⟨h.1.1.carries hcarries, h.1.2.carries hcarries⟩, h.2⟩
  | _ => trivial

end Frame

/-! ## Handling a detected pattern -/

section Handling

variable {store : Store} {context : SweepContext} {detected : DetectedPattern}
  {rest : List DetectedPattern}

theorem SweepContext.Suggesting.tail (h : context.Suggesting store (· ∈ context.rest))
    (hrest : context.rest = detected :: rest) (hsuggested : Suggested store detected) :
    SweepContext.Suggesting store (· ∈ rest) { context with rest := rest } := by
  refine ⟨?_, fun d hd => h.rest d (hrest ▸ List.mem_cons_of_mem _ hd)⟩
  intro d hd
  rcases h.handled d hd with hpending | hdone
  · rw [hrest] at hpending
    rcases List.mem_cons.1 hpending with rfl | hpending
    · exact Or.inr hsuggested
    · exact Or.inl hpending
  · exact Or.inr hdone

/-- The new row is the only one with its signature, and no other pattern has that signature. -/
theorem SweepContext.Suggesting.inserted (h : context.Suggesting store (· ∈ context.rest))
    (hrest : context.rest = detected :: rest) (hunstored : ¬ Stored store detected) :
    SweepPc.Suggesting (store.insertPattern (patternRow detected)).2
      (.linking { context with rest := rest }
        ⟨(store.insertPattern (patternRow detected)).1, detected⟩) := by
  have hdetected := h.rest detected (hrest ▸ List.mem_cons_self)
  refine ⟨⟨?_, fun d hd => h.rest d (hrest ▸ List.mem_cons_of_mem _ hd)⟩, hdetected, ?_⟩
  · intro d hd
    rcases h.handled d hd with hpending | hdone
    · rw [hrest] at hpending
      exact Or.inl (List.mem_cons.1 hpending).symm
    · by_cases hsame : d = detected
      · exact Or.inl (Or.inr hsame)
      -- another pattern has another signature, so the new row is none of its rows
      · refine Or.inr ?_
        intro p hp hsignature hactive
        rcases List.mem_append.1 hp with hp | hp
        · exact hdone p hp hsignature hactive
        · rw [List.mem_singleton.1 hp] at hsignature
          exact absurd (detected_eq_of_row hd hdetected hsignature.symm) hsame
  · intro p hp hsignature
    rcases List.mem_append.1 hp with hp | hp
    · exact absurd (List.mem_map.2 ⟨p, hp, hsignature⟩) hunstored
    · rw [List.mem_singleton.1 hp]
      rfl

/-- The pattern at hand is suggested once its row is recommended, or gone. -/
theorem SweepContext.Suggesting.recommended {pattern : NewPattern}
    (h : context.Suggesting store (fun d => d ∈ context.rest ∨ d = pattern.detected))
    (honly : pattern.OnlyRow store context)
    (hdone : Recommended store (some pattern.id) ∨
      ∀ p ∈ store.patterns, p.id ≠ some pattern.id) :
    context.Suggesting store (· ∈ context.rest) := by
  refine ⟨?_, h.rest⟩
  intro d hd
  rcases h.handled d hd with (hpending | rfl) | hsuggested
  · exact Or.inl hpending
  · refine Or.inr ?_
    intro p hp hsignature _
    -- the only row that counts is the one the synthesis was for
    have hid := honly.only p hp hsignature
    rcases hdone with hrecommended | hgone
    · rw [hid]
      exact hrecommended
    · exact absurd hid (hgone p hp)
  · exact Or.inr hsuggested

end Handling

/-! ## Steps of the sweep -/

section Sweep

variable {ext : Recommendations.Externals} {vault : Vault} {gate : DispatchGate} {o : Outside}
  {store : Store} {progress : SweepProgress}

/-- What a step of a synthesis that succeeds leads to. -/
inductive SynthesisSucceeds (store : Store) (pattern : NewPattern) : SynthesisProgress → Prop where
  | goesOn {pc : SynthesisPc} {effects : List Effect} (hacceptable : pc.Acceptable pattern) :
      SynthesisSucceeds store pattern ⟨store, .goOn pc, effects⟩
  | recommended {store' : Store} {effects : List Effect} (hcarries : Carries store store')
      (hdone : Recommended store' (some pattern.id) ∨
        ∀ p ∈ store'.patterns, p.id ≠ some pattern.id) :
      SynthesisSucceeds store pattern ⟨store', .done none, effects⟩

theorem synthesis_inserting {context : SweepContext} {pattern : NewPattern} {r : Recommendation}
    (hfault : o.storeFault = none) (hacceptable : (SynthesisPc.inserting r).Acceptable pattern) :
    SynthesisSucceeds store pattern
      (Synthesis.step ext vault gate context pattern (.inserting r) o store) := by
  rcases hacceptable with ⟨hpattern, hconfidence⟩
  simp only [Synthesis.step, hfault, Store.insertRecommendation, hconfidence, and_self,
    not_true_eq_false, if_false]
  cases hthere : store.hasPattern r.patternId with
  | true =>
      simp only [Bool.not_true, Bool.false_eq_true, if_false]
      refine .recommended ⟨fun p hp => ⟨p, hp, rfl, rfl, rfl⟩, Or.inr ?_⟩ (Or.inl ?_)
      · rintro id ⟨r', hr', hid⟩
        exact ⟨r', List.mem_append_left _ hr', hid⟩
      · exact ⟨_, List.mem_append_right _ (List.mem_singleton_self _), by rw [hpattern]⟩
  | false =>
      -- the row is gone, and so is the need for a recommendation
      simp only [Bool.not_false, if_true]
      refine .recommended (.refl _) (Or.inr ?_)
      intro p hp hid
      rw [Store.hasPattern, hpattern, List.any_eq_false] at hthere
      exact hthere p hp (beq_iff_eq.2 hid)

theorem synthesis_of_succeeds {context : SweepContext} {pattern : NewPattern} {pc : SynthesisPc}
    (hsucceeds : synthesisSucceeds ext vault gate store o context pattern pc = true)
    (hacceptable : pc.Acceptable pattern) :
    SynthesisSucceeds store pattern
      (Synthesis.step ext vault gate context pattern pc o store) := by
  cases pc with
  | getProvider =>
      simp only [synthesisSucceeds, Bool.and_eq_true, Option.isNone_iff_eq_none,
        Option.isSome_iff_exists] at hsucceeds
      rcases hsucceeds with ⟨hfault, config, hconfig⟩
      simp only [Synthesis.step, hfault, hconfig]
      exact .goesOn trivial
  | buildProvider config =>
      rcases Option.isSome_iff_exists.1 hsucceeds with ⟨provider, hprovider⟩
      simp only [Synthesis.step, hprovider]
      exact .goesOn trivial
  | snapshotGate provider =>
      simp only [Synthesis.step, if_pos (of_decide_eq_true hsucceeds)]
      exact .goesOn trivial
  | requesting gated =>
      simp only [Synthesis.step, of_decide_eq_true hsucceeds]
      exact .goesOn trivial
  | awaiting gated =>
      simp only [synthesisSucceeds] at hsucceeds
      split at hsucceeds
      · rename_i text hanswer
        cases hbuild : tryBuild ext gated.provider.id pattern.id pattern.detected o.now text with
        | error e =>
            rw [hbuild] at hsucceeds
            cases hsucceeds
        | ok r =>
            simp only [Synthesis.step, hanswer, nextAttempt, hbuild]
            exact .goesOn ⟨tryBuild_patternId hbuild, tryBuild_confidence hbuild⟩
      · cases hsucceeds
  | inserting r => exact synthesis_inserting (Option.isNone_iff_eq_none.1 hsucceeds) hacceptable

/-- No two rows for one signature, and the patterns of the sweep handled so far are suggested. -/
structure SuggestingInvariant (store : Store) (sweep : SweepPc) : Prop where
  oneRow : OneRow store sweep
  sweep : sweep.Suggesting store

theorem suggests_patterns {context : SweepContext}
    (hinv : SuggestingInvariant store (.patterns context))
    (hone : OneRow progress.store progress.pc)
    (hsafe : ∀ detected rest, context.rest = detected :: rest → o.storeFault = none ∧
      (known context.existing detected ≠ none → Suggested store detected))
    (h : Sweep.step ext vault gate (.patterns context) o store = some progress) :
    Establishes SuggestingInvariant Suggested (.patterns context) progress := by
  have hsweep : context.Suggesting store (· ∈ context.rest) := hinv.sweep
  cases hrest : context.rest with
  | nil =>
      simp only [Sweep.step, hrest] at h
      cases h
      -- the sweep ends here: nothing is pending any more
      refine ⟨⟨hone, trivial⟩, ?_⟩
      rintro events ⟨⟩ - d hd
      rcases hsweep.handled d hd with hpending | hsuggested
      · rw [hrest] at hpending
        cases hpending
      · exact hsuggested
  | cons detected rest =>
      rcases hsafe detected rest hrest with ⟨hfault, hknownSuggested⟩
      rcases handled_of_step hrest hfault h with ⟨p, hknown, hpc, hrow⟩ | ⟨hknown, hstore, hpc⟩
      -- a pattern that is known is not asked about again
      · have hsuggested : Suggested store detected := hknownSuggested (by simp [hknown])
        have hcarries : Carries store progress.store := by
          rcases hrow with ⟨-, hstore⟩ | ⟨id, -, hstore⟩ <;> rw [hstore]
          · exact .refl _
          · exact carries_updatePatternStats _ _ _ _ _
        refine .of_detection ⟨hone, ?_⟩ (by rw [hpc]; rfl)
        rw [hpc]
        exact (hsweep.tail hrest hsuggested).carries hcarries
      -- a new one is pending until its synthesis has ended
      · have hunstored : ¬ Stored store detected :=
          hinv.oneRow.sweep.unstored detected (hrest ▸ List.mem_cons_self) hknown
        refine .of_detection ⟨hone, ?_⟩ (by rw [hpc]; rfl)
        rw [hpc, hstore]
        exact hsweep.inserted hrest hunstored

theorem suggests_sweep {pc : SweepPc} (hinv : SuggestingInvariant store pc)
    (hreading : ∀ state events detected, pc = .readingPatterns state events detected →
      o.storeFault = none)
    (hpatterns : ∀ context detected rest, pc = .patterns context →
      context.rest = detected :: rest → o.storeFault = none ∧
        (known context.existing detected ≠ none → Suggested store detected))
    (hsynthesis : ∀ context pattern spc, pc = .synthesizing context pattern spc →
      synthesisSucceeds ext vault gate store o context pattern spc = true)
    (h : Sweep.step ext vault gate pc o store = some progress) :
    Establishes SuggestingInvariant Suggested pc progress := by
  have hsweep := hinv.sweep
  have hone : OneRow progress.store progress.pc := hinv.oneRow.sweepStep (sweepStep_of_step h)
  cases pc with
  | start =>
      have hpc : progress.pc.detection = none ∧ progress.pc.Suggesting progress.store := by
        simp only [Sweep.step] at h
        split at h <;> cases h
        · exact ⟨rfl, trivial⟩
        · split <;> exact ⟨rfl, trivial⟩
      exact .of_detection ⟨hone, hpc.2⟩ hpc.1
  | logging entry next =>
      have hnext : next.Suggesting store := hsweep
      simp only [Sweep.step] at h
      split at h <;> cases h
      · -- the entry that cannot be written is given up
        exact .of_detection ⟨hone, hnext⟩ rfl
      · have hcarries : Carries store (store.appendAuditEntry entry).2 := .of_eq rfl rfl
        exact .of_detection ⟨hone, hnext.carries hcarries⟩ rfl
  | readingState =>
      cases sweepStep_of_step h with
      | failed | stateRead => exact .of_detection ⟨hone, trivial⟩ rfl
  | readingEvents state =>
      cases sweepStep_of_step h with
      | failed | nothingDetected => exact .of_detection ⟨hone, trivial⟩ rfl
      | eventsRead _ hdetected => exact ⟨⟨hone, hdetected⟩, by rintro events ⟨⟩⟩
  | readingPatterns state events detected =>
      simp only [Sweep.step, hreading state events detected rfl] at h
      cases h
      refine .of_detection ⟨hone, ?_, ?_⟩ rfl
      · exact fun d hd => Or.inl (hsweep.mem_iff.2 hd)
      · exact fun d hd => hsweep.mem_iff.1 hd
  | patterns context =>
      exact suggests_patterns hinv hone
        (fun detected rest => hpatterns context detected rest rfl) h
  | linking context pattern =>
      rcases linked_of_step h with ⟨⟨links, hstore⟩, hpc⟩
      have hcarries : Carries store progress.store := by
        rw [hstore]
        exact .of_eq rfl rfl
      have hnext : progress.pc.Suggesting progress.store := by
        rw [hpc]
        exact ⟨⟨hsweep.1.carries hcarries, hsweep.2.carries hcarries⟩, trivial⟩
      exact .of_detection ⟨hone, hnext⟩ (by rw [hpc]; rfl)
  | synthesizing context pattern spc =>
      have hsucceeds := synthesis_of_succeeds (hsynthesis context pattern spc rfl) hsweep.2
      cases h
      generalize Synthesis.step ext vault gate context pattern spc o store = result
        at hsucceeds hone
      cases hsucceeds with
      | goesOn hacceptable => exact .of_detection ⟨hone, hsweep.1, hacceptable⟩ rfl
      | recommended hcarries hdone =>
          refine .of_detection ⟨hone, ?_⟩ rfl
          exact (hsweep.1.1.carries hcarries).recommended (hsweep.1.2.carries hcarries) hdone

end Sweep

/-! ## Runs -/

theorem suggests_step {ext : Externals} {app app' : App} {action : Action} {es : List Effect}
    (hinv : SuggestingInvariant app.store app.sweep)
    (hsucceeds : sweepSucceeds ext app action = true) (hknown : knownSuggested app action = true)
    (h : (machine ext).step app action = some (app', es)) :
    SuggestingInvariant app'.store app'.sweep ∧
      ∀ o, action = .sweep o → ∀ events, app.sweep.detection = some events →
        app'.sweep.detection = none →
          ∀ d ∈ PatternDetector.standard.detect events, Suggested app'.store d := by
  cases action with
  | sweep o =>
      rcases sweep_of_step h with ⟨process, progress, hprocess, hstep, hstore, hpc, -⟩
      have hsuggests : Establishes SuggestingInvariant Suggested app.sweep progress := by
        apply suggests_sweep hinv _ _ _ hstep
        · intro state events detected hreading
          simpa [sweepSucceeds, hreading] using hsucceeds
        · intro context detected rest hpatterns hrest
          simp only [sweepSucceeds, hpatterns, hrest, List.isEmpty_cons, Bool.false_or,
            Option.isNone_iff_eq_none] at hsucceeds
          simp only [knownSuggested, hpatterns, hrest, Bool.or_eq_true,
            Option.isNone_iff_eq_none, decide_eq_true_eq] at hknown
          exact ⟨hsucceeds, fun hne => hknown.resolve_left hne⟩
        · intro context pattern spc hsynthesis
          simpa [sweepSucceeds, hsynthesis, hprocess] using hsucceeds
      rw [hstore, hpc]
      refine ⟨hsuggests.invariant, ?_⟩
      rintro _ - events hbefore hafter
      exact hsuggests.ended events hbefore hafter
  | _ =>
      have hstep := appStep_of_step h
      have hone := oneRow_machineStep hinv.oneRow h
      have hcarries := (tableStep_of_appStep hstep (by rintro o ⟨⟩)).carries
      refine ⟨⟨hone, ?_⟩, by rintro o ⟨⟩⟩
      rcases (sweep_of_appStep hstep (by rintro o ⟨⟩)).2 with hpc | hpc <;> rw [hpc]
      · exact hinv.sweep.carries hcarries
      · trivial

/-- After any history, a sweep at which everything succeeds leaves every active pattern it has
detected with a recommendation, if those known before had one. -/
theorem suggested_of_knownSuggested {ext : Externals} {app₀ app app' : App}
    {history₀ history es : List Effect} {o : Outside} {events : List EventSummary}
    (hhistory : (machine ext).Reach App.Initial Machine.always app₀ history₀)
    (hstart : app₀.sweep = .start)
    (hreach : (machine ext).Reach (· = app₀)
      (fun app action => (sweepSucceeds ext app action && knownSuggested app action) = true)
      app history)
    (hlast : (sweepSucceeds ext app (.sweep o) && knownSuggested app (.sweep o)) = true)
    (hstep : (machine ext).step app (.sweep o) = some (app', es))
    (hbefore : app.sweep.detection = some events) (hafter : app'.sweep.detection = none) :
    ∀ d ∈ PatternDetector.standard.detect events, Suggested app'.store d := by
  -- nothing is assumed of the history before, and it still leaves one row for a signature
  have hone : app₀.OneRow :=
    hhistory.invariant (fun app _ => app.OneRow) (fun app hinit => oneRow_initial hinit)
      fun app _ action app' es hinv _ hstep => oneRow_machineStep hinv hstep
  have hinv : SuggestingInvariant app.store app.sweep := by
    refine hreach.invariant (fun app _ => SuggestingInvariant app.store app.sweep) ?_ ?_
    · rintro _ rfl
      exact ⟨hone, hstart ▸ trivial⟩
    · intro app _ action app' es hinv hguard hstep
      rcases Bool.and_eq_true_iff.1 hguard with ⟨hsucceeds, hknown⟩
      exact (suggests_step hinv hsucceeds hknown hstep).1
  rcases Bool.and_eq_true_iff.1 hlast with ⟨hsucceeds, hknown⟩
  exact (suggests_step hinv hsucceeds hknown hstep).2 o rfl events hbefore hafter

/-- A provider all of whose answers are acceptable. -/
def Externals.answering : Externals where
  redactor := .reference
  synthesis :=
    { classes := .asciiAndArabicIndic
      parseFields := fun _ => .ok
        { title := "Keep both windows open", category := "workflow_platform", why := ""
          confidence := 1 / 2, difficulty := "low", maintenanceBurden := "low"
          privacyImplications := "", implementationEffort := "", alternatives := []
          assumptions := [], ignoredInformation := [] }
      showFloat := fun q => toString q }

/-- The user chooses a local provider: a call of a number. -/
def Action.choosingProvider (id : Nat) : List Action :=
  Action.complete id
    (.setAiProvider
      { id := "ollama", providerType := "ollama", isLocal := true, modelName := some "llama3"
        endpoint := none, apiKey := none })
    4

/-- The provider is there before the pattern. -/
theorem suggested_newPattern :
    ∃ app₀ history₀ app history app' es events,
      (machine .answering).Reach App.Initial Machine.always app₀ history₀ ∧
      (machine .answering).Reach (· = app₀)
        (fun app action =>
          (sweepSucceeds .answering app action && knownSuggested app action) = true)
        app history ∧
      (machine .answering).step app (.sweep (.plain 0)) = some (app', es) ∧
      PatternDetector.standard.detect events ≠ [] ∧
      ∀ d ∈ PatternDetector.standard.detect events, Suggested app'.store d := by
  obtain ⟨app₀, history₀, app, history, app', es, events, hhistory, hstart, hreach, hlast, hstep,
      hbefore, hafter, htest⟩ :=
    exists_laterSweepEnd .answering
      (fun app action => sweepSucceeds .answering app action && knownSuggested app action)
      (fun app events =>
        decide (PatternDetector.standard.detect events ≠ [] ∧ app.store.recommendations ≠ []))
      (.launch (.plain (.repeating 1) [.measured]) :: Action.consenting 0 2 ++
        Action.choosingProvider 3 ++ Action.capturing)
      (Action.sweeping (focusPattern 1) 7 ++
        [.sweep { Outside.plain 0 with answer := .ok "\x7b\x7d" }, .sweep (.plain 0)])
      (by decide +kernel)
  exact ⟨app₀, history₀, app, history, app', es, events, hhistory, hreach, hstep,
    (of_decide_eq_true htest).1,
    suggested_of_knownSuggested hhistory hstart hreach hlast hstep hbefore hafter⟩

/-- The pattern was inserted before there was a provider, and no later sweep asks about it. -/
theorem waiting_pattern_never_suggested :
    ¬ ∀ ext app₀ history₀ app history app' es o events,
      (machine ext).Reach App.Initial Machine.always app₀ history₀ → app₀.sweep = .start →
      (machine ext).Reach (· = app₀) (fun app action => sweepSucceeds ext app action = true)
        app history →
      sweepSucceeds ext app (.sweep o) = true →
      (machine ext).step app (.sweep o) = some (app', es) →
      app.sweep.detection = some events → app'.sweep.detection = none →
        ∀ d ∈ PatternDetector.standard.detect events, Suggested app'.store d := by
  intro h
  obtain ⟨app₀, history₀, app, history, app', es, events, hhistory, hstart, hreach, hlast, hstep,
      hbefore, hafter, htest⟩ :=
    exists_laterSweepEnd .answering (sweepSucceeds .answering)
      (fun app events => (PatternDetector.standard.detect events).any fun d =>
        !decide (Suggested app.store d))
      (.launch (.plain (.repeating 1) [.measured]) :: Action.consenting 0 2 ++
        Action.capturing ++ Action.sweeping (focusPattern 1) 5 ++ Action.choosingProvider 3)
      (Action.sweeping (focusPattern 1) 2) (by decide +kernel)
  rcases List.any_eq_true.1 htest with ⟨d, hd, hunsuggested⟩
  have hsuggested := h _ app₀ history₀ app history app' es _ events hhistory hstart hreach hlast
    hstep hbefore hafter d hd
  simp [hsuggested] at hunsuggested

end Desktop
end HiddenSteps
