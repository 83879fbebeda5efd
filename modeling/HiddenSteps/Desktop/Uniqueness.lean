import HiddenSteps.Desktop.Provenance

/-!
# Uniqueness — one row for a workflow, one suggestion for a row

The detector reports a signature once, and a sweep inserts a pattern only if no pattern it has read
has the signature.  `set_pattern_status` is an operation of the store that no task of the program
calls; here it may happen between any two steps.
-/

namespace HiddenSteps
namespace Desktop

open EventStore Patterns PrivacyEngine Systems

/-! ## The device and its host -/

inductive HostAction where
  | app (action : Action)
  | setPatternStatus (patternId : Nat) (status : PatternStatus)

/-- The device, with changes of the status of a pattern at any time. -/
def hostMachine (ext : Externals) : Machine App HostAction Effect where
  step app action :=
    match action with
    | .app action => App.step ext app action
    | .setPatternStatus patternId status =>
        app.file.map fun database =>
          ( { app with
              file := some
                { database with store := database.store.setPatternStatus patternId status } },
            [] )

/-! ## Steps that add no row -/

/-- Signatures and recommended patterns may go, but none is new. -/
structure Thins (store store' : Store) : Prop where
  signatures : (store'.patterns.map (·.sequenceSignature)).Sublist
    (store.patterns.map (·.sequenceSignature))
  recommended : (store'.recommendations.map (·.patternId)).Sublist
    (store.recommendations.map (·.patternId))
  patternSeq : store'.patternSeq = store.patternSeq

theorem Thins.of_eq {store store' : Store} (hpatterns : store'.patterns = store.patterns)
    (hpatternSeq : store'.patternSeq = store.patternSeq)
    (hrecommendations : store'.recommendations = store.recommendations) : Thins store store' :=
  ⟨by rw [hpatterns], by rw [hrecommendations], hpatternSeq⟩

theorem Thins.refl (store : Store) : Thins store store := .of_eq rfl rfl rfl

theorem thins_updatePatternStats (store : Store) (patternId : Nat) (lastSeenAt : Timestamp)
    (occurrenceCount : Nat) (minutes : Option ℚ) :
    Thins store (store.updatePatternStats patternId lastSeenAt occurrenceCount minutes) := by
  refine ⟨?_, List.Sublist.refl _, rfl⟩
  rw [Store.updatePatternStats, Store.map_updated]
  exact fun _ => rfl

theorem thins_setPatternStatus (store : Store) (patternId : Nat) (status : PatternStatus) :
    Thins store (store.setPatternStatus patternId status) := by
  refine ⟨?_, List.Sublist.refl _, rfl⟩
  rw [Store.setPatternStatus, Store.map_updated]
  exact fun _ => rfl

theorem thins_setRecommendationStatus (store : Store) (id : Nat) (status : RecommendationStatus)
    (dismissalReason : Option String) :
    Thins store (store.setRecommendationStatus id status dismissalReason) := by
  refine ⟨List.Sublist.refl _, ?_, rfl⟩
  rw [Store.setRecommendationStatus, Store.map_updated]
  exact fun _ => rfl

theorem TableStep.thins {store store' : Store} {command : Option Command} {es : List Effect}
    (h : TableStep store command es store') : Thins store store' := by
  cases h with
  | same hsame => exact .of_eq hsame.patterns hsame.patternSeq hsame.recommendations
  | captured | eventsDeleted => exact .of_eq rfl rfl rfl
  | erased => exact ⟨List.nil_sublist _, List.nil_sublist _, rfl⟩
  | statusSet => exact thins_setRecommendationStatus _ _ _ _

/-! ## The invariant -/

/-- A row with the signature of a detected pattern is stored. -/
def Stored (store : Store) (detected : DetectedPattern) : Prop :=
  (patternRow detected).sequenceSignature ∈ store.patterns.map (·.sequenceSignature)

/-- The patterns still to be handled differ, and those the sweep would insert are not stored. -/
structure SweepContext.Fresh (store : Store) (context : SweepContext) : Prop where
  distinct : (context.rest.map (·.signature)).Nodup
  unstored : ∀ d ∈ context.rest, known context.existing d = none → ¬ Stored store d

/-- The row of a new pattern has no recommendation yet. -/
def NewPattern.Unrecommended (store : Store) (pattern : NewPattern) : Prop :=
  pattern.id ≤ store.patternSeq ∧ pattern.id ∉ store.recommendations.map (·.patternId)

def SweepPc.Fresh (store : Store) : SweepPc → Prop
  | .logging _ next => next.Fresh store
  | .readingPatterns _ _ detected => (detected.map (·.signature)).Nodup
  | .patterns context => context.Fresh store
  | .linking context pattern => context.Fresh store ∧ pattern.Unrecommended store
  | .synthesizing context pattern pc =>
      context.Fresh store ∧ pattern.Unrecommended store ∧
        ∀ recommendation, pc = .inserting recommendation →
          recommendation.patternId = pattern.id
  | _ => True

/-- No two rows for one signature, no two recommendations for one row, and the sweep is about to
add none. -/
structure OneRow (store : Store) (sweep : SweepPc) : Prop where
  signatures : (store.patterns.map (·.sequenceSignature)).Nodup
  recommended : (store.recommendations.map (·.patternId)).Nodup
  recommendedIds : ∀ id ∈ store.recommendations.map (·.patternId), id ≤ store.patternSeq
  sweep : sweep.Fresh store

theorem SweepPc.Fresh.thins {store store' : Store} (hthins : Thins store store') {pc : SweepPc}
    (h : pc.Fresh store) : pc.Fresh store' := by
  -- a signature that is not stored cannot come to be stored by thinning
  have hcontext : ∀ context : SweepContext, context.Fresh store → context.Fresh store' :=
    fun _ h => ⟨h.distinct, fun d hd hnone hstored =>
      h.unstored d hd hnone (hthins.signatures.subset hstored)⟩
  have hpattern : ∀ pattern : NewPattern,
      pattern.Unrecommended store → pattern.Unrecommended store' :=
    fun _ h => ⟨hthins.patternSeq ▸ h.1, fun hmem => h.2 (hthins.recommended.subset hmem)⟩
  induction pc with
  | logging entry next ih => exact ih h
  | readingPatterns => exact h
  | patterns => exact hcontext _ h
  | linking => exact ⟨hcontext _ h.1, hpattern _ h.2⟩
  | synthesizing => exact ⟨hcontext _ h.1, hpattern _ h.2.1, h.2.2⟩
  | _ => trivial

theorem OneRow.of_thins {store store' : Store} {sweep sweep' : SweepPc}
    (h : OneRow store sweep) (hthins : Thins store store') (hsweep : sweep'.Fresh store) :
    OneRow store' sweep' where
  signatures := h.signatures.sublist hthins.signatures
  recommended := h.recommended.sublist hthins.recommended
  recommendedIds := by
    intro id hid
    rw [hthins.patternSeq]
    exact h.recommendedIds id (hthins.recommended.subset hid)
  sweep := hsweep.thins hthins

/-! ## Steps of the sweep -/

/-- A pattern that the sweep has not read is not stored when it has read the patterns just now. -/
theorem not_stored_of_known {store : Store} {detected : DetectedPattern}
    (h : known store.patterns detected = none) : ¬ Stored store detected := by
  intro hstored
  rcases List.mem_map.1 hstored with ⟨p, hp, hsignature⟩
  exact known_eq_none h p hp hsignature

theorem SweepContext.Fresh.tail {store : Store} {context : SweepContext}
    {detected : DetectedPattern} {rest : List DetectedPattern} (h : context.Fresh store)
    (hrest : context.rest = detected :: rest) :
    SweepContext.Fresh store { context with rest := rest } := by
  have hsublist : rest.Sublist context.rest := by
    rw [hrest]
    exact List.sublist_cons_self _ _
  exact ⟨h.distinct.sublist (hsublist.map _), fun d hd => h.unstored d (hsublist.subset hd)⟩

/-- The other patterns of the sweep differ from the one it inserts. -/
theorem SweepContext.Fresh.inserted {store : Store} {context : SweepContext}
    {detected : DetectedPattern} {rest : List DetectedPattern} (h : context.Fresh store)
    (hrest : context.rest = detected :: rest) :
    SweepContext.Fresh (store.insertPattern (patternRow detected)).2
      { context with rest := rest } := by
  have hdistinct := h.distinct
  rw [hrest, List.map_cons, List.nodup_cons] at hdistinct
  refine ⟨hdistinct.2, ?_⟩
  intro d hd hnone hstored
  simp only [Stored, Store.insertPattern, List.map_append, List.mem_append, List.map_cons,
    List.map_nil, List.mem_singleton] at hstored
  rcases hstored with hstored | hsame
  · exact h.unstored d (by rw [hrest]; exact List.mem_cons_of_mem _ hd) hnone hstored
  -- two patterns of one detection would share a signature
  · apply hdistinct.1
    rw [← signature_eq_of_row hsame]
    exact List.mem_map_of_mem hd

theorem OneRow.insertedPattern {store : Store} {context : SweepContext} {detected : DetectedPattern}
    {rest : List DetectedPattern} (h : OneRow store (.patterns context))
    (hrest : context.rest = detected :: rest) (hknown : known context.existing detected = none) :
    OneRow (store.insertPattern (patternRow detected)).2
      (.linking { context with rest := rest }
        ⟨(store.insertPattern (patternRow detected)).1, detected⟩) := by
  have hunstored : ¬ Stored store detected :=
    h.sweep.unstored detected (by rw [hrest]; exact List.mem_cons_self) hknown
  refine ⟨?_, h.recommended, ?_, SweepContext.Fresh.inserted h.sweep hrest, Nat.le_refl _, ?_⟩
  -- the signature is new to the rows, because the sweep did not know the pattern
  · simp only [Store.insertPattern, List.map_append]
    exact h.signatures.append (List.nodup_singleton _) (by simpa [Stored] using hunstored)
  · intro id hid
    exact (h.recommendedIds id hid).trans (Nat.le_succ _)
  · -- the id of the new row is larger than those of all recommended rows
    intro hmem
    exact absurd (h.recommendedIds _ hmem) (Nat.not_succ_le_self _)

theorem OneRow.insertedRecommendation {store store' : Store} {context : SweepContext}
    {pattern : NewPattern} {recommendation : Recommendation} {id : Nat}
    (h : OneRow store (.synthesizing context pattern (.inserting recommendation)))
    (hinsert : store.insertRecommendation recommendation = .ok (id, store')) :
    OneRow store' (.patterns context) := by
  rcases Store.insertRecommendation_eq_ok hinsert with ⟨_, rfl, rfl⟩
  rcases h.sweep with ⟨hcontext, ⟨hle, hfresh⟩, hpatternId⟩
  have hpattern : recommendation.patternId = pattern.id := hpatternId _ rfl
  refine ⟨h.signatures, ?_, ?_, ⟨hcontext.distinct, hcontext.unstored⟩⟩
  -- the row of the new pattern had no recommendation before
  · simp only [List.map_append]
    exact h.recommended.append (List.nodup_singleton _) (by simpa [hpattern] using hfresh)
  · intro id hid
    simp only [List.map_append, List.mem_append] at hid
    rcases hid with hid | hid
    · exact h.recommendedIds id hid
    · rw [List.mem_singleton.1 hid, hpattern]
      exact hle

theorem OneRow.sweepStep {vault : Vault} {gate : DispatchGate} {o : Outside} {store : Store}
    {pc : SweepPc} {progress : SweepProgress} (h : OneRow store pc)
    (hstep : SweepStep vault gate o store pc progress) : OneRow progress.store progress.pc := by
  have hsweep := h.sweep
  cases hstep with
  | started hstore hnext =>
      apply h.of_thins
      · rcases hstore with rfl | rfl <;> exact .of_eq rfl rfl rfl
      · rcases hnext with rfl | ⟨entry, rfl⟩ <;> trivial
  | logged hstore =>
      refine h.of_thins ?_ hsweep
      rcases hstore with rfl | rfl <;> exact .of_eq rfl rfl rfl
  | eventsRead _ hdetected =>
      -- the detector reports no signature twice
      apply h.of_thins (.refl _)
      exact (hdetected.map _).nodup_iff.2 (PatternDetector.signatures_detect_nodup _ _)
  | patternsRead =>
      -- the rows have been read in this very step
      apply h.of_thins (.refl _)
      exact ⟨hsweep, fun d _ hnone => not_stored_of_known hnone⟩
  | skipped hrest => exact h.of_thins (.refl _) (SweepContext.Fresh.tail hsweep hrest)
  | updated hrest =>
      exact h.of_thins (thins_updatePatternStats _ _ _ _ _)
        (SweepContext.Fresh.tail hsweep hrest)
  | inserted hrest hknown => exact h.insertedPattern hrest hknown
  | @linked context pattern store' hstore =>
      have hnext : (SweepPc.synthesizing context pattern .getProvider).Fresh store :=
        ⟨hsweep.1, hsweep.2, fun _ hpc => (by cases hpc)⟩
      refine h.of_thins ?_ hnext
      obtain ⟨links, hlinks, _⟩ := Store.linkPatternEvents_eq store pattern.id
        pattern.detected.contributingEventIds
      rcases hstore with rfl | rfl
      · exact .refl _
      · rw [Desktop.linked, hlinks]
        exact .of_eq rfl rfl rfl
  | synthesisEnded hnext =>
      apply h.of_thins (.refl _)
      rcases hnext with rfl | ⟨entry, rfl⟩ <;> exact hsweep.1
  | answered hpattern =>
      -- the recommendation that is built is one for the new row
      apply h.of_thins (.refl _)
      refine ⟨hsweep.1, hsweep.2.1, ?_⟩
      intro r hr
      cases hr
      exact hpattern
  | recommended hinsert => exact h.insertedRecommendation hinsert
  | providerRead | providerBuilt | allowed | requested | again =>
      exact h.of_thins (.refl _) ⟨hsweep.1, hsweep.2.1, fun _ hpc => (by cases hpc)⟩
  | _ => exact h.of_thins (.refl _) trivial

/-! ## Runs -/

/-- The rows of the device and the sweep that runs on them. -/
def App.OneRow (app : App) : Prop := Desktop.OneRow app.store app.sweep

theorem oneRow_initial {app : App} (h : App.Initial app) : app.OneRow := by
  rw [App.OneRow, h.store_eq, h.sweep_eq]
  exact ⟨List.nodup_nil, List.nodup_nil, by rintro id ⟨⟩, trivial⟩

theorem oneRow_machineStep {ext : Externals} {app app' : App} {action : Action}
    {es : List Effect} (hinv : app.OneRow)
    (h : (machine ext).step app action = some (app', es)) : app'.OneRow := by
  have hstep := appStep_of_step h
  have htables := tableStep_of_appStep hstep
  have hsweep := sweep_of_appStep hstep
  cases hstep with
  | sweep hsweepStep => exact OneRow.sweepStep hinv hsweepStep
  | _ =>
      -- no other task inserts a row
      rcases hsweep (by rintro o ⟨⟩) with ⟨-, hpc⟩
      apply OneRow.of_thins hinv (htables (by rintro o ⟨⟩)).thins
      rcases hpc with hpc | hpc <;> rw [hpc]
      · exact hinv.sweep
      · trivial

theorem oneRow_step {ext : Externals} {app app' : App} {action : HostAction}
    {es : List Effect} (hinv : app.OneRow)
    (h : (hostMachine ext).step app action = some (app', es)) : app'.OneRow := by
  cases action with
  | app action => exact oneRow_machineStep hinv h
  | setPatternStatus patternId status =>
      rcases app with ⟨vault, file, process⟩
      cases file with
      | none => cases h
      | some database =>
          cases h
          exact OneRow.of_thins hinv (thins_setPatternStatus _ _ _) hinv.sweep

theorem one_row_per_workflow {ext : Externals} {app : App} {history : List Effect}
    (hreach : (hostMachine ext).Reach App.Initial Machine.always app history) :
    (app.store.patterns.map (·.sequenceSignature)).Nodup ∧
      (app.store.recommendations.map (·.patternId)).Nodup := by
  have hinv : app.OneRow := by
    refine hreach.invariant (fun app _ => app.OneRow) ?_ ?_
    · intro app hinit
      exact oneRow_initial hinit
    · intro app _ action app' es hinv _ hstep
      exact oneRow_step hinv hstep
  exact ⟨hinv.signatures, hinv.recommended⟩

/-- Two sweeps detect the same workflow, with a change of its status in between. -/
def sweptTwiceRun : List HostAction :=
  (.launch (.plain (.repeating 1) [.measured]) :: Action.consenting 0 2 ++ Action.capturing ++
      Action.sweeping (focusPattern 1) 5).map .app ++
    [.setPatternStatus 1 .dismissed] ++ (Action.sweeping (focusPattern 1) 3).map .app

theorem one_row_sweptTwiceRun :
    ∃ app history,
      (hostMachine .reference).Reach App.Initial Machine.always app history ∧
      app.store.patterns ≠ [] ∧
      (app.store.patterns.map (·.sequenceSignature)).Nodup ∧
      (app.store.recommendations.map (·.patternId)).Nodup := by
  obtain ⟨app, history, hreach, htest⟩ := Machine.exists_reach (hostMachine .reference)
    Machine.always
    (fun app history =>
      decide (app.store.patterns ≠ [] ∧ app.sweep = .start ∧
        history.count (.patternStored 1 (focusPattern 1)) = 2))
    sweptTwiceRun App.fresh_initial (by decide +kernel)
  exact ⟨app, history, hreach, (of_decide_eq_true htest).1, one_row_per_workflow hreach⟩

end Desktop
end HiddenSteps
