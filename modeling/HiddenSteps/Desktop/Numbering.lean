import HiddenSteps.Desktop.Provenance

/-!
# Numbering — the ids of patterns and recommendations

The ids of patterns and recommendations are never reused either, so a row is told from all earlier
ones by its id, and an id that is gone stays gone.
-/

namespace HiddenSteps
namespace Desktop

open EventStore Patterns PrivacyEngine Systems

/-! ## Steps that add no row -/

/-- A recommendation as it was made; only its status changes later. -/
def withoutStatus (r : Recommendation) : Recommendation :=
  { r with status := .suggested, dismissalReason := none }

section WithoutStatus

variable {r r' : Recommendation} (h : withoutStatus r' = withoutStatus r)

include h

theorem id_eq_of_withoutStatus : r'.id = r.id := by
  have hid : (withoutStatus r').id = (withoutStatus r).id := congrArg Recommendation.id h
  exact hid

theorem patternId_eq_of_withoutStatus : r'.patternId = r.patternId := by
  have hpattern : (withoutStatus r').patternId = (withoutStatus r).patternId :=
    congrArg Recommendation.patternId h
  exact hpattern

end WithoutStatus

/-- A store without new patterns, links and recommendations. -/
structure Shrinks (store store' : Store) : Prop where
  patterns : ∀ p ∈ store'.patterns, p ∈ store.patterns
  patternSeq : store'.patternSeq = store.patternSeq
  links : ∀ link ∈ store'.patternEvents, link ∈ store.patternEvents
  recommendations : ∀ r' ∈ store'.recommendations, ∃ r ∈ store.recommendations,
    withoutStatus r' = withoutStatus r
  recommendationSeq : store'.recommendationSeq = store.recommendationSeq

/-- Tables that are left alone. -/
theorem Shrinks.of_eq {store store' : Store} (hpatterns : store'.patterns = store.patterns)
    (hpatternSeq : store'.patternSeq = store.patternSeq)
    (hlinks : store'.patternEvents = store.patternEvents)
    (hrecommendations : store'.recommendations = store.recommendations)
    (hrecommendationSeq : store'.recommendationSeq = store.recommendationSeq) :
    Shrinks store store' :=
  ⟨fun _ h => hpatterns ▸ h, hpatternSeq, fun _ h => hlinks ▸ h,
    fun r h => ⟨r, hrecommendations ▸ h, rfl⟩, hrecommendationSeq⟩

theorem Shrinks.refl (store : Store) : Shrinks store store := .of_eq rfl rfl rfl rfl rfl

theorem shrinks_deleteEventsWhere (store : Store) (p : EventSummary → Bool) :
    Shrinks store (store.deleteEventsWhere p).2 :=
  ⟨fun _ h => h, rfl, fun _ h => List.mem_of_mem_filter h, fun r h => ⟨r, h, rfl⟩, rfl⟩

theorem shrinks_setRecommendationStatus (store : Store) (id : Nat) (status : RecommendationStatus)
    (dismissalReason : Option String) :
    Shrinks store (store.setRecommendationStatus id status dismissalReason) := by
  refine ⟨fun _ h => h, rfl, fun _ h => h, ?_, rfl⟩
  intro r' h
  rcases List.mem_map.1 h with ⟨r, hr, rfl⟩
  refine ⟨r, hr, ?_⟩
  split <;> rfl

theorem TableStep.shrinks {store store' : Store} {command : Option Command} {es : List Effect}
    (h : TableStep store command es store') : Shrinks store store' := by
  cases h with
  | same hsame =>
      exact .of_eq hsame.patterns hsame.patternSeq hsame.patternEvents hsame.recommendations
        hsame.recommendationSeq
  | captured => exact .of_eq rfl rfl rfl rfl rfl
  | eventsDeleted => exact shrinks_deleteEventsWhere _ _
  | erased =>
      exact ⟨fun _ h => (by cases h), rfl, fun _ h => (by cases h), fun _ h => (by cases h), rfl⟩
  | statusSet => exact shrinks_setRecommendationStatus _ _ _ _

/-! ## The ids given out so far -/

/-- The patterns that a sweep has read have ids given out so far. -/
def SweepContext.Numbered (seq : Nat) (context : SweepContext) : Prop :=
  ∀ p ∈ context.existing, ∀ id, p.id = some id → id ≤ seq

/-- The patterns that a sweep works with have ids given out so far, and a recommendation about to
be inserted is for the pattern at hand. -/
def SweepPc.Numbered (seq : Nat) : SweepPc → Prop
  | .logging _ next => next.Numbered seq
  | .patterns context => context.Numbered seq
  | .linking context pattern => context.Numbered seq ∧ pattern.id ≤ seq
  | .synthesizing context pattern pc =>
      context.Numbered seq ∧ pattern.id ≤ seq ∧
        ∀ recommendation, pc = .inserting recommendation →
          recommendation.patternId = pattern.id
  | _ => True

/-- Every row has an id given out so far and was reported when it was stored. -/
structure Numbered (store : Store) (sweep : SweepPc) (history : List Effect) : Prop where
  patterns : ∀ p ∈ store.patterns, ∃ id, p.id = some id ∧
    ∃ detected, .patternStored id detected ∈ history
  patternIds : ∀ id detected, .patternStored id detected ∈ history → id ≤ store.patternSeq
  recommendations : ∀ r ∈ store.recommendations, ∃ id, r.id = some id ∧
    ∃ detected, .recommendationStored id detected ∈ history
  recommendationIds : ∀ id detected, .recommendationStored id detected ∈ history →
    id ≤ store.recommendationSeq
  sweep : sweep.Numbered store.patternSeq

theorem hasPattern_iff {store : Store} {id : Nat} :
    store.hasPattern id = true ↔ ∃ p ∈ store.patterns, p.id = some id := by
  simp [Store.hasPattern]

theorem Numbered.le_of_hasPattern {store : Store} {sweep : SweepPc} {history : List Effect}
    (h : Numbered store sweep history) {id : Nat} (hid : store.hasPattern id = true) :
    id ≤ store.patternSeq := by
  rcases hasPattern_iff.1 hid with ⟨p, hp, hpid⟩
  rcases h.patterns p hp with ⟨id', hid', detected, hmem⟩
  rw [hpid, Option.some.injEq] at hid'
  exact hid' ▸ h.patternIds id' detected hmem

/-- Effects that report no row. -/
def Effect.storesRow : Effect → Bool
  | .patternStored .. | .recommendationStored .. => true
  | _ => false

theorem storesRow_of_task {e : Effect} (h : e.task ≠ .sweep) : e.storesRow = false := by
  cases e <;> first | rfl | exact absurd rfl h

/-- A report of a row is an earlier one when a step reports none. -/
theorem mem_of_storesRow {history es : List Effect} {e : Effect}
    (hrows : ∀ e ∈ es, e.storesRow = false) (he : e ∈ history ++ es)
    (hrow : e.storesRow = true) : e ∈ history := by
  apply (List.mem_append.1 he).resolve_right
  intro hnew
  rw [hrows e hnew] at hrow
  cases hrow

/-- Rows that lose none of their ids, under effects that report no row. -/
theorem Numbered.of_shrinks {store store' : Store} {sweep sweep' : SweepPc}
    {history es : List Effect} (h : Numbered store sweep history)
    (hshrinks : Shrinks store store') (hsweep : sweep'.Numbered store.patternSeq)
    (hrows : ∀ e ∈ es, e.storesRow = false) : Numbered store' sweep' (history ++ es) := by
  have hold : ∀ e ∈ history ++ es, e.storesRow = true → e ∈ history :=
    fun e => mem_of_storesRow hrows
  refine ⟨?_, ?_, ?_, ?_, ?_⟩
  · intro p hp
    rcases h.patterns p (hshrinks.patterns p hp) with ⟨id, hid, d, hd⟩
    exact ⟨id, hid, d, List.mem_append_left _ hd⟩
  · intro id d hd
    rw [hshrinks.patternSeq]
    exact h.patternIds id d (hold _ hd rfl)
  · intro r' hr'
    rcases hshrinks.recommendations r' hr' with ⟨r, hr, hrid⟩
    rcases h.recommendations r hr with ⟨id, hid, d, hd⟩
    exact ⟨id, (id_eq_of_withoutStatus hrid).trans hid, d, List.mem_append_left _ hd⟩
  · intro id d hd
    rw [hshrinks.recommendationSeq]
    exact h.recommendationIds id d (hold _ hd rfl)
  · rw [hshrinks.patternSeq]
    exact hsweep

theorem SweepPc.Numbered.mono {seq seq' : Nat} (hle : seq ≤ seq') {pc : SweepPc}
    (h : pc.Numbered seq) : pc.Numbered seq' := by
  have hcontext : ∀ context : SweepContext, context.Numbered seq → context.Numbered seq' :=
    fun _ h p hp id hid => (h p hp id hid).trans hle
  induction pc with
  | logging entry next ih => exact ih h
  | patterns => exact hcontext _ h
  | linking => exact ⟨hcontext _ h.1, h.2.trans hle⟩
  | synthesizing => exact ⟨hcontext _ h.1, h.2.1.trans hle, h.2.2⟩
  | _ => trivial

/-! ## Steps of the sweep -/

theorem Numbered.updated {store : Store} {sweep sweep' : SweepPc} {history : List Effect}
    (h : Numbered store sweep history) (hsweep : sweep'.Numbered store.patternSeq) (id : Nat)
    (detected : DetectedPattern) :
    Numbered
      (store.updatePatternStats id detected.lastSeenAt detected.occurrenceCount
        (some detected.estimatedMinutesPerOccurrence))
      sweep'
      (history ++ if store.hasPattern id then [.patternStored id detected] else []) := by
  refine ⟨?_, ?_, ?_, ?_, hsweep⟩
  · intro p hp
    rcases List.mem_map.1 hp with ⟨old, hold, rfl⟩
    rcases h.patterns old hold with ⟨id', hid', d, hd⟩
    refine ⟨id', ?_, d, List.mem_append_left _ hd⟩
    split <;> exact hid'
  · intro id' d hd
    rcases List.mem_append.1 hd with hd | hd
    · exact h.patternIds id' d hd
    · split at hd
      · rename_i hpattern
        cases List.mem_singleton.1 hd
        exact h.le_of_hasPattern hpattern
      · simp at hd
  · intro r hr
    rcases h.recommendations r hr with ⟨id', hid', d, hd⟩
    exact ⟨id', hid', d, List.mem_append_left _ hd⟩
  · intro id' d hd
    refine h.recommendationIds id' d ((List.mem_append.1 hd).resolve_right ?_)
    intro hd
    split at hd <;> simp at hd

theorem Numbered.inserted {store : Store} {sweep sweep' : SweepPc} {history : List Effect}
    (h : Numbered store sweep history) (hsweep : sweep'.Numbered (store.patternSeq + 1))
    (detected : DetectedPattern) :
    Numbered (store.insertPattern (patternRow detected)).2 sweep'
      (history ++ [.patternStored (store.insertPattern (patternRow detected)).1 detected]) := by
  refine ⟨?_, ?_, ?_, ?_, hsweep⟩
  · intro p hp
    rcases List.mem_append.1 hp with hp | hp
    · rcases h.patterns p hp with ⟨id', hid', d, hd⟩
      exact ⟨id', hid', d, List.mem_append_left _ hd⟩
    · rw [List.mem_singleton.1 hp]
      exact ⟨_, rfl, detected, by simp [Store.insertPattern]⟩
  · intro id' d hd
    rcases List.mem_append.1 hd with hd | hd
    · exact (h.patternIds id' d hd).trans (Nat.le_succ _)
    · cases List.mem_singleton.1 hd
      exact le_rfl
  · intro r hr
    rcases h.recommendations r hr with ⟨id', hid', d, hd⟩
    exact ⟨id', hid', d, List.mem_append_left _ hd⟩
  · intro id' d hd
    exact h.recommendationIds id' d (by simpa using hd)

theorem Numbered.recommended {store store' : Store} {sweep sweep' : SweepPc}
    {history : List Effect} {recommendation : Recommendation} {id : Nat}
    (h : Numbered store sweep history) (hsweep : sweep'.Numbered store.patternSeq)
    (hinsert : store.insertRecommendation recommendation = .ok (id, store'))
    (detected : DetectedPattern) :
    Numbered store' sweep' (history ++ [.recommendationStored id detected]) := by
  rcases Store.insertRecommendation_eq_ok hinsert with ⟨_, rfl, rfl⟩
  refine ⟨?_, ?_, ?_, ?_, hsweep⟩
  · intro p hp
    rcases h.patterns p hp with ⟨id', hid', d, hd⟩
    exact ⟨id', hid', d, List.mem_append_left _ hd⟩
  · intro id' d hd
    exact h.patternIds id' d (by simpa using hd)
  · intro r hr
    rcases List.mem_append.1 hr with hr | hr
    · rcases h.recommendations r hr with ⟨id', hid', d, hd⟩
      exact ⟨id', hid', d, List.mem_append_left _ hd⟩
    · rw [List.mem_singleton.1 hr]
      exact ⟨_, rfl, detected, by simp⟩
  · intro id' d hd
    rcases List.mem_append.1 hd with hd | hd
    · exact (h.recommendationIds id' d hd).trans (Nat.le_succ _)
    · cases List.mem_singleton.1 hd
      exact le_rfl

theorem Numbered.sweepStep {vault : Vault} {gate : DispatchGate} {o : Outside} {store : Store}
    {pc : SweepPc} {progress : SweepProgress} {history : List Effect}
    (h : Numbered store pc history) (hstep : SweepStep vault gate o store pc progress) :
    Numbered progress.store progress.pc (history ++ progress.effects) := by
  have hsweep := h.sweep
  cases hstep with
  | started hstore hnext =>
      refine h.of_shrinks ?_ ?_ (by simp)
      · rcases hstore with rfl | rfl
        · exact .refl _
        · exact shrinks_deleteEventsWhere _ _
      · rcases hnext with rfl | ⟨entry, rfl⟩ <;> trivial
  | logged hstore =>
      refine h.of_shrinks ?_ hsweep (by simp)
      rcases hstore with rfl | rfl
      · exact .refl _
      · exact .of_eq rfl rfl rfl rfl rfl
  | patternsRead =>
      -- the sweep reads rows of the store, whose ids have been given out
      refine h.of_shrinks (.refl _) ?_ (by simp)
      intro p hp id hid
      rcases h.patterns p hp with ⟨id', hid', d, hd⟩
      rw [hid, Option.some.injEq] at hid'
      exact hid' ▸ h.patternIds id' d hd
  | skipped => exact h.of_shrinks (.refl _) hsweep (by simp)
  | updated =>
      refine h.updated ?_ _ _
      exact hsweep
  | inserted =>
      refine h.inserted ?_ _
      -- the new id is the next one, so the ids read before stay below it
      exact ⟨fun p hp id hid => (hsweep p hp id hid).trans (Nat.le_succ _), le_rfl⟩
  | @linked context pattern store' hstore =>
      obtain ⟨links, hlinks, _⟩ := Store.linkPatternEvents_eq store pattern.id
        pattern.detected.contributingEventIds
      have hnext : (SweepPc.synthesizing context pattern .getProvider).Numbered
          store.patternSeq := ⟨hsweep.1, hsweep.2, fun _ hpc => (by cases hpc)⟩
      rw [List.append_nil]
      rcases hstore with rfl | rfl
      · exact ⟨h.patterns, h.patternIds, h.recommendations, h.recommendationIds, hnext⟩
      · rw [Desktop.linked, hlinks]
        exact ⟨h.patterns, h.patternIds, h.recommendations, h.recommendationIds, hnext⟩
  | synthesisEnded hnext =>
      refine h.of_shrinks (.refl _) ?_ (by simp)
      rcases hnext with rfl | ⟨entry, rfl⟩ <;> exact hsweep.1
  | answered hpattern =>
      -- the recommendation about to be inserted is for the pattern at hand
      refine h.of_shrinks (.refl _) ⟨hsweep.1, hsweep.2.1, ?_⟩ (by simp)
      intro r hr
      cases hr
      exact hpattern
  | recommended hinsert =>
      refine h.recommended ?_ hinsert _
      exact hsweep.1
  | providerRead | providerBuilt | allowed | requested | again =>
      exact h.of_shrinks (.refl _) ⟨hsweep.1, hsweep.2.1, fun _ hpc => (by cases hpc)⟩
        (by simp [Effect.storesRow])
  | _ => exact h.of_shrinks (.refl _) trivial (by simp)

def App.Numbered (app : App) (history : List Effect) : Prop :=
  Desktop.Numbered app.store app.sweep history

theorem numbered_step {ext : Externals} {app app' : App} {history es : List Effect}
    {action : Action} (hinv : app.Numbered history)
    (h : (machine ext).step app action = some (app', es)) : app'.Numbered (history ++ es) := by
  have hstep := appStep_of_step h
  have htables := tableStep_of_appStep hstep
  have hsweep := sweep_of_appStep hstep
  cases hstep with
  | sweep hsweepStep => exact Numbered.sweepStep hinv hsweepStep
  | _ =>
      rcases hsweep (by rintro o ⟨⟩) with ⟨htask, hpc⟩
      refine Numbered.of_shrinks hinv (htables (by rintro o ⟨⟩)).shrinks ?_
        fun e he => storesRow_of_task (htask e he)
      rcases hpc with hpc | hpc <;> rw [hpc]
      · exact hinv.sweep
      · trivial

end Desktop
end HiddenSteps
