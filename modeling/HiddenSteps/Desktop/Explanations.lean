import HiddenSteps.Desktop.Numbering
import HiddenSteps.Desktop.Suggestions
import HiddenSteps.EventStore.References

/-!
# Explanations — the observations that a recommendation is shown with

The detail view reads the recommendations and, in a second statement, the events linked to the
pattern of the one with the given id.  Whatever happens since the recommendation was listed, that
one is shown or none is, since ids are not used again; and the events shown are ones that the
detection behind it was made of, since a pattern is linked once, to the events it was first detected
from.
-/

namespace HiddenSteps
namespace Desktop

open EventStore Patterns PrivacyEngine Systems

/-! ## The detail view -/

structure RecommendationDetail where
  recommendation : Recommendation
  contributingEvents : List EventSummary
  deriving DecidableEq

/-- The two statements lock the store one after the other, and each may fail. -/
def getRecommendationDetail (fault : Option String) (store : Store) (fault' : Option String)
    (store' : Store) (id : Nat) : Except String RecommendationDetail :=
  match fault with
  | some message => .error message
  | none =>
      match (store.listRecommendations none).find? fun r => r.id == some id with
      | none => .error ("recommendation " ++ toString id ++ " not found")
      | some recommendation =>
          match fault' with
          | some message => .error message
          | none => .ok ⟨recommendation, store'.listPatternEvents recommendation.patternId⟩

/-! ## What a pattern was first detected as -/

def Effect.detectionOf (patternId : Nat) : Effect → Option DetectedPattern
  | .patternStored id detected => if id = patternId then some detected else none
  | _ => none

/-- The detection that a pattern was inserted for. -/
def origin (history : List Effect) (patternId : Nat) : Option DetectedPattern :=
  history.findSome? (Effect.detectionOf patternId)

section Origin

variable {history : List Effect} {patternId : Nat} {detected : DetectedPattern}

theorem origin_append (h : origin history patternId = some detected) (es : List Effect) :
    origin (history ++ es) patternId = some detected := by
  unfold origin at h ⊢
  rw [List.findSome?_append, h, Option.some_or]

theorem mem_of_origin (h : origin history patternId = some detected) :
    .patternStored patternId detected ∈ history := by
  obtain ⟨e, he, hdetected⟩ := List.exists_of_findSome?_eq_some h
  cases e with
  | patternStored id d =>
      simp only [Effect.detectionOf] at hdetected
      split at hdetected
      · rename_i hid
        cases hdetected
        exact hid ▸ he
      · cases hdetected
  | _ => cases hdetected

/-- A pattern that has been reported has an origin. -/
theorem exists_origin (h : .patternStored patternId detected ∈ history) :
    ∃ d, origin history patternId = some d := by
  cases hnone : origin history patternId with
  | some d => exact ⟨d, rfl⟩
  | none =>
      have hnot := List.findSome?_eq_none_iff.1 hnone _ h
      simp [Effect.detectionOf] at hnot

/-- The first report of an id is its origin. -/
theorem origin_concat (hnew : ∀ d, .patternStored patternId d ∉ history) :
    origin (history ++ [.patternStored patternId detected]) patternId = some detected := by
  have hnone : origin history patternId = none := by
    cases h : origin history patternId with
    | none => rfl
    | some d => exact absurd (mem_of_origin h) (hnew d)
  unfold origin at hnone ⊢
  rw [List.findSome?_append, hnone, Option.none_or]
  simp [Effect.detectionOf]

end Origin

/-! ## Links and recommendations lead back to the detection -/

/-- The events of a detection were captured before. -/
def Captured (history : List Effect) (detected : DetectedPattern) : Prop :=
  ∀ eventId ∈ detected.contributingEventIds,
    ∃ event, StoredIn history event ∧ event.id = some eventId

theorem Captured.append {history : List Effect} {detected : DetectedPattern}
    (h : Captured history detected) (es : List Effect) : Captured (history ++ es) detected := by
  intro eventId hid
  rcases h eventId hid with ⟨event, hstored, heq⟩
  exact ⟨event, hstored.append es, heq⟩

/-- A recommendation is for the detection that its pattern was inserted for, whose events had been
captured before. -/
structure MadeFor (history before : List Effect) (detected : DetectedPattern)
    (r : Recommendation) : Prop where
  reported : ∃ id after, r.id = some id ∧
    history = before ++ .recommendationStored id detected :: after
  origin : origin before r.patternId = some detected
  captured : Captured before detected

theorem MadeFor.append {history before : List Effect} {detected : DetectedPattern}
    {r : Recommendation} (h : MadeFor history before detected r) (es : List Effect) :
    MadeFor (history ++ es) before detected r := by
  rcases h.reported with ⟨id, after, hid, rfl⟩
  exact ⟨⟨id, after ++ es, hid, by simp⟩, h.origin, h.captured⟩

/-- The pattern of a recommendation keeps its origin. -/
theorem MadeFor.origin_history {history before : List Effect} {detected : DetectedPattern}
    {r : Recommendation} (h : MadeFor history before detected r) :
    Desktop.origin history r.patternId = some detected := by
  rcases h.reported with ⟨id, after, _, rfl⟩
  exact origin_append h.origin _

/-- A sweep that links a pattern or asks about it holds its origin. -/
def SweepPc.Explained (history : List Effect) : SweepPc → Prop
  | .logging _ next => next.Explained history
  | .linking _ pattern | .synthesizing _ pattern _ =>
      origin history pattern.id = some pattern.detected
  | _ => True

theorem SweepPc.Explained.append {history : List Effect} {pc : SweepPc} (h : pc.Explained history)
    (es : List Effect) : pc.Explained (history ++ es) := by
  induction pc with
  | logging entry next ih => exact ih h
  | linking | synthesizing => exact origin_append h es
  | _ => trivial

structure Explained (store : Store) (sweep : SweepPc) (history : List Effect) : Prop where
  consistent : store.Consistent
  links : ∀ link ∈ store.patternEvents, ∃ detected,
    origin history link.1 = some detected ∧ link.2 ∈ detected.contributingEventIds
  recommendations : ∀ r ∈ store.recommendations, ∃ before detected,
    MadeFor history before detected r
  captured : ∀ patternId detected, origin history patternId = some detected →
    Captured history detected
  sweep : sweep.Explained history

section Steps

variable {store store' : Store} {sweep sweep' : SweepPc} {history es : List Effect}

theorem Explained.links_append (h : Explained store sweep history) (es : List Effect) :
    ∀ link ∈ store.patternEvents, ∃ detected,
      origin (history ++ es) link.1 = some detected ∧ link.2 ∈ detected.contributingEventIds := by
  intro link hlink
  rcases h.links link hlink with ⟨detected, horigin, hmem⟩
  exact ⟨detected, origin_append horigin es, hmem⟩

theorem Explained.recommendations_append (h : Explained store sweep history) (es : List Effect) :
    ∀ r ∈ store.recommendations, ∃ before detected,
      MadeFor (history ++ es) before detected r := by
  intro r hr
  rcases h.recommendations r hr with ⟨before, detected, hmade⟩
  exact ⟨before, detected, hmade.append es⟩

/-- A step that inserts no pattern adds no origin. -/
theorem origin_of_append {patternId : Nat} {detected : DetectedPattern}
    (hold : ∀ d, .patternStored patternId d ∈ es → ∃ d, origin history patternId = some d)
    (h : origin (history ++ es) patternId = some detected) :
    origin history patternId = some detected := by
  obtain ⟨d, hd⟩ : ∃ d, origin history patternId = some d := by
    rcases List.mem_append.1 (mem_of_origin h) with hmem | hmem
    · exact exists_origin hmem
    · exact hold detected hmem
  rwa [← h, origin_append hd es]

theorem Explained.captured_append (h : Explained store sweep history)
    (hold : ∀ patternId d, .patternStored patternId d ∈ es →
      ∃ d, origin history patternId = some d) :
    ∀ patternId detected, origin (history ++ es) patternId = some detected →
      Captured (history ++ es) detected := fun patternId detected horigin =>
  (h.captured patternId detected (origin_of_append (hold patternId) horigin)).append es

/-- Rows that go, under effects that insert no pattern. -/
theorem Explained.of_prunes (h : Explained store sweep history) (hprunes : Store.Prunes store store')
    (hsweep : sweep'.Explained history)
    (hold : ∀ patternId d, .patternStored patternId d ∈ es →
      ∃ d, origin history patternId = some d) : Explained store' sweep' (history ++ es) where
  consistent := hprunes.consistent h.consistent
  links := fun link hlink => h.links_append es link (hprunes.links.subset hlink)
  recommendations := by
    intro r' hr'
    rcases hprunes.mem_recommendations hr' with ⟨r, hr, hid, hpattern⟩
    rcases h.recommendations_append es r hr with ⟨before, detected, hreported, horigin, hcaptured⟩
    exact ⟨before, detected, hid ▸ hreported, hpattern ▸ horigin, hcaptured⟩
  captured := h.captured_append hold
  sweep := hsweep.append es

theorem Explained.sweepStep {vault : Vault} {gate : DispatchGate} {o : Outside} {pc : SweepPc}
    {progress : SweepProgress} (h : Explained store pc history)
    (hnumbered : Numbered store pc history)
    (hholds : pc.Holds (fun events => ∀ event ∈ events, StoredIn history event) MadeOf)
    (hstep : SweepStep vault gate o store pc progress) :
    Explained progress.store progress.pc (history ++ progress.effects) := by
  have hsweep := h.sweep
  have hnothing : ∀ patternId d, .patternStored patternId d ∈ ([] : List Effect) →
      ∃ d, origin history patternId = some d := by simp
  cases hstep with
  | started hstore hnext =>
      refine h.of_prunes ?_ ?_ hnothing
      · rcases hstore with rfl | rfl
        · exact .refl _
        · exact Store.prunes_deleteEventsWhere _ _
      · rcases hnext with rfl | ⟨entry, rfl⟩ <;> trivial
  | logged hstore =>
      refine h.of_prunes ?_ hsweep hnothing
      rcases hstore with rfl | rfl
      · exact .refl _
      · exact .of_eq rfl rfl rfl rfl rfl rfl rfl rfl rfl rfl
  | patternsRead | skipped => exact h.of_prunes (.refl _) trivial hnothing
  | updated =>
      refine h.of_prunes (Store.prunes_updatePatternStats _ _ _ _ _) trivial ?_
      intro patternId d hd
      split at hd
      · -- the row was there, so it has been reported before
        rename_i hpattern
        cases List.mem_singleton.1 hd
        obtain ⟨p, hp, hpid⟩ := hasPattern_iff.1 hpattern
        obtain ⟨id, hid, detected, hmem⟩ := hnumbered.patterns p hp
        cases hpid.symm.trans hid
        exact exists_origin hmem
      · simp at hd
  | @inserted context detected rest hrest =>
      have hnew : ∀ d, .patternStored (store.patternSeq + 1) d ∉ history := by
        intro d hd
        have hle := hnumbered.patternIds _ d hd
        omega
      have horigin : origin (history ++ [.patternStored (store.patternSeq + 1) detected])
          (store.patternSeq + 1) = some detected := origin_concat hnew
      refine ⟨Store.consistent_insertPattern h.consistent _, h.links_append _,
        h.recommendations_append _, ?_, horigin⟩
      intro patternId d hd
      replace hd : origin (history ++ [.patternStored (store.patternSeq + 1) detected]) patternId =
        some d := hd
      by_cases hid : patternId = store.patternSeq + 1
      · rw [hid, horigin, Option.some.injEq] at hd
        subst hd
        -- the sweep has read the events that the new pattern was detected from
        intro eventId hevent
        obtain ⟨event, hmem, heq⟩ := hholds.2 detected (by simp [hrest]) eventId hevent
        exact ⟨event, (hholds.1 event hmem).append _, heq⟩
      · refine (h.captured patternId d (origin_of_append ?_ hd)).append _
        intro d' hd'
        cases List.mem_singleton.1 hd'
        exact absurd rfl hid
  | @linked context pattern store' hstore =>
      obtain ⟨links, hlinks, hmade⟩ := Store.linkPatternEvents_eq store pattern.id
        pattern.detected.contributingEventIds
      rw [List.append_nil]
      rcases hstore with rfl | rfl
      · exact ⟨h.consistent, h.links, h.recommendations, h.captured, hsweep⟩
      · have hconsistent : (Desktop.linked store pattern).Consistent :=
          Store.consistent_linkPatternEvents h.consistent
        have hstore : Desktop.linked store pattern =
          { store with patternEvents := store.patternEvents ++ links } := hlinks
        refine ⟨hconsistent, ?_, ?_, h.captured, hsweep⟩
        · rw [hstore]
          intro link hlink
          rcases List.mem_append.1 hlink with hlink | hlink
          · exact h.links link hlink
          · rcases hmade link hlink with ⟨hid, hmem, _⟩
            exact ⟨pattern.detected, hid ▸ hsweep, hmem⟩
        · rw [hstore]
          exact h.recommendations
  | synthesisEnded hnext =>
      refine h.of_prunes (.refl _) ?_ hnothing
      rcases hnext with rfl | ⟨entry, rfl⟩ <;> trivial
  | @recommended context pattern recommendation id store' hinsert =>
      have hconsistent := Store.consistent_insertRecommendation h.consistent hinsert
      rcases Store.insertRecommendation_eq_ok hinsert with ⟨_, rfl, rfl⟩
      refine ⟨hconsistent, h.links_append _, ?_, h.captured_append (by simp), trivial⟩
      intro r hr
      rcases List.mem_append.1 hr with hr | hr
      · exact h.recommendations_append _ r hr
      · rw [List.mem_singleton.1 hr]
        refine ⟨history, pattern.detected, ⟨_, [], rfl, rfl⟩, ?_, h.captured _ _ hsweep⟩
        show origin history recommendation.patternId = _
        rw [hnumbered.sweep.2.2 recommendation rfl]
        exact hsweep
  | answered => exact h.of_prunes (.refl _) hsweep hnothing
  | providerRead | providerBuilt | allowed | requested | again =>
      exact h.of_prunes (.refl _) hsweep (by simp)
  | _ => exact h.of_prunes (.refl _) trivial hnothing

theorem SameTables.prunes (h : SameTables store store') : Store.Prunes store store' :=
  .of_eq (by rw [h.patterns]) h.patternSeq h.events h.eventSeq h.workflowNodes h.patternEvents
    h.patternEmbeddings h.workflowEdges (by rw [h.recommendations]) h.recommendationSeq

theorem TableStep.explained {command : Option Command} (htable : TableStep store command es store')
    (h : Explained store sweep history) (hsweep : sweep'.Explained history)
    (hold : ∀ patternId d, .patternStored patternId d ∈ es →
      ∃ d, origin history patternId = some d) : Explained store' sweep' (history ++ es) := by
  cases htable with
  | same hsame => exact h.of_prunes hsame.prunes hsweep hold
  | captured =>
      exact
        { consistent := Store.consistent_insertEventSummary h.consistent _
          links := h.links_append _
          recommendations := h.recommendations_append _
          captured := h.captured_append hold
          sweep := hsweep.append _ }
  | eventsDeleted => exact h.of_prunes (Store.prunes_deleteEventsWhere _ _) hsweep hold
  | erased => exact h.of_prunes (Store.prunes_deleteAllData _ _) hsweep hold
  | statusSet => exact h.of_prunes (Store.prunes_setRecommendationStatus _ _ _ _) hsweep hold

end Steps

def App.Explained (app : App) (history : List Effect) : Prop :=
  Desktop.Explained app.store app.sweep history

theorem explained_step {ext : Externals} {app app' : App} {history es : List Effect}
    {action : Action} (hinv : app.Explained history) (hnumbered : app.Numbered history)
    (hprovenance : Provenance app history)
    (h : (machine ext).step app action = some (app', es)) : app'.Explained (history ++ es) := by
  have hstep := appStep_of_step h
  have hsweep := sweep_of_appStep hstep
  have htables := tableStep_of_appStep hstep
  cases hstep with
  | sweep hsweepStep => exact Explained.sweepStep hinv hnumbered hprovenance.sweep hsweepStep
  | _ =>
      rcases hsweep (by rintro o ⟨⟩) with ⟨htask, hpc⟩
      refine (htables (by rintro o ⟨⟩)).explained hinv ?_ fun _ _ hd => absurd rfl (htask _ hd)
      rcases hpc with hpc | hpc <;> rw [hpc]
      · exact hinv.sweep
      · trivial

theorem explained_initial {app : App} (h : App.Initial app) : app.Explained [] := by
  rw [App.Explained, h.store_eq, h.sweep_eq]
  exact
    { consistent :=
        ⟨by constructor <;> rintro _ ⟨⟩, List.nodup_nil, ⟨List.nodup_nil, by rintro _ ⟨⟩⟩,
          ⟨List.nodup_nil, by rintro _ ⟨⟩⟩, ⟨List.nodup_nil, by rintro _ ⟨⟩⟩⟩
      links := by rintro _ ⟨⟩
      recommendations := by rintro _ ⟨⟩
      captured := fun patternId detected horigin => by cases horigin
      sweep := trivial }

theorem explained_of_reach {ext : Externals} {guard : App → Action → Prop} {app : App}
    {history : List Effect} (hreach : (machine ext).Reach App.Initial guard app history) :
    app.Explained history := by
  have hinv : app.Explained history ∧ app.Numbered history ∧ Provenance app history := by
    refine hreach.invariant
      (fun app history => app.Explained history ∧ app.Numbered history ∧ Provenance app history)
      ?_ ?_
    · intro app hinitial
      refine ⟨explained_initial hinitial, ?_,
        provenance_of_reach (@Machine.Reach.start _ _ _ (machine ext) _ guard _ hinitial)⟩
      rw [App.Numbered, hinitial.store_eq, hinitial.sweep_eq]
      exact ⟨by rintro _ ⟨⟩, by simp, by rintro _ ⟨⟩, by simp, trivial⟩
    · rintro app history action app' es ⟨hexplained, hnumbered, hprovenance⟩ _ hstep
      exact ⟨explained_step hexplained hnumbered hprovenance hstep, numbered_step hnumbered hstep,
        provenance_step hprovenance hstep⟩
  exact hinv.1

/-! ## Recommendations that are read later -/

/-- The recommendations are earlier ones, their status aside, or have later ids. -/
structure LeftFrom (seq : Nat) (listed : List Recommendation) (store : Store) : Prop where
  bound : seq ≤ store.recommendationSeq
  rows : ∀ r' ∈ store.recommendations,
    (∃ r ∈ listed, withoutStatus r' = withoutStatus r) ∨ ∃ id, r'.id = some id ∧ seq < id

section Later

variable {seq : Nat} {listed : List Recommendation} {store store' : Store}

theorem LeftFrom.of_shrinks (h : LeftFrom seq listed store) (hshrinks : Shrinks store store') :
    LeftFrom seq listed store' := by
  refine ⟨hshrinks.recommendationSeq ▸ h.bound, ?_⟩
  intro r' hr'
  rcases hshrinks.recommendations r' hr' with ⟨r, hr, hsame⟩
  rcases h.rows r hr with ⟨made, hmade, hkept⟩ | ⟨id, hid, hlt⟩
  · exact Or.inl ⟨made, hmade, hsame.trans hkept⟩
  · exact Or.inr ⟨id, (id_eq_of_withoutStatus hsame).trans hid, hlt⟩

/-- A sweep adds a recommendation under the next id, or leaves them all alone. -/
theorem recommendations_of_sweepStep {vault : Vault} {gate : DispatchGate} {o : Outside}
    {pc : SweepPc} {progress : SweepProgress} (h : SweepStep vault gate o store pc progress) :
    (progress.store.recommendations = store.recommendations ∧
      progress.store.recommendationSeq = store.recommendationSeq) ∨
      ∃ r : Recommendation,
        progress.store.recommendations =
          store.recommendations ++ [{ r with id := some (store.recommendationSeq + 1) }] ∧
        progress.store.recommendationSeq = store.recommendationSeq + 1 := by
  cases h with
  | started hstore => rcases hstore with rfl | rfl <;> exact Or.inl ⟨rfl, rfl⟩
  | logged hstore => rcases hstore with rfl | rfl <;> exact Or.inl ⟨rfl, rfl⟩
  | @linked _ pattern _ hstore =>
      obtain ⟨links, hlinks, _⟩ := Store.linkPatternEvents_eq store pattern.id
        pattern.detected.contributingEventIds
      rcases hstore with rfl | rfl
      · exact Or.inl ⟨rfl, rfl⟩
      · rw [Desktop.linked, hlinks]
        exact Or.inl ⟨rfl, rfl⟩
  | @recommended _ _ recommendation _ _ hinsert =>
      rcases Store.insertRecommendation_eq_ok hinsert with ⟨_, rfl, rfl⟩
      exact Or.inr ⟨recommendation, rfl, rfl⟩
  | _ => exact Or.inl ⟨rfl, rfl⟩

theorem LeftFrom.sweepStep {vault : Vault} {gate : DispatchGate} {o : Outside} {pc : SweepPc}
    {progress : SweepProgress} (h : LeftFrom seq listed store)
    (hstep : SweepStep vault gate o store pc progress) : LeftFrom seq listed progress.store := by
  have hbound := h.bound
  rcases recommendations_of_sweepStep hstep with ⟨hsame, hseq⟩ | ⟨r, hnew, hseq⟩
  · exact ⟨hseq ▸ h.bound, hsame ▸ h.rows⟩
  · refine ⟨by omega, ?_⟩
    intro r' hr'
    rw [hnew] at hr'
    rcases List.mem_append.1 hr' with hr' | hr'
    · exact h.rows r' hr'
    · rw [List.mem_singleton.1 hr']
      exact Or.inr ⟨_, rfl, by omega⟩

theorem leftFrom_of_reach {ext : Externals} {guard : App → Action → Prop} {app later : App}
    {after : List Effect} (hlater : (machine ext).Reach (· = app) guard later after) :
    LeftFrom app.store.recommendationSeq app.store.recommendations later.store := by
  refine hlater.invariant (fun later _ =>
    LeftFrom app.store.recommendationSeq app.store.recommendations later.store) ?_ ?_
  · rintro _ rfl
    exact ⟨le_rfl, fun r hr => Or.inl ⟨r, hr, rfl⟩⟩
  · intro _ _ action _ _ hinv _ hstep
    by_cases hsweep : ∃ o, action = .sweep o
    · rcases hsweep with ⟨o, rfl⟩
      rcases sweep_of_step hstep with ⟨process, progress, _, hsweepStep, hstore, _, _⟩
      rw [hstore]
      exact hinv.sweepStep (sweepStep_of_step hsweepStep)
    · exact hinv.of_shrinks
        (tableStep_of_appStep (appStep_of_step hstep) fun o ho => hsweep ⟨o, ho⟩).shrinks

/-- A row with the id of a listed recommendation is that recommendation. -/
theorem LeftFrom.eq_of_id (h : LeftFrom seq listed store)
    (hids : Store.GivenIds (listed.map (·.id)) seq) {r r' : Recommendation} (hr : r ∈ listed)
    (hr' : r' ∈ store.recommendations) (hid : r'.id = r.id) :
    withoutStatus r' = withoutStatus r := by
  rcases h.rows r' hr' with ⟨made, hmade, hsame⟩ | ⟨id, hlate, hlt⟩
  · have hmadeId : made.id = r.id := (id_eq_of_withoutStatus hsame).symm.trans hid
    rw [hsame, List.inj_on_of_nodup_map hids.distinct hmade hr hmadeId]
  · -- the ids of listed ones had been given out
    rcases hids.given r.id (List.mem_map_of_mem hr) with ⟨given, hle, hgiven⟩
    cases (hid.symm.trans hlate).symm.trans hgiven
    omega

end Later

/-! ## What the detail view shows -/

/-- The events were captured before a recommendation and belong to the detection it was made for;
each is shown once, earlier texts first. -/
structure Explains (before : List Effect) (detected : DetectedPattern) (store : Store)
    (events : List EventSummary) : Prop where
  once : events.Nodup
  ordered : events.Pairwise fun a b =>
    TimeFmt.textLe (TimeFmt.toRfc3339 a.occurredAt) (TimeFmt.toRfc3339 b.occurredAt) = true
  stored : ∀ event ∈ events, event ∈ store.events
  captured : ∀ event ∈ events, StoredIn before event
  contributed : ∀ event ∈ events, ∃ eventId ∈ detected.contributingEventIds,
    event.id = some eventId

theorem find_listRecommendations {store : Store} (hconsistent : store.Consistent)
    {r : Recommendation} {id : Nat} (hr : r ∈ store.recommendations) (hid : r.id = some id) :
    (store.listRecommendations none).find? (fun r => r.id == some id) = some r := by
  obtain ⟨found, hfound⟩ : ∃ found,
      store.recommendations.find? (fun r => r.id == some id) = some found :=
    Option.isSome_iff_exists.1 (List.find?_isSome.2 ⟨r, hr, beq_iff_eq.2 hid⟩)
  have hfoundId := List.find?_some hfound
  have heq : found = r := List.inj_on_of_nodup_map hconsistent.recommendations.distinct
    (List.mem_of_find?_eq_some hfound) hr ((beq_iff_eq.1 hfoundId).trans hid.symm)
  exact heq ▸ hfound

theorem explains_of_madeFor {later : App} {history before after : List Effect}
    {detected : DetectedPattern} {r : Recommendation} (hmade : MadeFor history before detected r)
    (hinv : later.Explained (history ++ after)) (hprovenance : Provenance later (history ++ after)) :
    Explains before detected later.store (later.store.listPatternEvents r.patternId) := by
  have hmade' := hmade.append after
  have hevent : ∀ event ∈ later.store.listPatternEvents r.patternId,
      event ∈ later.store.events ∧ StoredIn before event ∧
        ∃ eventId ∈ detected.contributingEventIds, event.id = some eventId := by
    intro event hevent
    rcases Store.mem_listPatternEvents.1 hevent with ⟨hmem, eventId, heventId, hlink⟩
    obtain ⟨d, horigin, hcontributes⟩ := hinv.links _ hlink
    -- the pattern has the origin that it had when the recommendation was made
    cases Option.some.inj (hmade'.origin_history.symm.trans horigin)
    obtain ⟨captured, hcaptured, hcapturedId⟩ := hmade.captured eventId hcontributes
    have hstored : StoredIn (history ++ after) captured := by
      rcases hmade'.reported with ⟨id, rest, _, hhistory⟩
      rw [hhistory]
      exact hcaptured.append _
    have heq : event = captured := hprovenance.unique event captured (hprovenance.events event hmem)
      hstored (heventId.trans hcapturedId.symm)
    exact ⟨hmem, heq ▸ hcaptured, eventId, hcontributes, heventId⟩
  exact
    { once := Store.nodup_listPatternEvents hinv.consistent.links hinv.consistent.events.distinct _
      ordered := Store.listPatternEvents_pairwise _ _
      stored := fun event h => (hevent event h).1
      captured := fun event h => (hevent event h).2.1
      contributed := fun event h => (hevent event h).2.2 }

/-- A listed recommendation is opened later, and its events are read later still.  Unless its row is
gone by then, that recommendation is shown, at most its status changed, its pattern is stored, and
the events explain it. -/
theorem recommendation_explained {ext : Externals} {app opened later : App}
    {history between after : List Effect}
    (hreach : (machine ext).Reach App.Initial Machine.always app history)
    (hopened : (machine ext).Reach (· = app) Machine.always opened between)
    (hlater : (machine ext).Reach (· = opened) Machine.always later after) {r : Recommendation}
    (hr : r ∈ app.store.recommendations) :
    ∃ id before detected, r.id = some id ∧ MadeFor history before detected r ∧
      ((∀ r' ∈ opened.store.recommendations, r'.id ≠ some id) ∧
        getRecommendationDetail none opened.store none later.store id =
          .error ("recommendation " ++ toString id ++ " not found") ∨
      ∃ r' ∈ opened.store.recommendations, withoutStatus r' = withoutStatus r ∧
        opened.store.hasPattern r.patternId = true ∧
        getRecommendationDetail none opened.store none later.store id =
          .ok ⟨r', later.store.listPatternEvents r.patternId⟩ ∧
        Explains before detected later.store (later.store.listPatternEvents r.patternId)) := by
  have hinv := explained_of_reach hreach
  have hinvOpened := explained_of_reach (hreach.trans hopened)
  have hreachLater := (hreach.trans hopened).trans hlater
  rw [List.append_assoc] at hreachLater
  obtain ⟨before, detected, hmade⟩ := hinv.recommendations r hr
  obtain ⟨id, _, hid, _⟩ := hmade.reported
  refine ⟨id, before, detected, hid, hmade, ?_⟩
  by_cases hrow : ∃ r' ∈ opened.store.recommendations, r'.id = some id
  · rcases hrow with ⟨r', hr', hid'⟩
    have hsame : withoutStatus r' = withoutStatus r :=
      (leftFrom_of_reach hopened).eq_of_id hinv.consistent.recommendations hr hr'
        (hid'.trans hid.symm)
    have hpattern : r'.patternId = r.patternId := patternId_eq_of_withoutStatus hsame
    refine Or.inr ⟨r', hr', hsame, ?_, ?_,
      explains_of_madeFor hmade (explained_of_reach hreachLater) (provenance_of_reach hreachLater)⟩
    · rw [← hpattern]
      exact hinvOpened.consistent.foreignKeys.recommendations r' hr'
    · simp only [getRecommendationDetail, find_listRecommendations hinvOpened.consistent hr' hid',
        hpattern]
  · have hgone : ∀ r' ∈ opened.store.recommendations, r'.id ≠ some id :=
      fun r' hr' hid' => hrow ⟨r', hr', hid'⟩
    refine Or.inl ⟨hgone, ?_⟩
    have hnone : (opened.store.listRecommendations none).find? (fun r => r.id == some id) = none :=
      List.find?_eq_none.2 fun r' hr' => by simpa using hgone r' hr'
    simp only [getRecommendationDetail, hnone]

/-- The user dismisses the recommendation before it is opened, and one of six events is deleted
while the details are read. -/
theorem recommendation_explained_deleting :
    ∃ app opened later history between after r id before detected,
      (machine .answering).Reach App.Initial Machine.always app history ∧
      (machine .answering).Reach (· = app) Machine.always opened between ∧
      (machine .answering).Reach (· = opened) Machine.always later after ∧
      r ∈ app.store.recommendations ∧ (later.store.listPatternEvents r.patternId).length = 5 ∧
      r.id = some id ∧ MadeFor history before detected r ∧
      ((∀ r' ∈ opened.store.recommendations, r'.id ≠ some id) ∧
        getRecommendationDetail none opened.store none later.store id =
          .error ("recommendation " ++ toString id ++ " not found") ∨
      ∃ r' ∈ opened.store.recommendations, withoutStatus r' = withoutStatus r ∧
        opened.store.hasPattern r.patternId = true ∧
        getRecommendationDetail none opened.store none later.store id =
          .ok ⟨r', later.store.listPatternEvents r.patternId⟩ ∧
        Explains before detected later.store (later.store.listPatternEvents r.patternId)) := by
  obtain ⟨app, history, opened, between, hreach, hopened, htest⟩ :=
    Machine.exists_reach_later (machine .answering) Machine.always Machine.always
      (fun app opened => app.store.recommendations.any fun r =>
        ((machine .answering).exec Machine.always opened
          (Action.complete 5 (.deleteEvents [3]) 2)).any fun later =>
            (later.1.store.listPatternEvents r.patternId).length == 5)
      (.launch (.plain (.repeating 1) [.measured]) :: Action.consenting 0 2 ++
        Action.choosingProvider 3 ++ Action.capturing ++ Action.sweeping (focusPattern 1) 7 ++
        [.sweep { Outside.plain 0 with answer := .ok "\x7b\x7d" }, .sweep (.plain 0)])
      (Action.complete 4 (.setRecommendationStatus ⟨1, "dismissed", none⟩) 1) App.fresh_initial
      (by decide +kernel)
  obtain ⟨r, hr, hexec⟩ := List.any_eq_true.1 htest
  obtain ⟨later, after, hlater, hlength⟩ : ∃ later after,
      (machine .answering).Reach (· = opened) Machine.always later after ∧
        ((later.store.listPatternEvents r.patternId).length == 5) = true :=
    Machine.exists_reach (machine .answering) Machine.always
      (fun later _ => (later.store.listPatternEvents r.patternId).length == 5)
      (Action.complete 5 (.deleteEvents [3]) 2) rfl hexec
  obtain ⟨id, before, detected, hid, hmade, hshown⟩ :=
    recommendation_explained hreach hopened hlater hr
  exact ⟨app, opened, later, history, between, after, r, id, before, detected, hreach, hopened,
    hlater, hr, beq_iff_eq.1 hlength, hid, hmade, hshown⟩

end Desktop
end HiddenSteps
