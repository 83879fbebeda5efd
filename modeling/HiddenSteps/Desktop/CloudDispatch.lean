import HiddenSteps.Desktop.Provenance

/-!
# CloudDispatch — the level of the content and the level of the gate

A synthesis asks the gate with the privacy level of its sweep, whatever the levels its events were
captured at.  Along the runs whose steps meet `dispatchSafe`, no request to a cloud provider is for
a pattern made of an event that was captured at the highest level.
-/

namespace HiddenSteps
namespace Desktop

open EventStore Patterns PrivacyEngine Systems

/-- An event is one of those a detected pattern is made of. -/
def contributes (detected : DetectedPattern) (event : EventSummary) : Bool :=
  event.id.any fun id => detected.contributingEventIds.contains id

/-- The highest level at which an event of a detected pattern was captured. -/
def contentLevel (events : List EventSummary) (detected : DetectedPattern) : PrivacyLevel :=
  ((events.filter (contributes detected)).map EventSummary.privacyLevelAtCapture).foldr max .manual

theorem le_contentLevel {events : List EventSummary} {detected : DetectedPattern}
    {event : EventSummary} (hmem : event ∈ events) (hcontributes : contributes detected event) :
    event.privacyLevelAtCapture ≤ contentLevel events detected :=
  List.le_max_of_le' _
    (List.mem_map_of_mem (List.mem_filter.2 ⟨hmem, hcontributes⟩)) le_rfl

/-- When a sweep copies the gate for a provider, the gate that allows the pattern at the level of
the sweep allows it at the level of its content, too. -/
def dispatchSafe (app : App) : Action → Bool
  | .sweep _ =>
      match app.process, app.sweep with
      | some process, .synthesizing context pattern (.snapshotGate provider) =>
          Synthesis.decide process.gate provider context.privacyState.currentLevel
              pattern.detected != .allow ||
            Synthesis.decide process.gate provider (contentLevel context.events pattern.detected)
              pattern.detected == .allow
      | _, _ => true
  | _ => true

/-- A sweep that asks a cloud provider does so about content below the highest level. -/
def SweepPc.ContentAllowed : SweepPc → Prop
  | .logging _ next => next.ContentAllowed
  | .synthesizing context pattern (.requesting gated)
  | .synthesizing context pattern (.awaiting gated) =>
      gated.provider.isLocal = false →
        contentLevel context.events pattern.detected ≠ .maximumAssistance
  | _ => True

def Effect.AsksBelowMaximum : Effect → Prop
  | .requested dispatch _ =>
      dispatch.provider.isLocal = false →
        contentLevel dispatch.events dispatch.detected ≠ .maximumAssistance
  | _ => True

theorem asksBelowMaximum_of_task {e : Effect} (h : e.task ≠ .sweep) : e.AsksBelowMaximum := by
  cases e <;> first | exact absurd rfl h | trivial

theorem contentAllowed_sweep {vault : Vault} {gate : DispatchGate} {o : Outside} {store : Store}
    {pc : SweepPc} {progress : SweepProgress} (hinv : pc.ContentAllowed)
    (hsafe : ∀ context pattern provider,
      pc = .synthesizing context pattern (.snapshotGate provider) →
      Synthesis.decide gate provider context.privacyState.currentLevel pattern.detected = .allow →
      Synthesis.decide gate provider (contentLevel context.events pattern.detected)
        pattern.detected = .allow)
    (hstep : SweepStep vault gate o store pc progress) :
    progress.pc.ContentAllowed ∧ ∀ e ∈ progress.effects, e.AsksBelowMaximum := by
  cases hstep with
  | started _ hnext =>
      refine ⟨?_, by simp⟩
      rcases hnext with rfl | ⟨entry, rfl⟩ <;> trivial
  | logged => exact ⟨hinv, by simp⟩
  | synthesisEnded hnext =>
      refine ⟨?_, by simp⟩
      rcases hnext with rfl | ⟨entry, rfl⟩ <;> trivial
  | @allowed context pattern provider hallow =>
      -- the copied gate allows the content at its own level, which a gate never does at the highest
      refine ⟨?_, by simp⟩
      intro hcloud
      replace hcloud : provider.isLocal = false := hcloud
      have hcontent := hsafe context pattern provider rfl hallow
      rw [Synthesis.decide, hcloud] at hcontent
      exact (DispatchGate.evaluate_allow hcontent).2
  | requested =>
      refine ⟨hinv, ?_⟩
      intro e he
      rw [List.mem_singleton.1 he]
      exact hinv
  | again => exact ⟨hinv, by simp⟩
  | updated =>
      refine ⟨trivial, ?_⟩
      intro e he
      simp only at he
      split at he
      · rw [List.mem_singleton.1 he]
        trivial
      · simp at he
  | _ => exact ⟨trivial, by simp [Effect.AsksBelowMaximum]⟩

theorem contentAllowed_step {ext : Externals} {app app' : App} {action : Action}
    {es : List Effect} (hinv : app.sweep.ContentAllowed) (hsafe : dispatchSafe app action = true)
    (h : (machine ext).step app action = some (app', es)) :
    app'.sweep.ContentAllowed ∧ ∀ e ∈ es, e.AsksBelowMaximum := by
  have hstep := appStep_of_step h
  have hquiet := sweep_of_appStep hstep
  cases hstep with
  | @sweep vault database process o progress hsweep =>
      refine contentAllowed_sweep hinv ?_ hsweep
      intro context pattern provider hpc hallow
      replace hpc : process.sweep = .synthesizing context pattern (.snapshotGate provider) := hpc
      simpa [dispatchSafe, App.sweep, hpc, hallow] using hsafe
  | _ =>
      rcases hquiet (by rintro o ⟨⟩) with ⟨htask, hpc⟩
      refine ⟨?_, fun e he => asksBelowMaximum_of_task (htask e he)⟩
      rcases hpc with hpc | hpc <;> rw [hpc]
      · exact hinv
      · trivial

/-- Along every run whose steps meet `dispatchSafe`, a request to a cloud provider is for a pattern
none of whose events was captured at the highest level. -/
theorem dispatched_below_maximum_of_dispatchSafe {ext : Externals} {app : App}
    {history : List Effect}
    (hreach : (machine ext).Reach App.Initial
      (fun app action => dispatchSafe app action = true) app history)
    {dispatch : Dispatch} {consent : Bool} (hrequested : .requested dispatch consent ∈ history)
    (hcloud : dispatch.provider.isLocal = false)
    {event : EventSummary} {origin : Origin} {row : Option PrivacyState}
    (hstored : .stored event origin row ∈ history)
    (hcontributes : contributes dispatch.detected event = true) :
    event.privacyLevelAtCapture ≠ .maximumAssistance := by
  have hallowed := hreach.emits (fun app => app.sweep.ContentAllowed)
    Effect.AsksBelowMaximum ?_ ?_
  · have hprovenance := provenance_of_reach hreach
    rcases hprovenance.requests dispatch consent hrequested with ⟨hread, hmade⟩
    -- the event of the pattern with this id is the stored one
    rcases (Option.any_eq_true _ _).1 hcontributes with ⟨id, hid, hmem⟩
    rcases hmade id (List.contains_iff_mem.1 hmem) with ⟨read, hreadMem, hreadId⟩
    have hsame : read = event :=
      hprovenance.unique _ _ (hread read hreadMem) ⟨origin, row, hstored⟩ (hreadId.trans hid.symm)
    subst hsame
    intro hlevel
    -- an event of the highest level makes the content one of the highest level
    have hle := le_contentLevel hreadMem hcontributes
    rw [hlevel] at hle
    exact hallowed.2 _ hrequested hcloud (le_antisymm (PrivacyLevel.le_maximumAssistance _) hle)
  · rintro app ⟨_, hprocess⟩
    simp [App.sweep, hprocess, SweepPc.ContentAllowed]
  · intro app action app' es hinv hsafe hstep
    exact contentAllowed_step hinv hsafe hstep

/-! ## Sample runs -/

/-- Capture at one level, then let a sweep at another level ask a cloud provider. -/
def dispatchRun (captureLevel sweepLevel : Nat) : List Action :=
  .launch (.plain (.repeating 1) [.measured]) :: Action.consenting 0 captureLevel ++
    Action.complete 3 (.setCloudConsent true) 3 ++
    Action.complete 4 (.setAiProvider ⟨"anthropic", "anthropic", false, some "m", none, none⟩) 4 ++
    Action.capturing ++
    Action.complete 5 (.setPrivacyLevel ⟨sweepLevel, ["metadata"]⟩) 4 ++
    Action.sweeping (focusPattern 1) 7

/-- The history asks a cloud provider about an event that was captured at a level. -/
def asksAbout (level : PrivacyLevel) (history : List Effect) : Bool :=
  history.any fun
    | .requested dispatch _ =>
        !dispatch.provider.isLocal && history.any fun
          | .stored event _ _ =>
              contributes dispatch.detected event && event.privacyLevelAtCapture == level
          | _ => false
    | _ => false

theorem exists_asked {level : PrivacyLevel} {history : List Effect}
    (h : asksAbout level history = true) :
    ∃ dispatch consent event origin row, .requested dispatch consent ∈ history ∧
      dispatch.provider.isLocal = false ∧ .stored event origin row ∈ history ∧
      contributes dispatch.detected event = true ∧ event.privacyLevelAtCapture = level := by
  rcases List.any_eq_true.1 h with ⟨e, hrequested, h⟩
  split at h
  · rename_i dispatch consent
    simp only [Bool.and_eq_true, Bool.not_eq_true', List.any_eq_true] at h
    rcases h with ⟨hcloud, e, hstored, h⟩
    split at h
    · rename_i event origin row
      simp only [Bool.and_eq_true, beq_iff_eq] at h
      exact ⟨dispatch, consent, event, origin, row, hrequested, hcloud, hstored, h.1, h.2⟩
    · cases h
  · cases h

theorem dispatched_below_maximum_dispatchRun :
    ∃ app history dispatch consent event origin row,
      (machine .reference).Reach App.Initial
        (fun app action => dispatchSafe app action = true) app history ∧
      .requested dispatch consent ∈ history ∧ dispatch.provider.isLocal = false ∧
      .stored event origin row ∈ history ∧ contributes dispatch.detected event = true ∧
      event.privacyLevelAtCapture ≠ .maximumAssistance := by
  obtain ⟨app, history, hreach, htest⟩ := exists_run
    (fun app action => dispatchSafe app action = true)
    (fun _ history => asksAbout .workflowMetadata history)
    (dispatchRun 2 2) (by decide +kernel)
  obtain ⟨dispatch, consent, event, origin, row, hrequested, hcloud, hstored, hcontributes, _⟩ :=
    exists_asked htest
  exact ⟨app, history, dispatch, consent, event, origin, row, hreach, hrequested, hcloud, hstored,
    hcontributes,
    dispatched_below_maximum_of_dispatchSafe hreach hrequested hcloud hstored hcontributes⟩

/-- Events of the highest level are sent to a cloud provider once the level has been lowered. -/
theorem maximum_dispatched_after_lowering :
    ¬ ∀ ext app history, (machine ext).Reach App.Initial Machine.always app history →
      ∀ dispatch consent event origin row, .requested dispatch consent ∈ history →
        dispatch.provider.isLocal = false → .stored event origin row ∈ history →
        contributes dispatch.detected event = true →
          event.privacyLevelAtCapture ≠ .maximumAssistance := by
  intro h
  obtain ⟨app, history, hreach, htest⟩ := exists_run Machine.always
    (fun _ history => asksAbout .maximumAssistance history)
    (dispatchRun 4 2) (by decide +kernel)
  obtain ⟨dispatch, consent, event, origin, row, hrequested, hcloud, hstored, hcontributes,
    hlevel⟩ := exists_asked htest
  exact h _ app history hreach dispatch consent event origin row hrequested hcloud hstored
    hcontributes hlevel

end Desktop
end HiddenSteps
