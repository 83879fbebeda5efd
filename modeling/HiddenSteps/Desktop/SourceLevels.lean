import HiddenSteps.Desktop.Observing

/-!
# SourceLevels — the minimum level of a source

A tick polls every source.  Along the runs whose steps meet `levelSafe`, a source is polled only at
its own minimum level or above.
-/

namespace HiddenSteps
namespace Desktop

open EventStore Pipeline Systems

/-- Every source may be polled at a privacy level. -/
def pollable (sources : List Source) (level : PrivacyLevel) : Bool :=
  sources.all fun source => decide (source.minPrivacyLevel ≤ level)

/-- A tick that reads a privacy state that permits observation finds the level of every source
reached. -/
def levelSafe (app : App) : Action → Bool
  | .observe o =>
      app.observation != .tick || o.storeFault.isSome ||
        app.privacyRow.all fun state =>
          !state.permitsObservation || pollable app.sources state.currentLevel
  | _ => true

/-- While a tick polls, its level is that of every source or above. -/
def ObservationPc.Pollable (sources : List Source) : ObservationPc → Prop
  | .polling state _ => pollable sources state.currentLevel = true
  | .storing state _ _ => pollable sources state.currentLevel = true
  | _ => True

def Effect.PollsAtLevel : Effect → Prop
  | .polled _ minPrivacyLevel level => minPrivacyLevel ≤ level
  | _ => True

theorem pollsAtLevel_of_task {e : Effect} (h : e.task ≠ .observation) : e.PollsAtLevel := by
  cases e <;> first | exact absurd rfl h | trivial

/-- Whether sources are pollable depends on their labels only. -/
theorem pollable_congr {sources sources' : List Source} {level : PrivacyLevel}
    (h : sources'.map Source.label = sources.map Source.label) :
    pollable sources' level = pollable sources level := by
  have hmap : ∀ l : List Source, pollable l level =
      (l.map Source.label).all fun label => decide (label.2 ≤ level) := by
    intro l
    rw [List.all_map]
    rfl
  rw [hmap, hmap, h]

theorem pollable_congr_pc {sources sources' : List Source} {pc : ObservationPc}
    (h : sources'.map Source.label = sources.map Source.label) :
    pc.Pollable sources' ↔ pc.Pollable sources := by
  cases pc <;> simp only [ObservationPc.Pollable, pollable_congr h]

theorem pollable_observe {pipeline : EventPipeline} {o : Outside} {store : Store}
    {sources : List Source} {pc : ObservationPc} {progress : ObservationProgress}
    (hinv : pc.Pollable sources)
    (htick : ∀ state, pc = .tick → o.storeFault = none → store.privacyState = some state →
      state.permitsObservation = true → pollable sources state.currentLevel = true)
    (hstep : ObservationStep pipeline o store sources pc progress) :
    progress.pc.Pollable progress.sources ∧ ∀ e ∈ progress.effects, e.PollsAtLevel := by
  cases hstep with
  | began hstore hread hpermits => exact ⟨htick _ rfl hstore hread hpermits, by simp⟩
  | @polled state _ source hsource =>
      refine ⟨(pollable_congr (set_poll_label hsource)).trans hinv, ?_⟩
      -- the level was compared with every source when the tick began
      have hlevel : source.minPrivacyLevel ≤ state.currentLevel :=
        of_decide_eq_true (List.all_eq_true.1 hinv _ (List.mem_of_getElem? hsource))
      simpa [Effect.PollsAtLevel] using hlevel
  | sourceEnded => exact ⟨hinv, by simp⟩
  | dropped => exact ⟨hinv, by simp⟩
  | stored => exact ⟨hinv, by simp [Effect.PollsAtLevel]⟩
  | _ => exact ⟨trivial, by simp⟩

theorem pollable_step {ext : Externals} {app app' : App} {action : Action} {es : List Effect}
    (hinv : app.observation.Pollable app.sources) (hsafe : levelSafe app action = true)
    (h : (machine ext).step app action = some (app', es)) :
    app'.observation.Pollable app'.sources ∧ ∀ e ∈ es, e.PollsAtLevel := by
  have hstep := appStep_of_step h
  have hquiet := observation_of_appStep hstep
  cases hstep with
  | @observe vault database process o progress hobserve =>
      refine pollable_observe hinv ?_ hobserve
      intro state htick hstore hread hpermits
      replace htick : process.observation = .tick := htick
      simpa [levelSafe, App.observation, App.sources, App.privacyRow, htick, hstore, hread,
        hpermits] using hsafe
  | _ =>
      rcases hquiet (by rintro o ⟨⟩) with ⟨htask, hpc⟩
      refine ⟨?_, fun e he => pollsAtLevel_of_task (htask e he)⟩
      -- no other task moves the loop, except that a launch starts and an exit ends it
      rcases hpc with hpc | hpc | ⟨hpc, hsources⟩ <;> rw [hpc]
      · trivial
      · trivial
      · exact (pollable_congr_pc hsources).2 hinv

/-- Along every run whose steps meet `levelSafe`, a source is polled only at its minimum level or
above. -/
theorem polled_level_of_levelSafe {ext : Externals} {app : App} {history : List Effect}
    (hreach : (machine ext).Reach App.Initial
      (fun app action => levelSafe app action = true) app history)
    {source : String} {minPrivacyLevel level : PrivacyLevel}
    (hpolled : .polled source minPrivacyLevel level ∈ history) : minPrivacyLevel ≤ level := by
  have hinv := hreach.emits (fun app => app.observation.Pollable app.sources)
    Effect.PollsAtLevel ?_ ?_
  · exact hinv.2 _ hpolled
  · rintro app ⟨_, hprocess⟩
    simp [App.observation, hprocess, ObservationPc.Pollable]
  · intro app action app' es hinv hsafe hstep
    exact pollable_step hinv hsafe hstep

theorem polled_level_watchedRun :
    ∃ app history,
      (machine .reference).Reach App.Initial
        (fun app action => levelSafe app action = true) app history ∧
      .polled "linux.file_operations" .workflowMetadata .workflowMetadata ∈ history ∧
      PrivacyLevel.workflowMetadata ≤ PrivacyLevel.workflowMetadata := by
  obtain ⟨app, history, hreach, htest⟩ := exists_run
    (fun app action => levelSafe app action = true)
    (fun _ history => decide
      (.polled "linux.file_operations" .workflowMetadata .workflowMetadata ∈ history))
    watchedRun (by decide +kernel)
  have hmem := of_decide_eq_true htest
  exact ⟨app, history, hreach, hmem, polled_level_of_levelSafe hreach hmem⟩

/-- The clipboard is polled at a level below its own. -/
theorem clipboard_polled_below_level :
    ¬ ∀ ext app history, (machine ext).Reach App.Initial Machine.always app history →
      ∀ source minPrivacyLevel level, .polled source minPrivacyLevel level ∈ history →
        minPrivacyLevel ≤ level := by
  intro h
  obtain ⟨app, history, hreach, htest⟩ := exists_run Machine.always
    (fun _ history => decide
      (.polled "linux.clipboard_metadata" .workflowMetadata .applicationMetadata ∈ history))
    (.launch (.plain (.repeating 1)
        [⟨"linux.clipboard_metadata", .workflowMetadata, none, []⟩]) :: Action.consenting 0 1 ++
      [.observe (.plain 0), .observe (.plain 0)]) (by decide +kernel)
  exact absurd (h _ app history hreach _ _ _ (of_decide_eq_true htest)) (by decide)

end Desktop
end HiddenSteps
