import HiddenSteps.Desktop.App

/-!
# Observing — what happens while observation is paused

A file-system watcher queues what happens whether or not the loop polls it, and some time after it
has happened.  Along the runs whose
steps meet `pauseSafe`, nothing that happened while observation was not permitted is stored.
-/

namespace HiddenSteps
namespace Desktop

open EventStore Pipeline Systems

/-! ## The loop among the other tasks -/

/-- The source the loop polls next, and the privacy state of its tick. -/
def App.pollsNext (app : App) : Option (PrivacyState × Source) :=
  match app.observation with
  | .polling state next => app.sources[next]?.map fun source => (state, source)
  | _ => none

theorem launch_observation {app : App} {input : LaunchInput} (hprocess : app.process = none) :
    (launch app input).observation = .stopped ∨ (launch app input).observation = .tick := by
  rcases (launch_cases app input).2 with ⟨_, hprocess'⟩ | ⟨database, _, _, _, hprocess'⟩
  · exact Or.inl (by rw [App.observation, hprocess', hprocess])
  · rw [App.observation, hprocess']
    simp only [Process.start]
    split
    · exact Or.inl rfl
    · exact Or.inr rfl

theorem send_label (source : Source) : source.send.label = source.label := by
  unfold Source.send
  split <;> rfl

@[simp] theorem poll_label (source : Source) (measured : Except String (List CapturedSignal)) :
    (source.poll measured).1.label = source.label := by
  unfold Source.poll
  split
  · rfl
  · split <;> rfl

/-- What is done with the queue of one source leaves the labels alone. -/
theorem modify_label {f : Source → Source} (hf : ∀ s, (f s).label = s.label)
    (sources : List Source) (source : Nat) :
    (sources.modify source f).map Source.label = sources.map Source.label := by
  apply List.ext_getElem?
  intro i
  simp only [List.getElem?_map, List.getElem?_modify]
  cases sources[i]? with
  | none => rfl
  | some s =>
      simp only [Option.map_eq_map, Option.map_some, Option.some.injEq]
      split
      · exact hf s
      · rfl

theorem operate_label (database : Database) (process : Process) (source : Nat)
    (event : Option NotifyEvent) :
    (App.operate database process source event).sources.map Source.label =
      process.sources.map Source.label := by
  refine modify_label ?_ process.sources source
  intro s
  rfl

/-- A polled source keeps its place and its label. -/
theorem set_poll_label {sources : List Source} {next : Nat} {source : Source}
    {measured : Except String (List CapturedSignal)} (h : sources[next]? = some source) :
    (sources.set next (source.poll measured).1).map Source.label = sources.map Source.label := by
  apply List.ext_getElem?
  intro i
  rw [List.getElem?_map, List.getElem?_map, List.getElem?_set]
  split
  · rename_i hi
    subst hi
    split
    · simp [h]
    · rename_i hlast
      simp [List.getElem?_eq_none_iff.2 (not_lt.1 hlast)]
  · rfl

/-- A step that is not the loop's own neither polls nor stores; it ends the loop, starts it, or
leaves it where it is with the same sources. -/
theorem observation_of_appStep {ext : Externals} {app app' : App} {action : Action}
    {es : List Effect} (h : AppStep ext app action app' es) (hother : ∀ o, action ≠ .observe o) :
    (∀ e ∈ es, e.task ≠ .observation) ∧
      (app'.observation = .stopped ∨ app'.observation = .tick ∨
        app'.observation = app.observation ∧
          app'.sources.map Source.label = app.sources.map Source.label) := by
  cases h with
  | launch hprocess =>
      refine ⟨by simp, ?_⟩
      rcases launch_observation hprocess with h | h
      · exact Or.inl h
      · exact Or.inr (Or.inl h)
  | exit => exact ⟨by simp, Or.inl rfl⟩
  | invoke => exact ⟨by simp, Or.inr (Or.inr ⟨rfl, rfl⟩)⟩
  | call _ hstep =>
      refine ⟨?_, Or.inr (Or.inr ⟨rfl, rfl⟩)⟩
      intro e he
      rw [task_of_callStep hstep e he]
      decide
  | observe => exact absurd rfl (hother _)
  | sweep hstep =>
      refine ⟨?_, Or.inr (Or.inr ⟨rfl, rfl⟩)⟩
      intro e he
      rw [task_of_sweepStep hstep e he]
      decide
  | operate => exact ⟨by simp, Or.inr (Or.inr ⟨rfl, operate_label _ _ _ _⟩)⟩
  | notify => exact ⟨by simp, Or.inr (Or.inr ⟨rfl, modify_label send_label _ _⟩)⟩

/-! ## What happened while observation was not permitted -/

/-- The pipeline drops, at a privacy level, whatever waits in the queue of a source and happened
while observation was not permitted. -/
def Source.backlogDropped (pipeline : EventPipeline) (level : PrivacyLevel) (source : Source) :
    Bool :=
  (source.queue.getD []).all fun notification =>
    notification.permitted ||
      (notification.signals source.id).all fun traced => !pipeline.keeps traced.signal level

/-- The loop drains a queue only when the pipeline drops all of it that happened while observation
was not permitted. -/
def pauseSafe (ext : Externals) (app : App) : Action → Bool
  | .observe _ =>
      app.pollsNext.all fun next =>
        next.2.backlogDropped (.new ext.redactor) next.1.currentLevel
  | _ => true

/-- The signals still to be stored whose file operation was not permitted will be dropped. -/
def ObservationPc.BacklogDropped (pipeline : EventPipeline) : ObservationPc → Prop
  | .storing state _ signals =>
      ∀ traced ∈ signals, traced.origin = .fileOperation false →
        pipeline.keeps traced.signal state.currentLevel = false
  | _ => True

/-- An effect stores no file operation that happened while observation was not permitted. -/
def Effect.StoresPermitted : Effect → Prop
  | .stored _ (.fileOperation permitted) _ => permitted = true
  | _ => True

theorem storesPermitted_of_task {e : Effect} (h : e.task ≠ .observation) : e.StoresPermitted := by
  cases e <;> first | exact absurd rfl h | trivial

/-- What a poll yields of the operations that were not permitted is what the queue holds of them. -/
theorem origin_of_poll {source : Source} {measured : Except String (List CapturedSignal)}
    {traced : TracedSignal} (h : traced ∈ (source.poll measured).2)
    (horigin : traced.origin = .fileOperation false) :
    ∃ notification ∈ source.queue.getD [], notification.permitted = false ∧
      traced ∈ notification.signals source.id := by
  unfold Source.poll at h
  split at h
  · rename_i queue hqueue
    rcases List.mem_flatMap.1 h with ⟨notification, hmem, htraced⟩
    refine ⟨notification, by simpa [hqueue] using hmem, ?_, htraced⟩
    unfold Notification.signals at htraced
    split at htraced
    · simp at htraced
    · split at htraced
      · simp at htraced
      · rcases List.mem_map.1 htraced with ⟨path, _, rfl⟩
        simpa using horigin
  · split at h
    · simp at h
    · rcases List.mem_map.1 h with ⟨signal, _, rfl⟩
      cases horigin

theorem backlogDropped_observe {pipeline : EventPipeline} {o : Outside} {store : Store}
    {sources : List Source} {pc : ObservationPc} {progress : ObservationProgress}
    (hinv : pc.BacklogDropped pipeline)
    (hpoll : ∀ state next source, pc = .polling state next → sources[next]? = some source →
      source.backlogDropped pipeline state.currentLevel = true)
    (hstep : ObservationStep pipeline o store sources pc progress) :
    progress.pc.BacklogDropped pipeline ∧ ∀ e ∈ progress.effects, e.StoresPermitted := by
  cases hstep with
  | @polled state next source hsource =>
      -- the guard has looked at the queue that this poll drains
      refine ⟨?_, by simp [Effect.StoresPermitted]⟩
      intro traced htraced horigin
      rcases origin_of_poll htraced horigin with ⟨notification, hmem, hpermitted, hsignal⟩
      have hdropped := List.all_eq_true.1 (hpoll state next source rfl hsource) notification hmem
      simp only [hpermitted, Bool.false_or, List.all_eq_true, Bool.not_eq_true'] at hdropped
      exact hdropped traced hsignal
  | dropped => exact ⟨fun traced htraced => hinv traced (by simp [htraced]), by simp⟩
  | @stored state next traced signals event hprocess =>
      refine ⟨fun traced htraced => hinv traced (by simp [htraced]), ?_⟩
      simp only [List.mem_singleton, forall_eq]
      -- what is stored was kept by the pipeline, so it was not in the dropped backlog
      have hkeeps := EventPipeline.keeps_of_process hprocess
      cases horigin : traced.origin with
      | polled => trivial
      | fileOperation permitted =>
          cases permitted with
          | true => rfl
          | false => rw [hinv traced (by simp) horigin] at hkeeps; cases hkeeps
  | _ => exact ⟨trivial, by simp⟩

theorem backlogDropped_step {ext : Externals} {app app' : App} {action : Action}
    {es : List Effect} (hinv : app.observation.BacklogDropped (.new ext.redactor))
    (hsafe : pauseSafe ext app action = true)
    (h : (machine ext).step app action = some (app', es)) :
    app'.observation.BacklogDropped (.new ext.redactor) ∧ ∀ e ∈ es, e.StoresPermitted := by
  have hstep := appStep_of_step h
  have hquiet := observation_of_appStep hstep
  cases hstep with
  | @observe vault database process o progress hobserve =>
      refine backlogDropped_observe hinv ?_ hobserve
      intro state next source hpc hsource
      replace hpc : process.observation = .polling state next := hpc
      simpa [pauseSafe, App.pollsNext, App.observation, App.sources, hpc, hsource] using hsafe
  | _ =>
      rcases hquiet (by rintro o ⟨⟩) with ⟨htask, hpc⟩
      refine ⟨?_, fun e he => storesPermitted_of_task (htask e he)⟩
      rcases hpc with hpc | hpc | ⟨hpc, _⟩ <;> rw [hpc]
      · trivial
      · trivial
      · exact hinv

/-- Along every run whose steps meet `pauseSafe`, no stored event comes from a file operation that
happened while observation was not permitted. -/
theorem stored_permitted_of_pauseSafe {ext : Externals} {app : App} {history : List Effect}
    (hreach : (machine ext).Reach App.Initial
      (fun app action => pauseSafe ext app action = true) app history)
    {event : EventSummary} {permitted : Bool} {row : Option PrivacyState}
    (hstored : .stored event (.fileOperation permitted) row ∈ history) : permitted = true := by
  have hinv := hreach.emits (fun app => app.observation.BacklogDropped (.new ext.redactor))
    Effect.StoresPermitted ?_ ?_
  · exact hinv.2 _ hstored
  · rintro app ⟨_, hprocess⟩
    simp [App.observation, hprocess, ObservationPc.BacklogDropped]
  · intro app action app' es hinv hsafe hstep
    exact backlogDropped_step hinv hsafe hstep

/-- A file is created. -/
def fileCreated : Action := .operate 0 (some ⟨.create, ["/w/a.txt"]⟩)

/-- A launch, the consent, a file operation, and a tick up to its first insertion. -/
def watchedRun : List Action :=
  .launch (.plain (.repeating 1) [.watcher]) :: Action.consenting 0 2 ++
    [fileCreated, .notify 0, .observe (.plain 0), .observe (.plain 0), .observe (.plain 0)]

/-- The history stores a file operation, permitted or not. -/
def storesOperation (permitted : Bool) (history : List Effect) : Bool :=
  history.any fun
    | .stored _ (.fileOperation p) _ => p == permitted
    | _ => false

theorem exists_stored {permitted : Bool} {history : List Effect}
    (h : storesOperation permitted history = true) :
    ∃ event row, .stored event (.fileOperation permitted) row ∈ history := by
  rcases List.any_eq_true.1 h with ⟨e, hmem, he⟩
  split at he
  · rename_i event p row
    simp only [beq_iff_eq] at he
    exact ⟨event, row, he ▸ hmem⟩
  · cases he

theorem stored_permitted_watchedRun :
    ∃ app history event permitted row,
      (machine .reference).Reach App.Initial
        (fun app action => pauseSafe .reference app action = true) app history ∧
      .stored event (.fileOperation permitted) row ∈ history ∧ permitted = true := by
  obtain ⟨app, history, hreach, htest⟩ := exists_run
    (fun app action => pauseSafe .reference app action = true)
    (fun _ history => storesOperation true history)
    watchedRun (by decide +kernel)
  rcases exists_stored htest with ⟨event, row, hmem⟩
  exact ⟨app, history, event, true, row, hreach, hmem, stored_permitted_of_pauseSafe hreach hmem⟩

/-- The first poll after the consent stores what happened before it. -/
theorem backlog_stored_after_consent :
    ¬ ∀ ext app history, (machine ext).Reach App.Initial Machine.always app history →
      ∀ event permitted row, .stored event (.fileOperation permitted) row ∈ history →
        permitted = true := by
  intro h
  obtain ⟨app, history, hreach, htest⟩ := exists_run Machine.always
    (fun _ history => storesOperation false history)
    (.launch (.plain (.repeating 1) [.watcher]) :: fileCreated :: .notify 0 ::
      Action.consenting 0 2 ++ [.observe (.plain 0), .observe (.plain 0), .observe (.plain 0)])
    (by decide +kernel)
  rcases exists_stored htest with ⟨event, row, hmem⟩
  cases h _ app history hreach event false row hmem

end Desktop
end HiddenSteps
