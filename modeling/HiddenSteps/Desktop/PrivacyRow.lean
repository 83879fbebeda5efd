import HiddenSteps.Desktop.Observing

/-!
# PrivacyRow — the privacy row at the moment of an insertion

A tick stores events under the privacy state it read at its start, while commands may write the
row.  Along the runs whose steps meet `rowSafe`, the row at the moment of every insertion permits
the event.
-/

namespace HiddenSteps
namespace Desktop

open EventStore Pipeline Systems

/-- Under a privacy state an event captured at a level may be stored. -/
def admits (row : PrivacyState) (level : PrivacyLevel) : Bool :=
  row.observationActive && decide (level ≤ row.currentLevel) &&
    !requiresReconsent row.consentedManifestVersion currentManifestVersion

theorem admits_of_permitsObservation {row : PrivacyState} (h : row.permitsObservation = true) :
    admits row row.currentLevel = true := by
  rw [PrivacyState.permitsObservation_iff] at h
  simp [admits, requiresReconsent, h]

/-- The state of the tick, while there is a signal to store or a source to poll in it. -/
def ObservationPc.mayStore (sources : Nat) : ObservationPc → Option PrivacyState
  | .polling state next => if next < sources then some state else none
  | .storing state next signals => if signals ≠ [] ∨ next < sources then some state else none
  | _ => none

/-- The privacy row that the next step of a command writes. -/
def Call.privacyWrite (call : Call) (o : Outside) : Option PrivacyState :=
  match call.pc, call.command, o.storeFault with
  | .writingState command current, _, none => some (command.apply current o.now)
  | .start, .deleteAllData, none => some (.initial o.now)
  | _, _, _ => none

/-- A command that writes the privacy row while a tick may still store leaves a row under which
events of the tick's level may be stored. -/
def rowSafe (app : App) : Action → Bool
  | .call id o =>
      ((app.call? id).bind fun call => call.privacyWrite o).all fun row =>
        (app.observation.mayStore app.sources.length).all fun state =>
          admits row state.currentLevel
  | _ => true

/-- While a tick may store, the row allows events of its level. -/
def RowInvariant (row : Option PrivacyState) (sources : Nat) (pc : ObservationPc) : Prop :=
  ∀ state, pc.mayStore sources = some state →
    ∃ current, row = some current ∧ admits current state.currentLevel = true

def Effect.FitsRow : Effect → Prop
  | .stored event _ row =>
      ∃ current, row = some current ∧ admits current event.privacyLevelAtCapture = true
  | _ => True

theorem fitsRow_of_task {e : Effect} (h : e.task ≠ .observation) : e.FitsRow := by
  cases e <;> first | exact absurd rfl h | trivial

/-- A command writes the row that `privacyWrite` says, or leaves the row alone. -/
theorem privacyState_of_callStep {call : Call} {o : Outside} {shared : Shared}
    {progress : Progress} (h : CallStep call o shared call.pc progress) :
    progress.shared.store.privacyState = shared.store.privacyState ∨
      ∃ row, call.privacyWrite o = some row ∧
        progress.shared.store.privacyState = shared.store.privacyState.map fun _ => row := by
  rcases call with ⟨command, pc, eventSeq⟩
  cases h with
  | erased hcommand hstore | erasedLate hcommand hstore =>
      obtain rfl : command = .deleteAllData := hcommand
      exact Or.inr ⟨.initial o.now, by simp [Call.privacyWrite, hstore], rfl⟩
  | stateWritten hstore =>
      exact Or.inr ⟨_, by simp [Call.privacyWrite, hstore], rfl⟩
  | providerActivated hactive =>
      rcases Store.setActiveLlmProvider_eq_ok hactive with ⟨providers, rfl⟩
      exact Or.inl rfl
  | logged hstore =>
      rcases hstore with rfl | rfl <;> exact Or.inl rfl
  | _ => exact Or.inl rfl

theorem rowInvariant_of_mayStore {row : Option PrivacyState} {sources : Nat}
    {pc pc' : ObservationPc} (hinv : RowInvariant row sources pc)
    (himp : ∀ state, pc'.mayStore sources = some state → pc.mayStore sources = some state) :
    RowInvariant row sources pc' :=
  fun state hstate => hinv state (himp state hstate)

theorem mayStore_cons {state state' : PrivacyState} {next sources : Nat} {traced : TracedSignal}
    {signals : List TracedSignal}
    (h : (ObservationPc.storing state next signals).mayStore sources = some state') :
    (ObservationPc.storing state next (traced :: signals)).mayStore sources = some state' := by
  simp only [ObservationPc.mayStore] at h ⊢
  split at h
  · simpa using h
  · cases h

theorem rowInvariant_observe {pipeline : EventPipeline} {o : Outside} {store : Store}
    {sources : List Source} {pc : ObservationPc} {progress : ObservationProgress}
    (hinv : RowInvariant store.privacyState sources.length pc)
    (hstep : ObservationStep pipeline o store sources pc progress) :
    RowInvariant progress.store.privacyState progress.sources.length progress.pc ∧
      ∀ e ∈ progress.effects, e.FitsRow := by
  cases hstep with
  | @began state hstore hread hpermits =>
      -- the tick takes its state from the row
      refine ⟨?_, by simp⟩
      intro state' hstate
      simp only [ObservationPc.mayStore] at hstate
      split at hstate
      · cases hstate
        exact ⟨state, hread, admits_of_permitsObservation hpermits⟩
      · cases hstate
  | @polled state next source hsource =>
      -- the source was counted before it was polled
      have hnext : next < sources.length := (List.getElem?_eq_some_iff.1 hsource).1
      rw [List.length_set]
      refine ⟨rowInvariant_of_mayStore hinv ?_, by simp [Effect.FitsRow]⟩
      intro state' hstate
      simp only [ObservationPc.mayStore, hnext, if_true] at hstate ⊢
      split at hstate
      · exact hstate
      · cases hstate
  | sourceEnded =>
      refine ⟨rowInvariant_of_mayStore hinv ?_, by simp⟩
      intro state' hstate
      simpa [ObservationPc.mayStore] using hstate
  | dropped => exact ⟨rowInvariant_of_mayStore hinv fun _ => mayStore_cons, by simp⟩
  | @stored state next traced signals event hprocess =>
      refine ⟨rowInvariant_of_mayStore hinv fun _ => mayStore_cons, ?_⟩
      rcases hinv state (by simp [ObservationPc.mayStore]) with ⟨current, hrow, hadmits⟩
      simp only [List.mem_singleton, forall_eq]
      refine ⟨current, hrow, ?_⟩
      rw [show event.privacyLevelAtCapture = state.currentLevel from (process_level hprocess).1]
      exact hadmits
  | _ => exact ⟨fun state hstate => (by cases hstate), by simp⟩

theorem rowInvariant_step {ext : Externals} {app app' : App} {action : Action}
    {es : List Effect}
    (hinv : RowInvariant app.privacyRow app.sources.length app.observation)
    (hsafe : rowSafe app action = true) (h : (machine ext).step app action = some (app', es)) :
    RowInvariant app'.privacyRow app'.sources.length app'.observation ∧
      ∀ e ∈ es, e.FitsRow := by
  have hstep := appStep_of_step h
  have hquiet := observation_of_appStep hstep
  cases hstep with
  | observe hobserve => exact rowInvariant_observe hinv hobserve
  | launch hprocess =>
      refine ⟨?_, by simp⟩
      intro state hstate
      rcases launch_observation hprocess with hpc | hpc <;> rw [hpc] at hstate <;> cases hstate
  | exit => exact ⟨fun state hstate => (by cases hstate), by simp⟩
  | @call vault database process id o call progress hcall hcallStep =>
      refine ⟨?_, fun e he => fitsRow_of_task ((hquiet (by rintro o ⟨⟩)).1 e he)⟩
      intro state hstate
      rcases hinv state hstate with ⟨current, hrow, hadmits⟩
      replace hrow : database.store.privacyState = some current := hrow
      -- a write replaces the row of the invariant by one that the guard has compared with the tick
      rcases privacyState_of_callStep hcallStep with hsame | ⟨row, hwrite, hnew⟩
      · exact ⟨current, hsame.trans hrow, hadmits⟩
      · refine ⟨row, hnew.trans ?_, ?_⟩
        · show Option.map _ database.store.privacyState = _
          rw [hrow]
          rfl
        · have hstate : process.observation.mayStore process.sources.length = some state := hstate
          simpa [rowSafe, App.call?, hcall, hwrite, App.observation, App.sources, hstate]
            using hsafe
  | @sweep vault database process o progress hsweep =>
      refine ⟨?_, fun e he => fitsRow_of_task ((hquiet (by rintro o ⟨⟩)).1 e he)⟩
      have hrow : App.privacyRow ⟨vault, some { database with store := progress.store },
          some { process with sweep := progress.pc }⟩ = database.store.privacyState :=
        (unchanged_of_sweepStep hsweep).1
      rw [hrow]
      exact hinv
  | invoke => exact ⟨hinv, by simp⟩
  | @operate vault database process source event =>
      refine ⟨?_, by simp⟩
      have hsources : (App.operate database process source event).sources.length =
          process.sources.length := by simp [App.operate]
      show RowInvariant _ (App.operate database process source event).sources.length _
      rw [hsources]
      exact hinv
  | @notify vault database process source =>
      refine ⟨?_, by simp⟩
      have hsources : (App.deliver process source).sources.length = process.sources.length := by
        simp [App.deliver]
      show RowInvariant _ (App.deliver process source).sources.length _
      rw [hsources]
      exact hinv

/-- Along every run whose steps meet `rowSafe`, the stored privacy row permits every event at the
moment it is inserted: observation is active, the level is that of the event or above, and no
re-consent is pending. -/
theorem stored_fits_row_of_rowSafe {ext : Externals} {app : App} {history : List Effect}
    (hreach : (machine ext).Reach App.Initial
      (fun app action => rowSafe app action = true) app history)
    {event : EventSummary} {origin : Origin} {row : Option PrivacyState}
    (hstored : .stored event origin row ∈ history) :
    ∃ current, row = some current ∧ current.observationActive = true ∧
      event.privacyLevelAtCapture ≤ current.currentLevel ∧
      requiresReconsent current.consentedManifestVersion currentManifestVersion = false := by
  have hinv := hreach.emits
    (fun app => RowInvariant app.privacyRow app.sources.length app.observation)
    Effect.FitsRow ?_ ?_
  · rcases hinv.2 _ hstored with ⟨current, hrow, hadmits⟩
    refine ⟨current, hrow, ?_⟩
    simpa [admits, and_assoc] using hadmits
  · rintro app ⟨_, hprocess⟩ state hstate
    simp [App.observation, hprocess, ObservationPc.mayStore] at hstate
  · intro app action app' es hinv hsafe hstep
    exact rowInvariant_step hinv hsafe hstep

theorem stored_fits_row_watchedRun :
    ∃ app history event row,
      (machine .reference).Reach App.Initial
        (fun app action => rowSafe app action = true) app history ∧
      .stored event (.fileOperation true) row ∈ history ∧
      ∃ current, row = some current ∧ current.observationActive = true ∧
        event.privacyLevelAtCapture ≤ current.currentLevel ∧
        requiresReconsent current.consentedManifestVersion currentManifestVersion = false := by
  obtain ⟨app, history, hreach, htest⟩ := exists_run
    (fun app action => rowSafe app action = true)
    (fun _ history => storesOperation true history)
    watchedRun (by decide +kernel)
  rcases exists_stored htest with ⟨event, row, hmem⟩
  exact ⟨app, history, event, row, hreach, hmem, stored_fits_row_of_rowSafe hreach hmem⟩

/-- An event is stored while the row says that observation is off. -/
def Effect.storedWhilePaused : Effect → Bool
  | .stored _ _ (some row) => !row.observationActive
  | _ => false

/-- An event of a tick is stored after a pause has returned. -/
theorem stored_after_pause :
    ¬ ∀ ext app history, (machine ext).Reach App.Initial Machine.always app history →
      ∀ event origin row, .stored event origin row ∈ history →
        ∃ current, row = some current ∧ current.observationActive = true ∧
          event.privacyLevelAtCapture ≤ current.currentLevel ∧
          requiresReconsent current.consentedManifestVersion currentManifestVersion = false := by
  intro h
  obtain ⟨app, history, hreach, htest⟩ := exists_run Machine.always
    (fun _ history => history.any Effect.storedWhilePaused)
    (.launch (.plain (.repeating 1) [.watcher]) :: Action.consenting 0 2 ++
      [fileCreated, .notify 0, .observe (.plain 0), .observe (.plain 0)] ++
      Action.complete 3 .pauseObservation 4 ++ [.observe (.plain 0)]) (by decide +kernel)
  rcases List.any_eq_true.1 htest with ⟨e, hmem, he⟩
  cases e with
  | stored event origin row =>
      rcases h _ app history hreach event origin row hmem with ⟨current, hrow, hactive, _⟩
      subst hrow
      simp [Effect.storedWhilePaused, hactive] at he
  | _ => cases he

end Desktop
end HiddenSteps
