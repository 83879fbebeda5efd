import HiddenSteps.Desktop.RowRule

/-!
# Onboarding — what `get_onboarding_state` reports and what has happened

The program keeps no flag for a completed onboarding; it reads the answer off the active flag and
the level of the row.  The note of a run is that flag: set when `complete_onboarding` writes the
row, cleared by a delete-all and by a new file.  Along the runs whose steps meet `onboardingSafe`,
the two agree.
-/

namespace HiddenSteps
namespace Desktop

open EventStore PrivacyEngine Systems

structure OnboardingState where
  completed : Bool
  deriving DecidableEq

/-- What the row says about the onboarding. -/
def reportsCompleted (row : PrivacyState) : Bool :=
  row.observationActive || row.currentLevel != .manual

def getOnboardingState (store : Store) : Except String OnboardingState :=
  match store.getPrivacyState with
  | .error e => .error e.message
  | .ok state => .ok { completed := reportsCompleted state }

/-- Whether `complete_onboarding` has succeeded, after a step: since the file was made and since the
last delete-all. -/
def noteOnboarding (app : App) (action : Action) (onboarded : Bool) : Bool :=
  match action with
  | .launch input =>
      if (launch app input).process.isSome && app.store.schemaVersions.isEmpty then false
      else onboarded
  | .call id o =>
      (app.call? id).elim onboarded fun call =>
        match call.privacyWrite o, call.pc with
        | some _, .writingState .completeOnboarding _ => true
        | some _, .start => false
        | _, _ => onboarded
  | _ => onboarded

/-- The runs that note whether onboarding has been completed. -/
abbrev OnboardingReach (ext : Externals) (guard : App → Action → Prop) :
    App × Bool → List Effect → Prop :=
  Machine.WatchedReach (machine ext) noteOnboarding false App.Initial guard

/-- The row that a change makes of the one it has read says of the onboarding what the stored row
says; completing it is free. -/
def PrivacyCommand.keepsCompleted (change : PrivacyCommand) (stored current : PrivacyState) :
    Bool :=
  match change with
  | .setLevel _ effective _ =>
      (current.observationActive || effective != .manual) == reportsCompleted stored
  | .completeOnboarding => true
  | .acknowledgeManifest => reportsCompleted current == reportsCompleted stored
  | .pause => (current.currentLevel != .manual) == reportsCompleted stored
  | .resume => reportsCompleted stored

/-- The writes of the row that keep the answer: a pause of a row whose level is not manual, a level
other than manual or a resumption after a completed onboarding. -/
def onboardingSafe (app : App) : Action → Bool
  | .call id o =>
      match o.storeFault, app.privacyRow, (app.call? id).map Call.pc with
      | none, some stored, some (.writingState change current) =>
          change.keepsCompleted stored current
      | _, _, _ => true
  | _ => true

theorem completed_apply {change : PrivacyCommand} {stored current : PrivacyState}
    (h : change.keepsCompleted stored current = true) (hchange : change ≠ .completeOnboarding)
    (now : Timestamp) :
    reportsCompleted (change.apply current now) = reportsCompleted stored := by
  cases change with
  | setLevel requested effective acknowledged => exact beq_iff_eq.1 h
  | completeOnboarding => exact absurd rfl hchange
  | acknowledgeManifest => exact beq_iff_eq.1 h
  | pause =>
      rw [← beq_iff_eq.1 h]
      rfl
  | resume =>
      have hstored : reportsCompleted stored = true := h
      rw [hstored]
      rfl

/-- The row says what the note says. -/
def Tracks (app : App) (onboarded : Bool) : Prop :=
  ∀ row, app.privacyRow = some row → reportsCompleted row = onboarded

theorem tracks_call {ext : Externals} {app app' : App} {onboarded : Bool} {id : Nat} {o : Outside}
    {es : List Effect} (hinv : Tracks app onboarded)
    (hsafe : onboardingSafe app (.call id o) = true)
    (h : (machine ext).step app (.call id o) = some (app', es)) :
    Tracks app' (noteOnboarding app (.call id o) onboarded) := by
  rcases call_of_step h with
    ⟨vault, database, process, call, progress, rfl, hcall, hstep, rfl, rfl⟩
  have hcall' : App.call? ⟨vault, some database, some process⟩ id = some call := hcall
  rw [noteOnboarding, hcall', Option.elim_some]
  intro row hrow'
  replace hrow' : progress.shared.store.privacyState = some row := hrow'
  cases privacyStep_of_step hstep with
  | quiet hwrite hrow | checked _ _ hwrite _ hrow | read _ _ _ hwrite _ hrow =>
      rw [hwrite]
      exact hinv row (hrow.symm.trans hrow')
  | written change current hpc hstore hrow =>
      rw [hrow] at hrow'
      rcases Option.map_eq_some_iff.1 hrow' with ⟨stored, hstored, rfl⟩
      have hrow : App.privacyRow ⟨vault, some database, some process⟩ = some stored := hstored
      have hkeeps : change.keepsCompleted stored current = true := by
        simpa [onboardingSafe, hstore, hrow, hcall', hpc] using hsafe
      have hwrite : call.privacyWrite o = some (change.apply current o.now) := by
        simp [Call.privacyWrite, hpc, hstore]
      rw [hwrite, hpc]
      by_cases hchange : change = .completeOnboarding
      · subst hchange
        rfl
      · calc reportsCompleted (change.apply current o.now)
            = reportsCompleted stored := completed_apply hkeeps hchange o.now
          _ = onboarded := hinv stored hrow
          _ = _ := by cases change <;> first | rfl | exact absurd rfl hchange
  | erased hpc hcommand hstore hrow =>
      rw [hrow] at hrow'
      rcases Option.map_eq_some_iff.1 hrow' with ⟨_, _, rfl⟩
      have hwrite : call.privacyWrite o = some (.initial o.now) := by
        simp [Call.privacyWrite, hpc, hcommand, hstore]
      rw [hwrite, hpc]
      rfl

theorem tracks_step {ext : Externals} {app app' : App} {onboarded : Bool} {action : Action}
    {es : List Effect} (hinv : Tracks app onboarded) (hsafe : onboardingSafe app action = true)
    (h : (machine ext).step app action = some (app', es)) :
    Tracks app' (noteOnboarding app action onboarded) := by
  cases action with
  | launch input =>
      cases appStep_of_step h with
      | launch hprocess =>
          intro row hrow'
          rcases row_of_launch input hprocess with ⟨hnone, hrow⟩ | ⟨process, hsome, _, _, _, hrow⟩
          · have hnote : noteOnboarding app (.launch input) onboarded = onboarded := by
              simp [noteOnboarding, hnone]
            rw [hnote]
            exact hinv row (hrow ▸ hrow')
          · rw [hrow] at hrow'
            cases hempty : app.store.schemaVersions.isEmpty with
            | true =>
                rw [hempty, if_pos rfl, Option.some.injEq] at hrow'
                subst hrow'
                simp [noteOnboarding, hsome, hempty, reportsCompleted, PrivacyState.initial]
            | false =>
                rw [hempty, if_neg Bool.false_ne_true] at hrow'
                have hnote : noteOnboarding app (.launch input) onboarded = onboarded := by
                  simp [noteOnboarding, hempty]
                rw [hnote]
                exact hinv row hrow'
  | call id o => exact tracks_call hinv hsafe h
  | _ =>
      intro row hrow'
      obtain ⟨hrow, _⟩ := row_of_step h (by rintro _ ⟨⟩) (by rintro _ _ ⟨⟩)
      exact hinv row (hrow ▸ hrow')

theorem privacyRow_of_getPrivacyState {app : App} {row : PrivacyState}
    (h : app.store.getPrivacyState = .ok row) : app.privacyRow = some row := by
  have hrow : app.store.privacyState = some row := privacyState_of_getPrivacyState h
  rw [App.store] at hrow
  rw [App.privacyRow]
  cases hfile : app.file with
  | none =>
      rw [hfile] at hrow
      cases hrow
  | some database =>
      rw [hfile] at hrow
      exact hrow

/-- Along every run whose steps meet `onboardingSafe`, `get_onboarding_state` says whether
`complete_onboarding` has succeeded, and observation is active only if it has. -/
theorem onboarding_tracked_of_onboardingSafe {ext : Externals} {watched : App × Bool}
    {history : List Effect}
    (hreach : OnboardingReach ext (fun app action => onboardingSafe app action = true)
      watched history) :
    (∀ state, getOnboardingState watched.1.store = .ok state →
        (state.completed = true ↔ watched.2 = true)) ∧
      ∀ row, watched.1.privacyRow = some row → row.observationActive = true →
        watched.2 = true := by
  have hinv : Tracks watched.1 watched.2 := by
    refine Machine.WatchedReach.invariant ?_ ?_ hreach
    · rintro app ⟨hfile, _⟩ row hrow
      simp [App.privacyRow, hfile] at hrow
    · intro app onboarded action app' es hinv hsafe hstep
      exact tracks_step hinv hsafe hstep
  constructor
  · intro state hstate
    unfold getOnboardingState at hstate
    split at hstate
    · cases hstate
    · rename_i row hread
      cases hstate
      rw [hinv row (privacyRow_of_getPrivacyState hread)]
  · intro row hrow hactive
    rw [← hinv row hrow, reportsCompleted, hactive]
    rfl

/-- The store reports whether onboarding is completed; the note is the given one. -/
def reportsUnder (completed onboarded : Bool) (app : App) (note : Bool) : Bool :=
  (getOnboardingState app.store).toOption == some { completed := completed } && note == onboarded

theorem getOnboardingState_of_reportsUnder {completed onboarded : Bool} {app : App} {note : Bool}
    (h : reportsUnder completed onboarded app note = true) :
    getOnboardingState app.store = .ok { completed := completed } ∧ note = onboarded := by
  simp only [reportsUnder, Bool.and_eq_true, beq_iff_eq] at h
  refine ⟨?_, h.2⟩
  cases hstate : getOnboardingState app.store with
  | error message =>
      rw [hstate] at h
      cases h.1
  | ok state =>
      rw [hstate] at h
      cases h.1
      rfl

/-- Onboarding is completed, a level is chosen, and observation is paused and resumed. -/
theorem onboarding_tracked_pausedRun :
    ∃ watched history,
      OnboardingReach .reference (fun app action => onboardingSafe app action = true)
        watched history ∧
      getOnboardingState watched.1.store = .ok { completed := true } ∧ watched.2 = true ∧
      (∀ state, getOnboardingState watched.1.store = .ok state →
          (state.completed = true ↔ watched.2 = true)) ∧
        ∀ row, watched.1.privacyRow = some row → row.observationActive = true →
          watched.2 = true := by
  obtain ⟨watched, history, hreach, htest⟩ := exists_watched_run noteOnboarding false
    (fun app action => onboardingSafe app action = true) (reportsUnder true true)
    (.launch (.plain (.repeating 1) []) :: Action.complete 0 .completeOnboarding 4 ++
      Action.complete 1 (.setPrivacyLevel ⟨2, ["app_focus"]⟩) 4 ++
      Action.complete 2 .pauseObservation 4 ++ Action.complete 3 .resumeObservation 4)
    (by decide +kernel)
  rcases getOnboardingState_of_reportsUnder htest with ⟨hstate, hnote⟩
  exact ⟨watched, history, hreach, hstate, hnote, onboarding_tracked_of_onboardingSafe hreach⟩

/-- Choosing a level reports a completed onboarding that has not taken place. -/
theorem onboarding_reported_uncompleted :
    ¬ ∀ ext watched history, OnboardingReach ext Machine.always watched history →
      (∀ state, getOnboardingState watched.1.store = .ok state →
          (state.completed = true ↔ watched.2 = true)) ∧
        ∀ row, watched.1.privacyRow = some row → row.observationActive = true →
          watched.2 = true := by
  intro h
  obtain ⟨watched, history, hreach, htest⟩ := exists_watched_run noteOnboarding false
    Machine.always (reportsUnder true false)
    (.launch (.plain (.repeating 1) []) ::
      Action.complete 0 (.setPrivacyLevel ⟨2, ["app_focus"]⟩) 4) (by decide +kernel)
  rcases getOnboardingState_of_reportsUnder htest with ⟨hstate, hnote⟩
  have hcompleted := ((h _ watched history hreach).1 _ hstate).1 rfl
  rw [hnote] at hcompleted
  cases hcompleted

end Desktop
end HiddenSteps
