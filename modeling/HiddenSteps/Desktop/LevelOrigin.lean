import HiddenSteps.Desktop.PolicyFloor

/-!
# LevelOrigin — which `set_privacy_level` the level of the row comes from

The note of a row is the change that put its level there; a write by another command keeps it, a
delete-all and a new file clear it.  Along the runs whose steps meet `acknowledgedSafe`, the change
behind a level other than manual carries acknowledged permissions.
-/

namespace HiddenSteps
namespace Desktop

open EventStore PrivacyEngine Systems

/-- The change behind the level after a further change. -/
def levelOrigin (origin : Option PrivacyCommand) (change : PrivacyCommand) :
    Option PrivacyCommand :=
  match change with
  | .setLevel _ _ _ => some change
  | _ => origin

/-- The notes of the rows after a step. -/
abbrev noteLevel (app : App) (action : Action) (notes : RowNotes (Option PrivacyCommand)) :
    RowNotes (Option PrivacyCommand) :=
  notes.next levelOrigin none app action

/-- The runs that note where the level of the row comes from. -/
abbrev LevelReach (ext : Externals) (guard : App → Action → Prop) :
    App × RowNotes (Option PrivacyCommand) → List Effect → Prop :=
  Machine.WatchedReach (machine ext) noteLevel (.start none) App.Initial guard

/-- A level that no permission was acknowledged for is only written under a policy that leaves the
manual level alone. -/
def acknowledgedSafe (app : App) : Action → Bool
  | .call id o =>
      match o.storeFault, app.policy, (app.call? id).map Call.pc with
      | none, some policy, some (.writingState (.setLevel .manual _ []) _) =>
          policy.effectivePrivacyLevel .manual == .manual
      | _, _, _ => true
  | _ => true

/-- A level other than manual comes from a change that acknowledges permissions. -/
def Acknowledged (row : PrivacyState) (origin : Option PrivacyCommand) : Prop :=
  row.currentLevel ≠ .manual → ∃ requested acknowledged,
    origin = some (.setLevel requested row.currentLevel acknowledged) ∧ acknowledged ≠ []

/-- What `set_privacy_level` has checked of the change it carries. -/
def PrivacyCommand.checked (policy : EnterprisePolicy) : PrivacyCommand → Prop
  | .setLevel requested effective acknowledged =>
      effective = policy.effectivePrivacyLevel requested ∧
        (requested ≠ .manual → acknowledged ≠ [])
  | _ => True

theorem acknowledgedRule : RowRule levelOrigin none
    (fun app action => acknowledgedSafe app action = true)
    (fun _ row origin => Acknowledged row origin) fun policy change => change.checked policy := by
  constructor
  · intro policy now hlevel
    exact absurd rfl hlevel
  · intro policy row origin h
    exact h
  · intro app input row origin _ _ _ h
    exact h
  · intro app id o call policy change _ _ _ _ hcommand
    cases change with
    | setLevel requested effective acknowledged => exact (setLevel_of_privacyCommand? hcommand).2
    | _ => trivial
  · intro app id o call policy change current origin hsafe hcall hpolicy hstore hpc hchecked
      hcurrent
    cases change with
    | setLevel requested effective acknowledged =>
        intro hlevel
        rcases hchecked with ⟨heffective, hacknowledged⟩
        refine ⟨requested, acknowledged, rfl, ?_⟩
        rintro rfl
        -- the request was for the manual level, which the guard says is left alone
        have hmanual : requested = .manual := by
          by_contra hrequested
          exact hacknowledged hrequested rfl
        subst hmanual
        apply hlevel
        show effective = .manual
        simpa [acknowledgedSafe, hstore, hpolicy, hcall, hpc, ← heffective] using hsafe
    -- the other commands keep the level and its origin
    | _ => exact hcurrent

/-- Along every run whose steps meet `acknowledgedSafe`, a level other than manual was put in the
row by a `set_privacy_level` that carried acknowledged permissions. -/
theorem level_acknowledged_of_acknowledgedSafe {ext : Externals}
    {watched : App × RowNotes (Option PrivacyCommand)} {history : List Effect}
    (hreach : LevelReach ext (fun app action => acknowledgedSafe app action = true) watched history)
    {row : PrivacyState} (hrow : watched.1.privacyRow = some row)
    (hlevel : row.currentLevel ≠ .manual) :
    ∃ requested acknowledged,
      watched.2.stored = some (.setLevel requested row.currentLevel acknowledged) ∧
        acknowledged ≠ [] :=
  (rowsHold_of_reach acknowledgedRule hreach).stored row hrow hlevel

/-- The row has a level, which comes from a given change. -/
def hasLevelFrom (level : PrivacyLevel) (origin : PrivacyCommand) (app : App)
    (notes : RowNotes (Option PrivacyCommand)) : Bool :=
  app.privacyRow.any fun row => row.currentLevel == level && notes.stored == some origin

theorem exists_hasLevelFrom {level : PrivacyLevel} {origin : PrivacyCommand} {app : App}
    {notes : RowNotes (Option PrivacyCommand)} (h : hasLevelFrom level origin app notes = true) :
    ∃ row, app.privacyRow = some row ∧ row.currentLevel = level ∧ notes.stored = some origin := by
  rcases (Option.any_eq_true _ _).1 h with ⟨row, hrow, h⟩
  simp only [Bool.and_eq_true, beq_iff_eq] at h
  exact ⟨row, hrow, h.1, h.2⟩

/-- A level is chosen and observation is turned on afterwards. -/
theorem level_acknowledged_consentedRun :
    ∃ watched history row,
      LevelReach .reference (fun app action => acknowledgedSafe app action = true)
        watched history ∧
      watched.1.privacyRow = some row ∧ row.currentLevel = .workflowMetadata ∧
      ∃ requested acknowledged,
        watched.2.stored = some (.setLevel requested row.currentLevel acknowledged) ∧
          acknowledged ≠ [] := by
  obtain ⟨watched, history, hreach, htest⟩ := exists_watched_run noteLevel (.start none)
    (fun app action => acknowledgedSafe app action = true)
    (hasLevelFrom .workflowMetadata (.setLevel .workflowMetadata .workflowMetadata ["app_focus"]))
    (.launch (.plain (.repeating 1) []) ::
      Action.complete 0 (.setPrivacyLevel ⟨2, ["app_focus"]⟩) 4 ++
        Action.complete 1 .completeOnboarding 4) (by decide +kernel)
  rcases exists_hasLevelFrom htest with ⟨row, hrow, hlevel, _⟩
  exact ⟨watched, history, row, hreach, hrow, hlevel,
    level_acknowledged_of_acknowledgedSafe hreach hrow (by rw [hlevel]; decide)⟩

/-- Under a floor, a request for the manual level without acknowledgements writes the floor. -/
theorem floor_written_unacknowledged :
    ¬ ∀ ext watched history,
      LevelReach ext (fun _ action => action.policyParsed = true) watched history →
        ∀ row, watched.1.privacyRow = some row → row.currentLevel ≠ .manual →
          ∃ requested acknowledged,
            watched.2.stored = some (.setLevel requested row.currentLevel acknowledged) ∧
              acknowledged ≠ [] := by
  intro h
  obtain ⟨watched, history, hreach, htest⟩ := exists_watched_run noteLevel (.start none)
    (fun _ action => action.policyParsed = true)
    (hasLevelFrom .workflowMetadata (.setLevel .manual .workflowMetadata []))
    (.launch (.withFloor 2) :: Action.complete 0 (.setPrivacyLevel ⟨0, []⟩) 4)
    (by decide +kernel)
  rcases exists_hasLevelFrom htest with ⟨row, hrow, hlevel, horigin⟩
  obtain ⟨requested, acknowledged, horigin', hne⟩ :=
    h _ watched history hreach row hrow (by rw [hlevel]; decide)
  rw [horigin, hlevel, Option.some.injEq, PrivacyCommand.setLevel.injEq] at horigin'
  exact hne horigin'.2.2.symm

end Desktop
end HiddenSteps
