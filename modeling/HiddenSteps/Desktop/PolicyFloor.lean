import HiddenSteps.Desktop.RowRule

/-!
# PolicyFloor — the floor of the enterprise policy and the level of the row

`set_privacy_level` applies the floor; the other commands, and a launch under a new policy, keep the
level they find.  Along the runs whose steps meet `floorSafe`, the level of the row is at least the
floor of the loaded policy whenever observation is active.
-/

namespace HiddenSteps

namespace EnterprisePolicy

/-- The level is at least the floor, if there is one. -/
def meetsFloor (policy : EnterprisePolicy) (level : PrivacyLevel) : Bool :=
  policy.privacyLevelFloor.all fun floor => decide (floor ≤ level.asU8)

/-- The floor, if there is one, is the number of a level. -/
def floorIsLevel (policy : EnterprisePolicy) : Bool :=
  policy.privacyLevelFloor.all fun floor => (PrivacyLevel.fromU8 floor).toOption.isSome

theorem floorIsLevel_of_parse {read : Except String EnterprisePolicy} {policy : EnterprisePolicy}
    (h : parse read = .ok policy) : policy.floorIsLevel = true := by
  unfold parse at h
  split at h
  · cases h
  · split at h
    · rename_i hfloor
      cases h
      simp [floorIsLevel, hfloor]
    · rename_i floor hfloor
      split at h
      · cases h
      · rename_i level hlevel
        cases h
        simp [floorIsLevel, hfloor, hlevel, Except.toOption]

theorem parse_of_floorIsLevel {policy : EnterprisePolicy} (h : policy.floorIsLevel = true) :
    parse (.ok policy) = .ok policy := by
  unfold parse
  cases hfloor : policy.privacyLevelFloor with
  | none => simp [hfloor]
  | some floor =>
      cases hlevel : PrivacyLevel.fromU8 floor with
      | error e => simp [floorIsLevel, hfloor, hlevel, Except.toOption] at h
      | ok level => simp [hfloor, hlevel]

theorem asU8_of_fromU8 {value : Nat} {level : PrivacyLevel}
    (h : PrivacyLevel.fromU8 value = .ok level) : level.asU8 = value := by
  unfold PrivacyLevel.fromU8 at h
  split at h
  · rename_i found hfind
    cases h
    simpa using List.find?_some hfind
  · cases h

/-- The level that `set_privacy_level` writes is at least the floor. -/
theorem meetsFloor_effectivePrivacyLevel {policy : EnterprisePolicy}
    (h : policy.floorIsLevel = true) (userChoice : PrivacyLevel) :
    policy.meetsFloor (policy.effectivePrivacyLevel userChoice) = true := by
  unfold meetsFloor effectivePrivacyLevel
  cases hfloor : policy.privacyLevelFloor with
  | none => rfl
  | some floor =>
      cases hlevel : PrivacyLevel.fromU8 floor with
      | error e => simp [floorIsLevel, hfloor, hlevel, Except.toOption] at h
      | ok level =>
          have hvalue : level.asU8 = floor := asU8_of_fromU8 hlevel
          have hbound : ∀ l : PrivacyLevel, level ≤ l → floor ≤ l.asU8 := by
            intro l hl
            rw [← hvalue]
            exact hl
          simp only [Option.bind_some, hlevel, Except.toOption, Option.all_some,
            decide_eq_true_eq]
          split
          · exact hbound level le_rfl
          · rename_i hnot
            exact hbound userChoice (not_lt.1 hnot)

end EnterprisePolicy

namespace Desktop

open EventStore PrivacyEngine Systems

/-- The policy in the file of a launch has passed `EnterprisePolicy::parse`. -/
def Action.policyParsed : Action → Bool
  | .launch input => input.policyFile.all fun read => read.all EnterprisePolicy.floorIsLevel
  | _ => true

/-- These are the launches whose policy comes out of a file: absent, unparsable or parsed. -/
theorem policyParsed_launch_iff {input : LaunchInput} :
    Action.policyParsed (.launch input) = true ↔
      ∃ contents : Option (Except String EnterprisePolicy),
        input.policyFile = contents.map fun read => (EnterprisePolicy.parse read).toOption := by
  constructor
  · intro h
    cases hfile : input.policyFile with
    | none => exact ⟨none, rfl⟩
    | some read =>
        cases read with
        | none => exact ⟨some (.error "expected value at line 1 column 1"), rfl⟩
        | some policy =>
            refine ⟨some (.ok policy), ?_⟩
            have hfloor : policy.floorIsLevel = true := by
              simpa [Action.policyParsed, hfile] using h
            rw [Option.map_some, EnterprisePolicy.parse_of_floorIsLevel hfloor]
            rfl
  · rintro ⟨contents, hfile⟩
    cases contents with
    | none => simp [Action.policyParsed, hfile]
    | some read =>
        cases hparse : EnterprisePolicy.parse read with
        | error e => simp [Action.policyParsed, hfile, hparse, Except.toOption]
        | ok policy =>
            simpa [Action.policyParsed, hfile, hparse, Except.toOption] using
              EnterprisePolicy.floorIsLevel_of_parse hparse

/-! ## The loaded policy comes out of a file -/

/-- The loaded and the persisted policy have passed the parser. -/
structure App.PoliciesParsed (app : App) : Prop where
  loaded : ∀ policy, app.policy = some policy → policy.floorIsLevel = true
  persisted : ∀ policy, app.store.enterprisePolicy = some policy → policy.floorIsLevel = true

theorem enterprisePolicy_of_callStep {call : Call} {o : Outside} {shared : Shared}
    {progress : Progress} {pc : CallPc} (h : CallStep call o shared pc progress) :
    progress.shared.store.enterprisePolicy = shared.store.enterprisePolicy ∨
      progress.shared.store.enterprisePolicy = none := by
  cases h with
  | erased | erasedLate => exact Or.inr rfl
  | providerActivated hactive =>
      rcases Store.setActiveLlmProvider_eq_ok hactive with ⟨providers, rfl⟩
      exact Or.inl rfl
  | logged hstore => rcases hstore with rfl | rfl <;> exact Or.inl rfl
  | _ => exact Or.inl rfl

theorem floorIsLevel_resolveEnterprisePolicy {store : Store} {input : LaunchInput}
    (hstored : ∀ policy, store.enterprisePolicy = some policy → policy.floorIsLevel = true)
    (hparsed : Action.policyParsed (.launch input) = true) :
    (resolveEnterprisePolicy store input).1.floorIsLevel = true ∧
      ∀ policy, (resolveEnterprisePolicy store input).2.enterprisePolicy = some policy →
        policy.floorIsLevel = true := by
  unfold resolveEnterprisePolicy
  split
  · rename_i fromFile hfile
    have hfloor : fromFile.floorIsLevel = true := by
      simpa [Action.policyParsed, hfile] using hparsed
    refine ⟨hfloor, ?_⟩
    intro policy hpolicy
    simp only at hpolicy
    split at hpolicy
    · exact hstored policy hpolicy
    · cases hpolicy
      exact hfloor
  · refine ⟨?_, hstored⟩
    simp only
    split
    · rfl
    · cases hread : store.getEnterprisePolicy with
      | none => rfl
      | some policy => exact hstored policy hread

theorem policiesParsed_launch {app : App} {input : LaunchInput} (hinv : app.PoliciesParsed)
    (hparsed : Action.policyParsed (.launch input) = true) :
    (launch app input).PoliciesParsed := by
  rcases (launch_cases app input).2 with ⟨hfile, hsame⟩ | ⟨database, _, hopened, hfile, hstart⟩
  · constructor
    · intro policy hpolicy
      rw [App.policy, hsame] at hpolicy
      exact hinv.loaded policy hpolicy
    · intro policy hpolicy
      rw [App.store, hfile] at hpolicy
      exact hinv.persisted policy hpolicy
  · have hstored : ∀ policy, database.store.enterprisePolicy = some policy →
        policy.floorIsLevel = true := by
      intro policy hpolicy
      rcases Store.migrate_eq app.store input.now with ⟨_, _, hmigrate⟩
      rw [App.store_of_openStore hopened, hmigrate] at hpolicy
      exact hinv.persisted policy hpolicy
    obtain ⟨hloaded, hpersisted⟩ := floorIsLevel_resolveEnterprisePolicy hstored hparsed
    constructor
    · intro policy hpolicy
      rw [App.policy, hstart] at hpolicy
      cases hpolicy
      exact hloaded
    · intro policy hpolicy
      rw [App.store, hfile] at hpolicy
      exact hpersisted policy hpolicy

theorem policiesParsed_step {ext : Externals} {app app' : App} {action : Action}
    {es : List Effect} (hinv : app.PoliciesParsed) (hparsed : action.policyParsed = true)
    (h : (machine ext).step app action = some (app', es)) : app'.PoliciesParsed := by
  rcases hinv with ⟨hloaded, hpersisted⟩
  cases appStep_of_step h with
  | launch => exact policiesParsed_launch ⟨hloaded, hpersisted⟩ hparsed
  | exit => exact ⟨fun policy hpolicy => (by cases hpolicy), hpersisted⟩
  | call hcall hstep =>
      refine ⟨hloaded, ?_⟩
      intro policy hpolicy
      rcases enterprisePolicy_of_callStep hstep with hsame | hnone
      · exact hpersisted policy (hsame.symm.trans hpolicy)
      · cases hnone.symm.trans hpolicy
  | @observe vault database process o progress hstep =>
      refine ⟨hloaded, ?_⟩
      intro policy hpolicy
      replace hpolicy : progress.store.enterprisePolicy = some policy := hpolicy
      rcases store_of_observationStep hstep with hstore | ⟨event, hstore⟩ <;>
        rw [hstore] at hpolicy <;> exact hpersisted policy hpolicy
  | sweep hstep =>
      refine ⟨hloaded, ?_⟩
      intro policy hpolicy
      exact hpersisted policy ((configuration_of_sweepStep hstep).2.symm.trans hpolicy)
  | invoke => exact ⟨hloaded, hpersisted⟩
  | operate | notify => exact ⟨hloaded, hpersisted⟩

/-! ## The floor -/

/-- Under the policy, observation is off or the level meets the floor. -/
def respectsFloor (policy : EnterprisePolicy) (row : PrivacyState) : Bool :=
  !row.observationActive || policy.meetsFloor row.currentLevel

/-- The steps that turn observation on, or a policy, only over a level that meets the floor: a
launch opens a file whose row respects the floor of the policy it loads, and a write that turns
observation on keeps a level that meets the floor. -/
def floorSafe (app : App) : Action → Bool
  | .launch input =>
      !opens app input ||
        app.privacyRow.all (respectsFloor (resolveEnterprisePolicy app.store input).1)
  | .call id o =>
      match o.storeFault, app.policy, (app.call? id).map Call.pc with
      | none, some policy, some (.writingState .completeOnboarding current)
      | none, some policy, some (.writingState .resume current) =>
          policy.meetsFloor current.currentLevel
      | _, _, _ => true
  | _ => true

/-- While a process runs, its policy is respected. -/
def Floored (policy : Option EnterprisePolicy) (row : PrivacyState) : Prop :=
  ∀ p, policy = some p → respectsFloor p row = true

/-- A change of the level goes to one that meets the floor. -/
def PrivacyCommand.floored (policy : EnterprisePolicy) : PrivacyCommand → Prop
  | .setLevel _ effective _ => policy.meetsFloor effective = true
  | _ => True

theorem floorRule : RowRule (fun _ _ => ()) ()
    (fun app action => (floorSafe app action = true ∧ action.policyParsed = true) ∧
      app.PoliciesParsed)
    (fun policy row _ => Floored policy row) fun policy change => change.floored policy := by
  constructor
  · -- a fresh row is not active
    intro policy now p _
    rfl
  · intro policy row _ _ p hp
    cases hp
  · -- a launch loads a policy that the row respects
    intro app input row _ hguard hopens hrow _ p hp
    cases hp
    simpa [floorSafe, hopens, hrow] using hguard.1.1
  · intro app id o call policy change hguard _ hpolicy _ hcommand
    cases change with
    | setLevel requested effective acknowledged =>
        obtain ⟨_, rfl, _⟩ := setLevel_of_privacyCommand? hcommand
        exact EnterprisePolicy.meetsFloor_effectivePrivacyLevel
          (hguard.2.loaded policy hpolicy) requested
    | _ => trivial
  · intro app id o call policy change current _ hguard hcall hpolicy hstore hpc hfloored
      hcurrent p hp
    cases hp
    have hsafe := hguard.1.1
    simp only [floorSafe, hstore, hpolicy, hcall, Option.map_some, hpc] at hsafe
    cases change with
    | setLevel requested effective acknowledged =>
        exact Bool.or_eq_true_iff.2 (Or.inr hfloored)
    | completeOnboarding | resume => exact Bool.or_eq_true_iff.2 (Or.inr hsafe)
    | acknowledgeManifest => exact hcurrent policy rfl
    | pause => rfl

/-- Along every run whose steps meet `floorSafe`, the level of the row is at least the floor of the
loaded policy whenever observation is active. -/
theorem level_meets_floor_of_floorSafe {ext : Externals} {app : App} {history : List Effect}
    (hreach : (machine ext).Reach App.Initial
      (fun app action => floorSafe app action = true ∧ action.policyParsed = true) app history)
    {process : Process} {row : PrivacyState} {floor : Nat} (hprocess : app.process = some process)
    (hrow : app.privacyRow = some row) (hactive : row.observationActive = true)
    (hfloor : process.policy.privacyLevelFloor = some floor) :
    floor ≤ row.currentLevel.asU8 := by
  obtain ⟨_, hstrong⟩ := hreach.strengthen
    (fun app hinit => App.PoliciesParsed.mk
      (by simp [App.policy, hinit.2]) (by simp [hinit.store_eq, Store.empty]))
    (fun app action app' es hinv hguard hstep => policiesParsed_step hinv hguard.2 hstep)
  rcases Machine.exists_watched hstrong with ⟨notes, hwatched⟩
  have hrespects : respectsFloor process.policy row = true :=
    (rowsHold_of_reach floorRule hwatched).stored row hrow process.policy
      (by rw [App.policy, hprocess]; rfl)
  simpa [respectsFloor, hactive, EnterprisePolicy.meetsFloor, hfloor] using hrespects

/-! ## Runs under a floor -/

/-- A launch that finds a policy file with a floor. -/
def LaunchInput.withFloor (floor : Nat) : LaunchInput :=
  { LaunchInput.plain (.repeating 1) [] with
    policyFile := some (some { EnterprisePolicy.unrestricted with privacyLevelFloor := some floor }) }

/-- Observation is active at a level, under a floor. -/
def observesUnder (floor : Nat) (level : PrivacyLevel) (app : App) : Bool :=
  app.process.any fun process => app.privacyRow.any fun row =>
    row.observationActive && row.currentLevel == level &&
      process.policy.privacyLevelFloor == some floor

theorem exists_observesUnder {floor : Nat} {level : PrivacyLevel} {app : App}
    (h : observesUnder floor level app = true) :
    ∃ process row, app.process = some process ∧ app.privacyRow = some row ∧
      row.observationActive = true ∧ row.currentLevel = level ∧
      process.policy.privacyLevelFloor = some floor := by
  rcases (Option.any_eq_true _ _).1 h with ⟨process, hprocess, h⟩
  rcases (Option.any_eq_true _ _).1 h with ⟨row, hrow, h⟩
  simp only [Bool.and_eq_true, beq_iff_eq] at h
  exact ⟨process, row, hprocess, hrow, h.1.1, h.1.2, h.2⟩

/-- The level is set before observation is turned on. -/
theorem level_meets_floor_raisedRun :
    ∃ app history process row,
      (machine .reference).Reach App.Initial
        (fun app action => floorSafe app action = true ∧ action.policyParsed = true)
        app history ∧
      app.process = some process ∧ app.privacyRow = some row ∧ row.observationActive = true ∧
      process.policy.privacyLevelFloor = some 2 ∧ 2 ≤ row.currentLevel.asU8 := by
  obtain ⟨app, history, hreach, htest⟩ := exists_run
    (fun app action => floorSafe app action = true ∧ action.policyParsed = true)
    (fun app _ => observesUnder 2 .workflowMetadata app)
    (.launch (.withFloor 2) :: Action.complete 0 (.setPrivacyLevel ⟨1, ["app_focus"]⟩) 4 ++
      Action.complete 1 .completeOnboarding 4) (by decide +kernel)
  rcases exists_observesUnder htest with ⟨process, row, hprocess, hrow, hactive, _, hfloor⟩
  exact ⟨app, history, process, row, hreach, hprocess, hrow, hactive, hfloor,
    level_meets_floor_of_floorSafe hreach hprocess hrow hactive hfloor⟩

/-- Onboarding that is completed first turns observation on at the manual level. -/
theorem observation_below_floor :
    ¬ ∀ ext app history, (machine ext).Reach App.Initial
        (fun _ action => action.policyParsed = true) app history →
      ∀ process row floor, app.process = some process → app.privacyRow = some row →
        row.observationActive = true → process.policy.privacyLevelFloor = some floor →
          floor ≤ row.currentLevel.asU8 := by
  intro h
  obtain ⟨app, history, hreach, htest⟩ := exists_run
    (fun _ action => action.policyParsed = true)
    (fun app _ => observesUnder 2 .manual app)
    (.launch (.withFloor 2) :: Action.complete 0 .completeOnboarding 4) (by decide +kernel)
  rcases exists_observesUnder htest with ⟨process, row, hprocess, hrow, hactive, hlevel, hfloor⟩
  have hbound := h _ app history hreach process row 2 hprocess hrow hactive hfloor
  rw [hlevel] at hbound
  exact absurd hbound (by decide)

end Desktop
end HiddenSteps
