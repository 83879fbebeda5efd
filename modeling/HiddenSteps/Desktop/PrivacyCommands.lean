import HiddenSteps.Desktop.App
import HiddenSteps.Systems.ReadModifyWrite

/-!
# PrivacyCommands — concurrent commands on the privacy row

The commands on the privacy state read the row in one store call and write it back in another.
Their interleavings are those of tasks that read, modify and write; an interleaving has a
sequential outcome exactly if no command's field is lost.
-/

namespace HiddenSteps
namespace Desktop

open EventStore PrivacyEngine Systems

/-! ## The fields of the row -/

inductive PrivacyField where
  | currentLevel
  | observationActive
  | consentedManifestVersion
  deriving DecidableEq, Repr

namespace PrivacyField

def Value : PrivacyField → Type
  | currentLevel => PrivacyLevel
  | observationActive => Bool
  | consentedManifestVersion => Int

instance (f : PrivacyField) : DecidableEq f.Value :=
  match f with
  | currentLevel => inferInstanceAs (DecidableEq PrivacyLevel)
  | observationActive => inferInstanceAs (DecidableEq Bool)
  | consentedManifestVersion => inferInstanceAs (DecidableEq Int)

def get : (f : PrivacyField) → PrivacyState → f.Value
  | currentLevel, state => state.currentLevel
  | observationActive, state => state.observationActive
  | consentedManifestVersion, state => state.consentedManifestVersion

end PrivacyField

namespace PrivacyCommand

/-- The value that a command sets a field to, if it sets it. -/
def value (command : PrivacyCommand) : (f : PrivacyField) → Option f.Value
  | .currentLevel =>
      match command with
      | setLevel _ effective _ => some effective
      | _ => none
  | .observationActive =>
      match command with
      | completeOnboarding | resume => some true
      | pause => some false
      | _ => none
  | .consentedManifestVersion =>
      match command with
      | acknowledgeManifest => some HiddenSteps.currentManifestVersion
      | _ => none

/-- The write of a command: a change of the row it read, at a time. -/
def write (command : PrivacyCommand) (now : Timestamp) (current : PrivacyState) : PrivacyState :=
  command.apply current now

theorem get_write (f : PrivacyField) (command : PrivacyCommand) (now : Timestamp)
    (current : PrivacyState) :
    f.get (command.write now current) = (command.value f).getD (f.get current) := by
  cases f <;> cases command <;> rfl

theorem value_unique (command : PrivacyCommand) (f g : PrivacyField)
    (hf : (command.value f).isSome) (hg : (command.value g).isSome) : f = g := by
  cases f <;> cases g <;> first | rfl | (cases command <;> simp [value] at hf hg)

end PrivacyCommand

/-! ## The commands of the program are such tasks -/

/-- The change of the row that a command stands for, under a policy. -/
def Command.privacyCommand? (policy : EnterprisePolicy) : Command → Option PrivacyCommand
  | .setPrivacyLevel request => (checkPrivacyLevel policy request).toOption
  | .completeOnboarding => some .completeOnboarding
  | .acknowledgePrivacyManifest => some .acknowledgeManifest
  | .pauseObservation => some .pause
  | .resumeObservation => some .resume
  | _ => none

namespace Call

/-- Where a call stands as a task. -/
def phase (call : Call) : ReadModifyWrite.Phase PrivacyState :=
  match call.pc with
  | .start | .readingState _ => .waiting
  | .writingState _ current => .holding current
  | _ => .done

/-- A call that carries out a change of the row. -/
def Performs (policy : EnterprisePolicy) (call : Call) (command : PrivacyCommand) : Prop :=
  call.command.privacyCommand? policy = some command ∧
    match call.pc with
    | .start | .logging _ _ | .returned _ => True
    | .readingState c | .writingState c _ => c = command
    | _ => False

theorem start_of_privacyCommand {policy : EnterprisePolicy} {call : Call} {o : Outside}
    {shared : Shared} {command : PrivacyCommand}
    (h : call.command.privacyCommand? policy = some command) :
    startStep policy call o shared = goOn shared (.readingState command) := by
  rcases call with ⟨command', pc, eventSeq⟩
  cases command' with
  | setPrivacyLevel request =>
      simp only [Command.privacyCommand?] at h
      simp only [startStep]
      cases hcheck : checkPrivacyLevel policy request with
      | error message => simp [hcheck, Except.toOption] at h
      | ok c =>
          rw [hcheck] at h
          cases h
          rfl
  | completeOnboarding | acknowledgePrivacyManifest | pauseObservation | resumeObservation =>
      cases h
      rfl
  | _ => cases h

end Call

/-- The row and the calls as a state of reading, modifying and writing tasks. -/
def taskState (row : PrivacyState) (calls : List Call) : ReadModifyWrite.State PrivacyState :=
  { shared := row, phases := calls.map Call.phase }

theorem forall₂_set {α β : Type} {R : α → β → Prop} {l : List α} {l' : List β} {i : Nat} {a : α}
    (h : List.Forall₂ R l l') (ha : l[i]? = some a) :
    ∃ b, l'[i]? = some b ∧ R a b ∧ ∀ a', R a' b → List.Forall₂ R (l.set i a') l' := by
  induction h generalizing i with
  | nil => simp at ha
  | @cons x y xs ys hxy hrest ih =>
      cases i with
      | zero =>
          simp only [List.getElem?_cons_zero, Option.some.injEq] at ha
          subst ha
          exact ⟨y, rfl, hxy, fun a' ha' => .cons ha' hrest⟩
      | succ i =>
          rcases ih (by simpa using ha) with ⟨b, hb, hab, hset⟩
          exact ⟨b, by simpa using hb, hab, fun a' ha' => .cons hxy (hset a' ha')⟩

/-- A step that leaves the row and the phase of its call alone leaves the tasks alone. -/
theorem taskState_set {row : PrivacyState} {calls : List Call} {id : Nat} {call call' : Call}
    (hcall : calls[id]? = some call) (hphase : call'.phase = call.phase) :
    taskState row (calls.set id call') = taskState row calls := by
  refine congrArg (ReadModifyWrite.State.mk row) (List.ext_getElem? ?_)
  intro i
  rw [List.map_set, List.getElem?_set]
  split
  · rename_i hi
    subst hi
    split
    · simp [hcall, hphase]
    · rename_i hlast
      exact (List.getElem?_eq_none_iff.2 (not_lt.1 hlast)).symm
  · rfl

/-- A step of a call leaves the tasks where they are, or is a step of its task. -/
theorem taskStep_of_step {policy : EnterprisePolicy} {vault : Vault} {database : Database}
    {gate : DispatchGate} {calls : List Call} {tasks : List PrivacyCommand} {row : PrivacyState}
    {id : Nat} {o : Outside} {call : Call} {progress : Progress}
    (hcalls : List.Forall₂ (Call.Performs policy) calls tasks)
    (hrow : database.store.privacyState = some row) (hcall : calls[id]? = some call)
    (hstep : call.step policy o ⟨vault, database, gate⟩ = some progress)
    (hfault : o.storeFault = none) :
    ∃ row', progress.shared.store.privacyState = some row' ∧
      List.Forall₂ (Call.Performs policy) (calls.set id { call with pc := progress.pc }) tasks ∧
      (taskState row' (calls.set id { call with pc := progress.pc }) = taskState row calls ∨
        ReadModifyWrite.step PrivacyCommand.write tasks (taskState row calls) (id, o.now) =
          some (taskState row' (calls.set id { call with pc := progress.pc }))) := by
  rcases forall₂_set hcalls hcall with ⟨task, htask, ⟨hcommand, hpc⟩, hset⟩
  have hphase : (taskState row calls).phases[id]? = some call.phase := by
    simp [taskState, hcall]
  rcases call with ⟨command, pc, eventSeq⟩
  cases pc with
  | start =>
      have hprogress := hstep.symm.trans (congrArg some (Call.start_of_privacyCommand hcommand))
      cases hprogress
      exact ⟨row, hrow, hset _ ⟨hcommand, rfl⟩, Or.inl (taskState_set hcall rfl)⟩
  -- the task reads
  | readingState c =>
      obtain rfl : c = task := hpc
      have hread : database.store.getPrivacyState = .ok row := by
        rw [Store.getPrivacyState, hrow]
      simp only [Call.step, hfault, Call.guarded, Shared.store, hread, Option.some.injEq] at hstep
      subst hstep
      refine ⟨row, hrow, hset _ ⟨hcommand, rfl⟩, Or.inr ?_⟩
      simp only [ReadModifyWrite.step, htask, hphase, Call.phase]
      simp [taskState, List.map_set, Call.phase, Call.goOn]
  -- the task writes
  | writingState c current =>
      obtain rfl : c = task := hpc
      simp only [Call.step, hfault, Call.guarded, Option.some.injEq] at hstep
      subst hstep
      refine ⟨c.write o.now current, ?_, hset _ ⟨hcommand, trivial⟩, Or.inr ?_⟩
      · show Option.map _ database.store.privacyState = _
        rw [hrow]
        rfl
      · simp only [ReadModifyWrite.step, htask, hphase, Call.phase]
        simp [taskState, List.map_set, Call.phase, Call.goOn]
  | logging entry reply =>
      simp only [Call.step, hfault, Option.some.injEq] at hstep
      subst hstep
      exact ⟨row, hrow, hset _ ⟨hcommand, trivial⟩, Or.inl (taskState_set hcall rfl)⟩
  | returned result => cases hstep
  | _ => exact hpc.elim

/-- The calls of the running process carry out the tasks, and none has begun. -/
def App.Begins (policy : EnterprisePolicy) (tasks : List PrivacyCommand) (initial : PrivacyState)
    (app : App) : Prop :=
  ∃ vault database process, app = ⟨vault, some database, some process⟩ ∧
    process.policy = policy ∧ database.store.privacyState = some initial ∧
    List.Forall₂ (Call.Performs policy) process.calls tasks ∧
    taskState initial process.calls = ReadModifyWrite.start initial tasks

/-- Only calls step, and no store call of theirs fails. -/
def callsOnly : Action → Prop
  | .call _ o => o.storeFault = none
  | _ => False

/-- The row and the calls are what some interleaving of the tasks leads to. -/
def App.Interleaves (policy : EnterprisePolicy) (tasks : List PrivacyCommand)
    (initial : PrivacyState) (app : App) : Prop :=
  ∃ vault database process row schedule, app = ⟨vault, some database, some process⟩ ∧
    process.policy = policy ∧ database.store.privacyState = some row ∧
    List.Forall₂ (Call.Performs policy) process.calls tasks ∧
    ReadModifyWrite.run PrivacyCommand.write tasks (ReadModifyWrite.start initial tasks)
      schedule = some (taskState row process.calls)

theorem interleaves_step {ext : Externals} {policy : EnterprisePolicy}
    {tasks : List PrivacyCommand} {initial : PrivacyState} {app app' : App} {action : Action}
    {es : List Effect} (hinv : app.Interleaves policy tasks initial) (hcalls : callsOnly action)
    (h : (machine ext).step app action = some (app', es)) :
    app'.Interleaves policy tasks initial := by
  rcases hinv with ⟨vault, database, process, row, schedule, rfl, hpolicy, hrow, hperforms, hrun⟩
  cases action with
  | call id o =>
      replace h : App.run ext vault database process (.call id o) = some (app', es) := h
      simp only [App.run, bind, Option.bind_eq_some_iff, Option.some.injEq, Prod.mk.injEq] at h
      rcases h with ⟨call, hcall, progress, hstep, rfl, rfl⟩
      rw [hpolicy] at hstep
      obtain ⟨row', hrow', hperforms', htask⟩ :=
        taskStep_of_step hperforms hrow hcall hstep hcalls
      rcases htask with hsame | htask
      · exact ⟨_, _, _, row', schedule, rfl, hpolicy, hrow', hperforms', hsame ▸ hrun⟩
      · refine ⟨_, _, _, row', schedule ++ [(id, o.now)], rfl, hpolicy, hrow', hperforms', ?_⟩
        rw [ReadModifyWrite.run] at hrun ⊢
        rw [List.foldlM_append, hrun]
        simpa using htask
  | _ => exact hcalls.elim

/-- The runs of such calls are interleavings of the tasks. -/
theorem interleaves_of_reach {ext : Externals} {policy : EnterprisePolicy}
    {tasks : List PrivacyCommand} {initial : PrivacyState} {app : App} {history : List Effect}
    (hreach : (machine ext).Reach (App.Begins policy tasks initial)
      (fun _ action => callsOnly action) app history) :
    app.Interleaves policy tasks initial := by
  refine hreach.invariant (fun app _ => app.Interleaves policy tasks initial) ?_ ?_
  · rintro app ⟨vault, database, process, happ, hpolicy, hrow, hperforms, hstart⟩
    exact ⟨vault, database, process, initial, [], happ, hpolicy, hrow, hperforms,
      congrArg some hstart.symm⟩
  · intro app history action app' es hinv hcalls hstep
    exact interleaves_step hinv hcalls hstep

/-! ## Sequential outcomes -/

/-- Some sequential order of the commands ends with the level, the activity and the consented
version of a row. -/
def SequentialOutcome (commands : List PrivacyCommand) (initial final : PrivacyState) : Prop :=
  ∃ order : List (PrivacyCommand × Timestamp), (order.map Prod.fst).Perm commands ∧
    let row := order.foldl (fun row c => c.1.apply row c.2) initial
    final.currentLevel = row.currentLevel ∧ final.observationActive = row.observationActive ∧
      final.consentedManifestVersion = row.consentedManifestVersion

theorem sequentialOutcome_iff_serial {commands : List PrivacyCommand}
    {initial final : PrivacyState} :
    SequentialOutcome commands initial final ↔
      ReadModifyWrite.Serial PrivacyCommand.write PrivacyField.get commands initial final := by
  refine exists_congr fun order => and_congr_right ?_
  intro _
  constructor
  · rintro ⟨hlevel, hactive, hversion⟩ f
    cases f with
    | currentLevel => exact hlevel
    | observationActive => exact hactive
    | consentedManifestVersion => exact hversion
  · intro h
    exact ⟨h .currentLevel, h .observationActive, h .consentedManifestVersion⟩

/-- An interleaving of privacy commands has a sequential outcome exactly if no field is lost:
every field that a command sets is set by a command whose update is in the final row, or has had
the value of one of the commands from the start. -/
theorem privacyCommands_sequential_iff {commands : List PrivacyCommand} {initial : PrivacyState}
    {schedule : List (Nat × Timestamp)} {final : ReadModifyWrite.State PrivacyState}
    (hrun : ReadModifyWrite.run PrivacyCommand.write commands
      (ReadModifyWrite.start initial commands) schedule = some final) :
    SequentialOutcome commands initial final.shared ↔
      ReadModifyWrite.NoFieldLost PrivacyCommand.value PrivacyField.get commands initial
        (ReadModifyWrite.lineage commands schedule) := by
  rw [sequentialOutcome_iff_serial]
  refine ReadModifyWrite.serial_iff_noFieldLost ?_ ?_ hrun
  · intro f t w s
    exact PrivacyCommand.get_write f t w s
  · intro t f g
    exact PrivacyCommand.value_unique t f g

/-- Observation at level 2 under the current manifest. -/
def observingRow : PrivacyState :=
  { currentLevel := .workflowMetadata
    consentedManifestVersion := HiddenSteps.currentManifestVersion
    observationActive := true
    updatedAt := 0 }

/-- A pause and a change to level 3. -/
def pauseAndRaise : List PrivacyCommand :=
  [.pause, .setLevel .contextAware .contextAware ["metadata"]]

/-- One command after the other. -/
def inTurn : List (Nat × Timestamp) := [(0, 0), (0, 0), (1, 0), (1, 0)]

/-- Both commands read before either writes. -/
def overlapping : List (Nat × Timestamp) := [(0, 0), (1, 0), (0, 0), (1, 0)]

theorem privacyCommands_sequential_inTurn :
    ∃ final, ReadModifyWrite.run PrivacyCommand.write pauseAndRaise
        (ReadModifyWrite.start observingRow pauseAndRaise) inTurn = some final ∧
      final.phases = [.done, .done] ∧
      SequentialOutcome pauseAndRaise observingRow final.shared := by
  have hrun : ReadModifyWrite.run PrivacyCommand.write pauseAndRaise
      (ReadModifyWrite.start observingRow pauseAndRaise) inTurn =
      some
        { shared :=
            { observingRow with currentLevel := .contextAware, observationActive := false }
          phases := [.done, .done] } := by decide
  have hlineage : ReadModifyWrite.lineage pauseAndRaise inTurn =
      pauseAndRaise.map fun t => (t, (0 : Timestamp)) := by decide
  refine ⟨_, hrun, rfl, (privacyCommands_sequential_iff hrun).2 ?_⟩
  rintro f ⟨t, ht, hset⟩
  exact Or.inl ⟨(t, 0), hlineage ▸ List.mem_map_of_mem ht, hset⟩

/-- A change of the level that has read the row before a pause takes the pause back. -/
theorem pause_lost_to_levelChange :
    ¬ ∀ (commands : List PrivacyCommand) (initial : PrivacyState)
      (schedule : List (Nat × Timestamp)) (final : ReadModifyWrite.State PrivacyState),
      ReadModifyWrite.run PrivacyCommand.write commands
        (ReadModifyWrite.start initial commands) schedule = some final →
      (∀ phase ∈ final.phases, phase = .done) →
        SequentialOutcome commands initial final.shared := by
  intro h
  have hrun : ReadModifyWrite.run PrivacyCommand.write pauseAndRaise
      (ReadModifyWrite.start observingRow pauseAndRaise) overlapping =
      some
        { shared := { observingRow with currentLevel := .contextAware }
          phases := [.done, .done] } := by decide
  have hlineage : ReadModifyWrite.lineage pauseAndRaise overlapping =
      [(.setLevel .contextAware .contextAware ["metadata"], 0)] := by decide
  have hserial := sequentialOutcome_iff_serial.1 (h _ _ _ _ hrun (by simp))
  have hkept := ReadModifyWrite.noFieldLost_of_serial
    (fun f t w s => PrivacyCommand.get_write f t w s) hrun hserial
  rcases hkept .observationActive ⟨.pause, by decide, rfl⟩ with ⟨u, hu, hset⟩ | ⟨t, ht, hvalue⟩
  · rw [hlineage, List.mem_singleton] at hu
    subst hu
    cases hset
  · simp only [pauseAndRaise, List.mem_cons, List.not_mem_nil, or_false] at ht
    rcases ht with rfl | rfl <;> cases hvalue

end Desktop
end HiddenSteps
