import HiddenSteps.Desktop.PrivacySteps
import HiddenSteps.Systems.Watched

/-!
# RowRule — a rule for what holds of the privacy row along a run

Commands write back a row that they have read some steps before, so what is to hold of the stored
row has to hold of every row that a command holds as well.  A `RowRule` collects what is then left
to show: a fresh row has the property, a launch keeps it under its policy, and so does every change
that a command may carry.  Each row comes with a note of how it came about, which moves with it from
the store to a command and back.
-/

namespace HiddenSteps
namespace Desktop

open EventStore PrivacyEngine Systems

variable {ν : Type}

/-- The notes on the stored row and on the rows that commands hold, by the id of the command. -/
structure RowNotes (ν : Type) where
  stored : ν
  held : Nat → ν

namespace RowNotes

/-- The notes before there is a row. -/
def start (blank : ν) : RowNotes ν := { stored := blank, held := fun _ => blank }

/-- A step of a command: a read copies the note of the row, a write extends the copy by the change
and stores it, a delete-all leaves a fresh row. -/
def call (extend : ν → PrivacyCommand → ν) (blank : ν) (id : Nat) (call : Call) (o : Outside)
    (notes : RowNotes ν) : RowNotes ν :=
  match call.privacyWrite o, call.pc with
  | some _, .writingState change _ => { notes with stored := extend (notes.held id) change }
  | some _, _ => { notes with stored := blank }
  | none, .readingState _ => { notes with held := Function.update notes.held id notes.stored }
  | none, _ => notes

/-- The notes after a step of the device. -/
def next (extend : ν → PrivacyCommand → ν) (blank : ν) (app : App) (action : Action)
    (notes : RowNotes ν) : RowNotes ν :=
  match action with
  | .launch input =>
      -- the first launch that opens a file inserts the row
      if (launch app input).process.isSome && app.store.schemaVersions.isEmpty then
        { notes with stored := blank }
      else notes
  | .call id o => (app.call? id).elim notes fun call => notes.call extend blank id call o
  | _ => notes

variable {extend : ν → PrivacyCommand → ν} {blank : ν} {id : Nat} {c : Call} {o : Outside}
  {notes : RowNotes ν}

theorem stored_call_quiet (hwrite : c.privacyWrite o = none) :
    (notes.call extend blank id c o).stored = notes.stored := by
  unfold call
  rw [hwrite]
  cases c.pc <;> rfl

theorem held_call_ne {i : Nat} (hi : i ≠ id) :
    (notes.call extend blank id c o).held i = notes.held i := by
  unfold call
  split <;> first | rfl | exact Function.update_of_ne hi _ _

theorem call_reading {change : PrivacyCommand} (hpc : c.pc = .readingState change) :
    (notes.call extend blank id c o).held id = notes.stored := by
  have hwrite : c.privacyWrite o = none := by simp [Call.privacyWrite, hpc]
  simp [call, hwrite, hpc]

theorem call_writing {change : PrivacyCommand} {current : PrivacyState}
    (hpc : c.pc = .writingState change current) (hstore : o.storeFault = none) :
    (notes.call extend blank id c o).stored = extend (notes.held id) change := by
  simp [call, Call.privacyWrite, hpc, hstore]

theorem call_erasing (hpc : c.pc = .start) (hcommand : c.command = .deleteAllData)
    (hstore : o.storeFault = none) : (notes.call extend blank id c o).stored = blank := by
  simp [call, Call.privacyWrite, hpc, hcommand, hstore]

end RowNotes

/-- The policy of the running process. -/
def App.policy (app : App) : Option EnterprisePolicy :=
  app.process.map Process.policy

/-- A launch opens the file, or makes one. -/
def opens (app : App) (input : LaunchInput) : Bool :=
  !input.openFails &&
    app.file.all fun database => database.key == (resolveMasterKey app.vault input).1

/-- What is to be shown for a property of rows under a policy, `none` while no process runs.
`Carried` is what the changes carried by commands are known to meet. -/
structure RowRule (extend : ν → PrivacyCommand → ν) (blank : ν) (guard : App → Action → Prop)
    (Holds : Option EnterprisePolicy → PrivacyState → ν → Prop)
    (Carried : EnterprisePolicy → PrivacyCommand → Prop) : Prop where
  fresh : ∀ policy now, Holds policy (.initial now) blank
  ended : ∀ policy row n, Holds (some policy) row n → Holds none row n
  launched : ∀ app input row n, guard app (.launch input) → opens app input = true →
    app.privacyRow = some row → Holds none row n →
    Holds (some (resolveEnterprisePolicy app.store input).1) row n
  checked : ∀ app id o call policy change, guard app (.call id o) → app.call? id = some call →
    app.policy = some policy → call.pc = .start →
    call.command.privacyCommand? policy = some change → Carried policy change
  written : ∀ app id o call policy change current n, guard app (.call id o) →
    app.call? id = some call → app.policy = some policy → o.storeFault = none →
    call.pc = .writingState change current → Carried policy change →
    Holds (some policy) current n →
    Holds (some policy) (change.apply current o.now) (extend n change)

/-- The property holds of the stored row and of every row a command holds. -/
structure RowsHold (Holds : Option EnterprisePolicy → PrivacyState → ν → Prop)
    (Carried : EnterprisePolicy → PrivacyCommand → Prop) (app : App) (notes : RowNotes ν) :
    Prop where
  stored : ∀ row, app.privacyRow = some row → Holds app.policy row notes.stored
  held : ∀ id call change current policy, app.call? id = some call → app.policy = some policy →
    call.pc = .writingState change current → Holds (some policy) current (notes.held id)
  carried : ∀ id call change policy, app.call? id = some call → app.policy = some policy →
    call.pc.change? = some change → Carried policy change

/-! ## Steps that leave the row alone -/

theorem resolveEnterprisePolicy_migrate (store : Store) (now : Timestamp) (input : LaunchInput) :
    (resolveEnterprisePolicy (store.migrate now) input).1 =
      (resolveEnterprisePolicy store input).1 := by
  have hpolicy : (store.migrate now).getEnterprisePolicy = store.getEnterprisePolicy := by
    rcases Store.migrate_eq store now with ⟨_, _, hmigrate⟩
    rw [hmigrate]
    rfl
  unfold resolveEnterprisePolicy
  rw [hpolicy]
  split <;> rfl

theorem privacyState_resolveEnterprisePolicy (store : Store) (input : LaunchInput) :
    (resolveEnterprisePolicy store input).2.privacyState = store.privacyState := by
  rcases resolveEnterprisePolicy_store store input with ⟨_, hstore⟩
  rw [hstore]

/-- A launch starts no process and leaves the row alone, or starts one that has no commands, with
the stored row or a new one. -/
theorem row_of_launch {app : App} (input : LaunchInput) (hprocess : app.process = none) :
    ((launch app input).process = none ∧ (launch app input).privacyRow = app.privacyRow) ∨
      ∃ process, (launch app input).process = some process ∧ process.calls = [] ∧
        process.policy = (resolveEnterprisePolicy app.store input).1 ∧ opens app input = true ∧
        (launch app input).privacyRow =
          if app.store.schemaVersions.isEmpty then some (.initial input.now)
          else app.privacyRow := by
  rcases (launch_cases app input).2 with
    ⟨hfile, hsame⟩ | ⟨database, hopenFails, hopened, hfile, hstart⟩
  · exact Or.inl ⟨hsame.trans hprocess, by rw [App.privacyRow, hfile, App.privacyRow]⟩
  · refine Or.inr ⟨_, hstart, rfl, ?_, ?_, ?_⟩
    · show (resolveEnterprisePolicy database.store input).1 = _
      rcases openStore_eq_some hopened with ⟨_, ⟨hnone, hstore⟩ | ⟨old, hold, _, hstore⟩⟩
      · rw [hstore, resolveEnterprisePolicy_migrate, App.store, hnone]
      · rw [hstore, resolveEnterprisePolicy_migrate, App.store, hold]
    · rcases openStore_eq_some hopened with ⟨_, ⟨hnone, _⟩ | ⟨old, hold, hkey, _⟩⟩
      · simp [opens, hopenFails, hnone]
      · simp [opens, hopenFails, hold, hkey]
    · rw [App.privacyRow, hfile]
      show (resolveEnterprisePolicy database.store input).2.privacyState = _
      rw [privacyState_resolveEnterprisePolicy]
      rcases openStore_eq_some hopened with ⟨_, ⟨hnone, hstore⟩ | ⟨old, hold, _, hstore⟩⟩
      · rw [hstore, App.store, hnone]
        rfl
      · rw [hstore, App.store, App.privacyRow, hold, Store.migrate]
        split <;> rfl

/-- Behind a launch no command is under way and no sweep has begun. -/
theorem calls_launch {app : App} (input : LaunchInput) (hprocess : app.process = none) :
    (launch app input).calls = [] ∧ (∀ id, (launch app input).call? id = none) ∧
      (launch app input).sweep = .start := by
  rcases (launch_cases app input).2 with ⟨_, hsame⟩ | ⟨database, _, _, _, hstart⟩
  · simp [App.calls, App.call?, App.sweep, hsame, hprocess]
  · simp [App.calls, App.call?, App.sweep, hstart, Process.start]

/-- A step of a loop or of the process as a whole leaves the row, the policy and the commands under
way alone; a new command stands at its start. -/
theorem row_of_step {ext : Externals} {app app' : App} {action : Action} {es : List Effect}
    (h : (machine ext).step app action = some (app', es))
    (hlaunch : ∀ input, action ≠ .launch input) (hcall : ∀ id o, action ≠ .call id o) :
    app'.privacyRow = app.privacyRow ∧
      (app'.process = none ∧ (∃ policy, app.policy = some policy) ∨ app'.policy = app.policy) ∧
      ∀ id call, app'.call? id = some call → app.call? id = some call ∨ call.pc = .start := by
  cases appStep_of_step h with
  | launch => exact absurd rfl (hlaunch _)
  | call => exact absurd rfl (hcall _ _)
  | exit => exact ⟨rfl, Or.inl ⟨rfl, _, rfl⟩, fun id call hsome => (by cases hsome)⟩
  | @invoke vault database process command =>
      refine ⟨rfl, Or.inr rfl, ?_⟩
      intro id call hsome
      replace hsome : (process.calls ++ [Call.begin command database.store.eventSeq])[id]? =
        some call := hsome
      rw [List.getElem?_append] at hsome
      split at hsome
      · exact Or.inl hsome
      · rcases List.getElem?_eq_some_iff.1 hsome with ⟨hlt, hget⟩
        rw [List.getElem_singleton] at hget
        exact Or.inr (hget ▸ rfl)
  | @observe vault database process o progress hstep =>
      refine ⟨?_, Or.inr rfl, fun id call hsome => Or.inl hsome⟩
      show progress.store.privacyState = database.store.privacyState
      rcases store_of_observationStep hstep with hstore | ⟨event, hstore⟩ <;> rw [hstore]
      rfl
  | sweep hstep =>
      exact ⟨(unchanged_of_sweepStep hstep).1, Or.inr rfl, fun id call hsome => Or.inl hsome⟩
  | operate | notify => exact ⟨rfl, Or.inr rfl, fun id call hsome => Or.inl hsome⟩

theorem policy_of_step {app app' : App} {id : Nat} {call : Call} {policy : EnterprisePolicy}
    (hcall : app'.call? id = some call)
    (hpolicy : (app'.process = none ∧ ∃ policy, app.policy = some policy) ∨
      app'.policy = app.policy)
    (hsome : app'.policy = some policy) : app.policy = some policy := by
  rcases hpolicy with ⟨hnone, _⟩ | hsame
  · simp [App.call?, hnone] at hcall
  · exact hsame.symm.trans hsome

/-! ## The rule -/

section Rule

variable {extend : ν → PrivacyCommand → ν} {blank : ν} {guard : App → Action → Prop}
  {Holds : Option EnterprisePolicy → PrivacyState → ν → Prop}
  {Carried : EnterprisePolicy → PrivacyCommand → Prop}

theorem rowsHold_launch (rule : RowRule extend blank guard Holds Carried) {app : App}
    {notes : RowNotes ν} {input : LaunchInput} (hinv : RowsHold Holds Carried app notes)
    (hguard : guard app (.launch input)) (hprocess : app.process = none) :
    RowsHold Holds Carried (launch app input)
      (notes.next extend blank app (.launch input)) := by
  have hpolicy : app.policy = none := by rw [App.policy, hprocess, Option.map_none]
  have hlaunch := row_of_launch input hprocess
  have hcalls : ∀ id, (launch app input).call? id = none := by
    rcases hlaunch with ⟨hnone, _⟩ | ⟨process, hsome, hcalls, _⟩
    · simp [App.call?, hnone]
    · simp [App.call?, hsome, hcalls]
  refine ⟨?_, ?_, ?_⟩
  · intro row hstored
    rcases hlaunch with ⟨hnone, hrow⟩ | ⟨process, hsome, _, hpolicy', hopens, hrow⟩
    · have hold := hinv.stored row (hrow ▸ hstored)
      rw [hpolicy] at hold
      simpa [App.policy, hnone, RowNotes.next] using hold
    · rw [App.policy, hsome, Option.map_some, hpolicy']
      rw [hrow] at hstored
      cases hempty : app.store.schemaVersions.isEmpty with
      | true =>
          rw [hempty, if_pos rfl, Option.some.injEq] at hstored
          subst hstored
          simpa [RowNotes.next, hsome, hempty] using rule.fresh _ _
      | false =>
          rw [hempty, if_neg Bool.false_ne_true] at hstored
          have hold := hinv.stored row hstored
          rw [hpolicy] at hold
          simpa [RowNotes.next, hempty] using
            rule.launched app input row _ hguard hopens hstored hold
  · intro id call change current policy hcall
    cases (hcalls id).symm.trans hcall
  · intro id call change policy hcall
    cases (hcalls id).symm.trans hcall

theorem call?_set (vault : Vault) {vault' : Vault} {database database' : Database}
    {process : Process} {gate : DispatchGate} {id i : Nat} {call call' c : Call}
    (hcall : process.calls[id]? = some call)
    (h : App.call? ⟨vault', some database',
      some { process with gate := gate, calls := process.calls.set id call' }⟩ i = some c) :
    (i = id ∧ c = call') ∨
      (i ≠ id ∧ App.call? ⟨vault, some database, some process⟩ i = some c) := by
  replace h : (process.calls.set id call')[i]? = some c := h
  by_cases hi : i = id
  · subst hi
    rw [List.getElem?_set_self (List.getElem?_eq_some_iff.1 hcall).1] at h
    exact Or.inl ⟨rfl, (Option.some.inj h).symm⟩
  · rw [List.getElem?_set_ne (Ne.symm hi)] at h
    exact Or.inr ⟨hi, h⟩

section Calls

variable {notes : RowNotes ν} {vault : Vault} {database : Database} {process : Process}
  {id : Nat} {call : Call} {o : Outside} {shared : Shared} {progress : Progress}

/-- The row after a step of a call. -/
theorem holds_stored_call (rule : RowRule extend blank guard Holds Carried)
    (hinv : RowsHold Holds Carried ⟨vault, some database, some process⟩ notes)
    (hguard : guard ⟨vault, some database, some process⟩ (.call id o))
    (hcall : App.call? ⟨vault, some database, some process⟩ id = some call)
    (hshared : shared.store = database.store)
    (hprivacy : PrivacyStep process.policy call o shared progress) {row : PrivacyState}
    (hsome : progress.shared.store.privacyState = some row) :
    Holds (some process.policy) row (notes.call extend blank id call o).stored := by
  cases hprivacy with
  | quiet hwrite hrow | checked _ _ hwrite _ hrow | read _ _ _ hwrite _ hrow =>
      rw [RowNotes.stored_call_quiet hwrite]
      rw [hrow, hshared] at hsome
      exact hinv.stored row hsome
  | written change current hpc hstore hrow =>
      rw [hrow] at hsome
      rcases Option.map_eq_some_iff.1 hsome with ⟨_, _, rfl⟩
      rw [RowNotes.call_writing hpc hstore]
      exact rule.written _ id o call _ change current _ hguard hcall rfl hstore hpc
        (hinv.carried id call change _ hcall rfl (by rw [hpc]; rfl))
        (hinv.held id call change current _ hcall rfl hpc)
  | erased hpc hcommand hstore hrow =>
      rw [hrow] at hsome
      rcases Option.map_eq_some_iff.1 hsome with ⟨_, _, rfl⟩
      rw [RowNotes.call_erasing hpc hcommand hstore]
      exact rule.fresh _ _

/-- The row that a call holds after its step. -/
theorem holds_held_call (hinv : RowsHold Holds Carried ⟨vault, some database, some process⟩ notes)
    (hshared : shared.store = database.store)
    (hprivacy : PrivacyStep process.policy call o shared progress) {change : PrivacyCommand}
    {current : PrivacyState} (hpc : progress.pc = .writingState change current) :
    Holds (some process.policy) current ((notes.call extend blank id call o).held id) := by
  cases hprivacy with
  | read c row hpc' _ hread _ hnext =>
      cases hnext.symm.trans hpc
      rw [RowNotes.call_reading hpc']
      rw [hshared] at hread
      exact hinv.stored _ hread
  | checked _ _ _ _ _ hnext => cases hnext.symm.trans hpc
  | quiet _ _ hnext | written _ _ _ _ _ hnext | erased _ _ _ _ hnext =>
      rw [hpc] at hnext
      cases hnext

/-- The change that a call carries after its step. -/
theorem carried_call (rule : RowRule extend blank guard Holds Carried)
    (hinv : RowsHold Holds Carried ⟨vault, some database, some process⟩ notes)
    (hguard : guard ⟨vault, some database, some process⟩ (.call id o))
    (hcall : App.call? ⟨vault, some database, some process⟩ id = some call)
    (hprivacy : PrivacyStep process.policy call o shared progress) {change : PrivacyCommand}
    (hchange : progress.pc.change? = some change) : Carried process.policy change := by
  cases hprivacy with
  | checked c hpc _ hcommand _ hnext =>
      rw [hnext] at hchange
      cases hchange
      exact rule.checked _ id o call _ change hguard hcall rfl hpc hcommand
  | read c row hpc _ _ _ hnext =>
      rw [hnext] at hchange
      cases hchange
      exact hinv.carried id call change _ hcall rfl (by rw [hpc]; rfl)
  | quiet _ _ hnext | written _ _ _ _ _ hnext | erased _ _ _ _ hnext =>
      cases hnext.symm.trans hchange

end Calls

theorem rowsHold_call (rule : RowRule extend blank guard Holds Carried) {ext : Externals}
    {app app' : App} {notes : RowNotes ν} {id : Nat} {o : Outside} {es : List Effect}
    (hinv : RowsHold Holds Carried app notes) (hguard : guard app (.call id o))
    (h : (machine ext).step app (.call id o) = some (app', es)) :
    RowsHold Holds Carried app' (notes.next extend blank app (.call id o)) := by
  rcases call_of_step h with
    ⟨vault, database, process, call, progress, rfl, hcall, hstep, rfl, rfl⟩
  have hcall' : App.call? ⟨vault, some database, some process⟩ id = some call := hcall
  have hnotes : notes.next extend blank ⟨vault, some database, some process⟩ (.call id o) =
      notes.call extend blank id call o := by
    rw [RowNotes.next, hcall']
    rfl
  rw [hnotes]
  have hprivacy := privacyStep_of_step hstep
  refine ⟨fun row => holds_stored_call rule hinv hguard hcall' rfl hprivacy, ?_, ?_⟩
  · rintro i c change current policy hc ⟨⟩ hpc
    rcases call?_set vault hcall hc with ⟨rfl, rfl⟩ | ⟨hi, hold⟩
    · exact holds_held_call hinv rfl hprivacy hpc
    · rw [RowNotes.held_call_ne hi]
      exact hinv.held i c change current _ hold rfl hpc
  · rintro i c change policy hc ⟨⟩ hchange
    rcases call?_set vault hcall hc with ⟨rfl, rfl⟩ | ⟨hi, hold⟩
    · exact carried_call rule hinv hguard hcall' hprivacy hchange
    · exact hinv.carried i c change _ hold rfl hchange

theorem rowsHold_step (rule : RowRule extend blank guard Holds Carried) {ext : Externals}
    {app app' : App} {notes : RowNotes ν} {action : Action} {es : List Effect}
    (hinv : RowsHold Holds Carried app notes) (hguard : guard app action)
    (h : (machine ext).step app action = some (app', es)) :
    RowsHold Holds Carried app' (notes.next extend blank app action) := by
  by_cases hlaunch : ∃ input, action = .launch input
  · rcases hlaunch with ⟨input, rfl⟩
    cases appStep_of_step h with
    | launch hprocess => exact rowsHold_launch rule hinv hguard hprocess
  · by_cases hcall : ∃ id o, action = .call id o
    · rcases hcall with ⟨id, o, rfl⟩
      exact rowsHold_call rule hinv hguard h
    · have hnotes : notes.next extend blank app action = notes := by
        cases action with
        | launch input => exact absurd ⟨input, rfl⟩ hlaunch
        | call id o => exact absurd ⟨id, o, rfl⟩ hcall
        | _ => rfl
      obtain ⟨hrow, hpolicy, hcalls⟩ := row_of_step h (fun input hi => hlaunch ⟨input, hi⟩)
        fun id o hi => hcall ⟨id, o, hi⟩
      rw [hnotes]
      refine ⟨?_, ?_, ?_⟩
      · intro row hsome
        have hold := hinv.stored row (hrow ▸ hsome)
        rcases hpolicy with ⟨hnone, policy, hpolicy⟩ | hsame
        · -- the process has ended
          rw [hpolicy] at hold
          rw [App.policy, hnone]
          exact rule.ended policy row _ hold
        · rw [hsame]
          exact hold
      · intro id call change current policy hc hsome hpc
        rcases hcalls id call hc with hold | hstart
        · exact hinv.held id call change current policy hold (policy_of_step hc hpolicy hsome) hpc
        · cases hstart.symm.trans hpc
      · intro id call change policy hc hsome hchange
        rcases hcalls id call hc with hold | hstart
        · exact hinv.carried id call change policy hold (policy_of_step hc hpolicy hsome) hchange
        · rw [hstart] at hchange
          cases hchange

/-- Along a watched run the property holds of the row and of every row a command holds. -/
theorem rowsHold_of_reach (rule : RowRule extend blank guard Holds Carried) {ext : Externals}
    {watched : App × RowNotes ν} {history : List Effect}
    (hreach : Machine.WatchedReach (machine ext) (fun app action notes =>
      notes.next extend blank app action) (.start blank) App.Initial guard watched history) :
    RowsHold Holds Carried watched.1 watched.2 := by
  refine Machine.WatchedReach.invariant ?_ ?_ hreach
  · rintro app ⟨hfile, hprocess⟩
    have hcalls : ∀ id, app.call? id = none := by simp [App.call?, hprocess]
    refine ⟨?_, ?_, ?_⟩
    · intro row hrow
      simp [App.privacyRow, hfile] at hrow
    · intro id call change current policy hcall
      cases (hcalls id).symm.trans hcall
    · intro id call change policy hcall
      cases (hcalls id).symm.trans hcall
  · intro app notes action app' es hinv hguard hstep
    exact rowsHold_step rule hinv hguard hstep

end Rule

end Desktop
end HiddenSteps
