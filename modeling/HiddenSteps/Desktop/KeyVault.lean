import HiddenSteps.Desktop.App

/-!
# KeyVault — the key in the vault and the key of the file

The vault and the file are two stores that have to change together.  Between the rekey of a
delete-all and its vault write the file is ahead of the vault; `KeyInvariant` says that this is the
only difference there ever is, along the runs whose steps meet `keySafe`.
-/

namespace HiddenSteps
namespace Desktop

open EventStore Systems

/-- The key a delete-all has given the file and not yet put into the vault. -/
def Call.pendingKey (call : Call) : Option MasterKey :=
  match call.pc with
  | .storingKey key => some key
  | _ => none

namespace App

def pendingKeys (app : App) : List MasterKey :=
  match app.process with
  | none => []
  | some process => process.calls.filterMap Call.pendingKey

/-- The vault holds the key of the file. -/
def VaultKeyOpensFile (app : App) : Prop :=
  ∀ database, app.file = some database →
    app.vault masterKeyEntry = some database.key.bytes

/-- The vault holds the key of the file, or one delete-all is about to put it there. -/
def KeyInvariant (app : App) : Prop :=
  ∀ database, app.file = some database →
    (app.pendingKeys = [] ∧ app.vault masterKeyEntry = some database.key.bytes) ∨
      app.pendingKeys = [database.key]

end App

/-- A launch reads a whole key from the vault. -/
def readsKey (vault : Vault) (input : LaunchInput) : Bool :=
  !input.vaultGetFails && (vault masterKeyEntry).any fun bytes => bytes.length == 32

/-- The steps that keep the vault and the file in sync:
a launch reads the key, or else fails to write the new one if there is a file and writes it if it
creates one; a delete-all rekeys while no other is between its two writes, its verification does
not fail and its vault write succeeds; the process does not end between the two writes. -/
def keySafe (app : App) : Action → Bool
  | .launch input =>
      readsKey app.vault input ||
        if app.file.isSome then input.vaultSetFails else input.openFails || !input.vaultSetFails
  | .exit => app.pendingKeys.isEmpty
  | .call id o =>
      match (app.call? id).map Call.pc with
      | some .rekeying =>
          o.storeFault.isSome || (o.lateFault.isNone && app.pendingKeys.isEmpty)
      | some (.storingKey _) => o.vaultFault.isNone
      | _ => true
  | _ => true

/-! ## Launches -/

theorem resolveMasterKey_of_reads {vault : Vault} {input : LaunchInput}
    (h : readsKey vault input = true) :
    vault masterKeyEntry = some (resolveMasterKey vault input).1.bytes ∧
      (resolveMasterKey vault input).2 = vault := by
  simp only [readsKey, Bool.and_eq_true, Bool.not_eq_true', Option.any_eq_true,
    beq_iff_eq] at h
  rcases h with ⟨hget, bytes, hbytes, hlen⟩
  simp [resolveMasterKey, hget, hbytes, hlen]

theorem resolveMasterKey_of_not_reads {vault : Vault} {input : LaunchInput}
    (h : readsKey vault input = false) :
    resolveMasterKey vault input =
      (input.freshKey,
        if input.vaultSetFails then vault
        else vault.set masterKeyEntry input.freshKey.bytes) := by
  unfold resolveMasterKey
  simp only
  split
  · rfl
  · rename_i hget
    split
    · rfl
    · rename_i existing hexisting
      split
      · rename_i hlen
        simp [readsKey, hget, hexisting, hlen] at h
      · rfl

theorem keyInvariant_launch {app : App} {input : LaunchInput} (hprocess : app.process = none)
    (hinv : app.KeyInvariant) (hsafe : keySafe app (.launch input) = true) :
    (launch app input).KeyInvariant := by
  have hpending : app.pendingKeys = [] := by simp [App.pendingKeys, hprocess]
  have hsync : app.VaultKeyOpensFile := by
    intro database hfile
    rcases hinv database hfile with ⟨_, hkey⟩ | hkey
    · exact hkey
    · simp [hpending] at hkey
  rcases launch_cases app input with ⟨hvault, hcases⟩
  intro database hfile
  left
  rcases hcases with ⟨hfile', hprocess'⟩ | ⟨opened, hopenFails, hopen, hfile', hprocess'⟩
  · -- the file is the old one; the vault has to be, too
    refine ⟨by simp [App.pendingKeys, hprocess', hprocess], ?_⟩
    rw [hfile'] at hfile
    rw [hvault, ← hsync database hfile]
    cases hreads : readsKey app.vault input with
    | true => rw [(resolveMasterKey_of_reads hreads).2]
    | false =>
        have hset : input.vaultSetFails = true := by
          simpa [keySafe, hreads, hfile] using hsafe
        simp [resolveMasterKey_of_not_reads hreads, hset]
  · -- the file opened with the key of the session
    refine ⟨by simp [App.pendingKeys, hprocess', Process.start], ?_⟩
    rw [hfile'] at hfile
    cases hfile
    rcases openStore_eq_some hopen with ⟨hkey, hold⟩
    rw [hvault]
    show _ = some opened.key.bytes
    rw [hkey]
    cases hreads : readsKey app.vault input with
    | true =>
        rcases resolveMasterKey_of_reads hreads with ⟨hentry, hsame⟩
        rw [hsame, hentry]
    | false =>
        rw [resolveMasterKey_of_not_reads hreads]
        rcases hold with ⟨hnone, _⟩ | ⟨old, hsome, hold, _⟩
        · have hset : input.vaultSetFails = false := by
            simpa [keySafe, hreads, hnone, hopenFails] using hsafe
          simp [hset]
        · have hset : input.vaultSetFails = true := by
            simpa [keySafe, hreads, hsome] using hsafe
          simp only [hset, if_true]
          rw [hsync old hsome, hold, resolveMasterKey_of_not_reads hreads]

/-! ## Commands -/

/-- Apart from the rekey and the vault write, a command touches neither key. -/
theorem key_of_callStep {call : Call} {o : Outside} {shared : Shared} {pc : CallPc}
    {progress : Progress} (h : CallStep call o shared pc progress)
    (hrekey : pc ≠ .rekeying) (hstore : ∀ key, pc ≠ .storingKey key) :
    progress.shared.database.key = shared.database.key ∧
      progress.shared.vault masterKeyEntry = shared.vault masterKeyEntry ∧
      ∀ key, progress.pc ≠ .storingKey key := by
  cases h with
  | failed hpc => exact ⟨rfl, rfl, by rintro key ⟨⟩⟩
  | providerKeyStored _ hvault => exact ⟨rfl, hvault, by rintro key ⟨⟩⟩
  | rekeyed => exact absurd rfl hrekey
  | rekeyedLate => exact absurd rfl hrekey
  | keyStored => exact absurd rfl (hstore _)
  | _ => exact ⟨rfl, rfl, by rintro key ⟨⟩⟩

theorem keyInvariant_call {vault : Vault} {database : Database} {process : Process} {id : Nat}
    {o : Outside} {call : Call} {progress : Progress} (hcall : process.calls[id]? = some call)
    (hstep : CallStep call o ⟨vault, database, process.gate⟩ call.pc progress)
    (hinv : App.KeyInvariant ⟨vault, some database, some process⟩)
    (hsafe : keySafe ⟨vault, some database, some process⟩ (.call id o) = true) :
    App.KeyInvariant
      ⟨progress.shared.vault, some progress.shared.database,
        some { process with
          gate := progress.shared.gate
          calls := process.calls.set id { call with pc := progress.pc } }⟩ := by
  rcases call with ⟨command, pc, eventSeq⟩
  have hpc : (App.call? ⟨vault, some database, some process⟩ id).map Call.pc = some pc := by
    simp [App.call?, hcall]
  have hinv := hinv database rfl
  rcases filterMap_set_split Call.pendingKey hcall with ⟨before, after, hpending, hset⟩
  intro database' hfile
  cases hfile
  simp only [App.pendingKeys, hset, hpending] at hinv ⊢
  by_cases hrekey : pc = .rekeying
  · subst hrekey
    have hold : Call.pendingKey ⟨command, .rekeying, eventSeq⟩ = none := rfl
    simp only [hold, Option.toList_none, List.append_nil] at hinv hpending
    cases hstep with
    | failed => simpa [Call.fail, Call.pendingKey] using hinv
    | rekeyed hstore =>
        -- no other delete-all is between its two writes
        have hnone : before ++ after = [] := by
          have : (App.pendingKeys ⟨vault, some database, some process⟩).isEmpty = true := by
            simp only [keySafe, hpc, hstore, Option.isSome_none, Bool.false_or,
              Bool.and_eq_true] at hsafe
            exact hsafe.2
          simpa [App.pendingKeys, hpending] using this
        rcases List.append_eq_nil_iff.1 hnone with ⟨rfl, rfl⟩
        exact Or.inr rfl
    -- the file would have a key that nobody writes to the vault
    | rekeyedLate hstore hlate => simp [keySafe, hpc, hstore, hlate] at hsafe
  by_cases hstoring : ∃ key, pc = .storingKey key
  · rcases hstoring with ⟨key, rfl⟩
    have hold : Call.pendingKey ⟨command, .storingKey key, eventSeq⟩ = some key := rfl
    simp only [hold, Option.toList_some] at hinv
    -- the file has the key that is about to be written, and no other is pending
    obtain ⟨rfl, hkey, rfl⟩ : before = [] ∧ key = database.key ∧ after = [] := by
      rcases hinv with ⟨hnil, _⟩ | hone
      · simp at hnil
      · simpa [List.append_eq_singleton_iff] using hone
    cases hstep with
    | failed hfail =>
        have hfault : o.vaultFault.isSome = true := hfail
        simp only [keySafe, hpc, Option.isNone_iff_eq_none] at hsafe
        simp [hsafe] at hfault
    | keyStored => exact Or.inl ⟨rfl, by simp [Call.finish, hkey]⟩
  · have hother : ∀ key, pc ≠ .storingKey key := fun key hpc => hstoring ⟨key, hpc⟩
    rcases key_of_callStep hstep hrekey hother with ⟨hkey, hvault, hnew⟩
    have hold : Call.pendingKey ⟨command, pc, eventSeq⟩ = none := by
      cases pc <;> first | rfl | exact absurd rfl (hother _)
    have hnew : Call.pendingKey ⟨command, progress.pc, eventSeq⟩ = none := by
      cases hp : progress.pc <;> first | rfl | exact absurd hp (hnew _)
    rw [hkey, hvault, hnew]
    rw [hold] at hinv
    exact hinv

/-! ## Runs -/

theorem keyInvariant_step {ext : Externals} {app app' : App} {action : Action} {es : List Effect}
    (hinv : app.KeyInvariant) (hsafe : keySafe app action = true)
    (h : (machine ext).step app action = some (app', es)) : app'.KeyInvariant := by
  cases appStep_of_step h with
  | launch hprocess => exact keyInvariant_launch hprocess hinv hsafe
  | exit =>
      intro database hfile
      -- the end of the process forgets the key that is still to be written
      rcases hinv database hfile with ⟨_, hkey⟩ | hone
      · exact Or.inl ⟨rfl, hkey⟩
      · simp [keySafe, hone] at hsafe
  | invoke =>
      intro database hfile
      have hnew : ∀ command eventSeq, Call.pendingKey (Call.begin command eventSeq) = none :=
        fun _ _ => rfl
      simpa [App.pendingKeys, App.invoke, hnew] using hinv database hfile
  | call hcall hstep => exact keyInvariant_call hcall hstep hinv hsafe
  | @observe vault database =>
      rintro _ ⟨⟩
      exact hinv database rfl
  | @sweep vault database =>
      rintro _ ⟨⟩
      exact hinv database rfl
  | operate | notify =>
      rintro database ⟨⟩
      exact hinv _ rfl

/-- A launch whose vault read and whose opening of the file succeed starts a process. -/
theorem launch_starts {app : App} {input : LaunchInput} (hsync : app.VaultKeyOpensFile)
    (hfile : app.file.isSome) (hget : input.vaultGetFails = false)
    (hopen : input.openFails = false) : (launch app input).process.isSome := by
  rcases Option.isSome_iff_exists.1 hfile with ⟨database, hfile⟩
  have hreads : readsKey app.vault input = true := by
    simp [readsKey, hget, hsync database hfile, database.key.length]
  have hkey : database.key = (resolveMasterKey app.vault input).1 := by
    have hentry := (resolveMasterKey_of_reads hreads).1
    rw [hsync database hfile, Option.some.injEq] at hentry
    cases hdatabase : database.key
    cases hresolved : (resolveMasterKey app.vault input).1
    simp only [hdatabase, hresolved] at hentry
    simp [hentry]
  simp [launch, hopen, openStore, hfile, hkey]

/-- Along every run whose steps meet `keySafe`, whenever no delete-all is between its rekey and its
vault write, the vault holds the key of the file, and the next launch that can read the vault and
open the file starts. -/
theorem vaultKeyOpensFile_of_keySafe {ext : Externals} {app : App} {history : List Effect}
    (hreach : (machine ext).Reach App.Initial (fun app action => keySafe app action = true)
      app history)
    (hpending : app.pendingKeys = []) :
    app.VaultKeyOpensFile ∧
      ∀ input, app.file.isSome → input.vaultGetFails = false → input.openFails = false →
        (launch app input).process.isSome := by
  have hinv : app.KeyInvariant := by
    refine hreach.invariant (fun app _ => app.KeyInvariant) ?_ ?_
    · rintro app ⟨hfile, _⟩ database hsome
      rw [hfile] at hsome
      cases hsome
    · intro app h action app' es hinv hsafe hstep
      exact keyInvariant_step hinv hsafe hstep
  have hsync : app.VaultKeyOpensFile := by
    intro database hfile
    rcases hinv database hfile with ⟨_, hkey⟩ | hone
    · exact hkey
    · simp [hpending] at hone
  exact ⟨hsync, fun input hfile hget hopen => launch_starts hsync hfile hget hopen⟩

/-- A launch, a delete-all with all its steps, and the end of the process. -/
def deleteAllRun : List Action :=
  [.launch (.plain (.repeating 1) []), .invoke .deleteAllData,
    .call 0 (.plain 0), .call 0 { Outside.plain 0 with freshKey := .repeating 2 },
    .call 0 (.plain 0), .exit]

theorem vaultKeyOpensFile_deleteAllRun :
    ∃ app history,
      (machine .reference).Reach App.Initial (fun app action => keySafe app action = true)
        app history ∧
      app.pendingKeys = [] ∧ (app.file.map Database.key) = some (.repeating 2) ∧
      app.VaultKeyOpensFile := by
  obtain ⟨app, history, hreach, htest⟩ := exists_run
    (fun app action => keySafe app action = true)
    (fun app _ =>
      decide (app.pendingKeys = [] ∧ app.file.map Database.key = some (.repeating 2)))
    deleteAllRun (by decide)
  rcases of_decide_eq_true htest with ⟨hpending, hkey⟩
  exact ⟨app, history, hreach, hpending, hkey, (vaultKeyOpensFile_of_keySafe hreach hpending).1⟩

/-- A launch that cannot read the vault overwrites the entry with a key the file does not have. -/
theorem failed_vault_read_locks_file :
    ¬ ∀ ext app history, (machine ext).Reach App.Initial Machine.always app history →
      app.pendingKeys = [] → app.VaultKeyOpensFile := by
  intro h
  obtain ⟨app, history, hreach, htest⟩ := exists_run Machine.always
    (fun app _ =>
      decide (app.pendingKeys = [] ∧ app.file.map Database.key = some (.repeating 1) ∧
        app.vault masterKeyEntry = some (MasterKey.repeating 2).bytes))
    [.launch (.plain (.repeating 1) []), .exit,
      .launch { LaunchInput.plain (.repeating 2) [] with vaultGetFails := true }] (by decide)
  rcases of_decide_eq_true htest with ⟨hpending, hkey, hentry⟩
  rcases Option.map_eq_some_iff.1 hkey with ⟨database, hfile, hkey⟩
  have hsync := h _ app history hreach hpending database hfile
  rw [hentry, hkey] at hsync
  exact absurd hsync (by decide)

end Desktop
end HiddenSteps
