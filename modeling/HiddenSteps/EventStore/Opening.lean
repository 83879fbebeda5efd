import HiddenSteps.EventStore.Schema
import HiddenSteps.Systems.Machine

/-!
# Opening — `SqlCipherEventStore::open` statement by statement

Opening keys the connection, verifies the key, creates what is missing of the schema and seeds a new
file.  Each statement commits by itself, so an open that is interrupted leaves what it has done so
far, and the next one starts over.  An open that runs to its end does to the rows what `migrate`
says; whether the store is of use then depends on where earlier opens were interrupted.
-/

namespace HiddenSteps
namespace EventStore

open Systems

/-! ## The schema -/

/-- The indexes of `schema.sql`, in its order. -/
inductive Index where
  | eventSummariesTime
  | eventSummariesTtl
  | recommendationsPattern
  | auditLogTime
  deriving DecidableEq, Repr

inductive SchemaObject where
  | table (t : Table)
  | index (i : Index)
  deriving DecidableEq, Repr

/-- The statements of `schema.sql`, all of them `IF NOT EXISTS`. -/
def schema : List SchemaObject :=
  [.table .schemaVersion, .table .privacyState, .table .observationSources,
    .table .eventSummaries, .index .eventSummariesTime, .index .eventSummariesTtl,
    .table .patterns, .table .patternEvents, .table .patternEmbeddings, .table .workflowNodes,
    .table .workflowEdges, .table .recommendations, .index .recommendationsPattern,
    .table .llmProviders, .table .auditLog, .index .auditLogTime, .table .settings,
    .table .enterprisePolicy]

/-! ## The file and an open of it -/

variable {κ : Type}

/-- An encrypted file: the key of its first page, once there is one, the created objects and the
rows. -/
structure StoreFile (κ : Type) where
  key : Option κ
  objects : List SchemaObject
  store : Store

/-- A path without a file behind it. -/
def StoreFile.new : StoreFile κ := { key := none, objects := [], store := .empty }

def StoreFile.create (key : κ) (object : SchemaObject) (file : StoreFile κ) : StoreFile κ :=
  if file.objects.contains object then file
  -- the first write keys the file
  else { file with key := some (file.key.getD key), objects := file.objects ++ [object] }

theorem StoreFile.store_create (key : κ) (object : SchemaObject) (file : StoreFile κ) :
    (file.create key object).store = file.store := by
  unfold create
  split <;> rfl

/-- The file is not keyed yet, or with the given key. -/
def StoreFile.Fits (key : κ) (file : StoreFile κ) : Prop := ∀ k, file.key = some k → k = key

theorem StoreFile.fits_create {key : κ} {object : SchemaObject} {file : StoreFile κ}
    (h : file.Fits key) : (file.create key object).Fits key := by
  unfold create
  split
  · exact h
  · rintro k ⟨⟩
    cases hkey : file.key with
    | none => rfl
    | some k => exact h k hkey

/-- Where an open stands: the statement it executes next. -/
inductive OpenPc where
  | applyingKey
  | verifyingKey
  | enablingForeignKeys
  | creating (rest : List SchemaObject)
  | readingVersion
  | seedingVersion (now : Timestamp)
  | seedingPrivacyState (now : Timestamp)
  | opened
  deriving DecidableEq

/-- The next statement of an open, when it succeeds; `none` where it can not. -/
def OpenPc.step [DecidableEq κ] (key : κ) (now : Timestamp) (file : StoreFile κ) :
    OpenPc → Option (StoreFile κ × OpenPc)
  | applyingKey => some (file, verifyingKey)
  | verifyingKey => if file.key.all fun k => k == key then some (file, enablingForeignKeys) else none
  | enablingForeignKeys => some (file, creating schema)
  | creating [] => some (file, readingVersion)
  | creating (object :: rest) => some (file.create key object, creating rest)
  | readingVersion =>
      if file.store.schemaVersions.isEmpty then some (file, seedingVersion now)
      else some (file, opened)
  | seedingVersion now =>
      some
        ( { file with store := { file.store with schemaVersions := [Store.currentSchemaVersion] } },
          seedingPrivacyState now )
  | seedingPrivacyState now =>
      match file.store.privacyState with
      -- the primary key of the one row
      | some _ => none
      | none =>
          some ({ file with store := { file.store with privacyState := some (.initial now) } },
            opened)
  | opened => none

/-- The file, and the open in progress if there is one. -/
structure OpenState (κ : Type) where
  file : StoreFile κ
  pc : Option OpenPc

def OpenState.closed (file : StoreFile κ) : OpenState κ := { file := file, pc := none }

inductive OpenAction where
  | begin
  /-- The next statement succeeds. -/
  | step (now : Timestamp)
  /-- The next statement fails, or the process ends before it. -/
  | interrupt
  /-- The opened store is dropped. -/
  | close
  deriving DecidableEq

/-- Opens of one file with one key, one at a time.  An interruption is reported with the statement
it keeps from taking place. -/
def opening [DecidableEq κ] (key : κ) : Machine (OpenState κ) OpenAction OpenPc where
  step s
    | .begin => if s.pc = none then some ({ s with pc := some .applyingKey }, []) else none
    | .step now =>
        (s.pc.bind (OpenPc.step key now s.file)).map fun r => ({ file := r.1, pc := some r.2 }, [])
    | .interrupt =>
        match s.pc with
        | none | some .opened => none
        | some pc => some (.closed s.file, [pc])
    | .close => if s.pc = some .opened then some (.closed s.file, []) else none

/-! ## An open that is not interrupted -/

section Uninterrupted

variable [DecidableEq κ]

/-- The beginning of an open and its steps. -/
def OpenAction.goesOn : OpenAction → Bool
  | .begin | .step _ => true
  | .interrupt | .close => false

/-- An uninterrupted open of a file leads to an opened one. -/
def OpensTo (key : κ) (file file' : StoreFile κ) : Prop :=
  (opening key).Reach (· = .closed file) (fun _ action => action.goesOn = true)
    { file := file', pc := some .opened } []

/-- The rows of an open that is under way, from those it has found. -/
def Progressed (store : Store) : Option OpenPc → Store → Prop
  | some (.seedingVersion _), store' => store' = store ∧ store.schemaVersions.isEmpty = true
  | some (.seedingPrivacyState _), store' =>
      store' = { store with schemaVersions := [Store.currentSchemaVersion] } ∧
        store.schemaVersions.isEmpty = true
  | some .opened, store' => ∃ now, store' = store.migrate now
  | _, store' => store' = store

theorem progressed_step {key : κ} {store : Store} {now : Timestamp} {file file' : StoreFile κ}
    {pc pc' : OpenPc} (hinv : Progressed store (some pc) file.store)
    (h : pc.step key now file = some (file', pc')) : Progressed store (some pc') file'.store := by
  cases pc with
  | applyingKey | enablingForeignKeys =>
      cases h
      exact hinv
  | verifyingKey =>
      simp only [OpenPc.step] at h
      split at h
      · cases h
        exact hinv
      · cases h
  | creating rest =>
      cases rest with
      | nil =>
          cases h
          exact hinv
      | cons object rest =>
          cases h
          exact (file.store_create key object).trans hinv
  | readingVersion =>
      obtain rfl : file.store = store := hinv
      simp only [OpenPc.step] at h
      split at h
      · rename_i hempty
        cases h
        exact ⟨rfl, hempty⟩
      · rename_i hversion
        cases h
        exact ⟨now, by rw [Store.migrate, if_neg hversion]⟩
  | seedingVersion now =>
      obtain ⟨hstore, hempty⟩ := hinv
      cases h
      exact ⟨by rw [hstore], hempty⟩
  | seedingPrivacyState now =>
      obtain ⟨hstore, hempty⟩ := hinv
      simp only [OpenPc.step] at h
      split at h
      · cases h
      · cases h
        exact ⟨now, by rw [Store.migrate, if_pos hempty, hstore]⟩
  | opened => cases h

/-- An uninterrupted open does to the rows what `migrate` says. -/
theorem migrate_of_opensTo {key : κ} {file file' : StoreFile κ} (h : OpensTo key file file') :
    ∃ now, file'.store = file.store.migrate now := by
  refine Machine.Reach.invariant (fun s _ => Progressed file.store s.pc s.file.store) ?_ ?_ h
  · rintro _ rfl
    rfl
  · intro s history action s' es hinv hgoesOn hstep
    cases action with
    | begin =>
        simp only [opening] at hstep
        split at hstep
        · rename_i hclosed
          cases hstep
          rw [hclosed] at hinv
          exact hinv
        · cases hstep
    | step now =>
        rcases Option.map_eq_some_iff.1 hstep with ⟨⟨file₁, pc₁⟩, hpc, hs'⟩
        rcases Option.bind_eq_some_iff.1 hpc with ⟨pc, hsome, hpc⟩
        cases hs'
        rw [hsome] at hinv
        exact progressed_step hinv hpc
    | interrupt | close => cases hgoesOn

/-! ## Every file of the key can be opened -/

/-- The statement that an uninterrupted open of a file has come to. -/
abbrev Arrives (key : κ) (file file' : StoreFile κ) (pc : OpenPc) : Prop :=
  (opening key).Reach (· = .closed file) (fun _ action => action.goesOn = true)
    { file := file', pc := some pc } []

theorem arrives_step {key : κ} {file file₁ file₂ : StoreFile κ} {pc₁ pc₂ : OpenPc}
    (now : Timestamp) (h : Arrives key file file₁ pc₁)
    (hstep : pc₁.step key now file₁ = some (file₂, pc₂)) : Arrives key file file₂ pc₂ := by
  have hnext : (opening key).step { file := file₁, pc := some pc₁ } (.step now) =
      some ({ file := file₂, pc := some pc₂ }, []) := by
    simp [opening, hstep]
  exact Machine.Reach.step h rfl hnext

/-- The schema is created without changing a row. -/
theorem arrives_created {key : κ} {file file₁ : StoreFile κ} {rest : List SchemaObject}
    (h : Arrives key file file₁ (.creating rest)) (hfits : file₁.Fits key) :
    ∃ file₂, Arrives key file file₂ (.creating []) ∧ file₂.store = file₁.store := by
  induction rest generalizing file₁ with
  | nil => exact ⟨file₁, h, rfl⟩
  | cons object rest ih =>
      obtain ⟨file₂, harrives, hstore⟩ := ih (arrives_step 0 h rfl) (StoreFile.fits_create hfits)
      exact ⟨file₂, harrives, hstore.trans (file₁.store_create key object)⟩

/-- A file of the key that does not hold a privacy row without a version can be opened. -/
theorem exists_opensTo {key : κ} {file : StoreFile κ} (hfits : file.Fits key)
    (hrow : file.store.schemaVersions.isEmpty = true → file.store.privacyState = none) :
    ∃ file', OpensTo key file file' := by
  have hclosed : (opening key).Reach (· = .closed file) (fun _ action => action.goesOn = true)
      (.closed file) [] := .start rfl
  have hbegin : Arrives key file file .applyingKey := hclosed.step (a := .begin) rfl rfl
  have hkeyed : (file.key.all fun k => k == key) = true := by
    cases hkey : file.key with
    | none => rfl
    | some k => simp [hfits k hkey]
  have hverified : Arrives key file file .enablingForeignKeys :=
    arrives_step 0 (arrives_step 0 hbegin rfl) (by rw [OpenPc.step, if_pos hkeyed])
  obtain ⟨file₁, hcreated, hstore⟩ := arrives_created (arrives_step 0 hverified rfl) hfits
  have hversion : Arrives key file file₁ .readingVersion := arrives_step 0 hcreated rfl
  cases hempty : file₁.store.schemaVersions.isEmpty with
  | false => exact ⟨file₁, arrives_step 0 hversion (by simp [OpenPc.step, hempty])⟩
  | true =>
      have hseeding : Arrives key file file₁ (.seedingVersion 0) :=
        arrives_step 0 hversion (by simp [OpenPc.step, hempty])
      have hnone : file₁.store.privacyState = none := by
        rw [hstore] at hempty ⊢
        exact hrow hempty
      exact ⟨_, arrives_step 0 (arrives_step 0 hseeding rfl) (by simp [OpenPc.step, hnone]; rfl)⟩

/-! ## Stores that are of use -/

/-- `get_privacy_state` succeeds, and `set_privacy_state` takes effect. -/
def Usable (store : Store) : Prop :=
  (∃ state, store.getPrivacyState = .ok state) ∧
    ∀ state, (store.setPrivacyState state).getPrivacyState = .ok state

theorem usable_iff {store : Store} : Usable store ↔ store.privacyState ≠ none := by
  cases hrow : store.privacyState with
  | none => simp [Usable, Store.getPrivacyState, hrow]
  | some row => simp [Usable, Store.getPrivacyState, Store.setPrivacyState, hrow]

/-- The file can be opened, and that gives a store that is of use. -/
def Recovers (key : κ) (file : StoreFile κ) : Prop :=
  (∃ file', OpensTo key file file') ∧ ∀ file', OpensTo key file file' → Usable file'.store

theorem recovers_iff {key : κ} {file : StoreFile κ} (hfits : file.Fits key)
    (hrow : file.store.schemaVersions.isEmpty = true → file.store.privacyState = none) :
    Recovers key file ↔
      file.store.schemaVersions.isEmpty = true ∨ file.store.privacyState ≠ none := by
  have husable : ∀ now, Usable (file.store.migrate now) ↔
      file.store.schemaVersions.isEmpty = true ∨ file.store.privacyState ≠ none := by
    intro now
    rw [usable_iff, Store.migrate]
    cases file.store.schemaVersions.isEmpty <;> simp
  rcases exists_opensTo hfits hrow with ⟨file', hopens⟩
  constructor
  · rintro ⟨_, hall⟩
    rcases migrate_of_opensTo hopens with ⟨now, hstore⟩
    exact (husable now).1 (hstore ▸ hall file' hopens)
  · intro h
    refine ⟨⟨file', hopens⟩, ?_⟩
    intro file'' hopens'
    rcases migrate_of_opensTo hopens' with ⟨now, hstore⟩
    rw [hstore]
    exact (husable now).2 h

end Uninterrupted

/-! ## Opens that are interrupted -/

/-- An open was interrupted between the two insertions that seed a file. -/
def SeedingInterrupted (interruptions : List OpenPc) : Prop :=
  ∃ now, OpenPc.seedingPrivacyState now ∈ interruptions

/-- Nothing has been seeded. -/
def Blank (store : Store) : Prop :=
  store.schemaVersions.isEmpty = true ∧ store.privacyState = none

/-- The version is there, and the row is missing exactly if it has been lost. -/
def Seeded (lost : Prop) (store : Store) : Prop :=
  store.schemaVersions.isEmpty = false ∧ (store.privacyState = none ↔ lost)

/-- The rows between and during opens. -/
def RowsStand (lost : Prop) (store : Store) : Option OpenPc → Prop
  | some (.seedingVersion _) => Blank store ∧ ¬ lost
  | some (.seedingPrivacyState _) =>
      store.schemaVersions.isEmpty = false ∧ store.privacyState = none ∧ ¬ lost
  | some .opened => Seeded lost store
  | _ => (Blank store ∧ ¬ lost) ∨ Seeded lost store

section Interrupted

variable [DecidableEq κ]

theorem rowsStand_step {key : κ} {lost : Prop} {now : Timestamp} {file file' : StoreFile κ}
    {pc pc' : OpenPc} (hinv : RowsStand lost file.store (some pc)) (hfits : file.Fits key)
    (h : pc.step key now file = some (file', pc')) :
    RowsStand lost file'.store (some pc') ∧ file'.Fits key := by
  cases pc with
  | applyingKey | enablingForeignKeys =>
      cases h
      exact ⟨hinv, hfits⟩
  | verifyingKey =>
      simp only [OpenPc.step] at h
      split at h
      · cases h
        exact ⟨hinv, hfits⟩
      · cases h
  | creating rest =>
      cases rest with
      | nil =>
          cases h
          exact ⟨hinv, hfits⟩
      | cons object rest =>
          cases h
          refine ⟨?_, StoreFile.fits_create hfits⟩
          rw [file.store_create key object]
          exact hinv
  | readingVersion =>
      simp only [OpenPc.step] at h
      split at h
      · rename_i hempty
        cases h
        rcases hinv with hblank | ⟨hversion, _⟩
        · exact ⟨hblank, hfits⟩
        · rw [hempty] at hversion
          cases hversion
      · rename_i hversion
        cases h
        rcases hinv with ⟨⟨hempty, _⟩, _⟩ | hseeded
        · exact absurd hempty hversion
        · exact ⟨hseeded, hfits⟩
  | seedingVersion now =>
      obtain ⟨⟨_, hrow⟩, hlost⟩ := hinv
      cases h
      exact ⟨⟨rfl, hrow, hlost⟩, hfits⟩
  | seedingPrivacyState now =>
      obtain ⟨hversion, hrow, hlost⟩ := hinv
      simp only [OpenPc.step, hrow] at h
      cases h
      exact ⟨⟨hversion, by simp [hlost]⟩, hfits⟩
  | opened => cases h

/-- An interruption loses the row exactly between the two insertions. -/
theorem rowsStand_interrupt {interruptions : List OpenPc} {store : Store} {pc : OpenPc}
    (hinv : RowsStand (SeedingInterrupted interruptions) store (some pc)) (hpc : pc ≠ .opened) :
    RowsStand (SeedingInterrupted (interruptions ++ [pc])) store none := by
  by_cases hseeding : ∃ now, pc = .seedingPrivacyState now
  · rcases hseeding with ⟨now, rfl⟩
    rcases hinv with ⟨hversion, hrow, _⟩
    exact Or.inr ⟨hversion, by simp [hrow, SeedingInterrupted]⟩
  · have hsame : SeedingInterrupted (interruptions ++ [pc]) = SeedingInterrupted interruptions := by
      refine propext (exists_congr fun now => ?_)
      rw [List.mem_append, List.mem_singleton]
      exact or_iff_left fun h => hseeding ⟨now, h.symm⟩
    rw [hsame]
    cases pc with
    | seedingVersion now => exact Or.inl hinv
    | seedingPrivacyState now => exact absurd ⟨now, rfl⟩ hseeding
    | opened => exact absurd rfl hpc
    | _ => exact hinv

/-- What holds between and during opens with one key. -/
structure Standing (key : κ) (s : OpenState κ) (interruptions : List OpenPc) : Prop where
  fits : s.file.Fits key
  rows : RowsStand (SeedingInterrupted interruptions) s.file.store s.pc

theorem standing_step {key : κ} {s s' : OpenState κ} {interruptions es : List OpenPc}
    {action : OpenAction} (hinv : Standing key s interruptions)
    (h : (opening key).step s action = some (s', es)) :
    Standing key s' (interruptions ++ es) := by
  rcases s with ⟨file, pc⟩
  rcases hinv with ⟨hfits, hrows⟩
  cases action with
  | begin =>
      simp only [opening] at h
      split at h
      · rename_i hclosed
        cases h
        obtain rfl : pc = none := hclosed
        exact ⟨hfits, by rw [List.append_nil]; exact hrows⟩
      · cases h
  | step now =>
      rcases Option.map_eq_some_iff.1 h with ⟨⟨file', pc'⟩, hpc, hs'⟩
      rcases Option.bind_eq_some_iff.1 hpc with ⟨pc, rfl, hpc⟩
      cases hs'
      rw [List.append_nil]
      obtain ⟨hrows', hfits'⟩ := rowsStand_step hrows hfits hpc
      exact ⟨hfits', hrows'⟩
  | interrupt =>
      simp only [opening] at h
      split at h
      · cases h
      · cases h
      · rename_i pc' _ hopened
        cases h
        exact ⟨hfits, rowsStand_interrupt hrows fun hpc => hopened (hpc ▸ rfl)⟩
  | close =>
      simp only [opening] at h
      split at h
      · rename_i hopened
        cases h
        obtain rfl : pc = some .opened := hopened
        rw [List.append_nil]
        exact ⟨hfits, Or.inr hrows⟩
      · cases h

theorem standing_of_reach {key : κ} {s : OpenState κ} {interruptions : List OpenPc}
    (hreach : (opening key).Reach (· = .closed .new) Machine.always s interruptions) :
    Standing key s interruptions := by
  refine hreach.invariant (fun s interruptions => Standing key s interruptions) ?_ ?_
  · rintro _ rfl
    exact ⟨by rintro k ⟨⟩, Or.inl ⟨⟨rfl, rfl⟩, by simp [SeedingInterrupted]⟩⟩
  · intro s interruptions action s' es hinv _ hstep
    exact standing_step hinv hstep

theorem recovers_iff_of_standing {key : κ} {s : OpenState κ} {interruptions : List OpenPc}
    (hinv : Standing key s interruptions) (hclosed : s.pc = none) :
    Recovers key s.file ↔ ¬ SeedingInterrupted interruptions := by
  rcases hinv with ⟨hfits, hrows⟩
  rw [hclosed] at hrows
  rcases hrows with ⟨⟨hempty, hrow⟩, hlost⟩ | ⟨hversion, hlost⟩
  · rw [recovers_iff hfits fun _ => hrow]
    exact iff_of_true (Or.inl hempty) hlost
  · rw [recovers_iff hfits (by rw [hversion]; rintro ⟨⟩), hversion, ← hlost]
    simp

/-- After any opens of a new file with one key, a later open gives a store that is of use exactly if
none of them was interrupted between the two insertions that seed the file. -/
theorem reopened_usable_iff {key : κ} {s : OpenState κ} {interruptions : List OpenPc}
    (hreach : (opening key).Reach (· = .closed .new) Machine.always s interruptions)
    (hclosed : s.pc = none) :
    Recovers key s.file ↔ ¬ SeedingInterrupted interruptions :=
  recovers_iff_of_standing (standing_of_reach hreach) hclosed

end Interrupted

/-! ## Interrupted runs -/

/-- An open of which the given number of statements succeed. -/
def OpenAction.interruptedAfter (statements : Nat) : List OpenAction :=
  .begin :: List.replicate statements (.step 0) ++ [.interrupt]

/-- Some actions on a new file lead to a closed one, with the given interruptions. -/
theorem exists_closed (actions : List OpenAction) (test : List OpenPc → Bool)
    (hexec : ((opening ()).exec Machine.always (.closed .new) actions).any
      (fun r => r.1.pc == none && test r.2) = true) :
    ∃ s interruptions, (opening ()).Reach (· = .closed .new) Machine.always s interruptions ∧
      s.pc = none ∧ test interruptions = true := by
  obtain ⟨s, interruptions, hreach, htest⟩ :
      ∃ s interruptions, (opening ()).Reach (· = .closed .new) Machine.always s interruptions ∧
        (s.pc == none && test interruptions) = true :=
    Machine.exists_reach (opening ()) Machine.always
      (fun s interruptions => s.pc == none && test interruptions) actions rfl hexec
  simp only [Bool.and_eq_true, beq_iff_eq] at htest
  exact ⟨s, interruptions, hreach, htest.1, htest.2⟩

/-- An open is interrupted within the schema, and another one before it seeds the file. -/
theorem reopened_usable_interruptedRun :
    ∃ s interruptions,
      (opening ()).Reach (· = .closed .new) Machine.always s interruptions ∧
      s.pc = none ∧ interruptions.length = 2 ∧ Recovers () s.file ∧
      (Recovers () s.file ↔ ¬ SeedingInterrupted interruptions) := by
  obtain ⟨s, interruptions, hreach, hclosed, htest⟩ :=
    exists_closed (OpenAction.interruptedAfter 7 ++ OpenAction.interruptedAfter 23)
      (fun interruptions => interruptions.length == 2 && interruptions.all fun
        | .seedingPrivacyState _ => false
        | _ => true) (by decide)
  simp only [Bool.and_eq_true, beq_iff_eq, List.all_eq_true] at htest
  have hiff := reopened_usable_iff hreach hclosed
  refine ⟨s, interruptions, hreach, hclosed, htest.1, hiff.2 ?_, hiff⟩
  rintro ⟨now, hmem⟩
  cases htest.2 _ hmem

/-- A file whose version is seeded and whose privacy row is not stays without one. -/
theorem interrupted_seeding_unrecovered :
    ¬ ∀ (κ : Type) [DecidableEq κ] (key : κ) (s : OpenState κ) (interruptions : List OpenPc),
      (opening key).Reach (· = .closed .new) Machine.always s interruptions → s.pc = none →
        Recovers key s.file := by
  intro h
  obtain ⟨s, interruptions, hreach, hclosed, htest⟩ :=
    exists_closed (OpenAction.interruptedAfter 24)
      (fun interruptions => interruptions.contains (.seedingPrivacyState 0)) (by decide)
  have hrecovers := h _ () s interruptions hreach hclosed
  exact (recovers_iff_of_standing (standing_of_reach hreach) hclosed).1 hrecovers
    ⟨0, List.contains_iff_mem.1 htest⟩

end EventStore
end HiddenSteps
