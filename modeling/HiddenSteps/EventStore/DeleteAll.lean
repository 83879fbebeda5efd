import HiddenSteps.EventStore.Schema
import HiddenSteps.Systems.Transaction

/-!
# DeleteAll — `delete_all_data` statement by statement

The tables are cleared one after the other in one transaction, the privacy row is reset, and the
file is compacted behind the commit.  Clearing succeeds in every order in which a table comes behind
the tables whose references to it have no action.
-/

namespace HiddenSteps
namespace EventStore

open Systems Transaction

/-! ## Orders of clearing -/

/-- Each table comes behind those that refer to it without an action. -/
def RespectsReferences : List Table → List Table → Prop
  | _, [] => True
  | cleared, t :: tables =>
      (∀ child, (t, OnDelete.noAction) ∈ child.references → child ∈ cleared) ∧
        RespectsReferences (t :: cleared) tables

def clearing (tables : List Table) : List (Statement Store EventStoreError) :=
  tables.map fun t store => store.deleteFrom t

/-- Clearing tables in an order that respects the references succeeds, leaves them empty with the
tables cleared before, and keeps the foreign keys. -/
theorem runAll_clearing {tables cleared : List Table} {store : Store}
    (horder : RespectsReferences cleared tables)
    (hcleared : ∀ t ∈ cleared, store.isEmpty t = true) :
    ∃ store', runAll (clearing tables) store = .ok store' ∧
      (∀ t, t ∈ cleared ∨ t ∈ tables → store'.isEmpty t = true) ∧
      (store.ForeignKeys → store'.ForeignKeys) := by
  induction tables generalizing cleared store with
  | nil => exact ⟨store, rfl, fun t ht => ht.elim (hcleared t) (by simp), fun h => h⟩
  | cons t tables ih =>
      rcases horder with ⟨hchildren, hrest⟩
      obtain ⟨store₁, hdelete⟩ :=
        Store.deleteFrom_eq_ok fun child hchild => hcleared child (hchildren child hchild)
      have hcleared₁ : ∀ u ∈ t :: cleared, store₁.isEmpty u = true := by
        intro u hu
        rcases List.mem_cons.1 hu with rfl | hu
        · exact Store.isEmpty_of_deleteFrom hdelete
        · exact Store.isEmpty_deleteFrom hdelete (hcleared u hu)
      obtain ⟨store', hrun, hempty, hkeys⟩ := ih hrest hcleared₁
      refine ⟨store', ?_, ?_, fun h => hkeys (Store.foreignKeys_deleteFrom h hdelete)⟩
      · rw [clearing, List.map_cons, runAll_cons, hdelete]
        exact hrun
      · intro u hu
        apply hempty u
        rcases hu with hu | hu
        · exact Or.inl (List.mem_cons_of_mem t hu)
        · rcases List.mem_cons.1 hu with rfl | hu
          · exact Or.inl List.mem_cons_self
          · exact Or.inr hu

/-! ## The function -/

namespace DeleteAll

/-- `TABLES` -/
def tables : List Table :=
  [.patternEvents, .patternEmbeddings, .workflowEdges, .workflowNodes, .recommendations, .patterns,
    .eventSummaries, .observationSources, .llmProviders, .auditLog, .settings, .enterprisePolicy]

/-- The update of the one row of `privacy_state`. -/
def resetPrivacyState (now : Timestamp) : Statement Store EventStoreError :=
  fun store => .ok { store with privacyState := store.privacyState.map fun _ => .initial now }

def statements (now : Timestamp) : List (Statement Store EventStoreError) :=
  clearing tables ++ [resetPrivacyState now]

/-- The position of `COMMIT`; that of `VACUUM` is the next one. -/
def commit : Nat := tables.length + 2

/-- The result of `delete_all_data` and the tables afterwards, under faults at its statements from
`BEGIN` to `VACUUM`. -/
def run (faults : Faults EventStoreError) (now : Timestamp) (store : Store) :
    Except EventStoreError Unit × Store :=
  match (Connection.autocommit store).transaction faults (statements now) with
  | (.error e, c) => (.error e, c.view)
  | (.ok (), c) =>
      match faults (commit + 1) with
      -- compacting the file leaves the rows alone, whether it succeeds or not
      | some e => (.error e, c.view)
      | none => (.ok (), c.view)

theorem tables_respectReferences : RespectsReferences [] tables := by
  refine ⟨by decide, by decide, by decide, by decide, by decide, by decide, by decide, by decide,
    by decide, by decide, by decide, by decide, trivial⟩

/-- Every table is cleared, but for those of the schema version and of the privacy state. -/
theorem mem_tables {t : Table} (hversion : t ≠ .schemaVersion) (hprivacy : t ≠ .privacyState) :
    t ∈ tables := by
  revert t
  decide

/-- The statements succeed on any rows: every table is cleared, and the privacy row, if there is one,
is reset. -/
theorem runAll_statements (now : Timestamp) (store : Store) :
    ∃ store', runAll (statements now) store = .ok store' ∧
      (∀ t, t ≠ .schemaVersion → t ≠ .privacyState → store'.isEmpty t = true) ∧
      (store.ForeignKeys → store'.ForeignKeys) := by
  have hnone : ∀ t ∈ ([] : List Table), store.isEmpty t = true := by simp
  obtain ⟨cleared, hrun, hempty, hkeys⟩ := runAll_clearing tables_respectReferences hnone
  refine ⟨{ cleared with privacyState := cleared.privacyState.map fun _ => .initial now }, ?_, ?_,
    ?_⟩
  · rw [statements, runAll, List.foldlM_append]
    rw [runAll] at hrun
    rw [hrun]
    rfl
  · intro t hversion hprivacy
    have ht := hempty t (Or.inr (mem_tables hversion hprivacy))
    cases t <;> first | exact ht | exact absurd rfl hprivacy
  · intro h
    rcases hkeys h with ⟨hlinks, hembeddings, hedges, hrecommendations⟩
    exact ⟨hlinks, hembeddings, hedges, hrecommendations⟩

/-- They lead to the store that `deleteAllData` gives in one step. -/
theorem runAll_statements_eq (now : Timestamp) (store : Store) :
    runAll (statements now) store = .ok (store.deleteAllData now) := rfl

theorem length_statements (now : Timestamp) : (statements now).length + 1 = commit := rfl

/-- The transaction as a whole: it commits `deleteAllData` if no fault meets it, and changes nothing
if one does. -/
theorem run_store (faults : Faults EventStoreError) (now : Timestamp) (store : Store) :
    ((∀ i ≤ commit, faults i = none) ∧ (run faults now store).2 = store.deleteAllData now ∧
        ∀ e, (run faults now store).1 = .error e → faults (commit + 1) = some e) ∨
      ((∃ i ≤ commit, ∃ e, faults i = some e ∧ (run faults now store).1 = .error e) ∧
        (run faults now store).2 = store) := by
  unfold run
  cases htransaction : (Connection.autocommit store).transaction faults (statements now) with
  | mk result c =>
      cases result with
      | error e =>
          right
          have herror : ((Connection.autocommit store).transaction faults
              (statements now)).1 = .error e := by rw [htransaction]
          have hsame := Connection.transaction_error herror
          rw [htransaction] at hsame
          refine ⟨?_, congrArg Connection.view hsame⟩
          obtain ⟨i, hi, hfault⟩ :=
            Connection.fault_of_transaction herror ⟨_, runAll_statements_eq now store⟩
          exact ⟨i, length_statements now ▸ hi, e, hfault, rfl⟩
      | ok _ =>
          left
          obtain ⟨hfaults, store', hrun, hcommitted⟩ := Connection.transaction_ok
            (show ((Connection.autocommit store).transaction faults (statements now)).1 = .ok () by
              rw [htransaction])
          rw [runAll_statements_eq] at hrun
          cases hrun
          rw [htransaction] at hcommitted
          refine ⟨fun i hi => hfaults i (length_statements now ▸ hi), ?_, ?_⟩
          · simp only
            split <;> exact congrArg Connection.view hcommitted
          · intro e he
            simp only at he
            split at he
            · rename_i hvacuum
              cases he
              exact hvacuum
            · cases he

end DeleteAll

/-- `delete_all_data` fails by faults from outside only; when it succeeds, every table but that of
the schema version is empty and the privacy row is that of a fresh profile; when a fault meets it
before it has committed, nothing changes. -/
structure ErasesAll (faults : Faults EventStoreError) (now : Timestamp) (store : Store) : Prop where
  fails : ∀ e, (DeleteAll.run faults now store).1 = .error e → ∃ i, faults i = some e
  emptied : (DeleteAll.run faults now store).1 = .ok () → ∀ t, t ≠ .schemaVersion →
    t ≠ .privacyState → (DeleteAll.run faults now store).2.isEmpty t = true
  version : (DeleteAll.run faults now store).1 = .ok () →
    (DeleteAll.run faults now store).2.schemaVersions = store.schemaVersions
  reset : (DeleteAll.run faults now store).1 = .ok () →
    (DeleteAll.run faults now store).2.privacyState =
      some { currentLevel := .manual, consentedManifestVersion := 0, observationActive := false
             updatedAt := now }
  unchanged : ∀ i ≤ DeleteAll.commit, faults i ≠ none → (DeleteAll.run faults now store).2 = store

/-- This holds of every store with a privacy row. -/
theorem deleteAllData_total (faults : Faults EventStoreError) (now : Timestamp) {store : Store}
    (hrow : store.privacyState.isSome) : ErasesAll faults now store := by
  rcases DeleteAll.run_store faults now store with
    ⟨hnone, hstore, hvacuum⟩ | ⟨⟨i, hi, e, hfault, herror⟩, hstore⟩
  · obtain ⟨store', hrun, hempty, _⟩ := DeleteAll.runAll_statements now store
    rw [DeleteAll.runAll_statements_eq] at hrun
    cases hrun
    rcases Option.isSome_iff_exists.1 hrow with ⟨row, hrow⟩
    refine ⟨fun e he => ⟨_, hvacuum e he⟩, ?_, ?_, ?_, fun i hi hne => absurd (hnone i hi) hne⟩
    · intro _
      rw [hstore]
      exact hempty
    · intro _
      rw [hstore]
      rfl
    · intro _
      rw [hstore]
      simp only [Store.deleteAllData, hrow, Option.map_some]
      rfl
  · have hfails : (DeleteAll.run faults now store).1 ≠ .ok () := by
      rw [herror]
      exact fun h => nomatch h
    refine ⟨?_, fun h => absurd h hfails, fun h => absurd h hfails, fun h => absurd h hfails,
      fun _ _ _ => hstore⟩
    intro e' he'
    cases herror.symm.trans he'
    exact ⟨i, hfault⟩

/-- A fresh profile has the row. -/
theorem deleteAllData_total_fresh :
    (Store.empty.migrate 0).privacyState.isSome ∧
      ErasesAll (fun _ => none) 0 (Store.empty.migrate 0) :=
  ⟨rfl, deleteAllData_total _ 0 rfl⟩

/-- A file whose first open was interrupted behind its schema version: no later open inserts the
privacy row. -/
def Store.withoutRow : Store :=
  { Store.empty with schemaVersions := [Store.currentSchemaVersion] }

/-- The update meets no row there: the deletion succeeds and leaves no privacy state. -/
theorem deleteAllData_without_row :
    ¬ ∀ (faults : Faults EventStoreError) (now : Timestamp) (store : Store), store.ForeignKeys →
      ErasesAll faults now store := by
  intro h
  have hkeys : Store.withoutRow.ForeignKeys := by
    constructor <;> intro x hx <;> exact absurd hx List.not_mem_nil
  have hok : (DeleteAll.run (fun _ => none) 0 Store.withoutRow).1 = .ok () := by decide
  have hrow : (DeleteAll.run (fun _ => none) 0 Store.withoutRow).2.privacyState = none := by decide
  have hreset := (h (fun _ => none) 0 Store.withoutRow hkeys).reset hok
  rw [hrow] at hreset
  cases hreset

end EventStore
end HiddenSteps
