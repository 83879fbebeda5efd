import HiddenSteps.EventStore.StoreLaws

/-!
# Schema — the tables of the schema, their references, and `DELETE FROM` a table

With foreign keys enforced, clearing a table acts on the rows that refer to it as their reference
says: they go as well, lose the reference, or make the statement fail.  Clearing never adds a row
and keeps the foreign keys.
-/

namespace HiddenSteps
namespace EventStore

/-- The tables of `schema.sql`, in its order. -/
inductive Table where
  | schemaVersion
  | privacyState
  | observationSources
  | eventSummaries
  | patterns
  | patternEvents
  | patternEmbeddings
  | workflowNodes
  | workflowEdges
  | recommendations
  | llmProviders
  | auditLog
  | settings
  | enterprisePolicy
  deriving DecidableEq, Repr

/-- What the deletion of a row does to the rows that refer to it. -/
inductive OnDelete where
  | cascade
  | setNull
  | noAction
  deriving DecidableEq, Repr

namespace Table

def all : List Table :=
  [schemaVersion, privacyState, observationSources, eventSummaries, patterns, patternEvents,
    patternEmbeddings, workflowNodes, workflowEdges, recommendations, llmProviders, auditLog,
    settings, enterprisePolicy]

theorem mem_all (t : Table) : t ∈ all := by
  cases t <;> decide

instance decidableForall {p : Table → Prop} [DecidablePred p] : Decidable (∀ t, p t) :=
  decidable_of_iff (∀ t ∈ all, p t) ⟨fun h t => h t (mem_all t), fun h t _ => h t⟩

/-- The tables that the rows of a table refer to. -/
def references : Table → List (Table × OnDelete)
  | patternEvents => [(patterns, .cascade), (eventSummaries, .cascade)]
  | patternEmbeddings => [(patterns, .cascade)]
  | workflowEdges => [(workflowNodes, .cascade), (workflowNodes, .cascade), (patterns, .setNull)]
  | recommendations => [(patterns, .noAction)]
  | _ => []

end Table

namespace Store

/-- A table has no rows. -/
def isEmpty (store : Store) : Table → Bool
  | .schemaVersion => store.schemaVersions.isEmpty
  | .privacyState => store.privacyState.isNone
  | .observationSources => store.observationSources.isEmpty
  | .eventSummaries => store.events.isEmpty
  | .patterns => store.patterns.isEmpty
  | .patternEvents => store.patternEvents.isEmpty
  | .patternEmbeddings => store.patternEmbeddings.isEmpty
  | .workflowNodes => store.workflowNodes.isEmpty
  | .workflowEdges => store.workflowEdges.isEmpty
  | .recommendations => store.recommendations.isEmpty
  | .llmProviders => store.llmProviders.isEmpty
  | .auditLog => store.auditLog.isEmpty
  | .settings => store.settings.isEmpty
  | .enterprisePolicy => store.enterprisePolicy.isNone

def hasNode (store : Store) (nodeId : Nat) : Bool :=
  store.workflowNodes.any fun n => n.id == nodeId

/-- `DELETE FROM` a table, without a condition. -/
def deleteFrom (store : Store) : Table → Except EventStoreError Store
  | .schemaVersion => .ok { store with schemaVersions := [] }
  | .privacyState => .ok { store with privacyState := none }
  | .observationSources => .ok { store with observationSources := [] }
  | .eventSummaries =>
      .ok { store with
        events := []
        patternEvents := store.patternEvents.filter fun link => !store.hasEvent link.2 }
  | .patterns =>
      -- recommendations refer to their patterns without an action
      if store.recommendations.any fun r => store.hasPattern r.patternId then
        .error (.database "FOREIGN KEY constraint failed")
      else
        .ok { store with
          patterns := []
          patternEvents := store.patternEvents.filter fun link => !store.hasPattern link.1
          patternEmbeddings := store.patternEmbeddings.filter fun e =>
            !store.hasPattern e.patternId
          workflowEdges := store.workflowEdges.map fun e =>
            { e with patternId := e.patternId.filter fun id => !store.hasPattern id } }
  | .patternEvents => .ok { store with patternEvents := [] }
  | .patternEmbeddings => .ok { store with patternEmbeddings := [] }
  | .workflowNodes =>
      .ok { store with
        workflowNodes := []
        workflowEdges := store.workflowEdges.filter fun e =>
          !(store.hasNode e.fromNodeId || store.hasNode e.toNodeId) }
  | .workflowEdges => .ok { store with workflowEdges := [] }
  | .recommendations => .ok { store with recommendations := [] }
  | .llmProviders => .ok { store with llmProviders := [] }
  | .auditLog => .ok { store with auditLog := [] }
  | .settings => .ok { store with settings := [] }
  | .enterprisePolicy => .ok { store with enterprisePolicy := none }

/-- Every reference of a row leads to a row. -/
structure ForeignKeys (store : Store) : Prop where
  patternEvents : ∀ link ∈ store.patternEvents,
    store.hasPattern link.1 = true ∧ store.hasEvent link.2 = true
  patternEmbeddings : ∀ e ∈ store.patternEmbeddings, store.hasPattern e.patternId = true
  workflowEdges : ∀ e ∈ store.workflowEdges, store.hasNode e.fromNodeId = true ∧
    store.hasNode e.toNodeId = true ∧ ∀ id, e.patternId = some id → store.hasPattern id = true
  recommendations : ∀ r ∈ store.recommendations, store.hasPattern r.patternId = true

variable {store store' : Store} {t u : Table}

/-- Clearing a table succeeds if every table with references to it that have no action is empty. -/
theorem deleteFrom_eq_ok
    (h : ∀ child, (t, OnDelete.noAction) ∈ child.references → store.isEmpty child = true) :
    ∃ store', store.deleteFrom t = .ok store' := by
  cases t with
  | patterns =>
      have hempty : store.recommendations = [] := by
        simpa [isEmpty] using h .recommendations (by decide)
      exact ⟨_, by rw [deleteFrom, hempty]; rfl⟩
  | _ => exact ⟨_, rfl⟩

/-- Clearing a table leaves it empty. -/
theorem isEmpty_of_deleteFrom (h : store.deleteFrom t = .ok store') : store'.isEmpty t = true := by
  cases t with
  | patterns =>
      simp only [deleteFrom] at h
      split at h
      · cases h
      · cases h
        rfl
  | _ =>
      cases h
      rfl

/-- Clearing a table leaves empty tables empty. -/
theorem isEmpty_deleteFrom (h : store.deleteFrom t = .ok store') (hu : store.isEmpty u = true) :
    store'.isEmpty u = true := by
  cases t with
  | patterns =>
      simp only [deleteFrom] at h
      split at h
      · cases h
      · cases h
        cases u <;> simp_all [isEmpty]
  | _ =>
      cases h
      cases u <;> simp_all [isEmpty]

/-- Clearing a table keeps the foreign keys: no row is left behind a deleted one. -/
theorem foreignKeys_deleteFrom (hkeys : store.ForeignKeys) (h : store.deleteFrom t = .ok store') :
    store'.ForeignKeys := by
  rcases hkeys with ⟨hlinks, hembeddings, hedges, hrecommendations⟩
  cases t with
  | eventSummaries =>
      cases h
      refine ⟨?_, hembeddings, hedges, hrecommendations⟩
      intro link hlink
      rcases List.mem_filter.1 hlink with ⟨hmem, hgone⟩
      simp [(hlinks link hmem).2] at hgone
  | patterns =>
      simp only [deleteFrom] at h
      split at h
      · cases h
      · rename_i hnone
        cases h
        refine ⟨?_, ?_, ?_, ?_⟩
        · intro link hlink
          rcases List.mem_filter.1 hlink with ⟨hmem, hgone⟩
          simp [(hlinks link hmem).1] at hgone
        · intro e he
          rcases List.mem_filter.1 he with ⟨hmem, hgone⟩
          simp [hembeddings e hmem] at hgone
        · intro e he
          rcases List.mem_map.1 he with ⟨old, hmem, rfl⟩
          rcases hedges old hmem with ⟨hfrom, hto, hpattern⟩
          refine ⟨hfrom, hto, ?_⟩
          intro id hid
          -- an edge that had a pattern has lost it
          rcases Option.filter_eq_some_iff.1 hid with ⟨hold, hgone⟩
          simp [hpattern id hold] at hgone
        · intro r hr
          exact absurd (List.any_eq_true.2 ⟨r, hr, hrecommendations r hr⟩) hnone
  | workflowNodes =>
      cases h
      refine ⟨hlinks, hembeddings, ?_, hrecommendations⟩
      intro e he
      rcases List.mem_filter.1 he with ⟨hmem, hgone⟩
      simp [(hedges e hmem).1] at hgone
  | patternEvents =>
      cases h
      exact ⟨by simp, hembeddings, hedges, hrecommendations⟩
  | patternEmbeddings =>
      cases h
      exact ⟨hlinks, by simp, hedges, hrecommendations⟩
  | workflowEdges =>
      cases h
      exact ⟨hlinks, hembeddings, by simp, hrecommendations⟩
  | recommendations =>
      cases h
      exact ⟨hlinks, hembeddings, hedges, by simp⟩
  | _ =>
      cases h
      exact ⟨hlinks, hembeddings, hedges, hrecommendations⟩

end Store
end EventStore
end HiddenSteps
