import HiddenSteps.EventStore.StoreLaws
import HiddenSteps.Systems.KeyedRows
import HiddenSteps.Systems.Machine

/-!
# ActiveProvider — the active row among the providers

`set_active_llm_provider` writes the active flag of every row at once, `upsert_llm_provider` that of
one row.  Along the runs whose calls meet `activationSafe`, at most one provider is active.
-/

namespace HiddenSteps
namespace EventStore

open Systems

/-! ## The two operations -/

namespace Store

variable {store store' : Store} {provider p : LlmProviderConfig} {providerId : String}

theorem mem_upsertLlmProvider :
    p ∈ (store.upsertLlmProvider provider).llmProviders ↔
      p = provider ∨ (p ∈ store.llmProviders ∧ p.id ≠ provider.id) :=
  KeyedRows.mem_upsert

/-- The rows after an activation are those before it, active exactly at the id. -/
theorem mem_setActiveLlmProvider (h : store.setActiveLlmProvider providerId = .ok store') :
    p ∈ store'.llmProviders ↔
      ∃ q ∈ store.llmProviders, { q with active := q.id == providerId } = p := by
  unfold setActiveLlmProvider at h
  split at h
  · cases h
    exact List.mem_map
  · cases h

theorem active_iff_of_setActiveLlmProvider
    (h : store.setActiveLlmProvider providerId = .ok store') (hp : p ∈ store'.llmProviders) :
    p.active = true ↔ p.id = providerId := by
  rcases (mem_setActiveLlmProvider h).1 hp with ⟨q, _, rfl⟩
  exact beq_iff_eq

theorem ids_setActiveLlmProvider (h : store.setActiveLlmProvider providerId = .ok store') :
    store'.llmProviders.map LlmProviderConfig.id = store.llmProviders.map LlmProviderConfig.id := by
  unfold setActiveLlmProvider at h
  split at h
  · cases h
    rw [List.map_map]
    rfl
  · cases h

theorem exists_id_of_setActiveLlmProvider
    (h : store.setActiveLlmProvider providerId = .ok store') :
    ∃ p ∈ store'.llmProviders, p.id = providerId := by
  have hregistered : (store.llmProviders.any fun p => p.id == providerId) = true := by
    unfold setActiveLlmProvider at h
    split at h
    · assumption
    · cases h
  rcases List.any_eq_true.1 hregistered with ⟨p, hp, hid⟩
  exact ⟨_, (mem_setActiveLlmProvider h).2 ⟨p, hp, rfl⟩, beq_iff_eq.1 hid⟩

end Store

/-! ## Calls on a store -/

inductive ProviderCall where
  | upsertLlmProvider (provider : LlmProviderConfig)
  | setActiveLlmProvider (providerId : String)
  /-- The compaction that follows the transaction may fail. -/
  | deleteAllData (now : Timestamp) (vacuum : Except EventStoreError Unit)

namespace ProviderCall

/-- The result of a call and the store afterwards; with a fault, a statement of the call fails
before anything is changed. -/
def run (call : ProviderCall) (fault : Option EventStoreError) (store : Store) :
    Except EventStoreError Unit × Store :=
  match fault with
  | some e => (.error e, store)
  | none =>
      match call with
      | .upsertLlmProvider provider => (.ok (), store.upsertLlmProvider provider)
      | .setActiveLlmProvider providerId =>
          match store.setActiveLlmProvider providerId with
          | .ok store' => (.ok (), store')
          | .error e => (.error e, store)
      | .deleteAllData now vacuum => (vacuum, store.deleteAllData now)

end ProviderCall

/-- A store as a machine: any call can come next, with any fault. -/
def providerCalls :
    Machine Store (ProviderCall × Option EventStoreError) (Except EventStoreError Unit) where
  step store c :=
    let r := c.1.run c.2 store
    some (r.2, [r.1])

/-- The active rows. -/
def Store.activeProviders (store : Store) : List LlmProviderConfig :=
  store.llmProviders.filter LlmProviderConfig.active

/-- A row is inserted or updated as active only while no other row is active. -/
def activationSafe (store : Store) : ProviderCall × Option EventStoreError → Bool
  | (.upsertLlmProvider provider, none) =>
      !provider.active || store.llmProviders.all fun p => !p.active || p.id == provider.id
  | _ => true

/-- The ids are distinct, by the primary key, and at most one row is active. -/
structure OneActive (store : Store) : Prop where
  ids : (store.llmProviders.map LlmProviderConfig.id).Nodup
  active : store.activeProviders.length ≤ 1

theorem OneActive.fresh {store : Store} (h : store.llmProviders = []) : OneActive store := by
  constructor <;> simp [Store.activeProviders, h]

theorem oneActive_iff {store : Store} :
    OneActive store ↔ (store.llmProviders.map LlmProviderConfig.id).Nodup ∧
      ∀ p ∈ store.llmProviders, ∀ q ∈ store.llmProviders,
        p.active = true → q.active = true → p.id = q.id := by
  constructor
  · rintro ⟨hids, hactive⟩
    exact ⟨hids, (KeyedRows.length_filter_le_one_iff hids).1 hactive⟩
  · rintro ⟨hids, hactive⟩
    exact ⟨hids, (KeyedRows.length_filter_le_one_iff hids).2 hactive⟩

theorem oneActive_setActiveLlmProvider {store store' : Store} {providerId : String}
    (hids : (store.llmProviders.map LlmProviderConfig.id).Nodup)
    (h : store.setActiveLlmProvider providerId = .ok store') : OneActive store' := by
  refine oneActive_iff.2 ⟨(Store.ids_setActiveLlmProvider h).symm ▸ hids, ?_⟩
  intro p hp q hq hpactive hqactive
  rw [(Store.active_iff_of_setActiveLlmProvider h hp).1 hpactive,
    (Store.active_iff_of_setActiveLlmProvider h hq).1 hqactive]

theorem oneActive_upsertLlmProvider {store : Store} {provider : LlmProviderConfig}
    (hone : OneActive store)
    (hsafe : activationSafe store (.upsertLlmProvider provider, none) = true) :
    OneActive (store.upsertLlmProvider provider) := by
  rcases oneActive_iff.1 hone with ⟨hids, hactive⟩
  refine oneActive_iff.2 ⟨KeyedRows.nodup_keys_upsert hids, ?_⟩
  -- an active row that stays while an active one comes in has its id
  have hother : ∀ p ∈ store.llmProviders, p.active = true → provider.active = true →
      p.id = provider.id := by
    intro p hp hpactive hprovider
    simp only [activationSafe, hprovider, Bool.not_true, Bool.false_or, List.all_eq_true] at hsafe
    simpa [hpactive] using hsafe p hp
  intro p hp q hq hpactive hqactive
  rcases Store.mem_upsertLlmProvider.1 hp with hnew | ⟨hold, _⟩
  · subst hnew
    rcases Store.mem_upsertLlmProvider.1 hq with rfl | ⟨hq', _⟩
    · rfl
    · exact (hother q hq' hqactive hpactive).symm
  · rcases Store.mem_upsertLlmProvider.1 hq with rfl | ⟨hq', _⟩
    · exact hother p hold hpactive hqactive
    · exact hactive p hold q hq' hpactive hqactive

theorem oneActive_step {store store' : Store} {c : ProviderCall × Option EventStoreError}
    {es : List (Except EventStoreError Unit)} (hone : OneActive store)
    (hsafe : activationSafe store c = true)
    (h : providerCalls.step store c = some (store', es)) : OneActive store' := by
  rcases c with ⟨call, fault⟩
  cases h
  cases fault with
  | some e => exact hone
  | none =>
      cases call with
      | upsertLlmProvider provider => exact oneActive_upsertLlmProvider hone hsafe
      | setActiveLlmProvider providerId =>
          simp only [ProviderCall.run]
          split
          · rename_i hactive
            exact oneActive_setActiveLlmProvider hone.ids hactive
          · exact hone
      | deleteAllData now vacuum => exact .fresh rfl

/-- An activation leaves the row of its id as the only active one, or fails and changes nothing. -/
theorem activeProviders_setActiveLlmProvider {store : Store} (hone : OneActive store)
    (providerId : String) (fault : Option EventStoreError) :
    let r := (ProviderCall.setActiveLlmProvider providerId).run fault store
    (r.1 = .ok () → ∃ p, r.2.activeProviders = [p] ∧ p.id = providerId) ∧
      ∀ e, r.1 = .error e → r.2 = store := by
  cases fault with
  | some e => exact ⟨fun hok => (by cases hok), fun _ _ => rfl⟩
  | none =>
      simp only [ProviderCall.run]
      cases hactive : store.setActiveLlmProvider providerId with
      | error e => exact ⟨fun hok => (by cases hok), fun _ _ => rfl⟩
      | ok store' =>
          refine ⟨fun _ => ?_, fun e he => (by cases he)⟩
          rcases Store.exists_id_of_setActiveLlmProvider hactive with ⟨p, hp, hid⟩
          have hids := (oneActive_setActiveLlmProvider hone.ids hactive).ids
          refine ⟨p, KeyedRows.filter_eq_singleton hids hp ?_, hid⟩
          intro q hq
          rw [Store.active_iff_of_setActiveLlmProvider hactive hq, hid]

/-- Along every run whose calls meet `activationSafe`, at most one provider is active, and an
activation leaves exactly the row of its id active or fails and changes nothing. -/
theorem one_provider_active_of_activationSafe {store : Store}
    {results : List (Except EventStoreError Unit)}
    (hreach : providerCalls.Reach OneActive (fun store c => activationSafe store c = true)
      store results) :
    store.activeProviders.length ≤ 1 ∧ ∀ providerId fault,
      let r := (ProviderCall.setActiveLlmProvider providerId).run fault store
      (r.1 = .ok () → ∃ p, r.2.activeProviders = [p] ∧ p.id = providerId) ∧
        ∀ e, r.1 = .error e → r.2 = store := by
  have hone : OneActive store := by
    refine hreach.invariant (fun store _ => OneActive store) (fun _ h => h) ?_
    intro store results c store' es hone hsafe hstep
    exact oneActive_step hone hsafe hstep
  exact ⟨hone.active, activeProviders_setActiveLlmProvider hone⟩

/-- The registration of a provider without a model. -/
def ProviderCall.register (id : String) (active : Bool) : ProviderCall :=
  .upsertLlmProvider
    { id := id, providerType := "ollama", isLocal := true, modelName := none, endpoint := none
      vaultKeyRef := none, active := active }

/-- Two providers are registered, the first as active, and the second is activated. -/
theorem one_provider_active_activatedRun :
    ∃ store results,
      providerCalls.Reach OneActive (fun store c => activationSafe store c = true)
        store results ∧
      store.llmProviders.length = 2 ∧ store.activeProviders.length = 1 ∧
      store.activeProviders.length ≤ 1 ∧ ∀ providerId fault,
        let r := (ProviderCall.setActiveLlmProvider providerId).run fault store
        (r.1 = .ok () → ∃ p, r.2.activeProviders = [p] ∧ p.id = providerId) ∧
          ∀ e, r.1 = .error e → r.2 = store := by
  obtain ⟨store, results, hreach, htest⟩ := Machine.exists_reach providerCalls
    (fun store c => activationSafe store c = true)
    (fun store _ => store.llmProviders.length == 2 && store.activeProviders.length == 1)
    [(.register "ollama-local" true, none),
      (.register "openai-cloud" false, none),
      (.setActiveLlmProvider "openai-cloud", none)]
    (OneActive.fresh (rfl : (Store.empty.migrate 0).llmProviders = [])) (by decide)
  simp only [Bool.and_eq_true, beq_iff_eq] at htest
  exact ⟨store, results, hreach, htest.1, htest.2, one_provider_active_of_activationSafe hreach⟩

/-- Two providers are registered as active. -/
theorem two_providers_active :
    ¬ ∀ store results, providerCalls.Reach OneActive Machine.always store results →
      store.activeProviders.length ≤ 1 ∧ ∀ providerId fault,
        let r := (ProviderCall.setActiveLlmProvider providerId).run fault store
        (r.1 = .ok () → ∃ p, r.2.activeProviders = [p] ∧ p.id = providerId) ∧
          ∀ e, r.1 = .error e → r.2 = store := by
  intro h
  obtain ⟨store, results, hreach, htest⟩ := Machine.exists_reach providerCalls Machine.always
    (fun store _ => store.activeProviders.length == 2)
    [(.register "ollama-local" true, none),
      (.register "openai-cloud" true, none)]
    (OneActive.fresh (rfl : (Store.empty.migrate 0).llmProviders = [])) (by decide)
  have hlength := (h store results hreach).1
  rw [beq_iff_eq.1 htest] at hlength
  exact absurd hlength (by decide)

end EventStore
end HiddenSteps
