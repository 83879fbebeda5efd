import HiddenSteps.Desktop.App

/-!
# OffDevice — where the requests of a synthesis go

The gate asks whether a provider is local, and the type of the provider answers.  Where the request
goes is told by the endpoint, a text of its own: a provider of the local type is not asked for
consent, wherever its endpoint is.
-/

namespace HiddenSteps
namespace Desktop

open EventStore Patterns PrivacyEngine Systems

/-! ## A synthesis by itself -/

/-- Where a synthesis stands after a step, if it has not ended. -/
def SynthesisNext.pc? : SynthesisNext → Option SynthesisPc
  | .goOn pc => some pc
  | .done _ => none

/-- A synthesis with the store it works on, under a gate that does not change. -/
def synthesis (ext : Recommendations.Externals) (gate : DispatchGate) (context : SweepContext)
    (pattern : NewPattern) : Machine (Option SynthesisPc × Store) (Vault × Outside) Effect where
  step state input :=
    state.1.map fun pc =>
      let progress := Synthesis.step ext input.1 gate context pattern pc input.2 state.2
      ((progress.next.pc?, progress.store), progress.effects)

section

variable (onDevice : String → Bool) (ext : Recommendations.Externals) (gate : DispatchGate)
  (store : Store) (context : SweepContext) (pattern : NewPattern)

/-- General consent is granted, and the level is not the highest. -/
def Permitted : Prop :=
  gate.generalCloudConsent = true ∧ context.privacyState.currentLevel ≠ .maximumAssistance

/-- Every request to an endpoint off the device is permitted. -/
def LeavesPermitted : Prop :=
  ∀ state history,
    (synthesis ext gate context pattern).Reach (· = (some .getProvider, store)) Machine.always state
      history →
    ∀ dispatch consent, Effect.requested dispatch consent ∈ history →
      onDevice dispatch.provider.endpoint = false → Permitted gate context

/-- A model has been chosen. -/
def hasModel (config : LlmProviderConfig) : Bool :=
  config.modelName.any fun m => !m.toList.all isWhitespace

/-- The active provider is not one of the local type with an endpoint off the device. -/
def LocalTypeOnDevice : Prop :=
  ∀ config, store.getActiveLlmProvider = some config → hasModel config = true →
    config.providerType = "ollama" →
      onDevice (config.endpoint.getD "http://localhost:11434") = true

end

/-! ## What is asked for -/

section

variable {onDevice : String → Bool} {ext : Recommendations.Externals} {gate : DispatchGate}
  {store : Store} {context : SweepContext} {pattern : NewPattern}

/-- Only the local type makes a local provider, and any endpoint will do. -/
theorem local_of_buildProvider {vault : Vault} {fault : Option String} {config : LlmProviderConfig}
    {provider : Provider} (h : buildProvider vault fault config = some provider)
    (hlocal : provider.isLocal = true) :
    hasModel config = true ∧ config.providerType = "ollama" ∧
      provider.endpoint = config.endpoint.getD "http://localhost:11434" := by
  rcases Option.map_eq_some_iff.1 h with ⟨model, hmodel, hprovider⟩
  rcases Option.filter_eq_some_iff.1 hmodel with ⟨hname, hblank⟩
  have hchosen : hasModel config = true := by
    rw [hasModel, hname, Option.any_some]
    exact hblank
  simp only at hprovider
  split at hprovider
  · rename_i htype
    cases hprovider
    exact ⟨hchosen, htype, rfl⟩
  · split at hprovider <;> cases hprovider <;> cases hlocal

/-- The provider is built from the active configuration. -/
def BuiltFrom (store : Store) (provider : Provider) : Prop :=
  ∃ config vault fault, store.getActiveLlmProvider = some config ∧
    buildProvider vault fault config = some provider

/-- A synthesis that has not been answered yet works with the active provider and the gate. -/
def Asking (gate : DispatchGate) (store : Store) : Option SynthesisPc × Store → Prop
  | (some .getProvider, store') => store' = store
  | (some (.buildProvider config), _) => store.getActiveLlmProvider = some config
  | (some (.snapshotGate provider), _) => BuiltFrom store provider
  | (some (.requesting gated), _) | (some (.awaiting gated), _) =>
      gated.gate = gate ∧ BuiltFrom store gated.provider
  | _ => True

/-- A request is made when the gate allows it. -/
def AskedThrough (gate : DispatchGate) (store : Store) (context : SweepContext) : Effect → Prop
  | .requested dispatch _ =>
      BuiltFrom store dispatch.provider ∧
        Synthesis.decide gate dispatch.provider context.privacyState.currentLevel
          dispatch.detected = .allow
  | _ => True

theorem asking_step {state state' : Option SynthesisPc × Store} {input : Vault × Outside}
    {es : List Effect} (hinv : Asking gate store state)
    (h : (synthesis ext gate context pattern).step state input = some (state', es)) :
    Asking gate store state' ∧ ∀ e ∈ es, AskedThrough gate store context e := by
  rcases state with ⟨pc, store'⟩
  cases pc with
  | none => cases h
  | some pc =>
      cases h
      cases pc with
      | getProvider =>
          obtain rfl : store' = store := hinv
          simp only [Synthesis.step]
          split
          · rename_i config _ hconfig
            exact ⟨hconfig, by simp⟩
          · exact ⟨trivial, by simp⟩
      | buildProvider config =>
          simp only [Synthesis.step]
          split
          · rename_i provider hbuild
            exact ⟨⟨config, _, _, hinv, hbuild⟩, by simp⟩
          · exact ⟨trivial, by simp⟩
      | snapshotGate provider =>
          simp only [Synthesis.step]
          split
          · exact ⟨⟨rfl, hinv⟩, by simp⟩
          · exact ⟨trivial, by simp⟩
      | requesting gated =>
          rcases hinv with ⟨hgate, hbuilt⟩
          simp only [Synthesis.step]
          split
          · rename_i hallow
            refine ⟨⟨hgate, hbuilt⟩, ?_⟩
            intro e he
            rw [List.mem_singleton.1 he]
            exact ⟨hbuilt, hgate ▸ hallow⟩
          · exact ⟨trivial, by simp⟩
      | awaiting gated =>
          simp only [Synthesis.step]
          split
          · exact ⟨hinv, by simp⟩
          · exact ⟨trivial, by simp⟩
          · exact ⟨trivial, by simp⟩
      | inserting recommendation =>
          simp only [Synthesis.step]
          split
          · refine ⟨trivial, ?_⟩
            intro e he
            rw [List.mem_singleton.1 he]
            trivial
          · exact ⟨trivial, by simp⟩

/-- Every request of a synthesis has passed the gate. -/
theorem askedThrough_of_reach {state : Option SynthesisPc × Store} {history : List Effect}
    (hreach : (synthesis ext gate context pattern).Reach (· = (some .getProvider, store))
      Machine.always state history) : ∀ e ∈ history, AskedThrough gate store context e := by
  have hemits := hreach.emits (Asking gate store) (AskedThrough gate store context)
    (by rintro _ rfl; exact rfl) (fun _ _ _ _ hinv _ hstep => asking_step hinv hstep)
  exact hemits.2

/-- A provider of the local type is asked whatever its endpoint is. -/
theorem exists_request {config : LlmProviderConfig}
    (hconfig : store.getActiveLlmProvider = some config) (hmodel : hasModel config = true)
    (htype : config.providerType = "ollama") :
    ∃ state history dispatch consent,
      (synthesis ext gate context pattern).Reach (· = (some .getProvider, store)) Machine.always
        state history ∧
      Effect.requested dispatch consent ∈ history ∧
      dispatch.provider.endpoint = config.endpoint.getD "http://localhost:11434" := by
  rcases (Option.any_eq_true _ _).1 hmodel with ⟨model, hname, hblank⟩
  let provider : Provider :=
    { id := "ollama"
      isLocal := true
      endpoint := config.endpoint.getD "http://localhost:11434"
      apiKey := []
      model := model }
  -- A provider of the local type needs no key.
  let vault : Vault := fun _ => none
  have hbuild : buildProvider vault none config = some provider := by
    have hfilter : (config.modelName.filter fun m => !m.toList.all isWhitespace) = some model :=
      Option.filter_eq_some_iff.2 ⟨hname, hblank⟩
    rw [buildProvider, hfilter, Option.map_some]
    simp only [htype, if_true, provider]
  have hallow : Synthesis.decide gate provider context.privacyState.currentLevel pattern.detected =
      .allow := rfl
  let gated : GatedProvider := { provider := provider, gate := gate, attempts := .new }
  let M := synthesis ext gate context pattern
  -- One step for each state of the synthesis, up to the request.
  have hread : M.step (some .getProvider, store) (vault, .plain 0) =
      some ((some (.buildProvider config), store), []) := by
    simp [M, synthesis, Synthesis.step, SynthesisNext.pc?, Outside.plain, hconfig]
  have hbuilt : M.step (some (.buildProvider config), store) (vault, .plain 0) =
      some ((some (.snapshotGate provider), store), []) := by
    simp [M, synthesis, Synthesis.step, SynthesisNext.pc?, Outside.plain, hbuild]
  have hallowed : M.step (some (.snapshotGate provider), store) (vault, .plain 0) =
      some ((some (.requesting gated), store), []) := by
    simp [M, synthesis, Synthesis.step, SynthesisNext.pc?, hallow, gated]
  let dispatch : Dispatch :=
    { provider := provider
      request := Recommendations.synthesisRequest pattern.id pattern.detected
      detected := pattern.detected
      events := context.events }
  have hasked : M.step (some (.requesting gated), store) (vault, .plain 0) =
      some ((some (.awaiting gated), store), [.requested dispatch (getCloudConsent store)]) := by
    simp [M, synthesis, Synthesis.step, SynthesisNext.pc?, hallow, gated, dispatch]
  have hstart : M.Reach (· = (some .getProvider, store)) Machine.always (some .getProvider, store)
      [] := .start rfl
  have hreach := (((hstart.step trivial hread).step trivial hbuilt).step trivial hallowed).step
    trivial hasked
  exact ⟨_, _, dispatch, _, hreach, List.mem_append_right _ (List.mem_singleton_self _), rfl⟩

/-- Requests off the device are permitted exactly if the active provider is not of the local type
with an endpoint off the device, or everything is permitted anyway. -/
theorem leavesPermitted_iff :
    LeavesPermitted onDevice ext gate store context pattern ↔
      LocalTypeOnDevice onDevice store ∨ Permitted gate context := by
  constructor
  · intro h
    by_cases hstays : LocalTypeOnDevice onDevice store
    · exact Or.inl hstays
    -- The run that asks the configured provider without any question.
    · unfold LocalTypeOnDevice at hstays
      push Not at hstays
      rcases hstays with ⟨config, hconfig, hmodel, htype, hoff⟩
      obtain ⟨state, history, dispatch, consent, hreach, hrequest, hendpoint⟩ :
          ∃ state history dispatch consent,
            (synthesis ext gate context pattern).Reach (· = (some .getProvider, store))
              Machine.always state history ∧
            Effect.requested dispatch consent ∈ history ∧
            dispatch.provider.endpoint = config.endpoint.getD "http://localhost:11434" :=
        exists_request hconfig hmodel htype
      refine Or.inr (h state history hreach dispatch consent hrequest ?_)
      rw [hendpoint]
      simpa using hoff
  · rintro hcondition state history hreach dispatch consent hrequest hoff
    rcases askedThrough_of_reach hreach _ hrequest with ⟨⟨config, vault, fault, hconfig, hbuild⟩, hallow⟩
    cases hlocal : dispatch.provider.isLocal with
    -- The gate allows a local provider unseen, so only its endpoint can keep it on the device.
    | true =>
        rcases local_of_buildProvider hbuild hlocal with ⟨hmodel, htype, hendpoint⟩
        rcases hcondition with hstays | hpermitted
        · rw [hendpoint, hstays config hconfig hmodel htype] at hoff
          cases hoff
        · exact hpermitted
    | false =>
        rw [Synthesis.decide, hlocal] at hallow
        exact DispatchGate.evaluate_allow hallow

end

/-! ## Endpoints that name the machine itself -/

/-- The host of an endpoint: what stands between the scheme and the port or the path, without user
information. -/
def endpointHost (endpoint : String) : String :=
  let authority := ((endpoint.toList.dropWhile (· != '/')).drop 2).takeWhile
    fun c => c != '/' && c != '?' && c != '#'
  let host := (authority.reverse.takeWhile (· != '@')).reverse
  if host.head? = some '[' then String.ofList (host.takeWhile (· != ']'))
  else String.ofList (host.takeWhile (· != ':'))

/-- The endpoint names the machine itself. -/
def namesLoopback (endpoint : String) : Bool :=
  ["localhost", "127.0.0.1", "[::1"].contains (endpointHost endpoint)

example : namesLoopback "http://localhost:11434" = true := by decide +kernel

/-- A provider of the local type on another machine. -/
def remoteOllama : LlmProviderConfig where
  id := "ollama"
  providerType := "ollama"
  isLocal := true
  modelName := some "llama3"
  endpoint := some "http://ollama.example.com:11434"
  vaultKeyRef := none
  active := true

/-- Without any consent, and at the highest level, a pattern goes to another machine. -/
theorem remote_ollama_asked_without_consent :
    ¬ ∀ ext gate store context pattern,
      LeavesPermitted namesLoopback ext gate store context pattern := by
  intro h
  let context : SweepContext :=
    { privacyState := { PrivacyState.initial 0 with currentLevel := .maximumAssistance }
      events := []
      existing := []
      rest := [] }
  let store : Store := { Store.empty with llmProviders := [remoteOllama] }
  have hconfig : store.getActiveLlmProvider = some remoteOllama := rfl
  have hmodel : hasModel remoteOllama = true := by decide
  obtain ⟨state, history, dispatch, consent, hreach, hrequest, hendpoint⟩ :
      ∃ state history dispatch consent,
        (synthesis Externals.reference.synthesis .new context ⟨1, focusPattern 1⟩).Reach
          (· = (some .getProvider, store)) Machine.always state history ∧
        Effect.requested dispatch consent ∈ history ∧
        dispatch.provider.endpoint = "http://ollama.example.com:11434" :=
    exists_request hconfig hmodel rfl
  have hoff : namesLoopback dispatch.provider.endpoint = false := by
    rw [hendpoint]
    decide +kernel
  have hpermitted := h _ _ _ _ _ state history hreach dispatch consent hrequest hoff
  cases hpermitted.1

end Desktop
end HiddenSteps
