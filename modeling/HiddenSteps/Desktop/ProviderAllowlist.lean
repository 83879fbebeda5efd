import HiddenSteps.Desktop.RowRule
import HiddenSteps.Desktop.SweepEnds
import HiddenSteps.EventStore.ActiveProvider

/-!
# ProviderAllowlist — the policy under which a provider was activated

`set_ai_provider` checks the allowlist of its launch; a sweep asks the active provider without
checking again.  The note of a run is the last activation with the policy in force then, and the
configuration that the sweep has found active.  Along every run, a prompt goes to a provider whose
id the policy of its activation allows.
-/

namespace HiddenSteps
namespace Desktop

open EventStore PrivacyEngine Systems

/-- The configuration that a sweep works with, and the last activation before the sweep found it:
the id and the policy in force. -/
structure ProviderChoice where
  config : LlmProviderConfig
  activatedId : String
  policy : EnterprisePolicy

/-- The last activation of a provider, under the policy of its launch, and what the sweep works
with. -/
structure ProviderNotes where
  activated : Option (String × EnterprisePolicy)
  chosen : Option ProviderChoice

/-- The provider that the next step of a command makes the active one. -/
def Call.activation (call : Call) (o : Outside) (store : Store) : Option String :=
  match call.pc, o.storeFault with
  | .activatingProvider providerId, none =>
      (store.setActiveLlmProvider providerId).toOption.map fun _ => providerId
  | _, _ => none

/-- The notes after a step. -/
def noteProvider (app : App) (action : Action) (notes : ProviderNotes) : ProviderNotes :=
  match action with
  | .call id o =>
      match (app.call? id).bind fun call => call.activation o app.store, app.policy with
      | some providerId, some policy => { notes with activated := some (providerId, policy) }
      | _, _ => notes
  | .sweep _ =>
      match app.sweep with
      | .synthesizing _ _ .getProvider =>
          { notes with
            chosen := app.store.getActiveLlmProvider.bind fun config =>
              notes.activated.map fun activation => ⟨config, activation.1, activation.2⟩ }
      | _ => notes
  | _ => notes

/-- The runs that note the activations and the configurations sweeps work with. -/
abbrev ProviderReach (ext : Externals) : App × ProviderNotes → List Effect → Prop :=
  Machine.WatchedReach (machine ext) noteProvider { activated := none, chosen := none } App.Initial
    Machine.always

/-! ## One step of a command -/

/-- The provider that a command is about to store or to activate. -/
def CallPc.providerId? : CallPc → Option String
  | .storingProvider request _ => some request.id
  | .activatingProvider providerId => some providerId
  | _ => none

/-- What a step of a command does to the providers. -/
inductive ProviderStep (policy : EnterprisePolicy) (call : Call) (o : Outside) (shared : Shared)
    (progress : Progress) : Prop where
  | quiet (hactivation : call.activation o shared.store = none)
      (hrows : progress.shared.store.llmProviders = shared.store.llmProviders ∨
        progress.shared.store.llmProviders = [])
      (hnext : progress.pc.providerId? = none)
  | accepted (request : SetAiProviderRequest)
      (hallowed : policy.isProviderAllowed request.id = true)
      (hactivation : call.activation o shared.store = none)
      (hrows : progress.shared.store.llmProviders = shared.store.llmProviders)
      (hnext : progress.pc.providerId? = some request.id)
  | registered (request : SetAiProviderRequest) (vaultKeyRef : Option String)
      (hpc : call.pc = .storingProvider request vaultKeyRef)
      (hactivation : call.activation o shared.store = none)
      (hrows : progress.shared.store.llmProviders =
        (shared.store.upsertLlmProvider (Call.providerConfig request vaultKeyRef)).llmProviders)
      (hnext : progress.pc.providerId? = some request.id)
  | activated (providerId : String) (store : Store)
      (hpc : call.pc = .activatingProvider providerId)
      (hactivation : call.activation o shared.store = some providerId)
      (hactive : shared.store.setActiveLlmProvider providerId = .ok store)
      (hrows : progress.shared.store.llmProviders = store.llmProviders)
      (hnext : progress.pc.providerId? = none)

section Inversion

variable {policy : EnterprisePolicy} {call : Call} {o : Outside} {shared : Shared}
  {progress : Progress}

/-- A command goes on to store a provider only if the policy allows its id. -/
theorem isProviderAllowed_of_startStep {request : SetAiProviderRequest}
    {vaultKeyRef : Option String}
    (h : (Call.startStep policy call o shared).pc = .storingProvider request vaultKeyRef) :
    policy.isProviderAllowed request.id = true := by
  have hcommand : call.command = .setAiProvider request := by
    have hstep : CallStep call o shared .start (Call.startStep policy call o shared) :=
      callStep_startStep
    generalize Call.startStep policy call o shared = progress at h hstep
    cases hstep with
    | providerKeyStored hcommand =>
        cases h
        exact hcommand
    | _ => cases h
  rw [Call.startStep, hcommand] at h
  simp only at h
  split at h
  · cases h
  · rename_i hallowed
    simpa using hallowed

theorem activation_eq_none (h : ∀ providerId, call.pc ≠ .activatingProvider providerId) :
    call.activation o shared.store = none := by
  unfold Call.activation
  split
  · rename_i hpc _
    exact absurd hpc (h _)
  · rfl

/-- The inversion of a step of a command, as far as the providers are concerned. -/
theorem providerStep_of_step (h : call.step policy o shared = some progress) :
    ProviderStep policy call o shared progress := by
  have hstep := callStep_of_step h
  cases hpc : call.pc with
  | start =>
      have hactivation : call.activation o shared.store = none :=
        activation_eq_none (by rw [hpc]; rintro _ ⟨⟩)
      have hstart : Call.startStep policy call o shared = progress := by
        simpa [Call.step, hpc] using h
      rw [hpc] at hstep
      cases hstep with
      | @providerKeyStored request vaultKeyRef vault hcommand =>
          exact .accepted request (isProviderAllowed_of_startStep (congrArg Progress.pc hstart))
            hactivation rfl rfl
      | erased | erasedLate => exact .quiet hactivation (Or.inr rfl) rfl
      | _ => exact .quiet hactivation (Or.inl rfl) rfl
  | storingProvider request vaultKeyRef =>
      have hactivation : call.activation o shared.store = none :=
        activation_eq_none (by rw [hpc]; rintro _ ⟨⟩)
      rw [hpc] at hstep
      cases hstep with
      | failed => exact .quiet hactivation (Or.inl rfl) rfl
      | providerStored => exact .registered request vaultKeyRef hpc hactivation rfl rfl
  | activatingProvider providerId =>
      simp only [Call.step, hpc, Option.some.injEq] at h
      subst h
      cases hfault : o.storeFault with
      | some message =>
          exact .quiet (by simp [Call.activation, hpc, hfault]) (Or.inl rfl) rfl
      | none =>
          cases hactive : shared.store.setActiveLlmProvider providerId with
          | error e =>
              exact .quiet (by simp [Call.activation, hpc, hfault, hactive, Except.toOption])
                (Or.inl rfl) rfl
          | ok store =>
              exact .activated providerId store hpc
                (by simp [Call.activation, hpc, hfault, hactive, Except.toOption]) hactive rfl rfl
  | logging entry reply =>
      have hactivation : call.activation o shared.store = none :=
        activation_eq_none (by rw [hpc]; rintro _ ⟨⟩)
      rw [hpc] at hstep
      cases hstep with
      | failed => exact .quiet hactivation (Or.inl rfl) rfl
      | logged hstore => rcases hstore with rfl | rfl <;> exact .quiet hactivation (Or.inl rfl) rfl
  | _ =>
      have hactivation : call.activation o shared.store = none :=
        activation_eq_none (by rw [hpc]; rintro _ ⟨⟩)
      rw [hpc] at hstep
      cases hstep <;> exact .quiet hactivation (Or.inl rfl) rfl

end Inversion

/-! ## What holds along a run -/

/-- The provider is built from the chosen configuration, which was the last one activated, and the
policy of its activation allows its id. -/
def BuiltAllowed (chosen : Option ProviderChoice) (provider : Provider) :
    Prop :=
  ∃ choice vault fault, chosen = some choice ∧ choice.activatedId = choice.config.id ∧
    buildProvider vault fault choice.config = some provider ∧
    choice.policy.isProviderAllowed choice.config.id = true

/-- The sweep works with an allowed provider. -/
def SweepPc.WorksAllowed (chosen : Option ProviderChoice) : SweepPc → Prop
  | .logging _ next => next.WorksAllowed chosen
  | .synthesizing _ _ (.buildProvider config) =>
      ∃ policy, chosen = some ⟨config, config.id, policy⟩ ∧
        policy.isProviderAllowed config.id = true
  | .synthesizing _ _ (.snapshotGate provider) => BuiltAllowed chosen provider
  | .synthesizing _ _ (.requesting gated) | .synthesizing _ _ (.awaiting gated) =>
      BuiltAllowed chosen gated.provider
  | _ => True

/-- The active row is the one of the last activation; it, the provider of a command in progress and
the provider of the sweep are allowed by the policies under which they were chosen. -/
structure AllowedProviders (app : App) (notes : ProviderNotes) : Prop where
  active : ∀ p ∈ app.store.llmProviders, p.active = true →
    ∃ policy, notes.activated = some (p.id, policy) ∧ policy.isProviderAllowed p.id = true
  calls : ∀ id call providerId policy, app.call? id = some call →
    call.pc.providerId? = some providerId → app.policy = some policy →
      policy.isProviderAllowed providerId = true
  sweep : app.sweep.WorksAllowed notes.chosen

/-- The notes of a sweep that looks for the active provider. -/
theorem chosen_getProvider {store : Store} {notes : ProviderNotes} {config : LlmProviderConfig}
    (hactive : ∀ p ∈ store.llmProviders, p.active = true →
      ∃ policy, notes.activated = some (p.id, policy) ∧ policy.isProviderAllowed p.id = true)
    (hconfig : store.getActiveLlmProvider = some config) :
    ∃ policy, (store.getActiveLlmProvider.bind fun config =>
        notes.activated.map fun activation => ProviderChoice.mk config activation.1 activation.2) =
          some ⟨config, config.id, policy⟩ ∧
      policy.isProviderAllowed config.id = true := by
  obtain ⟨policy, hactivated, hallowed⟩ :=
    hactive config (List.mem_of_find?_eq_some hconfig) (List.find?_some hconfig)
  exact ⟨policy, by simp [hconfig, hactivated], hallowed⟩

/-- A step of a synthesis behind the choice keeps to the chosen provider and asks no other. -/
theorem worksAllowed_synthesis {ext : Recommendations.Externals} {vault : Vault}
    {gate : DispatchGate} {context : SweepContext} {pattern : NewPattern} {pc : SynthesisPc}
    {o : Outside} {store : Store} {chosen : Option ProviderChoice}
    (hpc : pc ≠ .getProvider)
    (hworks : (SweepPc.synthesizing context pattern pc).WorksAllowed chosen) :
    let progress := Synthesis.step ext vault gate context pattern pc o store
    (Synthesis.resume context pattern progress.next).WorksAllowed chosen ∧
      ∀ dispatch consent, .requested dispatch consent ∈ progress.effects →
        BuiltAllowed chosen dispatch.provider := by
  cases pc with
  | getProvider => exact absurd rfl hpc
  | buildProvider config =>
      rcases hworks with ⟨policy, hchosen, hallowed⟩
      simp only [Synthesis.step]
      split
      · rename_i provider hbuild
        exact ⟨⟨_, vault, o.vaultFault, hchosen, rfl, hbuild, hallowed⟩, by simp⟩
      · exact ⟨trivial, by simp⟩
  | snapshotGate provider =>
      simp only [Synthesis.step]
      split
      · exact ⟨hworks, by simp⟩
      · exact ⟨trivial, by simp⟩
  | requesting gated =>
      simp only [Synthesis.step]
      split
      · refine ⟨hworks, ?_⟩
        intro dispatch consent hrequested
        cases List.mem_singleton.1 hrequested
        exact hworks
      · exact ⟨trivial, by simp⟩
  | awaiting gated =>
      simp only [Synthesis.step]
      split
      · exact ⟨hworks, by simp⟩
      · exact ⟨trivial, by simp⟩
      · exact ⟨trivial, by simp⟩
  | inserting recommendation =>
      simp only [Synthesis.step]
      split <;> exact ⟨trivial, by simp⟩

/-- Outside a synthesis a sweep asks no provider. -/
theorem worksAllowed_of_sweepStep {vault : Vault} {gate : DispatchGate} {o : Outside}
    {store : Store} {pc : SweepPc} {progress : SweepProgress}
    {chosen : Option ProviderChoice}
    (h : SweepStep vault gate o store pc progress) (hworks : pc.WorksAllowed chosen)
    (hpc : ∀ context pattern synthesis, pc ≠ .synthesizing context pattern synthesis) :
    progress.pc.WorksAllowed chosen ∧
      ∀ dispatch consent, .requested dispatch consent ∉ progress.effects := by
  cases h with
  | logged => exact ⟨hworks, by simp⟩
  | started _ hnext => rcases hnext with rfl | ⟨entry, rfl⟩ <;> exact ⟨trivial, by simp⟩
  | updated =>
      refine ⟨trivial, ?_⟩
      intro dispatch consent hmem
      simp only at hmem
      split at hmem <;> simp at hmem
  | synthesisEnded | providerRead | providerBuilt | allowed | requested | again | answered
  | recommended => exact absurd rfl (hpc _ _ _)
  | _ => exact ⟨trivial, by simp⟩

/-- A step of the sweep keeps to the chosen provider, or chooses the active one. -/
theorem worksAllowed_sweep {ext : Externals} {app app' : App} {notes : ProviderNotes} {o : Outside}
    {es : List Effect} (hinv : AllowedProviders app notes)
    (h : (machine ext).step app (.sweep o) = some (app', es)) :
    app'.sweep.WorksAllowed (noteProvider app (.sweep o) notes).chosen ∧
      ∀ dispatch consent, .requested dispatch consent ∈ es →
        BuiltAllowed notes.chosen dispatch.provider := by
  obtain ⟨process, progress, _, hstep, _, hsweep, rfl⟩ := sweep_of_step h
  rw [hsweep]
  have hworks := hinv.sweep
  cases hpc : app.sweep with
  | synthesizing context pattern synthesis =>
      rw [hpc] at hstep hworks
      cases hstep
      by_cases hchoice : synthesis = .getProvider
      · subst hchoice
        simp only [noteProvider, hpc, Synthesis.step]
        split
        · rename_i config _ hconfig
          exact ⟨chosen_getProvider hinv.active hconfig, by simp⟩
        · exact ⟨trivial, by simp⟩
      · have hnotes : noteProvider app (.sweep o) notes = notes := by
          simp only [noteProvider, hpc]
          split
          · rename_i hget
            cases hget
            exact absurd rfl hchoice
          · rfl
        rw [hnotes]
        exact worksAllowed_synthesis hchoice hworks
  | _ =>
      have hnotes : noteProvider app (.sweep o) notes = notes := by simp only [noteProvider, hpc]
      rw [hnotes]
      rw [hpc] at hstep hworks
      obtain ⟨hnext, hquiet⟩ := worksAllowed_of_sweepStep (sweepStep_of_step hstep) hworks
        (by rintro _ _ _ ⟨⟩)
      exact ⟨hnext, fun dispatch consent hmem => absurd hmem (hquiet dispatch consent)⟩

/-! ## Steps and runs -/

section Calls

variable {notes : ProviderNotes} {vault : Vault} {database : Database} {process : Process}
  {id : Nat} {call : Call} {o : Outside} {shared : Shared} {progress : Progress}

/-- What a call registers or activates next is allowed by the policy of its process. -/
theorem allowed_providerStep
    (hinv : AllowedProviders ⟨vault, some database, some process⟩ notes)
    (hcall : App.call? ⟨vault, some database, some process⟩ id = some call)
    (hprovider : ProviderStep process.policy call o shared progress) {providerId : String}
    (hnext : progress.pc.providerId? = some providerId) :
    process.policy.isProviderAllowed providerId = true := by
  cases hprovider with
  | quiet _ _ hnone | activated _ _ _ _ _ _ hnone => cases hnone.symm.trans hnext
  | accepted request hallowed _ _ hsome =>
      cases hsome.symm.trans hnext
      exact hallowed
  | registered request vaultKeyRef hpc _ _ hsome =>
      cases hsome.symm.trans hnext
      exact hinv.calls id call _ _ hcall (by rw [hpc]; rfl) rfl

/-- A row that is active after a step of a call is the one noted as activated. -/
theorem noted_providerStep
    (hinv : AllowedProviders ⟨vault, some database, some process⟩ notes)
    (hcall : App.call? ⟨vault, some database, some process⟩ id = some call)
    (hshared : shared.store = database.store)
    (hprovider : ProviderStep process.policy call o shared progress) {p : LlmProviderConfig}
    (hp : p ∈ progress.shared.store.llmProviders) (hactive : p.active = true) :
    ∃ policy, (noteProvider ⟨vault, some database, some process⟩ (.call id o) notes).activated =
      some (p.id, policy) ∧ policy.isProviderAllowed p.id = true := by
  have hnone : call.activation o shared.store = none →
      noteProvider ⟨vault, some database, some process⟩ (.call id o) notes = notes := by
    intro hactivation
    rw [hshared] at hactivation
    simp only [noteProvider, hcall, Option.bind_some, App.store, hactivation]
  have hold : p ∈ shared.store.llmProviders → ∃ policy,
      notes.activated = some (p.id, policy) ∧ policy.isProviderAllowed p.id = true := by
    intro hmem
    rw [hshared] at hmem
    exact hinv.active p hmem hactive
  cases hprovider with
  | quiet hactivation hrows =>
      rw [hnone hactivation]
      rcases hrows with hsame | hempty
      · exact hold (hsame ▸ hp)
      · simp [hempty] at hp
  | accepted _ _ hactivation hrows =>
      rw [hnone hactivation]
      exact hold (hrows ▸ hp)
  | registered request vaultKeyRef _ hactivation hrows =>
      rw [hnone hactivation]
      rw [hrows] at hp
      rcases Store.mem_upsertLlmProvider.1 hp with rfl | ⟨hmem, _⟩
      · -- a provider is stored before it is activated
        cases hactive
      · exact hold hmem
  | activated providerId store hpc hactivation hset hrows =>
      have hid : p.id = providerId :=
        (Store.active_iff_of_setActiveLlmProvider hset (hrows ▸ hp)).1 hactive
      rw [hshared] at hactivation
      refine ⟨process.policy, ?_, ?_⟩
      · simp only [noteProvider, hcall, Option.bind_some, App.store, hactivation, App.policy,
          Option.map_some, hid]
      · rw [hid]
        exact hinv.calls id call _ _ hcall (by rw [hpc]; rfl) rfl

end Calls

theorem allowedProviders_call {ext : Externals} {app app' : App} {notes : ProviderNotes} {id : Nat}
    {o : Outside} {es : List Effect} (hinv : AllowedProviders app notes)
    (h : (machine ext).step app (.call id o) = some (app', es)) :
    AllowedProviders app' (noteProvider app (.call id o) notes) := by
  rcases call_of_step h with
    ⟨vault, database, process, call, progress, rfl, hcall, hstep, rfl, rfl⟩
  have hcall' : App.call? ⟨vault, some database, some process⟩ id = some call := hcall
  have hprovider := providerStep_of_step hstep
  have hchosen : (noteProvider ⟨vault, some database, some process⟩ (.call id o) notes).chosen =
      notes.chosen := by
    unfold noteProvider
    simp only
    split <;> rfl
  refine ⟨fun p => noted_providerStep hinv hcall' rfl hprovider, ?_,
    by rw [hchosen]; exact hinv.sweep⟩
  rintro i c providerId policy hc hnext ⟨⟩
  rcases call?_set vault hcall hc with ⟨rfl, rfl⟩ | ⟨_, hold⟩
  · exact allowed_providerStep hinv hcall' hprovider hnext
  · exact hinv.calls i c providerId _ hold hnext rfl

theorem llmProviders_of_launch (app : App) (input : LaunchInput) :
    (launch app input).store.llmProviders = app.store.llmProviders := by
  rcases launch_store app input with ⟨_, _, _, hstore⟩
  rw [hstore]

theorem allowedProviders_launch {app : App} {notes : ProviderNotes} {input : LaunchInput}
    (hinv : AllowedProviders app notes) (hprocess : app.process = none) :
    AllowedProviders (launch app input) notes := by
  refine ⟨?_, ?_, ?_⟩
  · rw [llmProviders_of_launch]
    exact hinv.active
  · intro id call providerId policy hcall
    rcases row_of_launch input hprocess with ⟨hnone, _⟩ | ⟨process, hsome, hcalls, _⟩
    · simp [App.call?, hnone] at hcall
    · simp [App.call?, hsome, hcalls] at hcall
  · have hsweep : (launch app input).sweep = .start := by
      rcases (launch_cases app input).2 with ⟨_, hsame⟩ | ⟨database, _, _, _, hstart⟩
      · rw [App.sweep, hsame, hprocess]
      · rw [App.sweep, hstart]
        rfl
    rw [hsweep]
    trivial

/-- Other steps than those of commands leave the providers alone. -/
theorem llmProviders_of_step {ext : Externals} {app app' : App} {action : Action}
    {es : List Effect} (h : (machine ext).step app action = some (app', es))
    (hcall : ∀ id o, action ≠ .call id o) :
    app'.store.llmProviders = app.store.llmProviders := by
  cases appStep_of_step h with
  | launch => exact llmProviders_of_launch _ _
  | call => exact absurd rfl (hcall _ _)
  | @observe vault database process o progress hstep =>
      show progress.store.llmProviders = database.store.llmProviders
      rcases store_of_observationStep hstep with hstore | ⟨event, hstore⟩ <;> rw [hstore]
      rfl
  | sweep hstep => exact (configuration_of_sweepStep hstep).1
  | _ => rfl

theorem allowedProviders_step {ext : Externals} {app app' : App} {notes : ProviderNotes}
    {action : Action} {es : List Effect} (hinv : AllowedProviders app notes)
    (h : (machine ext).step app action = some (app', es)) :
    AllowedProviders app' (noteProvider app action notes) := by
  by_cases hcall : ∃ id o, action = .call id o
  · rcases hcall with ⟨id, o, rfl⟩
    exact allowedProviders_call hinv h
  · by_cases hlaunch : ∃ input, action = .launch input
    · rcases hlaunch with ⟨input, rfl⟩
      cases appStep_of_step h with
      | launch hprocess => exact allowedProviders_launch hinv hprocess
    · have hnotCall : ∀ id o, action ≠ .call id o := fun id o hi => hcall ⟨id, o, hi⟩
      obtain ⟨_, hpolicy, hcalls⟩ := row_of_step h (fun input hi => hlaunch ⟨input, hi⟩) hnotCall
      refine ⟨?_, ?_, ?_⟩
      · have hactivated : (noteProvider app action notes).activated = notes.activated := by
          cases action with
          | call id o => exact absurd rfl (hnotCall id o)
          | sweep o =>
              simp only [noteProvider]
              split <;> rfl
          | _ => rfl
        rw [llmProviders_of_step h hnotCall, hactivated]
        exact hinv.active
      · intro id call providerId policy hc hnext hsome
        rcases hcalls id call hc with hold | hstart
        · exact hinv.calls id call providerId policy hold hnext (policy_of_step hc hpolicy hsome)
        · rw [hstart] at hnext
          cases hnext
      · cases appStep_of_step h with
        | sweep => exact (worksAllowed_sweep hinv h).1
        | launch => exact absurd rfl (fun hi => hlaunch ⟨_, hi⟩)
        | call => exact absurd rfl (hnotCall _ _)
        | exit => trivial
        | invoke => exact hinv.sweep
        | observe => exact hinv.sweep
        | operate | notify => exact hinv.sweep

/-- Along every run, a prompt goes to a provider built from the configuration that was activated
last when the sweep found it, and whose id is allowed by the policy in force in the launch of that
activation. -/
theorem asked_provider_allowed_at_activation {ext : Externals} {watched : App × ProviderNotes}
    {history : List Effect} (hreach : ProviderReach ext watched history) {o : Outside} {app' : App}
    {es : List Effect} (hstep : (machine ext).step watched.1 (.sweep o) = some (app', es))
    {dispatch : Dispatch} {consent : Bool} (hrequested : .requested dispatch consent ∈ es) :
    ∃ choice vault fault, watched.2.chosen = some choice ∧
      choice.activatedId = choice.config.id ∧
      buildProvider vault fault choice.config = some dispatch.provider ∧
      choice.policy.isProviderAllowed choice.config.id = true := by
  have hinv : AllowedProviders watched.1 watched.2 := by
    refine Machine.WatchedReach.invariant ?_ ?_ hreach
    · intro app hinit
      refine ⟨?_, ?_, ?_⟩
      · simp [hinit.store_eq, Store.empty]
      · simp [App.call?, hinit.2]
      · rw [hinit.sweep_eq]
        trivial
    · intro app notes action app' es hinv _ hstep
      exact allowedProviders_step hinv hstep
  exact (worksAllowed_sweep hinv hstep).2 dispatch consent hrequested

/-! ## Runs under an allowlist -/

/-- A launch that finds a policy file with an allowlist. -/
def LaunchInput.withAllowlist (allowed : List String) : LaunchInput :=
  { LaunchInput.plain (.repeating 1) [.measured] with
    policyFile :=
      some (some { EnterprisePolicy.unrestricted with providerAllowlist := some allowed }) }

/-- A provider on the device. -/
def SetAiProviderRequest.local (id : String) : SetAiProviderRequest where
  id := id
  providerType := "ollama"
  isLocal := true
  modelName := some "llama3"
  endpoint := none
  apiKey := none

/-- The next step of the sweep sends a prompt while the policy allows one id and the chosen
configuration has another. -/
def asksUnder (allowed chosen : String) (app : App) (notes : ProviderNotes) : Bool :=
  app.policy.any (fun policy => policy.providerAllowlist == some [allowed]) &&
    notes.chosen.any (fun choice => choice.config.id == chosen) &&
    ((machine .reference).step app (.sweep (.plain 0))).any fun r =>
      r.2.any fun
        | .requested _ _ => true
        | _ => false

theorem exists_request_of_asksUnder {allowed chosen : String} {app : App} {notes : ProviderNotes}
    (h : asksUnder allowed chosen app notes = true) :
    ∃ policy choice app' es dispatch consent, app.policy = some policy ∧
      policy.providerAllowlist = some [allowed] ∧ notes.chosen = some choice ∧
      choice.config.id = chosen ∧
      (machine .reference).step app (.sweep (.plain 0)) = some (app', es) ∧
      Effect.requested dispatch consent ∈ es := by
  simp only [asksUnder, Bool.and_eq_true] at h
  rcases (Option.any_eq_true _ _).1 h.1.1 with ⟨policy, hpolicy, hallowed⟩
  rcases (Option.any_eq_true _ _).1 h.1.2 with ⟨choice, hchosen, hid⟩
  rcases (Option.any_eq_true _ _).1 h.2 with ⟨⟨app', es⟩, hstep, hrequested⟩
  rcases List.any_eq_true.1 hrequested with ⟨e, hmem, he⟩
  cases e with
  | requested dispatch consent =>
      exact ⟨policy, choice, app', es, dispatch, consent, hpolicy, beq_iff_eq.1 hallowed, hchosen,
        beq_iff_eq.1 hid, hstep, hmem⟩
  | _ => cases he

/-- An allowed provider is activated and asked in one launch. -/
theorem asked_provider_allowed_chosenRun :
    ∃ watched history app' es dispatch consent,
      ProviderReach .reference watched history ∧
      (machine .reference).step watched.1 (.sweep (.plain 0)) = some (app', es) ∧
      .requested dispatch consent ∈ es ∧
      ∃ choice vault fault, watched.2.chosen = some choice ∧
        choice.activatedId = choice.config.id ∧
        buildProvider vault fault choice.config = some dispatch.provider ∧
        choice.policy.isProviderAllowed choice.config.id = true := by
  obtain ⟨watched, history, hreach, htest⟩ := exists_watched_run noteProvider
    { activated := none, chosen := none } Machine.always (asksUnder "ollama" "ollama")
    (.launch (.withAllowlist ["ollama"]) :: Action.consenting 0 2 ++
      Action.complete 3 (.setAiProvider (.local "ollama")) 4 ++ Action.capturing ++
      Action.sweeping (focusPattern 1) 6) (by decide +kernel)
  obtain ⟨policy, choice, app', es, dispatch, consent, _, _, _, _, hstep, hmem⟩ :=
    exists_request_of_asksUnder htest
  exact ⟨watched, history, app', es, dispatch, consent, hreach, hstep, hmem,
    asked_provider_allowed_at_activation hreach hstep hmem⟩

/-- A provider chosen before there was a policy is asked under one that does not allow it. -/
theorem disallowed_provider_asked :
    ¬ ∀ ext watched history, ProviderReach ext watched history →
      ∀ o app' es dispatch consent,
        (machine ext).step watched.1 (.sweep o) = some (app', es) →
        .requested dispatch consent ∈ es →
        ∀ choice policy, watched.2.chosen = some choice → watched.1.policy = some policy →
          policy.isProviderAllowed choice.config.id = true := by
  intro h
  obtain ⟨watched, history, hreach, htest⟩ := exists_watched_run noteProvider
    { activated := none, chosen := none } Machine.always (asksUnder "ollama" "lmstudio")
    (.launch (.plain (.repeating 1) [.measured]) :: Action.consenting 0 2 ++
      Action.complete 3 (.setAiProvider (.local "lmstudio")) 4 ++ Action.capturing ++
      [.exit, .launch (.withAllowlist ["ollama"])] ++ Action.sweeping (focusPattern 1) 6)
    (by decide +kernel)
  obtain ⟨policy, choice, app', es, dispatch, consent, hpolicy, hallowed, hchosen, hid, hstep,
    hmem⟩ := exists_request_of_asksUnder htest
  have hcheck := h _ watched history hreach _ app' es dispatch consent hstep hmem choice policy
    hchosen hpolicy
  rw [EnterprisePolicy.isProviderAllowed, hallowed, hid] at hcheck
  exact absurd hcheck (by decide)

end Desktop
end HiddenSteps
