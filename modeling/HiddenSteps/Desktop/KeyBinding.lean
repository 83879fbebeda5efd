import HiddenSteps.Desktop.KeySecrecy
import HiddenSteps.Desktop.ProviderAllowlist

/-!
# KeyBinding — which provider a key is sent to

A key is filed in the vault under the id it was handed in for, and a configuration refers to the
entry of its own id.  So a request carries no key, or one that was handed in for the id under which
its provider was registered.
-/

namespace HiddenSteps
namespace Desktop

open EventStore Patterns PrivacyEngine Recommendations Systems

/-! ## At most one active provider -/

/-- A step of a command leaves at most one provider active. -/
theorem oneActive_providerStep {policy : EnterprisePolicy} {call : Call} {o : Outside}
    {shared : Shared} {progress : Progress} (hone : OneActive shared.store)
    (h : ProviderStep policy call o shared progress) : OneActive progress.shared.store := by
  have hrows : ∀ store : Store, OneActive store →
      progress.shared.store.llmProviders = store.llmProviders → OneActive progress.shared.store := by
    rintro store ⟨hids, hactive⟩ heq
    exact ⟨by rwa [heq], by rwa [Store.activeProviders, heq]⟩
  cases h with
  | quiet _ hquiet =>
      rcases hquiet with hsame | hempty
      · exact hrows _ hone hsame
      · exact .fresh hempty
  | accepted _ _ _ hsame => exact hrows _ hone hsame
  | registered request vaultKeyRef _ _ hupsert =>
      -- the program registers a provider as inactive and activates it in a step of its own
      exact hrows _ (oneActive_upsertLlmProvider hone rfl) hupsert
  | activated providerId store _ _ hactivated hset =>
      exact hrows _ (oneActive_setActiveLlmProvider hone.ids hactivated) hset

/-- In every state the program can reach, whatever the commands and loops do in between, the ids of
the providers are distinct and at most one of them is active. -/
theorem one_active_of_reach {ext : Externals} {app : App} {history : List Effect}
    (hreach : (machine ext).Reach App.Initial Machine.always app history) :
    (app.store.llmProviders.map LlmProviderConfig.id).Nodup ∧
      app.store.activeProviders.length ≤ 1 := by
  have hone : OneActive app.store := by
    refine hreach.invariant (fun app _ => OneActive app.store) ?_ ?_
    · intro app hinit
      exact .fresh (by rw [hinit.store_eq]; rfl)
    · intro app _ action app' es hone _ hstep
      by_cases hcall : ∃ id o, action = .call id o
      · rcases hcall with ⟨id, o, rfl⟩
        rcases call_of_step hstep with ⟨vault, database, process, call, progress, rfl, _, hcall, rfl, _⟩
        exact @oneActive_providerStep _ _ _ ⟨vault, database, process.gate⟩ _ hone
          (providerStep_of_step hcall)
      · have hrows := llmProviders_of_step hstep fun id o h => hcall ⟨id, o, h⟩
        exact ⟨by rw [hrows]; exact hone.ids, by
          rw [Store.activeProviders, hrows]
          exact hone.active⟩
  exact ⟨hone.ids, hone.active⟩

theorem one_active_keyedRun :
    ∃ app history, (machine .reference).Reach App.Initial Machine.always app history ∧
      app.store.llmProviders.length = 1 ∧
      (app.store.llmProviders.map LlmProviderConfig.id).Nodup ∧
        app.store.activeProviders.length ≤ 1 := by
  obtain ⟨app, history, hreach, htest⟩ := exists_run Machine.always
    (fun app _ => app.store.llmProviders.length == 1) (keyedRun [1, 2]) (by decide +kernel)
  exact ⟨app, history, hreach, beq_iff_eq.1 htest, one_active_of_reach hreach⟩

/-! ## The keys that have been handed in -/

/-- The requests to register a provider, latest first. -/
def noteRequest (_ : App) (action : Action) (requests : List SetAiProviderRequest) :
    List SetAiProviderRequest :=
  match action with
  | .invoke (.setAiProvider request) => request :: requests
  | _ => requests

/-- The runs that note the requests to register a provider. -/
abbrev RequestReach (ext : Externals) : App × List SetAiProviderRequest → List Effect → Prop :=
  Machine.WatchedReach (machine ext) noteRequest [] App.Initial Machine.always

section Bound

variable (requests : List SetAiProviderRequest) (vault : Vault)

/-- The key was handed in for an id. -/
def HandedIn (id : String) (key : List UInt8) : Prop :=
  ∃ request ∈ requests, request.id = id ∧ request.apiKey = some key

/-- The vault has a key for an id, and the key was handed in for it. -/
def Filed (id : String) : Prop :=
  ∃ key, vault (providerKeyEntry id) = some key ∧ HandedIn requests id key

/-- A reference of a configuration leads to a key that was handed in for its id. -/
def RefBound (id : String) (vaultKeyRef : Option String) : Prop :=
  vaultKeyRef = none ∨ vaultKeyRef = some (providerKeyEntry id) ∧ Filed requests vault id

/-- A configuration is as a request had it. -/
def ConfigBound (config : LlmProviderConfig) : Prop :=
  ∃ request ∈ requests,
    config = { Call.providerConfig request config.vaultKeyRef with active := config.active } ∧
      RefBound requests vault request.id config.vaultKeyRef

/-- A provider is as a request had it, and has no key or one that was handed in for its id. -/
def ProviderBound (provider : Provider) : Prop :=
  ∃ request ∈ requests,
    buildProvider (fun _ => none) none (Call.providerConfig request none) =
        some provider.withoutKey ∧
      (provider.apiKey = [] ∨ HandedIn requests request.id provider.apiKey)

/-- A command that registers a provider has a request that was noted. -/
def CallBound (call : Call) : Prop :=
  (∀ request, call.command = .setAiProvider request → request ∈ requests) ∧
    ∀ request vaultKeyRef, call.pc = .storingProvider request vaultKeyRef →
      request ∈ requests ∧ RefBound requests vault request.id vaultKeyRef

def SweepPc.KeyBound : SweepPc → Prop
  | .logging _ next => next.KeyBound
  | .synthesizing _ _ (.buildProvider config) => ConfigBound requests vault config
  | .synthesizing _ _ (.snapshotGate provider) => ProviderBound requests provider
  | .synthesizing _ _ (.requesting gated) | .synthesizing _ _ (.awaiting gated) =>
      ProviderBound requests gated.provider
  | _ => True

end Bound

/-- The configurations, the commands under way and the sweep keep to the keys handed in. -/
structure KeysBound (app : App) (requests : List SetAiProviderRequest) : Prop where
  configs : ∀ config ∈ app.store.llmProviders, ConfigBound requests app.vault config
  calls : ∀ id call, app.call? id = some call → CallBound requests app.vault call
  sweep : app.sweep.KeyBound requests app.vault

/-! ## More requests and another vault -/

/-- The second of two vaults has the entries of the first, or keys that were handed in. -/
def Refiles (requests : List SetAiProviderRequest) (vault vault' : Vault) : Prop :=
  ∀ id, Filed requests vault id → Filed requests vault' id

section Mono

variable {requests requests' : List SetAiProviderRequest} {vault vault' : Vault}

theorem providerKeyEntry_inj {id id' : String} (h : providerKeyEntry id = providerKeyEntry id') :
    id = id' := by
  have hlist := congrArg String.toList h
  simp only [providerKeyEntry, String.toList_append, List.append_cancel_left_eq] at hlist
  exact String.toList_inj.1 hlist

theorem Refiles.of_eq (h : ∀ id, vault' (providerKeyEntry id) = vault (providerKeyEntry id)) :
    Refiles requests vault vault' := by
  rintro id ⟨key, hentry, hkey⟩
  exact ⟨key, (h id).trans hentry, hkey⟩

/-- Filing a key that was handed in. -/
theorem Refiles.set {request : SetAiProviderRequest} {key : List UInt8}
    (hrequest : request ∈ requests) (hkey : request.apiKey = some key) :
    Refiles requests vault (vault.set (providerKeyEntry request.id) key) := by
  rintro id ⟨old, hentry, hold⟩
  by_cases hid : id = request.id
  · subst hid
    exact ⟨key, Vault.set_same _ _ _, request, hrequest, rfl, hkey⟩
  · exact ⟨old, (Vault.set_ne _ _ fun h => hid (providerKeyEntry_inj h)).trans hentry, hold⟩

theorem HandedIn.mono (hsub : requests ⊆ requests') {id : String} {key : List UInt8}
    (h : HandedIn requests id key) : HandedIn requests' id key := by
  rcases h with ⟨request, hmem, hid, hkey⟩
  exact ⟨request, hsub hmem, hid, hkey⟩

theorem Filed.mono (hsub : requests ⊆ requests') {id : String} (h : Filed requests vault id) :
    Filed requests' vault id := by
  rcases h with ⟨key, hentry, hkey⟩
  exact ⟨key, hentry, hkey.mono hsub⟩

variable (hsub : requests ⊆ requests')
  (hfiled : ∀ id, Filed requests vault id → Filed requests' vault' id)

include hfiled in
theorem RefBound.mono {id : String} {vaultKeyRef : Option String}
    (h : RefBound requests vault id vaultKeyRef) : RefBound requests' vault' id vaultKeyRef := by
  rcases h with rfl | ⟨rfl, h⟩
  · exact Or.inl rfl
  · exact Or.inr ⟨rfl, hfiled id h⟩

include hsub hfiled

theorem ConfigBound.mono {config : LlmProviderConfig} (h : ConfigBound requests vault config) :
    ConfigBound requests' vault' config := by
  rcases h with ⟨request, hmem, hconfig, href⟩
  exact ⟨request, hsub hmem, hconfig, href.mono hfiled⟩

theorem CallBound.mono {call : Call} (h : CallBound requests vault call) :
    CallBound requests' vault' call := by
  refine ⟨fun request hcommand => hsub (h.1 request hcommand), ?_⟩
  intro request vaultKeyRef hpc
  rcases h.2 request vaultKeyRef hpc with ⟨hmem, href⟩
  exact ⟨hsub hmem, href.mono hfiled⟩

omit hfiled in
theorem ProviderBound.mono {provider : Provider} (h : ProviderBound requests provider) :
    ProviderBound requests' provider := by
  rcases h with ⟨request, hmem, hbuild, hkey⟩
  exact ⟨request, hsub hmem, hbuild, hkey.imp_right fun hkey => hkey.mono hsub⟩

theorem SweepPc.KeyBound.mono {pc : SweepPc} (h : pc.KeyBound requests vault) :
    pc.KeyBound requests' vault' := by
  induction pc with
  | logging entry next ih => exact ih h
  | synthesizing context pattern pc =>
      cases pc with
      | buildProvider config => exact ConfigBound.mono hsub hfiled h
      | snapshotGate provider => exact ProviderBound.mono hsub h
      | requesting gated => exact ProviderBound.mono hsub h
      | awaiting gated => exact ProviderBound.mono hsub h
      | _ => trivial
  | _ => trivial

end Mono

/-! ## One step of a command -/

/-- What a step of a command does to the configurations and to the keys of the providers. -/
inductive KeyStep (call : Call) (shared : Shared) (progress : Progress) : Prop where
  | quiet
      (hvault : ∀ id, progress.shared.vault (providerKeyEntry id) =
        shared.vault (providerKeyEntry id))
      (hrows : ∀ config ∈ progress.shared.store.llmProviders,
        ∃ old ∈ shared.store.llmProviders, config = { old with active := config.active })
      (hnext : ∀ request vaultKeyRef, progress.pc ≠ .storingProvider request vaultKeyRef)
  | accepted (request : SetAiProviderRequest) (vaultKeyRef : Option String)
      (hcommand : call.command = .setAiProvider request)
      (hrows : progress.shared.store.llmProviders = shared.store.llmProviders)
      (hkey : vaultKeyRef = none ∧ progress.shared.vault = shared.vault ∨
        ∃ key, request.apiKey = some key ∧ vaultKeyRef = some (providerKeyEntry request.id) ∧
          progress.shared.vault = shared.vault.set (providerKeyEntry request.id) key)
      (hnext : progress.pc = .storingProvider request vaultKeyRef)
  | registered (request : SetAiProviderRequest) (vaultKeyRef : Option String)
      (hpc : call.pc = .storingProvider request vaultKeyRef)
      (hvault : progress.shared.vault = shared.vault)
      (hrows : progress.shared.store.llmProviders =
        (shared.store.upsertLlmProvider (Call.providerConfig request vaultKeyRef)).llmProviders)
      (hnext : ∀ request vaultKeyRef, progress.pc ≠ .storingProvider request vaultKeyRef)

section Inversion

variable {policy : EnterprisePolicy} {call : Call} {o : Outside} {shared : Shared}
  {progress : Progress}

/-- A step that leaves the configurations and the vault alone. -/
theorem KeyStep.same (hvault : progress.shared.vault = shared.vault)
    (hrows : progress.shared.store.llmProviders = shared.store.llmProviders)
    (hnext : ∀ request vaultKeyRef, progress.pc ≠ .storingProvider request vaultKeyRef) :
    KeyStep call shared progress := by
  refine .quiet (fun id => by rw [hvault]) ?_ hnext
  intro config hconfig
  rw [hrows] at hconfig
  exact ⟨config, hconfig, rfl⟩

/-- The first step of a command that registers a provider. -/
theorem keyStep_setAiProvider {request : SetAiProviderRequest}
    (hcommand : call.command = .setAiProvider request) :
    KeyStep call shared (Call.startStep policy call o shared) := by
  have hfail : ∀ message, KeyStep call shared (Call.fail call shared message) := by
    intro message
    exact .same rfl rfl (by rintro _ _ ⟨⟩)
  simp only [Call.startStep, hcommand]
  split
  · exact hfail _
  · split
    · exact .accepted request none hcommand rfl (Or.inl ⟨rfl, rfl⟩) rfl
    · rename_i key hkey
      cases o.vaultFault with
      | some message => exact hfail message
      | none =>
          exact .accepted request (some (providerKeyEntry request.id)) hcommand rfl
            (Or.inr ⟨key, hkey, rfl, rfl⟩) rfl

/-- The inversion of a step of a command, as far as the keys are concerned. -/
theorem keyStep_of_step (h : call.step policy o shared = some progress) :
    KeyStep call shared progress := by
  have hstep := callStep_of_step h
  cases hpc : call.pc with
  | start =>
      by_cases hcommand : ∃ request, call.command = .setAiProvider request
      · rcases hcommand with ⟨request, hcommand⟩
        have hstart : Call.startStep policy call o shared = progress := by
          simpa [Call.step, hpc] using h
        exact hstart ▸ keyStep_setAiProvider hcommand
      · rw [hpc] at hstep
        cases hstep with
        | providerKeyStored hsame => exact absurd ⟨_, hsame⟩ hcommand
        | erased | erasedLate =>
            -- a device without data has no configuration
            exact .quiet (fun _ => rfl) (by rintro _ ⟨⟩) (by rintro _ _ ⟨⟩)
        | _ => exact .same rfl rfl (by rintro _ _ ⟨⟩)
  | storingProvider request vaultKeyRef =>
      rw [hpc] at hstep
      cases hstep with
      | failed => exact .same rfl rfl (by rintro _ _ ⟨⟩)
      | providerStored =>
          exact .registered request vaultKeyRef hpc rfl rfl (by rintro _ _ ⟨⟩)
  | activatingProvider providerId =>
      rw [hpc] at hstep
      cases hstep with
      | failed => exact .same rfl rfl (by rintro _ _ ⟨⟩)
      | @providerActivated _ store _ _ hstore =>
          refine .quiet (fun _ => rfl) ?_ (by rintro _ _ ⟨⟩)
          intro config hconfig
          rcases (Store.mem_setActiveLlmProvider hstore).1 hconfig with ⟨old, hold, rfl⟩
          exact ⟨old, hold, rfl⟩
  | storingKey key =>
      rw [hpc] at hstep
      cases hstep with
      | failed => exact .same rfl rfl (by rintro _ _ ⟨⟩)
      | keyStored =>
          refine .quiet ?_ ?_ (by rintro _ _ ⟨⟩)
          · exact fun id => Vault.set_ne _ key.bytes (providerKeyEntry_ne_masterKeyEntry id)
          · exact fun config hconfig => ⟨config, hconfig, rfl⟩
  | logging entry reply =>
      rw [hpc] at hstep
      cases hstep with
      | failed => exact .same rfl rfl (by rintro _ _ ⟨⟩)
      | logged hstore =>
          rcases hstore with rfl | rfl <;> exact .same rfl rfl (by rintro _ _ ⟨⟩)
  | _ =>
      rw [hpc] at hstep
      cases hstep <;> exact .same rfl rfl (by rintro _ _ ⟨⟩)

end Inversion

/-! ## One step of a sweep -/

section Sweeps

variable {requests : List SetAiProviderRequest} {vault : Vault}

theorem RefBound.apiKey {config : LlmProviderConfig} {fault : Option String}
    (h : RefBound requests vault config.id config.vaultKeyRef) :
    providerApiKey vault fault config = [] ∨
      HandedIn requests config.id (providerApiKey vault fault config) := by
  unfold providerApiKey
  cases fault with
  | some message => exact Or.inl (by split <;> simp_all)
  | none =>
      rcases h with hnone | ⟨hsome, key, hentry, hkey⟩
      · exact Or.inl (by simp [hnone])
      · exact Or.inr (by simpa [hsome, hentry] using hkey)

/-- A sweep builds its provider from a configuration and the key filed for its id. -/
theorem providerBound_buildProvider {config : LlmProviderConfig} {fault : Option String}
    {provider : Provider} (hconfig : ConfigBound requests vault config)
    (h : buildProvider vault fault config = some provider) : ProviderBound requests provider := by
  rcases hconfig with ⟨request, hmem, hconfig, href⟩
  have hid : config.id = request.id := by rw [hconfig]; rfl
  have hkey : providerApiKey vault fault config = [] ∨
      HandedIn requests request.id (providerApiKey vault fault config) :=
    hid ▸ RefBound.apiKey (hid.symm ▸ href)
  generalize hgot : providerApiKey vault fault config = apiKey at hkey
  have hfields : config.modelName = request.modelName ∧
      config.providerType = request.providerType ∧ config.endpoint = request.endpoint := by
    rw [hconfig]
    exact ⟨rfl, rfl, rfl⟩
  unfold buildProvider at h
  rw [hfields.1, hfields.2.1, hfields.2.2, hgot] at h
  rcases Option.map_eq_some_iff.1 h with ⟨model, hmodel, rfl⟩
  by_cases hollama : request.providerType = "ollama"
  · -- a provider on the device has no key
    refine ⟨request, hmem, ?_, Or.inl ?_⟩
    · simp [buildProvider, Call.providerConfig, hmodel, hollama, Provider.withoutKey]
    · simp [hollama]
  · by_cases hanthropic : request.providerType = "anthropic"
    · refine ⟨request, hmem, ?_, ?_⟩
      · simp [buildProvider, Call.providerConfig, providerApiKey, hmodel, hanthropic,
          Provider.withoutKey]
      · simpa [hanthropic] using hkey
    · refine ⟨request, hmem, ?_, ?_⟩
      · simp [buildProvider, Call.providerConfig, providerApiKey, hmodel, hollama, hanthropic,
          Provider.withoutKey]
      · simpa [hollama, hanthropic] using hkey

variable {ext : Recommendations.Externals} {gate : DispatchGate} {o : Outside} {store : Store}

/-- What a step of a sweep leaves of the providers, and whom it asks. -/
def AsksBound (requests : List SetAiProviderRequest) (vault : Vault) (pc : SweepPc)
    (es : List Effect) : Prop :=
  pc.KeyBound requests vault ∧
    ∀ dispatch consent, .requested dispatch consent ∈ es →
      ProviderBound requests dispatch.provider

theorem AsksBound.quiet {pc : SweepPc} {es : List Effect} (hpc : pc.KeyBound requests vault)
    (hes : ∀ dispatch consent, .requested dispatch consent ∉ es) :
    AsksBound requests vault pc es :=
  ⟨hpc, fun dispatch consent hmem => absurd hmem (hes dispatch consent)⟩

theorem keyBound_synthesisStep {context : SweepContext} {pattern : NewPattern} {pc : SynthesisPc}
    (hconfigs : ∀ config ∈ store.llmProviders, ConfigBound requests vault config)
    (hpc : (SweepPc.synthesizing context pattern pc).KeyBound requests vault) :
    let progress := Synthesis.step ext vault gate context pattern pc o store
    AsksBound requests vault (Synthesis.resume context pattern progress.next)
      progress.effects := by
  have hdone : ∀ log, AsksBound requests vault
      (Synthesis.resume context pattern (.done log)) [] := by
    intro log
    cases log <;> exact .quiet trivial (by simp)
  cases pc with
  | getProvider =>
      simp only [Synthesis.step]
      split
      · rename_i config _ hconfig
        exact .quiet (hconfigs config (List.mem_of_find?_eq_some hconfig)) (by simp)
      · exact hdone _
  | buildProvider config =>
      simp only [Synthesis.step]
      split
      · rename_i provider hbuild
        exact .quiet (providerBound_buildProvider hpc hbuild) (by simp)
      · exact hdone _
  | snapshotGate provider =>
      simp only [Synthesis.step]
      split
      · exact .quiet hpc (by simp)
      · exact hdone _
  | requesting gated =>
      simp only [Synthesis.step]
      split
      · refine ⟨hpc, ?_⟩
        intro dispatch consent hmem
        cases List.mem_singleton.1 hmem
        exact hpc
      · exact hdone _
  | awaiting gated =>
      simp only [Synthesis.step]
      split
      · exact .quiet hpc (by simp)
      · exact .quiet trivial (by simp)
      · exact hdone _
  | inserting recommendation =>
      simp only [Synthesis.step]
      split
      · exact .quiet trivial (by simp)
      · exact hdone _

theorem keyBound_sweepStep {pc : SweepPc} {progress : SweepProgress}
    (hconfigs : ∀ config ∈ store.llmProviders, ConfigBound requests vault config)
    (hpc : pc.KeyBound requests vault)
    (h : Sweep.step ext vault gate pc o store = some progress) :
    AsksBound requests vault progress.pc progress.effects := by
  cases pc with
  | synthesizing context pattern pc =>
      cases h
      exact keyBound_synthesisStep hconfigs hpc
  | logging entry next =>
      cases sweepStep_of_step h with
      | logged => exact .quiet hpc (by simp)
      | failed => exact .quiet trivial (by simp)
  | start =>
      cases sweepStep_of_step h with
      | started _ hnext => rcases hnext with rfl | ⟨entry, rfl⟩ <;> exact .quiet trivial (by simp)
      | failed => exact .quiet trivial (by simp)
  | patterns context =>
      cases sweepStep_of_step h with
      | updated =>
          refine .quiet trivial ?_
          intro dispatch consent hmem
          simp only at hmem
          split at hmem <;> simp at hmem
      | _ => exact .quiet trivial (by simp)
  | _ => cases sweepStep_of_step h <;> exact .quiet trivial (by simp)

end Sweeps

/-! ## Steps and runs -/

section Steps

variable {ext : Externals} {app app' : App} {action : Action} {es : List Effect}
  {requests : List SetAiProviderRequest}

theorem subset_noteRequest : requests ⊆ noteRequest app action requests := by
  unfold noteRequest
  split
  · exact List.subset_cons_self _ _
  · exact List.Subset.refl _

/-- A configuration that is activated or not. -/
theorem ConfigBound.withActive {vault : Vault} {old config : LlmProviderConfig}
    (h : ConfigBound requests vault old) (heq : config = { old with active := config.active }) :
    ConfigBound requests vault config := by
  rcases h with ⟨request, hmem, hold, href⟩
  have hvaultKeyRef : config.vaultKeyRef = old.vaultKeyRef := by rw [heq]
  refine ⟨request, hmem, ?_, hvaultKeyRef ▸ href⟩
  rw [hvaultKeyRef]
  conv_lhs => rw [heq, hold]

theorem keysBound_call {id : Nat} {o : Outside} (hinv : KeysBound app requests)
    (h : (machine ext).step app (.call id o) = some (app', es)) : KeysBound app' requests := by
  rcases call_of_step h with
    ⟨vault, database, process, call, progress, rfl, hcall, hstep, rfl, rfl⟩
  have hbound : CallBound requests vault call := hinv.calls id call hcall
  have hconfigs : ∀ config ∈ database.store.llmProviders, ConfigBound requests vault config :=
    hinv.configs
  have hsub : requests ⊆ requests := List.Subset.refl _
  -- the other calls and the sweep go on with the vault that the step leaves
  have hrest : Refiles requests vault progress.shared.vault →
      (∀ config ∈ progress.shared.store.llmProviders,
        ConfigBound requests progress.shared.vault config) →
      (∀ request vaultKeyRef, progress.pc = .storingProvider request vaultKeyRef →
        request ∈ requests ∧ RefBound requests progress.shared.vault request.id vaultKeyRef) →
      KeysBound
        ⟨progress.shared.vault, some progress.shared.database,
          some { process with
            gate := progress.shared.gate
            calls := process.calls.set id { call with pc := progress.pc } }⟩ requests := by
    intro hfiled hrows hnext
    refine ⟨hrows, ?_, SweepPc.KeyBound.mono hsub hfiled hinv.sweep⟩
    intro i c hc
    rcases call?_set vault hcall hc with ⟨rfl, rfl⟩ | ⟨_, hold⟩
    · exact ⟨hbound.1, hnext⟩
    · exact (hinv.calls i c hold).mono hsub hfiled
  cases keyStep_of_step hstep with
  | quiet hvault hrows hnext =>
      have hfiled : Refiles requests vault progress.shared.vault := .of_eq hvault
      refine hrest hfiled ?_ fun request vaultKeyRef hpc => absurd hpc (hnext _ _)
      intro config hconfig
      rcases hrows config hconfig with ⟨old, hold, heq⟩
      exact ((hconfigs old hold).mono hsub hfiled).withActive heq
  | accepted request vaultKeyRef hcommand hrows hkey hnext =>
      have hmem : request ∈ requests := hbound.1 request hcommand
      have hfiled : Refiles requests vault progress.shared.vault := by
        rcases hkey with ⟨_, hvault⟩ | ⟨key, hkey, _, hvault⟩
        · rw [hvault]
          exact fun _ h => h
        · rw [hvault]
          exact .set hmem hkey
      refine hrest hfiled ?_ ?_
      · intro config hconfig
        rw [hrows] at hconfig
        exact (hconfigs config hconfig).mono hsub hfiled
      · rw [hnext]
        rintro _ _ ⟨⟩
        refine ⟨hmem, ?_⟩
        rcases hkey with ⟨rfl, _⟩ | ⟨key, hkey, rfl, hvault⟩
        · exact Or.inl rfl
        · refine Or.inr ⟨rfl, key, ?_, request, hmem, rfl, hkey⟩
          rw [hvault]
          exact Vault.set_same _ _ _
  | registered request vaultKeyRef hpc hvault hrows hnext =>
      have hfiled : Refiles requests vault progress.shared.vault := by
        rw [hvault]
        exact fun _ h => h
      refine hrest hfiled ?_ fun request vaultKeyRef hpc => absurd hpc (hnext _ _)
      intro config hconfig
      rw [hrows] at hconfig
      rcases Store.mem_upsertLlmProvider.1 hconfig with rfl | ⟨hold, _⟩
      · rcases hbound.2 request vaultKeyRef hpc with ⟨hmem, href⟩
        exact ⟨request, hmem, rfl, href.mono hfiled⟩
      · exact (hconfigs config hold).mono hsub hfiled

/-- A launch leaves the keys of the providers in the vault alone. -/
theorem launch_vault (app : App) (input : LaunchInput) (id : String) :
    (launch app input).vault (providerKeyEntry id) = app.vault (providerKeyEntry id) := by
  rw [(launch_cases app input).1]
  have hset : (if input.vaultSetFails then app.vault
      else app.vault.set masterKeyEntry input.freshKey.bytes) (providerKeyEntry id) =
      app.vault (providerKeyEntry id) := by
    split
    · rfl
    · exact Vault.set_ne _ _ (providerKeyEntry_ne_masterKeyEntry id)
  simp only [resolveMasterKey]
  split
  · exact hset
  · split
    · exact hset
    · split
      · rfl
      · exact hset

theorem keysBound_launch {input : LaunchInput} (hinv : KeysBound app requests)
    (hprocess : app.process = none) : KeysBound (launch app input) requests := by
  have hfiled : Refiles requests app.vault (launch app input).vault :=
    .of_eq (launch_vault app input)
  refine ⟨?_, ?_, ?_⟩
  · rw [llmProviders_of_launch]
    exact fun config hconfig =>
      (hinv.configs config hconfig).mono (List.Subset.refl _) hfiled
  · intro id call hcall
    cases ((calls_launch input hprocess).2.1 id).symm.trans hcall
  · rw [(calls_launch input hprocess).2.2]
    trivial

/-- A new command is noted. -/
theorem keysBound_invoke {vault : Vault} {database : Database} {process : Process}
    {command : Command} (hinv : KeysBound ⟨vault, some database, some process⟩ requests) :
    KeysBound ⟨vault, some database, some (App.invoke database process command)⟩
      (noteRequest app (.invoke command) requests) := by
  have hsub : requests ⊆ noteRequest app (.invoke command) requests := subset_noteRequest
  have hfiled : ∀ id, Filed requests vault id →
      Filed (noteRequest app (.invoke command) requests) vault id := fun id h => h.mono hsub
  refine ⟨fun config hconfig => (hinv.configs config hconfig).mono hsub hfiled, ?_,
    SweepPc.KeyBound.mono hsub hfiled hinv.sweep⟩
  intro id call hcall
  replace hcall : (process.calls ++ [Call.begin command database.store.eventSeq])[id]? =
    some call := hcall
  rcases lt_or_ge id process.calls.length with hid | hid
  · rw [List.getElem?_append_left hid] at hcall
    exact (hinv.calls id call hcall).mono hsub hfiled
  · rw [List.getElem?_append_right hid] at hcall
    cases List.mem_singleton.1 (List.mem_of_getElem? hcall)
    refine ⟨?_, by rintro _ _ ⟨⟩⟩
    rintro request rfl
    exact List.mem_cons_self ..

theorem keysBound_step (hinv : KeysBound app requests)
    (h : (machine ext).step app action = some (app', es)) :
    KeysBound app' (noteRequest app action requests) := by
  have hrows := llmProviders_of_step h
  cases appStep_of_step h with
  | launch hprocess => exact keysBound_launch hinv hprocess
  | call => exact keysBound_call hinv h
  | invoke => exact keysBound_invoke hinv
  | exit => exact ⟨hinv.configs, by rintro _ _ ⟨⟩, trivial⟩
  | operate | notify => exact ⟨hinv.configs, hinv.calls, hinv.sweep⟩
  | @observe vault database process o progress =>
      refine ⟨?_, hinv.calls, hinv.sweep⟩
      rw [hrows (by rintro _ _ ⟨⟩)]
      exact hinv.configs
  | @sweep vault database process o progress =>
      obtain ⟨_, _, _, hstep, _, hsweep, _⟩ := sweep_of_step h
      refine ⟨?_, hinv.calls, ?_⟩
      · rw [hrows (by rintro _ _ ⟨⟩)]
        exact hinv.configs
      · rw [hsweep]
        exact (keyBound_sweepStep hinv.configs hinv.sweep hstep).1

end Steps

/-- Every request of a run goes to a provider as a request of `set_ai_provider` had it, and carries
no key or one that was handed in for the id of that request. -/
theorem key_handed_in {ext : Externals} {app : App} {requests : List SetAiProviderRequest}
    {history : List Effect} (hreach : RequestReach ext (app, requests) history)
    {app' : App} {action : Action} {es : List Effect}
    (hstep : (machine ext).step app action = some (app', es)) {dispatch : Dispatch}
    {consent : Bool} (hrequested : .requested dispatch consent ∈ es) :
    ∃ request ∈ requests,
      buildProvider (fun _ => none) none (Call.providerConfig request none) =
        some dispatch.provider.withoutKey ∧
      (dispatch.provider.apiKey = [] ∨
        ∃ handed ∈ requests, handed.id = request.id ∧
          handed.apiKey = some dispatch.provider.apiKey) := by
  have hinv : KeysBound app requests := by
    refine Machine.WatchedReach.invariant ?_ ?_ hreach
    · intro app hinit
      refine ⟨?_, ?_, ?_⟩
      · simp [hinit.store_eq, Store.empty]
      · simp [App.call?, hinit.2]
      · rw [hinit.sweep_eq]
        trivial
    · intro app requests action app' es hinv _ hstep
      exact keysBound_step hinv hstep
  by_cases hsweep : ∃ o, action = .sweep o
  · rcases hsweep with ⟨o, rfl⟩
    obtain ⟨_, _, _, hsweepStep, _, _, rfl⟩ := sweep_of_step hstep
    exact (keyBound_sweepStep hinv.configs hinv.sweep hsweepStep).2 dispatch consent hrequested
  · -- only a sweep asks a provider
    have hother := sweep_of_appStep (appStep_of_step hstep) fun o h => hsweep ⟨o, h⟩
    exact absurd rfl (hother.1 _ hrequested)

def Effect.asksWith (key : List UInt8) : Effect → Bool
  | .requested dispatch _ => dispatch.provider.apiKey == key
  | _ => false

/-- A key is handed in and sent with the request to its provider. -/
theorem key_handed_in_keyedRun :
    ∃ app requests history app' es dispatch consent,
      RequestReach .reference (app, requests) history ∧
      (machine .reference).step app (.sweep (.plain 0)) = some (app', es) ∧
      .requested dispatch consent ∈ es ∧ dispatch.provider.apiKey = [1, 2] ∧
      ∃ request ∈ requests,
        buildProvider (fun _ => none) none (Call.providerConfig request none) =
          some dispatch.provider.withoutKey ∧
        (dispatch.provider.apiKey = [] ∨
          ∃ handed ∈ requests, handed.id = request.id ∧
            handed.apiKey = some dispatch.provider.apiKey) := by
  obtain ⟨⟨app, requests⟩, history, hreach, htest⟩ := exists_watched_run noteRequest []
    Machine.always
    (fun app _ => ((machine .reference).step app (.sweep (.plain 0))).any fun r =>
      r.2.any (Effect.asksWith [1, 2]))
    ((keyedRun [1, 2]).dropLast) (by decide +kernel)
  rcases (Option.any_eq_true _ _).1 htest with ⟨⟨app', es⟩, hstep, htest⟩
  rcases List.any_eq_true.1 htest with ⟨e, hmem, he⟩
  cases e with
  | requested dispatch consent =>
      exact ⟨app, requests, history, app', es, dispatch, consent, hreach, hstep, hmem,
        beq_iff_eq.1 he, key_handed_in hreach hstep hmem⟩
  | _ => cases he

end Desktop
end HiddenSteps
