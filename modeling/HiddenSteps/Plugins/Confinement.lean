import HiddenSteps.Plugins.Host

/-!
# Confinement — plugins reach what they were granted

`Unlocked` says which functions of the host a list of capabilities stands for.  The linker of the
host defines no others, an instance calls only what is linked, and so its log names unlocked
functions only, after any sequence of calls.
-/

namespace HiddenSteps
namespace Plugins

/-! ## Capabilities and functions -/

/-- The function of the host that a capability stands for. -/
def Capability.unlocks : Capability → Option ImportName
  | observeActiveWindow | observeClipboardMetadata | observeFileOperations | observeScreenshot =>
      some ⟨"host", "emit_signal"⟩
  | networkOutbound => some ⟨"host", "network_fetch"⟩
  | filesystemReadMetadata => some ⟨"host", "read_file_metadata"⟩
  | providerLlm => some ⟨"host", "llm_complete"⟩
  | providerEmbedding | policyRead => none

/-- A granted capability stands for the function. -/
def Unlocked (granted : List Capability) (place : ImportName) : Prop :=
  ∃ capability ∈ granted, capability.unlocks = some place

/-! ## The linker of the host -/

namespace PluginHost

/-- A function of the host under its own name. -/
def hostFunction (name : String) (answer : Option (BitVec 32)) : HostFunction :=
  { place := ⟨"host", name⟩, recorded := name, answer := answer }

/-- The functions of a condition. -/
def functionsIf (granted : Bool) (name : String) (answer : Option (BitVec 32)) :
    List HostFunction :=
  if granted then [hostFunction name answer] else []

theorem mem_functionsIf {granted : Bool} {name : String} {answer : Option (BitVec 32)}
    {f : HostFunction} :
    f ∈ functionsIf granted name answer ↔ granted = true ∧ f = hostFunction name answer := by
  cases granted <;> simp [functionsIf]

/-- A function under a name that no function has yet can be linked. -/
theorem linkIf_eq {w : Wasmtime} {granted : Bool} {name : String} {answer : Option (BitVec 32)}
    {linker : Linker} (hfresh : ∀ f ∈ linker.definitions, f.place ≠ ⟨"host", name⟩) :
    linkIf w granted name answer linker =
      .ok ⟨linker.definitions ++ functionsIf granted name answer⟩ := by
  cases granted with
  | false => simp [linkIf, functionsIf]
  | true =>
      have hnone : linker.resolve ⟨"host", name⟩ = none := by
        refine List.find?_eq_none.2 ?_
        intro f hf hplace
        exact hfresh f hf (of_decide_eq_true hplace)
      simp [linkIf, Linker.funcWrap, hnone, functionsIf, hostFunction]

/-- The functions of the host for a list of granted capabilities. -/
def hostFunctions (granted : List Capability) : List HostFunction :=
  functionsIf (granted.contains .networkOutbound) "network_fetch" (some 0) ++
    functionsIf (granted.contains .filesystemReadMetadata) "read_file_metadata" (some 0) ++
    functionsIf (hasObserveCapability granted) "emit_signal" none ++
    functionsIf (granted.contains .providerLlm) "llm_complete" (some 0)

/-- Each function of the host has a name of its own, so linking them never fails. -/
theorem hostLinker_eq (w : Wasmtime) (granted : List Capability) :
    hostLinker w granted = .ok ⟨hostFunctions granted⟩ := by
  unfold hostLinker
  rw [linkIf_eq (by simp [Linker.new])]
  dsimp only [bind, Except.bind, Linker.new, List.nil_append]
  rw [linkIf_eq (by simp [mem_functionsIf, hostFunction])]
  dsimp only
  rw [linkIf_eq (by simp [mem_functionsIf, hostFunction, or_imp, forall_and])]
  dsimp only
  rw [linkIf_eq (by simp [mem_functionsIf, hostFunction, or_imp, forall_and])]
  rfl

theorem exists_granted_of_hasObserveCapability {granted : List Capability}
    (h : hasObserveCapability granted) :
    ∃ capability ∈ granted, capability.unlocks = some ⟨"host", "emit_signal"⟩ := by
  rcases List.any_eq_true.1 h with ⟨capability, hmem, hobserve⟩
  refine ⟨capability, hmem, ?_⟩
  cases capability <;> first | rfl | cases hobserve

/-- A function is linked for the capabilities that unlock it, and is logged under its name. -/
theorem unlocked_of_mem_hostFunctions {granted : List Capability} {f : HostFunction}
    (h : f ∈ hostFunctions granted) : Unlocked granted f.place ∧ f.recorded = f.place.name := by
  simp only [hostFunctions, List.mem_append, mem_functionsIf] at h
  rcases h with ((⟨hgranted, rfl⟩ | ⟨hgranted, rfl⟩) | ⟨hgranted, rfl⟩) | ⟨hgranted, rfl⟩
  · exact ⟨⟨.networkOutbound, List.contains_iff_mem.1 hgranted, rfl⟩, rfl⟩
  · exact ⟨⟨.filesystemReadMetadata, List.contains_iff_mem.1 hgranted, rfl⟩, rfl⟩
  · exact ⟨exists_granted_of_hasObserveCapability hgranted, rfl⟩
  · exact ⟨⟨.providerLlm, List.contains_iff_mem.1 hgranted, rfl⟩, rfl⟩

/-- Every unlocked function is linked. -/
theorem exists_hostFunction_of_unlocked {granted : List Capability} {place : ImportName}
    (h : Unlocked granted place) : ∃ f ∈ hostFunctions granted, f.place = place := by
  rcases h with ⟨capability, hmem, hunlocks⟩
  cases capability with
  | observeActiveWindow | observeClipboardMetadata | observeFileOperations | observeScreenshot =>
      have hobserve : hasObserveCapability granted = true := List.any_eq_true.2 ⟨_, hmem, rfl⟩
      exact ⟨hostFunction "emit_signal" none, by simp [hostFunctions, mem_functionsIf, hobserve],
        Option.some.inj hunlocks⟩
  | networkOutbound =>
      exact ⟨hostFunction "network_fetch" (some 0), by simp [hostFunctions, mem_functionsIf, hmem],
        Option.some.inj hunlocks⟩
  | filesystemReadMetadata =>
      exact ⟨hostFunction "read_file_metadata" (some 0),
        by simp [hostFunctions, mem_functionsIf, hmem], Option.some.inj hunlocks⟩
  | providerLlm =>
      exact ⟨hostFunction "llm_complete" (some 0), by simp [hostFunctions, mem_functionsIf, hmem],
        Option.some.inj hunlocks⟩
  | providerEmbedding | policyRead => cases hunlocks

end PluginHost

/-! ## Linking a module -/

/-- A linker fails exactly when an import is undefined. -/
theorem Linker.link_isOk_iff {w : Wasmtime} {linker : Linker} {imports : List ImportName} :
    (∃ linked, linker.link w imports = .ok linked) ↔
      ∀ place ∈ imports, ∃ f ∈ linker.definitions, f.place = place := by
  constructor
  · rintro ⟨linked, -⟩ place hplace
    rw [← linked.places] at hplace
    rcases List.mem_map.1 hplace with ⟨f, hf, rfl⟩
    exact ⟨f, linked.defined f hf, rfl⟩
  · intro hdefined
    induction imports with
    | nil => exact ⟨_, rfl⟩
    | cons place rest ih =>
        rcases hdefined place List.mem_cons_self with ⟨f, hf, hplace⟩
        rcases ih fun p hp => hdefined p (List.mem_cons_of_mem place hp) with ⟨linked, hlinked⟩
        have hsome : (linker.resolve place).isSome := by
          rw [resolve, List.find?_isSome]
          exact ⟨f, hf, decide_eq_true hplace⟩
        unfold link
        split
        · rename_i hnone
          rw [hnone] at hsome
          cases hsome
        · rw [hlinked]
          exact ⟨_, rfl⟩

/-- A module is linked exactly when all its imports are unlocked. -/
theorem link_isOk_iff_unlocked {w : Wasmtime} {granted : List Capability}
    {imports : List ImportName} :
    (∃ linker linked, PluginHost.hostLinker w granted = .ok linker ∧
        linker.link w imports = .ok linked) ↔
      ∀ place ∈ imports, Unlocked granted place := by
  constructor
  · rintro ⟨linker, linked, hlinker, hlinked⟩ place hplace
    rw [PluginHost.hostLinker_eq] at hlinker
    cases hlinker
    rcases Linker.link_isOk_iff.1 ⟨linked, hlinked⟩ place hplace with ⟨f, hf, rfl⟩
    exact (PluginHost.unlocked_of_mem_hostFunctions hf).1
  · intro hunlocked
    have hdefined : ∀ place ∈ imports, ∃ f ∈ PluginHost.hostFunctions granted, f.place = place :=
      fun place hplace => PluginHost.exists_hostFunction_of_unlocked (hunlocked place hplace)
    rcases (@Linker.link_isOk_iff w ⟨PluginHost.hostFunctions granted⟩ imports).2 hdefined
      with ⟨linked, hlinked⟩
    exact ⟨_, linked, PluginHost.hostLinker_eq w granted, hlinked⟩

/-- Running a function of a module records only what linked functions record. -/
theorem Code.recorded_of_mem_run {functions : List HostFunction} {imports : Nat}
    {code : Code imports} {h : functions.length = imports} {entry : String}
    (hentry : entry ∈ (code.run functions h).1) : ∃ f ∈ functions, f.recorded = entry := by
  induction code with
  | finished result => cases hentry
  | invoke i argument next ih =>
      rcases List.mem_cons.1 hentry with rfl | hrest
      · exact ⟨_, List.get_mem functions _, rfl⟩
      · exact ih _ hrest

/-! ## Runs of an instance -/

theorem module_after (plugin : PluginInstance) (calls : List (String × BitVec 32)) :
    (plugin.after calls).module = plugin.module := by
  induction calls generalizing plugin with
  | nil => rfl
  | cons call calls ih =>
      have hcall : (plugin.callI32 call.1 call.2).1.module = plugin.module := by
        unfold PluginInstance.callI32
        split <;> rfl
      exact (ih _).trans hcall

/-- An instance is confined to a list of capabilities: what is linked is unlocked and recorded under
its name, and the log names what is linked. -/
structure Confined (granted : List Capability) (plugin : PluginInstance) : Prop where
  unlocked : ∀ f ∈ plugin.functions, Unlocked granted f.place ∧ f.recorded = f.place.name
  logged : ∀ entry ∈ plugin.callLog, ∃ f ∈ plugin.functions, f.recorded = entry

namespace Confined

variable {granted : List Capability} {plugin : PluginInstance}

theorem callI32 (h : Confined granted plugin) (exportName : String) (arg : BitVec 32) :
    Confined granted (plugin.callI32 exportName arg).1 := by
  unfold PluginInstance.callI32
  split
  · exact h
  · refine ⟨h.unlocked, ?_⟩
    intro entry hentry
    rcases List.mem_append.1 hentry with hbefore | hnow
    · exact h.logged entry hbefore
    · exact Code.recorded_of_mem_run hnow

theorem after (h : Confined granted plugin) (calls : List (String × BitVec 32)) :
    Confined granted (plugin.after calls) := by
  induction calls generalizing plugin with
  | nil => exact h
  | cons call calls ih => exact ih (h.callI32 call.1 call.2)

theorem unlocked_of_import (h : Confined granted plugin) {place : ImportName}
    (hplace : place ∈ plugin.module.imports) : Unlocked granted place := by
  rw [← plugin.places] at hplace
  rcases List.mem_map.1 hplace with ⟨f, hf, rfl⟩
  exact (h.unlocked f hf).1

/-- An entry of the log names an import of the module. -/
theorem import_of_logged (h : Confined granted plugin) {entry : String}
    (hentry : entry ∈ plugin.callLog) :
    ∃ place ∈ plugin.module.imports, Unlocked granted place ∧ place.name = entry := by
  rcases h.logged entry hentry with ⟨f, hf, rfl⟩
  have hmem : f.place ∈ plugin.module.imports := by
    rw [← plugin.places]
    exact List.mem_map_of_mem hf
  rcases h.unlocked f hf with ⟨hunlocked, hrecorded⟩
  exact ⟨f.place, hmem, hunlocked, hrecorded.symm⟩

end Confined

/-! ## Instantiation -/

namespace PluginHost

variable {w : Wasmtime} {host : PluginHost} {wasmBytes : List UInt8}
  {granted : List Capability} {plugin : PluginInstance}

/-- The instance of a module is confined to what was granted. -/
theorem confined_instantiate (h : host.instantiate w wasmBytes granted = .ok plugin) :
    w.compile wasmBytes = .ok plugin.module ∧ Confined granted plugin := by
  unfold instantiate at h
  rw [hostLinker_eq] at h
  split at h
  · cases h
  · rename_i module hcompile
    dsimp only at h
    split at h
    · cases h
    · rename_i linked _
      split at h
      · cases h
      · cases h
        refine ⟨hcompile, fun f hf => unlocked_of_mem_hostFunctions (linked.defined f hf), ?_⟩
        intro entry hentry
        exact Code.recorded_of_mem_run hentry

theorem instantiateFromManifest_eq_ok {manifest : PluginManifest}
    (h : host.instantiateFromManifest w wasmBytes manifest granted = .ok plugin) :
    manifest.validate = .ok () ∧ (∀ c ∈ granted, c ∈ manifest.capabilities) ∧
      host.instantiate w wasmBytes granted = .ok plugin := by
  unfold instantiateFromManifest at h
  split at h
  · cases h
  · rename_i hvalid
    split at h
    · cases h
    · rename_i hdeclared
      refine ⟨hvalid, ?_, h⟩
      intro c hc
      simpa using List.find?_eq_none.1 hdeclared c hc

/-- A plugin that was instantiated from its manifest reaches only functions that were declared and
granted. -/
theorem plugin_reaches_granted
    (manifest : PluginManifest) (calls : List (String × BitVec 32))
    (h : host.instantiateFromManifest w wasmBytes manifest granted = .ok plugin) :
    manifest.validate = .ok () ∧ (∀ c ∈ granted, c ∈ manifest.capabilities) ∧
      (.observeScreenshot ∈ granted → manifest.minPrivacyLevel = 4) ∧
      w.compile wasmBytes = .ok plugin.module ∧
      (∀ place ∈ plugin.module.imports, Unlocked granted place) ∧
      ∀ entry ∈ (plugin.after calls).callLog,
        ∃ place ∈ plugin.module.imports, Unlocked granted place ∧ place.name = entry := by
  rcases instantiateFromManifest_eq_ok h with ⟨hvalid, hdeclared, hinstantiate⟩
  rcases confined_instantiate hinstantiate with ⟨hcompile, hconfined⟩
  refine ⟨hvalid, hdeclared, ?_, hcompile, fun place => hconfined.unlocked_of_import, ?_⟩
  · intro hscreenshot
    exact (PluginManifest.validate_eq_ok_iff.1 hvalid).2 _ (hdeclared _ hscreenshot) rfl
  · intro entry hentry
    rcases (hconfined.after calls).import_of_logged hentry with ⟨place, hplace, hentry⟩
    rw [module_after] at hplace
    exact ⟨place, hplace, hentry⟩

/-- A module that imports `network_fetch` and exports a function that calls it. -/
def networkWasm : List UInt8 :=
  [0, 97, 115, 109, 1, 0, 0, 0, 1, 6, 1, 96, 1, 127, 1, 127, 2, 22, 1, 4, 104, 111, 115, 116, 13,
    110, 101, 116, 119, 111, 114, 107, 95, 102, 101, 116, 99, 104, 0, 0, 3, 2, 1, 0, 7, 24, 1, 20,
    97, 116, 116, 101, 109, 112, 116, 95, 110, 101, 116, 119, 111, 114, 107, 95, 99, 97, 108, 108,
    0, 1, 10, 8, 1, 6, 0, 32, 0, 16, 0, 11]

def networkModule : WasmModule :=
  { imports := [⟨"host", "network_fetch"⟩]
    start := fun _ => .finished (.ok 0)
    exported := fun _ _ exportName =>
      if exportName = "attempt_network_call" then
        some fun arg => .invoke 0 arg fun answer => .finished (.ok (answer.getD 0))
      else none }

/-- An engine that knows one module. -/
def networkEngine : Wasmtime :=
  { compile := fun wasmBytes =>
      if wasmBytes = networkWasm then .ok networkModule else .error "unexpected end"
    definedTwice := fun place => "import of " ++ place.name ++ " defined twice"
    unknownImport := fun place => "unknown import: " ++ place.name }

def networkManifest : PluginManifest :=
  { minPrivacyLevel := 4, capabilities := [.observeScreenshot, .networkOutbound, .providerLlm] }

/-- Two calls are logged under the one function that was granted, and granted twice. -/
theorem plugin_reaches_granted_network :
    ∃ plugin, new.instantiateFromManifest networkEngine networkWasm networkManifest
        [.networkOutbound, .networkOutbound] = .ok plugin ∧
      (plugin.after [("attempt_network_call", 7), ("attempt_network_call", 8)]).callLog =
        ["network_fetch", "network_fetch"] ∧
      ∀ entry ∈ (plugin.after [("attempt_network_call", 7), ("attempt_network_call", 8)]).callLog,
        ∃ place ∈ plugin.module.imports,
          Unlocked [.networkOutbound, .networkOutbound] place ∧ place.name = entry :=
  ⟨_, rfl, rfl,
    (@plugin_reaches_granted networkEngine new networkWasm _ _ networkManifest _ rfl).2.2.2.2.2⟩

end PluginHost

end Plugins
end HiddenSteps
