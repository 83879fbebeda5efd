import HiddenSteps.Plugins.Manifest

/-!
# Host — what a plugin can reach

The host links one function for each group of capabilities it was asked to grant.  It does not
instantiate a module with an import that is not linked, so what an instance calls later is among
the functions that its granted capabilities unlock.
-/

namespace HiddenSteps
namespace Plugins

/-! ## Modules -/

/-- A module and a name in it, under which a function is linked. -/
structure ImportName where
  moduleName : String
  name : String
  deriving DecidableEq, Repr

/-- What a function of a module does: it ends with its result or the text of a trap, or it calls one
of the imports and goes on with the answer. -/
inductive Code (imports : Nat) where
  | finished (result : Except String (BitVec 32))
  | invoke (i : Fin imports) (argument : BitVec 32) (next : Option (BitVec 32) → Code imports)

/-- The budget of an instance. -/
structure Limits where
  fuelBudget : Nat
  maxMemoryBytes : Nat
  deriving DecidableEq

structure WasmModule where
  imports : List ImportName
  /-- What instantiation runs within the limits: the start function. -/
  start : Limits → Code imports.length
  /-- The exported functions from an integer to an integer, after the calls made before. -/
  exported : Limits → (history : List (String × BitVec 32)) → (exportName : String) →
    Option (BitVec 32 → Code imports.length)

/-- What the host takes from the engine. -/
structure Wasmtime where
  /-- `Module::new`, or the text of its error. -/
  compile : List UInt8 → Except String WasmModule
  /-- The text for an import that is defined twice. -/
  definedTwice : ImportName → String
  /-- The text for an import that is not defined. -/
  unknownImport : ImportName → String

/-! ## Linking -/

/-- A function of the host: where it is linked, what its calls leave in the log and what they
return. -/
structure HostFunction where
  place : ImportName
  recorded : String
  answer : Option (BitVec 32)
  deriving DecidableEq

structure Linker where
  definitions : List HostFunction

namespace Linker

def new : Linker := { definitions := [] }

def resolve (linker : Linker) (place : ImportName) : Option HostFunction :=
  linker.definitions.find? fun f => f.place = place

def funcWrap (w : Wasmtime) (linker : Linker) (moduleName name recorded : String)
    (answer : Option (BitVec 32)) : Except String Linker :=
  let place : ImportName := { moduleName := moduleName, name := name }
  match linker.resolve place with
  | some _ => .error (w.definedTwice place)
  | none => .ok { definitions :=
      linker.definitions ++ [{ place := place, recorded := recorded, answer := answer }] }

/-- The functions that a list of imports stands for. -/
structure Linked (linker : Linker) (imports : List ImportName) where
  functions : List HostFunction
  places : functions.map HostFunction.place = imports
  defined : ∀ f ∈ functions, f ∈ linker.definitions

/-- `Linker::instantiate`, up to the start function: every import is defined, or it fails. -/
def link (w : Wasmtime) (linker : Linker) :
    (imports : List ImportName) → Except String (Linked linker imports)
  | [] => .ok { functions := [], places := rfl, defined := by simp }
  | place :: rest =>
      match hresolve : linker.resolve place with
      | none => .error (w.unknownImport place)
      | some f =>
          match link w linker rest with
          | .error e => .error e
          | .ok linked => .ok
              { functions := f :: linked.functions
                places := by
                  have hplace : f.place = place := by
                    simpa using List.find?_some hresolve
                  rw [List.map_cons, linked.places, hplace]
                defined := by
                  have hmem : f ∈ linker.definitions := List.mem_of_find?_eq_some hresolve
                  simpa [hmem] using linked.defined }

end Linker

/-! ## Instances -/

/-- An instance: a module, the functions its imports stand for, the calls made so far, and the
log of those functions. -/
structure PluginInstance where
  module : WasmModule
  functions : List HostFunction
  places : functions.map HostFunction.place = module.imports
  limits : Limits
  history : List (String × BitVec 32)
  callLog : List String

inductive HostError where
  | compile (error : String)
  | instantiate (error : String)
  | call (error : String)
  | exportMismatch (exportName : String)
  | manifestInvalid (error : ManifestError)
  | grantedCapabilityNotDeclared (capability : Capability)
  deriving DecidableEq

def HostError.message : HostError → String
  | compile error => "failed to compile module: " ++ error
  | instantiate error => "failed to link/instantiate module: " ++ error
  | call error => "failed to call exported function: " ++ error
  | exportMismatch exportName =>
      "export '" ++ exportName ++ "' not found or has the wrong signature"
  | manifestInvalid error => "manifest failed validation: " ++ error.message
  | grantedCapabilityNotDeclared capability =>
      "capability " ++ capability.debug ++
        " was granted but never declared in the plugin's manifest"

/-- Run a function of a module: what the imports it calls have recorded, and its result. -/
def Code.run (functions : List HostFunction) {imports : Nat} :
    Code imports → (h : functions.length = imports) → List String × Except String (BitVec 32)
  | finished result, _ => ([], result)
  | invoke i _ next, h =>
      let f := functions.get (i.cast h.symm)
      let rest := (next f.answer).run functions h
      (f.recorded :: rest.1, rest.2)

namespace PluginInstance

theorem length_functions (plugin : PluginInstance) :
    plugin.functions.length = plugin.module.imports.length := by
  rw [← plugin.places, List.length_map]

def callI32 (plugin : PluginInstance) (exportName : String) (arg : BitVec 32) :
    PluginInstance × Except HostError (BitVec 32) :=
  match plugin.module.exported plugin.limits plugin.history exportName with
  | none => (plugin, .error (.exportMismatch exportName))
  | some code =>
      let ran := (code arg).run plugin.functions plugin.length_functions
      -- what was called before a trap stays in the log
      ({ plugin with
          history := plugin.history ++ [(exportName, arg)]
          callLog := plugin.callLog ++ ran.1 },
        ran.2.mapError .call)

/-- An instance after a sequence of calls. -/
def after (plugin : PluginInstance) (calls : List (String × BitVec 32)) : PluginInstance :=
  calls.foldl (fun plugin call => (plugin.callI32 call.1 call.2).1) plugin

end PluginInstance

/-! ## The host -/

structure PluginHost where
  limits : Limits
  deriving DecidableEq

namespace PluginHost

def withLimits (fuelBudget maxMemoryBytes : Nat) : PluginHost :=
  { limits := { fuelBudget := fuelBudget, maxMemoryBytes := maxMemoryBytes } }

def new : PluginHost := withLimits 50000000 (64 * 1024 * 1024)

def hasObserveCapability (grantedCapabilities : List Capability) : Bool :=
  grantedCapabilities.any fun c => match c with
    | .observeActiveWindow | .observeClipboardMetadata | .observeFileOperations
    | .observeScreenshot => true
    | _ => false

/-- Link one function if a condition on the capabilities holds. -/
def linkIf (w : Wasmtime) (granted : Bool) (name : String) (answer : Option (BitVec 32))
    (linker : Linker) : Except String Linker :=
  if granted then linker.funcWrap w "host" name name answer else .ok linker

/-- The functions that a list of granted capabilities unlocks. -/
def hostLinker (w : Wasmtime) (grantedCapabilities : List Capability) : Except String Linker := do
  let linker ← linkIf w (grantedCapabilities.contains .networkOutbound) "network_fetch" (some 0)
    .new
  let linker ← linkIf w (grantedCapabilities.contains .filesystemReadMetadata)
    "read_file_metadata" (some 0) linker
  let linker ← linkIf w (hasObserveCapability grantedCapabilities) "emit_signal" none linker
  linkIf w (grantedCapabilities.contains .providerLlm) "llm_complete" (some 0) linker

def instantiate (w : Wasmtime) (host : PluginHost) (wasmBytes : List UInt8)
    (grantedCapabilities : List Capability) : Except HostError PluginInstance :=
  match w.compile wasmBytes with
  | .error e => .error (.compile e)
  | .ok module =>
      match hostLinker w grantedCapabilities with
      | .error e => .error (.instantiate e)
      | .ok linker =>
          match linker.link w module.imports with
          | .error e => .error (.instantiate e)
          | .ok linked =>
              have hlength : linked.functions.length = module.imports.length := by
                rw [← List.length_map HostFunction.place, linked.places]
              let started := (module.start host.limits).run linked.functions hlength
              match started.2 with
              | .error e => .error (.instantiate e)
              | .ok _ => .ok
                  { module := module
                    functions := linked.functions
                    places := linked.places
                    limits := host.limits
                    history := []
                    callLog := started.1 }

def instantiateFromManifest (w : Wasmtime) (host : PluginHost) (wasmBytes : List UInt8)
    (manifest : PluginManifest) (grantedCapabilities : List Capability) :
    Except HostError PluginInstance :=
  match manifest.validate with
  | .error e => .error (.manifestInvalid e)
  | .ok () =>
      match grantedCapabilities.find? fun c => !manifest.capabilities.contains c with
      | some capability => .error (.grantedCapabilityNotDeclared capability)
      | none => host.instantiate w wasmBytes grantedCapabilities

end PluginHost

end Plugins
end HiddenSteps
