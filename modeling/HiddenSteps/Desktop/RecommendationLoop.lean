import HiddenSteps.Desktop.State

/-!
# RecommendationLoop — sweeps: detect patterns, synthesise recommendations

A sweep reads the privacy state, the recent events and the known patterns once, and then writes for
one detected pattern after the other, with a provider's answer awaited in between.  `SweepPc` is
where the sweep stands and `SynthesisPc` where the synthesis for a new pattern does.
-/

namespace HiddenSteps
namespace Desktop

open EventStore Patterns PrivacyEngine Recommendations

def eventHistoryLimit : Int := 2000

/-! ## Building a provider -/

/-- `char::is_whitespace` -/
def isWhitespace (c : Char) : Bool :=
  (9 ≤ c.toNat && c.toNat ≤ 13) || [0x20, 0x85, 0xA0, 0x1680].contains c.toNat ||
    (0x2000 ≤ c.toNat && c.toNat ≤ 0x200A) ||
    [0x2028, 0x2029, 0x202F, 0x205F, 0x3000].contains c.toNat

/-- The key of a configuration, empty when it has none or the vault does not yield it. -/
def providerApiKey (vault : Vault) (vaultFault : Option String) (config : LlmProviderConfig) :
    List UInt8 :=
  match config.vaultKeyRef, vaultFault with
  | some keyRef, none => (vault keyRef).getD []
  | _, _ => []

def buildProvider (vault : Vault) (vaultFault : Option String) (config : LlmProviderConfig) :
    Option Provider :=
  (config.modelName.filter fun m => !m.toList.all isWhitespace).map fun model =>
    let apiKey := providerApiKey vault vaultFault config
    -- the type of the provider decides whether it is local, not the flag of the configuration
    if config.providerType = "ollama" then
      { id := "ollama", isLocal := true
        endpoint := config.endpoint.getD "http://localhost:11434", apiKey := [], model := model }
    else if config.providerType = "anthropic" then
      { id := "anthropic", isLocal := false
        endpoint := config.endpoint.getD "https://api.anthropic.com", apiKey := apiKey
        model := model }
    else
      { id := "openai-compatible", isLocal := false
        endpoint := config.endpoint.getD "https://api.openai.com", apiKey := apiKey
        model := model }

/-! ## Program counters -/

/-- What a sweep has read, and the detected patterns it has still to handle. -/
structure SweepContext where
  privacyState : PrivacyState
  events : List EventSummary
  existing : List Pattern
  rest : List DetectedPattern
  deriving DecidableEq

/-- A pattern the sweep has inserted. -/
structure NewPattern where
  id : Nat
  detected : DetectedPattern
  deriving DecidableEq

/-- A provider that passed the gate, with the copy of the gate it is called through. -/
structure GatedProvider where
  provider : Provider
  gate : DispatchGate
  attempts : Attempts
  deriving DecidableEq

inductive SynthesisPc where
  | getProvider
  | buildProvider (config : LlmProviderConfig)
  | snapshotGate (provider : Provider)
  | requesting (gated : GatedProvider)
  | awaiting (gated : GatedProvider)
  | inserting (recommendation : Recommendation)
  deriving DecidableEq

inductive SweepPc where
  | start
  | logging (entry : AuditEntry) (next : SweepPc)
  | readingState
  | readingEvents (privacyState : PrivacyState)
  | readingPatterns (privacyState : PrivacyState) (events : List EventSummary)
      (detected : List DetectedPattern)
  /-- The head of the loop over the detected patterns. -/
  | patterns (context : SweepContext)
  | linking (context : SweepContext) (pattern : NewPattern)
  | synthesizing (context : SweepContext) (pattern : NewPattern) (pc : SynthesisPc)
  deriving DecidableEq

/-! ## Synthesis for one new pattern -/

/-- Where a synthesis goes: on, or to its end, with an entry for the audit log or without. -/
inductive SynthesisNext where
  | goOn (pc : SynthesisPc)
  | done (log : Option AuditEntry)

structure SynthesisProgress where
  store : Store
  next : SynthesisNext
  effects : List Effect

namespace Synthesis

/-- The decision of a gate on a pattern at a privacy level. -/
def decide (gate : DispatchGate) (provider : Provider) (level : PrivacyLevel)
    (detected : DetectedPattern) : DispatchDecision :=
  gate.evaluate provider.isLocal level "pattern_summary" detected.containsVerbatimStrings

/-- `GateError` in the text of a provider error. -/
def gateError : DispatchDecision → String
  | .requiresConsent contentClass =>
      "request failed: requires explicit consent for content class '" ++ contentClass ++
        "' before this can be sent to a cloud provider"
  | _ => "request failed: blocked by privacy gate: cloud dispatch not permitted for this content"

/-- The audit entry of a synthesis that failed. -/
def failed (now : Timestamp) (patternId : Nat) (error : SynthesisError) : AuditEntry :=
  .new now .system "recommendation_synthesis_failed"
    (.object [("error", .string error.message), ("pattern_id", .number patternId)])

def step (ext : Externals) (vault : Vault) (gate : DispatchGate) (context : SweepContext)
    (pattern : NewPattern) (pc : SynthesisPc) (o : Outside) (store : Store) : SynthesisProgress :=
  let stop := fun log => SynthesisProgress.mk store (.done log) []
  let goOn := fun pc => SynthesisProgress.mk store (.goOn pc) []
  let level := context.privacyState.currentLevel
  match pc with
  | .getProvider =>
      match o.storeFault, store.getActiveLlmProvider with
      | none, some config => goOn (.buildProvider config)
      | _, _ => stop none
  | .buildProvider config =>
      match Desktop.buildProvider vault o.vaultFault config with
      | some provider => goOn (.snapshotGate provider)
      | none => stop none
  | .snapshotGate provider =>
      -- decided at the level of the sweep, whatever the levels of the events
      if decide gate provider level pattern.detected = .allow then
        goOn (.requesting { provider := provider, gate := gate, attempts := .new })
      else
        stop (some (.new o.now .system "recommendation_blocked_by_privacy_gate"
          (.object [("pattern_id", .number pattern.id)])))
  | .requesting gated =>
      -- every attempt asks the gate again, but the copy of it
      match decide gated.gate gated.provider level pattern.detected with
      | .allow =>
          { store := store
            next := .goOn (.awaiting gated)
            effects :=
              [.requested
                { provider := gated.provider
                  request := synthesisRequest pattern.id pattern.detected
                  detected := pattern.detected
                  events := context.events }
                (getCloudConsent store)] }
      | decision => stop (some (failed o.now pattern.id (.provider (gateError decision))))
  | .awaiting gated =>
      let answer :=
        match o.answer with
        | .ok text => .ok text
        | .error e => .error ("request failed: provider error: " ++ e)
      match nextAttempt ext gated.provider.id pattern.id pattern.detected o.now gated.attempts
          answer with
      | .again attempts => goOn (.requesting { gated with attempts := attempts })
      | .finished (.ok recommendation) => goOn (.inserting recommendation)
      | .finished (.error e) => stop (some (failed o.now pattern.id e))
  | .inserting recommendation =>
      match o.storeFault, store.insertRecommendation recommendation with
      -- a recommendation that cannot be stored is lost
      | none, .ok inserted =>
          { store := inserted.2
            next := .done none
            effects := [.recommendationStored inserted.1 pattern.detected] }
      | _, _ => stop none

/-- The sweep after a step of the synthesis. -/
def resume (context : SweepContext) (pattern : NewPattern) : SynthesisNext → SweepPc
  | .goOn synthesis => .synthesizing context pattern synthesis
  | .done none => .patterns context
  | .done (some entry) => .logging entry (.patterns context)

end Synthesis

/-! ## Sweeps -/

structure SweepProgress where
  store : Store
  pc : SweepPc
  effects : List Effect

/-- The row of a detected pattern. -/
def patternRow (detected : DetectedPattern) : Pattern :=
  { id := none
    firstSeenAt := detected.firstSeenAt
    lastSeenAt := detected.lastSeenAt
    occurrenceCount := detected.occurrenceCount
    estimatedMinutesPerOccurrence := some detected.estimatedMinutesPerOccurrence
    sequenceSignature := .array (detected.signature.map .string)
    status := .active }

/-- The existing pattern with the signature of a detected one. -/
def known (existing : List Pattern) (detected : DetectedPattern) : Option Pattern :=
  existing.find? fun p => p.sequenceSignature == (patternRow detected).sequenceSignature

/-- The stored signature determines the signature of the detected pattern. -/
theorem signature_eq_of_row {d d' : DetectedPattern}
    (h : (patternRow d).sequenceSignature = (patternRow d').sequenceSignature) :
    d.signature = d'.signature := by
  have hstrings : d.signature.map Json.string = d'.signature.map Json.string := Json.array.inj h
  exact (List.map_inj_right fun _ _ hs => Json.string.inj hs).1 hstrings

theorem known_eq_some {existing : List Pattern} {detected : DetectedPattern} {p : Pattern}
    (h : known existing detected = some p) :
    p ∈ existing ∧ p.sequenceSignature = (patternRow detected).sequenceSignature := by
  have hfound := List.find?_some h
  exact ⟨List.mem_of_find?_eq_some h, beq_iff_eq.1 hfound⟩

theorem known_eq_none {existing : List Pattern} {detected : DetectedPattern}
    (h : known existing detected = none) :
    ∀ p ∈ existing, p.sequenceSignature ≠ (patternRow detected).sequenceSignature :=
  fun p hp hsignature => List.find?_eq_none.1 h p hp (beq_iff_eq.2 hsignature)

namespace Sweep

/-- A sweep that ends with an error logs it. -/
def failed (now : Timestamp) (message : String) : SweepPc :=
  .logging (.new now .system "recommendation_sweep_error" (.object [("error", .string message)]))
    .start

def step (ext : Externals) (vault : Vault) (gate : DispatchGate) (pc : SweepPc) (o : Outside)
    (store : Store) : Option SweepProgress :=
  let goTo := fun pc => some (SweepProgress.mk store pc [])
  match pc with
  | .start =>
      match o.storeFault with
      -- a failed expiry is logged, and the sweep goes on
      | some e =>
          goTo (.logging (.new o.now .system "deep_mode_ttl_sweep_error"
            (.object [("error", .string e)])) .readingState)
      | none =>
          let deleted := store.deleteExpiredEvents o.now
          let next : SweepPc :=
            if 0 < deleted.1 then
              .logging (.new o.now .system "deep_mode_ttl_expired_events_deleted"
                (.object [("count", .number deleted.1)])) .readingState
            else .readingState
          some { store := deleted.2, pc := next, effects := [] }
  | .logging entry next =>
      match o.storeFault with
      | some _ => goTo next
      | none => some { store := (store.appendAuditEntry entry).2, pc := next, effects := [] }
  | .readingState =>
      match o.storeFault, store.getPrivacyState with
      | some e, _ => goTo (failed o.now e)
      | none, .error e => goTo (failed o.now e.message)
      | none, .ok privacyState => goTo (.readingEvents privacyState)
  | .readingEvents privacyState =>
      match o.storeFault with
      | some e => goTo (failed o.now e)
      | none =>
          let events := (store.listRecentEvents eventHistoryLimit).reverse
          -- the order within one window size is that of a hash map
          if o.detected.Perm (PatternDetector.standard.detect events) then
            if o.detected = [] then goTo .start
            else goTo (.readingPatterns privacyState events o.detected)
          else none
  | .readingPatterns privacyState events detected =>
      match o.storeFault with
      | some e => goTo (failed o.now e)
      | none =>
          goTo (.patterns
            { privacyState := privacyState, events := events
              existing := store.listPatterns none, rest := detected })
  | .patterns context =>
      match context.rest with
      | [] => goTo .start
      | detected :: rest =>
          let context := { context with rest := rest }
          match known context.existing detected with
          | some p =>
              -- a known pattern gets new statistics and no further synthesis
              match o.storeFault, p.id with
              | none, some id =>
                  some
                    { store := store.updatePatternStats id detected.lastSeenAt
                        detected.occurrenceCount (some detected.estimatedMinutesPerOccurrence)
                      pc := .patterns context
                      effects := if store.hasPattern id then [.patternStored id detected] else [] }
              | _, _ => goTo (.patterns context)
          | none =>
              match o.storeFault with
              | some e => goTo (failed o.now e)
              | none =>
                  let inserted := store.insertPattern (patternRow detected)
                  some
                    { store := inserted.2
                      pc := .linking context { id := inserted.1, detected := detected }
                      effects := [.patternStored inserted.1 detected] }
  | .linking context pattern =>
      -- an error keeps the links made before it and does not end the sweep
      let store' :=
        match o.storeFault with
        | some _ => store
        | none => (store.linkPatternEvents pattern.id pattern.detected.contributingEventIds).2
      some { store := store', pc := .synthesizing context pattern .getProvider, effects := [] }
  | .synthesizing context pattern synthesis =>
      let progress := Synthesis.step ext vault gate context pattern synthesis o store
      some
        { store := progress.store
          pc := Synthesis.resume context pattern progress.next
          effects := progress.effects }

end Sweep

end Desktop
end HiddenSteps
