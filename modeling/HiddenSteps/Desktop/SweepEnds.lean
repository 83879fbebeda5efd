import HiddenSteps.Desktop.App
import HiddenSteps.Patterns.DetectorLaws

/-!
# SweepEnds — what a sweep has established when it ends

A sweep handles the patterns it has detected one after the other.  `Establishes` is the shape of the
step lemmas about sweeps: an invariant is kept, and a sweep that ends leaves a property for every
pattern it has detected.
-/

namespace HiddenSteps
namespace Desktop

open EventStore Patterns PrivacyEngine Recommendations Systems

/-- The events in which a sweep that has not ended yet looked for patterns. -/
def SweepPc.detection : SweepPc → Option (List EventSummary)
  | .logging _ next => next.detection
  | .readingPatterns _ events _ => some events
  | .patterns context | .linking context _ | .synthesizing context _ _ => some context.events
  | .start | .readingState | .readingEvents _ => none

/-- What a step of a sweep establishes: an invariant, and a property of every detected pattern when
the step ends the sweep. -/
structure Establishes (Inv : Store → SweepPc → Prop) (P : Store → DetectedPattern → Prop)
    (pc : SweepPc) (progress : SweepProgress) : Prop where
  invariant : Inv progress.store progress.pc
  ended : ∀ events, pc.detection = some events → progress.pc.detection = none →
    ∀ d ∈ PatternDetector.standard.detect events, P progress.store d

/-- A step that does not end a sweep has only the invariant to establish. -/
theorem Establishes.of_detection {Inv : Store → SweepPc → Prop}
    {P : Store → DetectedPattern → Prop} {pc : SweepPc} {progress : SweepProgress}
    (hinvariant : Inv progress.store progress.pc)
    (hdetection : progress.pc.detection = pc.detection) : Establishes Inv P pc progress := by
  refine ⟨hinvariant, ?_⟩
  intro events hbefore hafter
  -- the detection is the same before and after, so it has not ended
  rw [hdetection, hbefore] at hafter
  cases hafter

/-- The detector reports one pattern for a signature. -/
theorem detected_eq_of_row {events : List EventSummary} {d d' : DetectedPattern}
    (hd : d ∈ PatternDetector.standard.detect events)
    (hd' : d' ∈ PatternDetector.standard.detect events)
    (h : (patternRow d).sequenceSignature = (patternRow d').sequenceSignature) : d = d' :=
  List.inj_on_of_nodup_map (PatternDetector.signatures_detect_nodup _ events) hd hd'
    (signature_eq_of_row h)

/-! ## Steps of a sweep -/

section Sweep

variable {ext : Recommendations.Externals} {vault : Vault} {gate : DispatchGate} {o : Outside}
  {store : Store} {progress : SweepProgress}

/-- Where a synthesis can lead. -/
inductive SynthesisGoes (context : SweepContext) (pattern : NewPattern) : SweepPc → Prop where
  | on (pc : SynthesisPc) : SynthesisGoes context pattern (.synthesizing context pattern pc)
  | back : SynthesisGoes context pattern (.patterns context)
  | backLogging (entry : AuditEntry) :
      SynthesisGoes context pattern (.logging entry (.patterns context))

theorem synthesisGoes_resume (context : SweepContext) (pattern : NewPattern)
    (next : SynthesisNext) : SynthesisGoes context pattern (Synthesis.resume context pattern next) := by
  cases next with
  | goOn pc => exact .on pc
  | done log =>
      cases log with
      | none => exact .back
      | some entry => exact .backLogging entry

/-- What a sweep does with the next detected pattern when the store can be reached. -/
theorem handled_of_step {context : SweepContext} {detected : DetectedPattern}
    {rest : List DetectedPattern} (hrest : context.rest = detected :: rest)
    (hfault : o.storeFault = none)
    (h : Sweep.step ext vault gate (.patterns context) o store = some progress) :
    (∃ p, known context.existing detected = some p ∧
        progress.pc = .patterns { context with rest := rest } ∧
        ((p.id = none ∧ progress.store = store) ∨
          ∃ id, p.id = some id ∧
            progress.store = store.updatePatternStats id detected.lastSeenAt
              detected.occurrenceCount (some detected.estimatedMinutesPerOccurrence))) ∨
      (known context.existing detected = none ∧
        progress.store = (store.insertPattern (patternRow detected)).2 ∧
        progress.pc = .linking { context with rest := rest }
          ⟨(store.insertPattern (patternRow detected)).1, detected⟩) := by
  simp only [Sweep.step, hrest, hfault] at h
  cases hknown : known context.existing detected with
  | none =>
      -- a row is inserted, with the links to follow
      rw [hknown] at h
      cases h
      exact Or.inr ⟨rfl, rfl, rfl⟩
  | some p =>
      -- the row is updated, unless it was read without an id
      rw [hknown] at h
      cases hid : p.id with
      | none =>
          simp only [hid] at h
          cases h
          exact Or.inl ⟨p, rfl, rfl, Or.inl ⟨hid, rfl⟩⟩
      | some id =>
          simp only [hid] at h
          cases h
          exact Or.inl ⟨p, rfl, rfl, Or.inr ⟨id, hid, rfl⟩⟩

/-- Linking a new pattern changes the links only, whether it succeeds or not. -/
theorem linked_of_step {context : SweepContext} {pattern : NewPattern}
    (h : Sweep.step ext vault gate (.linking context pattern) o store = some progress) :
    (∃ links, progress.store = { store with patternEvents := links }) ∧
      progress.pc = .synthesizing context pattern .getProvider := by
  simp only [Sweep.step] at h
  split at h
  · cases h
    -- the store cannot be reached, and the pattern goes on without links
    exact ⟨⟨store.patternEvents, rfl⟩, rfl⟩
  · cases h
    rcases Store.linkPatternEvents_eq store pattern.id pattern.detected.contributingEventIds with
      ⟨links, hstore, -⟩
    exact ⟨⟨store.patternEvents ++ links, hstore⟩, rfl⟩

end Sweep

/-- A step of the device by its sweep. -/
theorem sweep_of_step {ext : Externals} {app app' : App} {o : Outside} {es : List Effect}
    (h : (machine ext).step app (.sweep o) = some (app', es)) :
    ∃ process progress, app.process = some process ∧
      Sweep.step ext.synthesis app.vault process.gate app.sweep o app.store = some progress ∧
      app'.store = progress.store ∧ app'.sweep = progress.pc ∧ es = progress.effects := by
  rcases app with ⟨vault, file, process⟩
  cases process with
  | none => cases h
  | some process =>
      cases file with
      | none => cases h
      | some database =>
          replace h : App.run ext vault database process (.sweep o) = some (app', es) := h
          simp only [App.run, bind, Option.bind_eq_some_iff, Option.some.injEq,
            Prod.mk.injEq] at h
          rcases h with ⟨progress, hstep, rfl, rfl⟩
          exact ⟨process, progress, rfl, hstep, rfl, rfl, rfl⟩

/-! ## Runs up to the end of a sweep -/

/-- The next step of the sweep ends it, and what it leaves meets a test. -/
def endsSweep (ext : Externals) (guard : App → Action → Bool) (test : App → List EventSummary → Bool)
    (app : App) : Bool :=
  guard app (.sweep (.plain 0)) &&
    app.sweep.detection.any fun events =>
      ((machine ext).step app (.sweep (.plain 0))).any fun r =>
        r.1.sweep.detection.isNone && test r.1 events

theorem sweepEnd_of_endsSweep {ext : Externals} {guard : App → Action → Bool}
    {test : App → List EventSummary → Bool} {app : App}
    (h : endsSweep ext guard test app = true) :
    ∃ app' es events, guard app (.sweep (.plain 0)) = true ∧
      (machine ext).step app (.sweep (.plain 0)) = some (app', es) ∧
      app.sweep.detection = some events ∧ app'.sweep.detection = none ∧
      test app' events = true := by
  rcases Bool.and_eq_true_iff.1 h with ⟨hguard, htest⟩
  rcases (Option.any_eq_true _ _).1 htest with ⟨events, hevents, htest⟩
  -- the step is possible, and its outcome is the one tested
  rcases (Option.any_eq_true _ _).1 htest with ⟨⟨app', es⟩, hstep, htest⟩
  rcases Bool.and_eq_true_iff.1 htest with ⟨hafter, htest⟩
  exact ⟨app', es, events, hguard, hstep, hevents, Option.isNone_iff_eq_none.1 hafter, htest⟩

/-- Executing some actions finds a run whose next step ends a sweep with a tested outcome. -/
theorem exists_sweepEnd (ext : Externals) (guard : App → Action → Bool)
    (test : App → List EventSummary → Bool) (actions : List Action)
    (hexec : ((machine ext).exec (fun app action => guard app action = true) App.fresh
      actions).any (fun r => endsSweep ext guard test r.1) = true) :
    ∃ app history app' es events,
      (machine ext).Reach App.Initial (fun app action => guard app action = true) app history ∧
      guard app (.sweep (.plain 0)) = true ∧
      (machine ext).step app (.sweep (.plain 0)) = some (app', es) ∧
      app.sweep.detection = some events ∧ app'.sweep.detection = none ∧
      test app' events = true := by
  obtain ⟨app, history, hreach, htest⟩ := Machine.exists_reach (machine ext)
    (fun app action => guard app action = true) (fun app _ => endsSweep ext guard test app) actions
    App.fresh_initial hexec
  rcases sweepEnd_of_endsSweep htest with ⟨app', es, events, hend⟩
  exact ⟨app, history, app', es, events, hreach, hend⟩

/-- The same after any earlier run that leaves the sweep at its start. -/
theorem exists_laterSweepEnd (ext : Externals) (guard : App → Action → Bool)
    (test : App → List EventSummary → Bool) (earlier actions : List Action)
    (hexec : ((machine ext).exec Machine.always App.fresh earlier).any (fun r₀ =>
      ((machine ext).exec (fun app action => guard app action = true) r₀.1 actions).any
        fun r => decide (r₀.1.sweep = .start) && endsSweep ext guard test r.1) = true) :
    ∃ app₀ history₀ app history app' es events,
      (machine ext).Reach App.Initial Machine.always app₀ history₀ ∧ app₀.sweep = .start ∧
      (machine ext).Reach (· = app₀) (fun app action => guard app action = true) app history ∧
      guard app (.sweep (.plain 0)) = true ∧
      (machine ext).step app (.sweep (.plain 0)) = some (app', es) ∧
      app.sweep.detection = some events ∧ app'.sweep.detection = none ∧
      test app' events = true := by
  obtain ⟨app₀, history₀, app, history, hreach, hlater, htest⟩ :=
    Machine.exists_reach_later (machine ext) Machine.always
      (fun app action => guard app action = true)
      (fun app₀ app => decide (app₀.sweep = .start) && endsSweep ext guard test app)
      earlier actions App.fresh_initial hexec
  rcases Bool.and_eq_true_iff.1 htest with ⟨hstart, hends⟩
  rcases sweepEnd_of_endsSweep hends with ⟨app', es, events, hend⟩
  exact ⟨app₀, history₀, app, history, app', es, events, hreach, of_decide_eq_true hstart, hlater,
    hend⟩

end Desktop
end HiddenSteps
