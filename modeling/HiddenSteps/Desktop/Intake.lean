import HiddenSteps.Desktop.App

/-!
# Intake — from the signals of the sources to the stored events

A source hands over its signals in two ways: a watcher queues them, another source returns them when
it is polled.  The note of a run records what has arrived from each source in a launch and what the
loop has handed to the pipeline.  Every signal is handed over once and in its turn, and the stored
events are what the pipeline makes of the signals, one by one.
-/

namespace HiddenSteps
namespace Desktop

open EventStore Pipeline Systems

/-! ## The note -/

/-- A signal that the loop has handed to the pipeline, and how. -/
structure Consumption where
  source : Nat
  traced : TracedSignal
  level : PrivacyLevel
  now : Timestamp
  /-- The store takes an event. -/
  storing : Bool

/-- What has arrived from each source since the launch, and what has been handed to the pipeline
since and before. -/
structure Intake where
  arrived : Nat → List TracedSignal
  consumed : List Consumption
  earlier : List Consumption

def Intake.empty : Intake := { arrived := fun _ => [], consumed := [], earlier := [] }

def Intake.arrive (intake : Intake) (source : Nat) (signals : List TracedSignal) : Intake :=
  { intake with
    arrived := fun i => if i = source then intake.arrived i ++ signals else intake.arrived i }

/-- The signals that a watcher sends next. -/
def Source.sends (source : Source) : List TracedSignal :=
  match source.queue, source.inFlight with
  | some _, notification :: _ => notification.signals source.id
  | _, _ => []

/-- The intake after a step. -/
def noteIntake (app : App) (action : Action) (intake : Intake) : Intake :=
  match action with
  | .launch _ =>
      { arrived := fun _ => [], consumed := [], earlier := intake.earlier ++ intake.consumed }
  | .notify source => intake.arrive source ((app.sources[source]?.map Source.sends).getD [])
  | .observe o =>
      match app.observation with
      | .polling _ next =>
          match app.sources[next]? with
          | some s => if s.queue.isSome then intake else intake.arrive next (s.poll o.polled).2
          | none => intake
      | .storing state next (traced :: _) =>
          { intake with
            consumed := intake.consumed ++
              [{ source := next - 1, traced := traced, level := state.currentLevel, now := o.now
                 storing := o.storeFault.isNone }] }
      | _ => intake
  | _ => intake

/-- The signals of one source among those handed over. -/
def Intake.consumedOf (intake : Intake) (i : Nat) : List TracedSignal :=
  (intake.consumed.filter fun c => c.source == i).map Consumption.traced

/-- The signals of the last poll that are still to be handed over. -/
def ObservationPc.pending (i : Nat) : ObservationPc → List TracedSignal
  | .storing _ next signals => if i = next - 1 then signals else []
  | _ => []

/-- The signals that a watcher has queued. -/
def Source.queued (source : Source) : List TracedSignal :=
  (source.queue.getD []).flatMap (Notification.signals source.id)

def App.queued (app : App) (i : Nat) : List TracedSignal :=
  (app.sources[i]?.map Source.queued).getD []

/-! ## What is stored -/

/-- An event without the id it gets when it is stored, and the origin of its signal. -/
def Effect.storedEvent : Effect → Option (EventSummary × Origin)
  | .stored event origin _ => some ({ event with id := none }, origin)
  | _ => none

/-- What is stored of a signal: nothing if the pipeline drops it or the store does not take it. -/
def Consumption.event (pipeline : EventPipeline) (c : Consumption) :
    Option (EventSummary × Origin) :=
  if c.storing then
    match pipeline.process c.traced.signal c.level c.now with
    | some (.summarized event) => some ({ event with id := none }, c.traced.origin)
    | _ => none
  else none

/-- The signals of each source are handed over in turn, and what is stored is made of them. -/
structure Balanced (pipeline : EventPipeline) (app : App) (intake : Intake) (history : List Effect) :
    Prop where
  inTurn : ∀ i, intake.consumedOf i <+: intake.arrived i
  /-- As long as the loop runs, nothing is lost. -/
  complete : app.observation ≠ .stopped → ∀ i,
    intake.consumedOf i ++ app.observation.pending i ++ app.queued i = intake.arrived i
  stored : history.filterMap Effect.storedEvent =
    (intake.earlier ++ intake.consumed).filterMap (Consumption.event pipeline)

/-! ## Steps -/

section Steps

variable {pipeline : EventPipeline} {app app' : App} {intake : Intake} {history : List Effect}

theorem storedEvent_of_task {e : Effect} (h : e.task ≠ .observation) : e.storedEvent = none := by
  cases e <;> first | exact absurd rfl h | rfl

/-- A step that neither takes in nor hands over a signal. -/
theorem Balanced.quiet {es : List Effect} (hinv : Balanced pipeline app intake history)
    (hobservation : app'.observation = app.observation ∨ app'.observation = .stopped)
    (hqueued : app'.observation ≠ .stopped → ∀ i, app'.queued i = app.queued i)
    (hes : ∀ e ∈ es, e.task ≠ .observation) : Balanced pipeline app' intake (history ++ es) where
  inTurn := hinv.inTurn
  complete := by
    intro hrunning i
    have hsame := hobservation.resolve_right hrunning
    rw [hsame, hqueued hrunning]
    exact hinv.complete (hsame ▸ hrunning) i
  stored := by
    rw [List.filterMap_append, hinv.stored,
      List.filterMap_eq_nil_iff.2 fun e he => storedEvent_of_task (hes e he), List.append_nil]

theorem consumedOf_append (c : Consumption) (i : Nat) :
    ({ intake with consumed := intake.consumed ++ [c] } : Intake).consumedOf i =
      intake.consumedOf i ++ if c.source = i then [c.traced] else [] := by
  unfold Intake.consumedOf
  rw [List.filter_append, List.map_append]
  by_cases hsource : c.source = i <;> simp [hsource]

/-- The first pending signal is handed over. -/
theorem Balanced.consume {state : PrivacyState} {next : Nat} {traced : TracedSignal}
    {signals : List TracedSignal} {o : Outside} {es : List Effect}
    (hinv : Balanced pipeline app intake history)
    (hobservation : app.observation = .storing state next (traced :: signals))
    (hnext : app'.observation = .storing state next signals ∨ app'.observation = .stopped)
    (hsources : app'.observation ≠ .stopped → app'.sources = app.sources)
    (hes : es.filterMap Effect.storedEvent =
      (Consumption.event pipeline ⟨next - 1, traced, state.currentLevel, o.now,
        o.storeFault.isNone⟩).toList) :
    Balanced pipeline app' (noteIntake app (.observe o) intake) (history ++ es) := by
  have hnote : noteIntake app (.observe o) intake =
      { intake with
        consumed := intake.consumed ++ [⟨next - 1, traced, state.currentLevel, o.now,
          o.storeFault.isNone⟩] } := by
    simp only [noteIntake, hobservation]
  have hbalance : ∀ i, (intake.consumedOf i ++ if next - 1 = i then [traced] else []) ++
      ((if i = next - 1 then signals else []) ++ app.queued i) = intake.arrived i := by
    intro i
    rw [← hinv.complete (by rw [hobservation]; rintro ⟨⟩) i, hobservation]
    by_cases hi : next - 1 = i
    · simp [ObservationPc.pending, hi]
    · simp [ObservationPc.pending, hi, Ne.symm hi]
  rw [hnote]
  refine ⟨?_, ?_, ?_⟩
  · intro i
    rw [consumedOf_append]
    exact ⟨_, hbalance i⟩
  · intro hrunning i
    rw [consumedOf_append, App.queued, hsources hrunning, hnext.resolve_right hrunning,
      List.append_assoc]
    exact hbalance i
  · rw [List.filterMap_append, hinv.stored, hes, ← List.append_assoc, List.filterMap_append]
    cases h : Consumption.event pipeline ⟨next - 1, traced, state.currentLevel, o.now,
      o.storeFault.isNone⟩ <;> simp [h]

/-- A source is polled: what a watcher has queued becomes pending, or what is measured arrives. -/
theorem Balanced.poll {state : PrivacyState} {next : Nat} {source : Source} {o : Outside}
    {es : List Effect} (hinv : Balanced pipeline app intake history)
    (hobservation : app.observation = .polling state next)
    (hsource : app.sources[next]? = some source)
    (hnext : app'.observation = .storing state (next + 1) (source.poll o.polled).2)
    (hsources : app'.sources = app.sources.set next (source.poll o.polled).1)
    (hes : es.filterMap Effect.storedEvent = []) :
    Balanced pipeline app' (noteIntake app (.observe o) intake) (history ++ es) := by
  have hnote : noteIntake app (.observe o) intake =
      if source.queue.isSome then intake else intake.arrive next (source.poll o.polled).2 := by
    simp only [noteIntake, hobservation, hsource]
  have hconsumed : (noteIntake app (.observe o) intake).consumed = intake.consumed ∧
      (noteIntake app (.observe o) intake).earlier = intake.earlier := by
    rw [hnote]
    split <;> exact ⟨rfl, rfl⟩
  have hbalance : ∀ i, intake.consumedOf i ++ app'.observation.pending i ++ app'.queued i =
      (noteIntake app (.observe o) intake).arrived i := by
    intro i
    have hbefore := hinv.complete (by rw [hobservation]; rintro ⟨⟩) i
    rw [hobservation] at hbefore
    rw [hnext, hnote, App.queued, hsources]
    by_cases hi : i = next
    · subst hi
      have hlength := (List.getElem?_eq_some_iff.1 hsource).1
      rw [List.getElem?_set_self hlength]
      rw [App.queued, hsource] at hbefore
      cases hqueue : source.queue with
      | some queue =>
          simpa [ObservationPc.pending, Source.poll, Source.queued, hqueue] using hbefore
      | none =>
          have hkept : (source.poll o.polled).1 = source := by
            simp only [Source.poll, hqueue]
            split <;> rfl
          have hnothing : source.queued = [] := by simp [Source.queued, hqueue]
          simp only [ObservationPc.pending, Option.map_some, Option.getD_some, hnothing,
            List.append_nil] at hbefore
          simp [ObservationPc.pending, hkept, hnothing, Intake.arrive, ← hbefore]
    · rw [List.getElem?_set_ne (Ne.symm hi)]
      have harrived : (if source.queue.isSome then intake
          else intake.arrive next (source.poll o.polled).2).arrived i = intake.arrived i := by
        split
        · rfl
        · simp [Intake.arrive, hi]
      rw [harrived, ← hbefore]
      simp [ObservationPc.pending, hi, App.queued]
  refine ⟨?_, fun _ i => ?_, ?_⟩
  · intro i
    rw [← hbalance i, Intake.consumedOf, hconsumed.1, List.append_assoc]
    exact List.prefix_append _ _
  · rw [← hbalance i, Intake.consumedOf, hconsumed.1]
    rfl
  · rw [List.filterMap_append, hes, List.append_nil, hconsumed.1, hconsumed.2, hinv.stored]

end Steps

end Desktop
end HiddenSteps
