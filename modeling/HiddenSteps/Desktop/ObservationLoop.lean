import HiddenSteps.Desktop.State

/-!
# ObservationLoop — poll the sources, run the pipeline, store what survives

A tick reads the privacy state once and uses it for every source it polls and every signal it
stores.  `ObservationPc` is where the loop stands; `Observation.step` is its next step.
-/

namespace HiddenSteps
namespace Desktop

open EventStore Pipeline

inductive ObservationPc where
  /-- About to read the privacy state. -/
  | tick
  /-- About to poll a source, by its position. -/
  | polling (state : PrivacyState) (next : Nat)
  /-- The signals of the last poll that are still to be stored. -/
  | storing (state : PrivacyState) (next : Nat) (signals : List TracedSignal)
  /-- The task has ended. -/
  | stopped
  deriving DecidableEq

/-! ## Draining a watcher's queue -/

/-- The operation a watcher event reports, for the kinds that are one. -/
def NotifyKind.operation : NotifyKind → Option String
  | create => some "create"
  | modify => some "modify"
  | remove => some "delete"
  | other => none

/-- The signals of one queued result. -/
def Notification.signals (sourceId : String) (notification : Notification) : List TracedSignal :=
  match notification.event with
  | none => []
  | some event =>
      match event.kind.operation with
      | none => []
      | some operation =>
          event.paths.map fun path =>
            { signal := { sourceId := sourceId, payload := .fileOperation path operation }
              origin := .fileOperation notification.permitted }

/-- `tx.send`: the next result goes to the queue. -/
def Source.send (source : Source) : Source :=
  match source.queue, source.inFlight with
  | some queue, notification :: inFlight =>
      { source with queue := some (queue ++ [notification]), inFlight := inFlight }
  | _, _ => source

/-- `poll`: drain the queue of a watcher; measure otherwise. -/
def Source.poll (source : Source) (measured : Except String (List CapturedSignal)) :
    Source × List TracedSignal :=
  match source.queue with
  -- whatever has been queued since the last poll, at once
  | some queue =>
      ({ source with queue := some [] }, queue.flatMap (Notification.signals source.id))
  | none =>
      match measured with
      | .error _ => (source, [])
      | .ok signals => (source, signals.map fun s => { signal := s, origin := .polled })

/-! ## Steps -/

/-- What the loop leaves behind. -/
structure ObservationProgress where
  store : Store
  sources : List Source
  pc : ObservationPc
  effects : List Effect

namespace Observation

def step (pipeline : EventPipeline) (pc : ObservationPc) (o : Outside) (store : Store)
    (sources : List Source) : Option ObservationProgress :=
  let goTo := fun pc => some (ObservationProgress.mk store sources pc [])
  match pc with
  | .tick =>
      match o.storeFault, store.getPrivacyState with
      | none, .ok state =>
          -- the loop sleeps and looks again; the queues of the watchers keep filling
          if state.permitsObservation then goTo (.polling state 0) else goTo .tick
      -- a failed read ends the loop for good
      | _, _ => goTo .stopped
  | .polling state next =>
      match sources[next]? with
      | none => goTo .tick
      | some source =>
          -- the minimum level of the source is not asked for
          let polled := source.poll o.polled
          some
            { store := store
              sources := sources.set next polled.1
              pc := .storing state (next + 1) polled.2
              effects := [.polled source.id source.minPrivacyLevel state.currentLevel] }
  | .storing state next [] => goTo (.polling state next)
  | .storing state next (traced :: signals) =>
      match pipeline.process traced.signal state.currentLevel o.now with
      -- a panic ends the task
      | none => goTo .stopped
      | some (.dropped _) => goTo (.storing state next signals)
      | some (.summarized event) =>
          match o.storeFault with
          -- an event that cannot be stored is lost
          | some _ => goTo (.storing state next signals)
          | none =>
              let inserted := store.insertEventSummary event
              some
                { store := inserted.2
                  sources := sources
                  pc := .storing state next signals
                  effects :=
                    [.stored { event with id := some inserted.1 } traced.origin
                      store.privacyState] }
  | .stopped => none

end Observation

end Desktop
end HiddenSteps
