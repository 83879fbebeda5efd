import HiddenSteps.Desktop.App

/-!
# TableSteps — what the other tasks do to the tables of a sweep

A sweep reads the events and writes the patterns and recommendations it finds in them.  The tasks
beside it touch these tables in four ways: a captured event is inserted, events are deleted, all is
deleted, the status of a recommendation is set.  What holds of these four holds of all other steps.
-/

namespace HiddenSteps
namespace Desktop

open EventStore Patterns PrivacyEngine Systems

/-- The tables that a sweep reads and writes are left alone. -/
structure SameTables (store store' : Store) : Prop where
  events : store'.events = store.events
  eventSeq : store'.eventSeq = store.eventSeq
  patterns : store'.patterns = store.patterns
  patternSeq : store'.patternSeq = store.patternSeq
  patternEvents : store'.patternEvents = store.patternEvents
  patternEmbeddings : store'.patternEmbeddings = store.patternEmbeddings
  workflowNodes : store'.workflowNodes = store.workflowNodes
  workflowEdges : store'.workflowEdges = store.workflowEdges
  recommendations : store'.recommendations = store.recommendations
  recommendationSeq : store'.recommendationSeq = store.recommendationSeq

theorem SameTables.refl (store : Store) : SameTables store store := by constructor <;> rfl

/-- The steps of the other tasks, by the command that takes the step. -/
inductive TableStep (store : Store) : Option Command → List Effect → Store → Prop where
  | same {command : Option Command} {es : List Effect} {store' : Store}
      (hsame : SameTables store store') : TableStep store command es store'
  | captured {event : EventSummary} {origin : Origin} {row : Option PrivacyState} :
      TableStep store none
        [.stored { event with id := some (store.insertEventSummary event).1 } origin row]
        (store.insertEventSummary event).2
  | eventsDeleted {eventIds : List Nat} {es : List Effect} :
      TableStep store (some (.deleteEvents eventIds)) es (store.deleteEvents eventIds).2
  | erased {now : Timestamp} {es : List Effect} :
      TableStep store (some .deleteAllData) es (store.deleteAllData now)
  | statusSet {request : SetRecommendationStatusRequest} {status : RecommendationStatus}
      {es : List Effect} :
      TableStep store (some (.setRecommendationStatus request)) es
        (store.setRecommendationStatus request.id status request.dismissalReason)

theorem tableStep_of_callStep {call : Call} {o : Outside} {shared : Shared} {pc : CallPc}
    {progress : Progress} (h : CallStep call o shared pc progress) :
    TableStep shared.store (some call.command) progress.effects progress.shared.store := by
  cases h with
  | eventsDeleted hcommand =>
      rw [hcommand]
      exact .eventsDeleted
  | erased hcommand | erasedLate hcommand =>
      rw [hcommand]
      exact .erased
  | statusSet hcommand =>
      rw [hcommand]
      exact .statusSet
  | providerActivated hactive =>
      rcases Store.setActiveLlmProvider_eq_ok hactive with ⟨providers, rfl⟩
      exact .same (by constructor <;> rfl)
  | logged hstore => rcases hstore with rfl | rfl <;> exact .same (by constructor <;> rfl)
  | _ => exact .same (by constructor <;> rfl)

/-- The command whose call takes the step. -/
def App.commandOf (app : App) : Action → Option Command
  | .call id _ => (app.call? id).map (·.command)
  | _ => none

theorem tableStep_of_appStep {ext : Externals} {app app' : App} {action : Action}
    {es : List Effect} (h : AppStep ext app action app' es) (hother : ∀ o, action ≠ .sweep o) :
    TableStep app.store (app.commandOf action) es app'.store := by
  cases h with
  | @launch app input hprocess =>
      rcases launch_store app input with ⟨versions, row, policy, hstore⟩
      rw [hstore]
      exact .same (by constructor <;> rfl)
  | exit | invoke | operate | notify => exact .same (.refl _)
  | call hcall hstep =>
      simp only [App.commandOf, App.call?, Option.bind_some, hcall, Option.map_some]
      exact tableStep_of_callStep hstep
  | @observe vault database process o progress hstep =>
      generalize hpc : process.observation = pc at hstep
      cases hstep with
      | stored => exact .captured
      | _ => exact .same (.refl _)
  | sweep => exact absurd rfl (hother _)

end Desktop
end HiddenSteps
