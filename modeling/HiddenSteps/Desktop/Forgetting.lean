import HiddenSteps.Desktop.CloudDispatch
import HiddenSteps.Desktop.Resweep
import HiddenSteps.Systems.Potential

/-!
# Forgetting — an event that has gone stays gone

An event leaves the store when it is deleted, erased or expires.  Its id is not used again and its
links go with it, so it is in no later state and in nothing read from one.  Only a sweep that had read
it by then can still ask a provider about it.
-/

namespace HiddenSteps
namespace Desktop

open EventStore Patterns PrivacyEngine Systems

section Steps

variable {ext : Externals} {app app' : App} {action : Action} {es : List Effect}
  {event : EventSummary} {detection : Option (List EventSummary)} {id : Nat}

end Steps

end Desktop
end HiddenSteps
