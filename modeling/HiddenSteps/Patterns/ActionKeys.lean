import HiddenSteps.Patterns.Growth
import HiddenSteps.Patterns.Verbatim

/-!
# ActionKeys — which events share an action key

A key is a label and a subject, or a source and a label, with a colon between them.  Labels have no
colon, so two keys of one form tell their parts apart.  Keys of different forms are the same when a
source is named like a label.
-/

namespace HiddenSteps
namespace Patterns

/-! ## Texts with a separator -/

/-- Two texts that are one around a separator are cut at the same place, or one of them further
on. -/
theorem append_cons_cases {α : Type} {c : α} {x y x' y' : List α}
    (h : x ++ c :: y = x' ++ c :: y') :
    (x = x' ∧ y = y') ∨ (∃ mid, x' = x ++ c :: mid ∧ y = mid ++ c :: y') ∨
      ∃ mid, x = x' ++ c :: mid ∧ y' = mid ++ c :: y := by
  rcases List.append_eq_append_iff.1 h with ⟨between, hx, hy⟩ | ⟨between, hx, hy⟩
  · cases between with
    | nil => exact Or.inl ⟨by simpa using hx.symm, (List.cons.inj hy).2⟩
    | cons d mid =>
        rcases List.cons.inj hy with ⟨rfl, htail⟩
        exact Or.inr (Or.inl ⟨mid, hx, htail⟩)
  · cases between with
    | nil => exact Or.inl ⟨by simpa using hx, (List.cons.inj hy).2.symm⟩
    | cons d mid =>
        rcases List.cons.inj hy with ⟨rfl, htail⟩
        exact Or.inr (Or.inr ⟨mid, hx, htail⟩)

theorem signalTypeLabel_injective : Function.Injective signalTypeLabel := by
  intro a b h
  cases a <;> cases b <;> first | rfl | exact absurd h (by decide)

theorem colon_not_mem_label (signalType : SignalType) :
    ':' ∉ (signalTypeLabel signalType).toList := by
  cases signalType <;> decide

theorem toList_joined (a b : String) : (a ++ ":" ++ b).toList = a.toList ++ ':' :: b.toList := by
  rw [String.toList_append, String.toList_append]
  simp

/-! ## Keys -/

/-- What an action key stands for. -/
def SameAction (a b : EventSummary) : Prop :=
  (a.signalType = b.signalType ∧ (subject a).isSome = true ∧ subject a = subject b) ∨
    (subject a = none ∧ subject b = none ∧ a.sourceId = b.sourceId ∧ a.signalType = b.signalType)

/-- An event without a subject whose source is named after the label of the other event, so that the
key of the other one is made of a source and a label, too. -/
def Shadows (b a : EventSummary) : Prop :=
  subject b = none ∧ ∃ value, subject a = some value ∧
    ((b.sourceId = signalTypeLabel a.signalType ∧ value = signalTypeLabel b.signalType) ∨
      ∃ mid, b.sourceId = signalTypeLabel a.signalType ++ ":" ++ mid ∧
        value = mid ++ ":" ++ signalTypeLabel b.signalType)

theorem actionKey_of_subject {event : EventSummary} {value : String}
    (h : subject event = some value) :
    actionKey event = signalTypeLabel event.signalType ++ ":" ++ value := by
  rw [actionKey, h]

theorem actionKey_of_no_subject {event : EventSummary} (h : subject event = none) :
    actionKey event = event.sourceId ++ ":" ++ signalTypeLabel event.signalType := by
  rw [actionKey, h]

/-- A key of a label and a subject tells both. -/
theorem labelled_inj {s t : SignalType} {value value' : String}
    (h : signalTypeLabel s ++ ":" ++ value = signalTypeLabel t ++ ":" ++ value') :
    s = t ∧ value = value' := by
  have htexts := congrArg String.toList h
  rw [toList_joined, toList_joined] at htexts
  rcases append_cons_cases htexts with ⟨hlabel, hvalue⟩ | ⟨mid, hlabel, -⟩ | ⟨mid, hlabel, -⟩
  · exact ⟨signalTypeLabel_injective (String.toList_inj.1 hlabel), String.toList_inj.1 hvalue⟩
  -- a label with a colon in it
  · exact absurd (hlabel ▸ by simp) (colon_not_mem_label t)
  · exact absurd (hlabel ▸ by simp) (colon_not_mem_label s)

/-- A key of a source and a label tells both. -/
theorem sourced_inj {s t : SignalType} {source source' : String}
    (h : source ++ ":" ++ signalTypeLabel s = source' ++ ":" ++ signalTypeLabel t) :
    source = source' ∧ s = t := by
  have htexts := congrArg String.toList h
  rw [toList_joined, toList_joined] at htexts
  rcases append_cons_cases htexts with ⟨hsource, hlabel⟩ | ⟨mid, -, hlabel⟩ | ⟨mid, -, hlabel⟩
  · exact ⟨String.toList_inj.1 hsource, signalTypeLabel_injective (String.toList_inj.1 hlabel)⟩
  · exact absurd (hlabel ▸ by simp) (colon_not_mem_label s)
  · exact absurd (hlabel ▸ by simp) (colon_not_mem_label t)

/-- Keys of different forms are the same when the source is named after the label. -/
theorem labelled_eq_sourced_iff {s t : SignalType} {value source : String} :
    signalTypeLabel s ++ ":" ++ value = source ++ ":" ++ signalTypeLabel t ↔
      (source = signalTypeLabel s ∧ value = signalTypeLabel t) ∨
        ∃ mid, source = signalTypeLabel s ++ ":" ++ mid ∧
          value = mid ++ ":" ++ signalTypeLabel t := by
  constructor
  · intro h
    have htexts := congrArg String.toList h
    rw [toList_joined, toList_joined] at htexts
    rcases append_cons_cases htexts with ⟨hlabel, hvalue⟩ | ⟨mid, hsource, hvalue⟩ | ⟨mid, hlabel, -⟩
    · exact Or.inl ⟨String.toList_inj.1 hlabel.symm, String.toList_inj.1 hvalue⟩
    · refine Or.inr ⟨String.ofList mid, String.toList_inj.1 ?_, String.toList_inj.1 ?_⟩
      · rw [toList_joined, hsource, String.toList_ofList]
      · rw [toList_joined, hvalue, String.toList_ofList]
    · exact absurd (hlabel ▸ by simp) (colon_not_mem_label s)
  · rintro (⟨rfl, rfl⟩ | ⟨mid, rfl, rfl⟩)
    · rfl
    · simp only [String.append_assoc]

theorem actionKey_eq_iff (a b : EventSummary) :
    actionKey a = actionKey b ↔ SameAction a b ∨ Shadows b a ∨ Shadows a b := by
  cases ha : subject a with
  | some value =>
      cases hb : subject b with
      | some value' =>
          rw [actionKey_of_subject ha, actionKey_of_subject hb]
          simp only [SameAction, Shadows, ha, hb, Option.isSome_some, Option.some.injEq,
            reduceCtorEq, true_and, false_and, or_false]
          exact ⟨labelled_inj, fun ⟨htype, hvalue⟩ => by rw [htype, hvalue]⟩
      | none =>
          rw [actionKey_of_subject ha, actionKey_of_no_subject hb, labelled_eq_sourced_iff]
          simp [SameAction, Shadows, ha, hb]
  | none =>
      cases hb : subject b with
      | some value =>
          rw [actionKey_of_no_subject ha, actionKey_of_subject hb, eq_comm, labelled_eq_sourced_iff]
          simp [SameAction, Shadows, ha, hb]
      | none =>
          rw [actionKey_of_no_subject ha, actionKey_of_no_subject hb]
          simp only [SameAction, Shadows, ha, hb, Option.isSome_none, Bool.false_eq_true,
            reduceCtorEq, true_and, false_and, and_false, false_or, or_false, exists_false]
          exact ⟨sourced_inj, fun ⟨hsource, htype⟩ => by rw [hsource, htype]⟩

/-- A source that is named after a label takes the key of another action. -/
theorem not_sameAction_of_shadows {a b : EventSummary} (h : Shadows b a) :
    ¬ SameAction a b ∧ ¬ SameAction b a := by
  rcases h with ⟨hb, value, ha, -⟩
  constructor <;> simp [SameAction, ha, hb]

/-- The keys of two events are equal exactly if the events are of the same action. -/
def KeysIdentify (a b : EventSummary) : Prop :=
  actionKey a = actionKey b ↔ SameAction a b

theorem keysIdentify_iff (a b : EventSummary) :
    KeysIdentify a b ↔ ¬ Shadows b a ∧ ¬ Shadows a b := by
  unfold KeysIdentify
  rw [actionKey_eq_iff]
  constructor
  · intro h
    constructor
    · intro hshadows
      exact (not_sameAction_of_shadows hshadows).1 (h.1 (Or.inr (Or.inl hshadows)))
    · intro hshadows
      exact (not_sameAction_of_shadows hshadows).2 (h.1 (Or.inr (Or.inr hshadows)))
  · rintro ⟨hba, hab⟩
    simp only [hba, hab, or_false]

/-! ## The flag for verbatim strings -/

def VisitsDomain (event : EventSummary) : Prop :=
  event.signalType = .browserDomainVisited ∧ (stringField event "domain").isSome = true

/-- An event without a subject whose source is named after the label of domain visits. -/
def NamedLikeVisit (event : EventSummary) : Prop :=
  subject event = none ∧
    (event.sourceId = signalTypeLabel .browserDomainVisited ∨
      ∃ mid, event.sourceId = signalTypeLabel .browserDomainVisited ++ ":" ++ mid)

theorem isVerbatim_iff (key : String) :
    isVerbatim key = true ↔ ∃ rest, key = signalTypeLabel .browserDomainVisited ++ ":" ++ rest := by
  rw [isVerbatim, List.isPrefixOf_iff_prefix]
  constructor
  · rintro ⟨rest, hrest⟩
    refine ⟨String.ofList rest, String.toList_inj.1 ?_⟩
    rw [String.toList_append, String.toList_ofList, ← hrest]
    rfl
  · rintro ⟨rest, rfl⟩
    rw [String.toList_append]
    exact List.prefix_append _ _

theorem subject_of_browserDomainVisited {event : EventSummary}
    (h : event.signalType = .browserDomainVisited) :
    subject event = stringField event "domain" := by
  rw [subject_eq, h]

theorem isVerbatim_actionKey_iff (event : EventSummary) :
    isVerbatim (actionKey event) = true ↔ VisitsDomain event ∨ NamedLikeVisit event := by
  rw [isVerbatim_iff]
  cases hsubject : subject event with
  | some value =>
      rw [actionKey_of_subject hsubject]
      constructor
      · rintro ⟨rest, hkey⟩
        have htype := (labelled_inj hkey).1
        refine Or.inl ⟨htype, ?_⟩
        rw [← subject_of_browserDomainVisited htype, hsubject]
        rfl
      · rintro (⟨htype, -⟩ | ⟨hnone, -⟩)
        · exact ⟨value, by rw [htype]⟩
        · rw [hsubject] at hnone
          cases hnone
  | none =>
      rw [actionKey_of_no_subject hsubject]
      constructor
      · rintro ⟨rest, hkey⟩
        rcases labelled_eq_sourced_iff.1 hkey.symm with ⟨hsource, -⟩ | ⟨mid, hsource, -⟩
        · exact Or.inr ⟨hsubject, Or.inl hsource⟩
        · exact Or.inr ⟨hsubject, Or.inr ⟨mid, hsource⟩⟩
      · rintro (⟨htype, hdomain⟩ | ⟨-, hsource | ⟨mid, hsource⟩⟩)
        · rw [← subject_of_browserDomainVisited htype, hsubject] at hdomain
          cases hdomain
        · exact ⟨_, by rw [hsource]⟩
        · exact ⟨mid ++ ":" ++ signalTypeLabel event.signalType, by
            rw [hsource]; simp only [String.append_assoc]⟩

/-- The events of the windows that a pattern is reported for. -/
def windowEvents (events : List EventSummary) (detected : DetectedPattern) : List EventSummary :=
  (chosen events detected.signature).flatMap Occurrence.slice

/-- The flag is set exactly if a domain was visited in a window. -/
def FlagExact (events : List EventSummary) (detected : DetectedPattern) : Prop :=
  detected.containsVerbatimStrings = true ↔ ∃ e ∈ windowEvents events detected, VisitsDomain e

/-- The keys of the windows are the signature, and the flag is about these. -/
theorem containsVerbatim_iff {detector : PatternDetector} {events : List EventSummary}
    {detected : DetectedPattern} (h : detected ∈ detector.detect events) :
    detected.containsVerbatimStrings = true ↔
      ∃ e ∈ windowEvents events detected, isVerbatim (actionKey e) = true := by
  have hdescribe := (PatternDetector.mem_detect_iff.1 h).2.2
  rw [describe_containsVerbatim hdescribe, signatureContainsVerbatim, List.any_eq_true]
  constructor
  · rintro ⟨key, hkey, hverbatim⟩
    obtain ⟨o, ho⟩ := List.exists_mem_of_ne_nil _ (describe_signature hdescribe).2
    have hsignature := (mem_of_mem_chosen ho).2
    rw [← hsignature, Occurrence.signature] at hkey
    rcases List.mem_map.1 hkey with ⟨e, he, rfl⟩
    exact ⟨e, List.mem_flatMap.2 ⟨o, ho, he⟩, hverbatim⟩
  · rintro ⟨e, he, hverbatim⟩
    rcases List.mem_flatMap.1 he with ⟨o, ho, he⟩
    refine ⟨actionKey e, ?_, hverbatim⟩
    rw [← (mem_of_mem_chosen ho).2]
    exact List.mem_map_of_mem he

theorem flagExact_iff {detector : PatternDetector} {events : List EventSummary}
    {detected : DetectedPattern} (h : detected ∈ detector.detect events) :
    FlagExact events detected ↔
      ((∃ e ∈ windowEvents events detected, NamedLikeVisit e) →
        ∃ e ∈ windowEvents events detected, VisitsDomain e) := by
  unfold FlagExact
  simp only [containsVerbatim_iff h, isVerbatim_actionKey_iff]
  constructor
  · rintro hflag ⟨e, he, hnamed⟩
    exact hflag.1 ⟨e, he, Or.inr hnamed⟩
  · intro hvisit
    constructor
    · rintro ⟨e, he, hvisits | hnamed⟩
      · exact ⟨e, he, hvisits⟩
      · exact hvisit ⟨e, he, hnamed⟩
    · rintro ⟨e, he, hvisits⟩
      exact ⟨e, he, Or.inl hvisits⟩

/-- Action keys and the flag are exact unless a source is named after a label. -/
theorem actionKeys_exact_iff (a b : EventSummary) (detector : PatternDetector)
    (events : List EventSummary) :
    (KeysIdentify a b ↔ ¬ Shadows b a ∧ ¬ Shadows a b) ∧
      ∀ detected ∈ detector.detect events,
        FlagExact events detected ↔
          ((∃ e ∈ windowEvents events detected, NamedLikeVisit e) →
            ∃ e ∈ windowEvents events detected, VisitsDomain e) :=
  ⟨keysIdentify_iff a b, fun _ h => flagExact_iff h⟩

/-- A window title from a source that is named after the label of focus changes. -/
def shadowing : EventSummary :=
  .new 0 "app_focus_change" .windowTitle .applicationMetadata (.object []) none

def shadowed : EventSummary :=
  .new 0 "linux.active_window" .appFocusChange .applicationMetadata
    (.object [("app", .string "window_title")]) none

/-- An action from a source that is named after the label of domain visits. -/
def namedLikeVisit : EventSummary :=
  .new 0 "browser_domain_visited" .appActionEvent .workflowMetadata (.object []) none

def flagged : DetectedPattern where
  signature := ["browser_domain_visited:app_action_event"]
  occurrenceCount := 1
  firstSeenAt := 0
  lastSeenAt := 0
  estimatedMinutesPerOccurrence := 0
  contributingEventIds := []
  containsVerbatimStrings := true

/-- A source can take the key of an app, and it can set the flag without a domain. -/
theorem actionKeys_not_exact :
    (¬ ∀ a b, KeysIdentify a b) ∧
      ¬ ∀ (detector : PatternDetector) (events : List EventSummary),
        ∀ detected ∈ detector.detect events, FlagExact events detected := by
  constructor
  · intro hkeys
    have hsame := (hkeys shadowing shadowed).1 (by decide +kernel)
    exact absurd hsame (by simp [SameAction, shadowing, shadowed, EventSummary.new])
  · intro hflags
    have hmem : flagged ∈ (⟨1, 1, 1⟩ : PatternDetector).detect [namedLikeVisit] := by
      decide +kernel
    rcases (hflags _ _ _ hmem).1 rfl with ⟨e, he, htype, -⟩
    rcases List.mem_flatMap.1 he with ⟨o, ho, he⟩
    -- the only event of the history
    rw [slice_of_mem_chosen ho] at he
    have hevent := List.mem_singleton.1 (List.mem_of_mem_drop (List.mem_of_mem_take he))
    rw [hevent] at htype
    cases htype

end Patterns
end HiddenSteps
