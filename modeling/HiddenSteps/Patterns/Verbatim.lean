import HiddenSteps.Patterns.DetectorLaws
import HiddenSteps.Recommendations.Prompt

/-!
# Verbatim — what an unflagged pattern can tell

Two histories that look the same but for domains, titles, texts and the names of files have the
same patterns without the flag for verbatim strings, and these lead to the same prompts.
-/

namespace HiddenSteps
namespace Patterns

open Recommendations Systems

/-! ## What is visible of an event -/

/-- A string of the summary of an event. -/
def stringField (event : EventSummary) (name : String) : Option String :=
  (event.summary.asObject.bind fun obj => Json.getField obj name).bind Json.asStr

/-- The extension of the file of an event. -/
def pathExtension (event : EventSummary) : Option String :=
  ((stringField event "path").bind fun path => extension path.toList).map String.ofList

/-- The fields of a summary that say what an event is about.  Of a domain only its presence counts,
of a path only the extension. -/
def subjectFields (event : EventSummary) : List (Option String) :=
  match event.signalType with
  | .appFocusChange => [stringField event "app"]
  | .shortcutUsed => [stringField event "shortcut"]
  | .browserDomainVisited => [(stringField event "domain").map fun _ => ""]
  | .clipboardMetadata => [stringField event "content_type"]
  | .fileOperationMetadata => [stringField event "operation", pathExtension event]
  | .windowTitle | .appActionEvent | .ocrText | .screenshot | .accessibilityTree => []

/-- What two histories have to agree on. -/
structure Visible where
  id : Option Nat
  occurredAt : Timestamp
  sourceId : String
  signalType : SignalType
  subjectFields : List (Option String)
  deriving DecidableEq

def visible (event : EventSummary) : Visible where
  id := event.id
  occurredAt := event.occurredAt
  sourceId := event.sourceId
  signalType := event.signalType
  subjectFields := Patterns.subjectFields event

/-- A key that sets the flag of a signature. -/
def isVerbatim (key : String) : Bool :=
  "browser_domain_visited:".toList.isPrefixOf key.toList

theorem isVerbatim_domain (domain : String) :
    isVerbatim (signalTypeLabel .browserDomainVisited ++ ":" ++ domain) = true := by
  rw [isVerbatim, List.isPrefixOf_iff_prefix, String.toList_append]
  exact List.prefix_append _ _

/-- The subject of an event, by the fields it is taken from. -/
theorem subject_eq (event : EventSummary) :
    subject event =
      match event.signalType with
      | .appFocusChange => stringField event "app"
      | .shortcutUsed => stringField event "shortcut"
      | .browserDomainVisited => stringField event "domain"
      | .clipboardMetadata => stringField event "content_type"
      | .fileOperationMetadata =>
          (stringField event "operation").map fun operation =>
            operation ++ ":" ++ (pathExtension event).getD "no_extension"
      | .windowTitle | .appActionEvent | .ocrText | .screenshot | .accessibilityTree => none := by
  rcases event with ⟨id, occurredAt, sourceId, signalType, level, summary, deep, ttl⟩
  unfold subject pathExtension stringField
  cases hobj : summary.asObject with
  | none => cases signalType <;> rfl
  | some obj =>
      cases signalType with
      | fileOperationMetadata =>
          simp only [bind, Option.bind_some]
          cases (Json.getField obj "operation").bind Json.asStr with
          | none => rfl
          | some operation =>
              cases ((Json.getField obj "path").bind Json.asStr).bind
                fun path => extension path.toList with
              | none => rfl
              | some ext => rfl
      | _ => rfl

/-- The key of an event can be told from what is visible of it, unless it holds a domain. -/
theorem actionKey_of_visible {e e' : EventSummary} (h : visible e = visible e') :
    actionKey e = actionKey e' ∨
      (isVerbatim (actionKey e) = true ∧ isVerbatim (actionKey e') = true) := by
  rcases Visible.mk.inj h with ⟨-, -, hsource, htype, hfields⟩
  unfold actionKey
  rw [subject_eq, subject_eq, hsource, htype]
  unfold subjectFields at hfields
  rw [htype] at hfields
  cases hsignal : e'.signalType with
  | browserDomainVisited =>
      simp only [hsignal, List.cons.injEq, and_true] at hfields
      cases hdomain : stringField e "domain" with
      | none =>
          rw [hdomain] at hfields
          simp only [Option.map_eq_none_iff.1 hfields.symm, true_or]
      | some domain =>
          rw [hdomain] at hfields
          rcases Option.map_eq_some_iff.1 hfields.symm with ⟨domain', hdomain', -⟩
          simp only [hdomain']
          exact Or.inr ⟨isVerbatim_domain domain, isVerbatim_domain domain'⟩
  | fileOperationMetadata =>
      simp only [hsignal, List.cons.injEq, and_true] at hfields
      simp only [hfields.1, hfields.2, true_or]
  | _ =>
      simp only [hsignal, List.cons.injEq, and_true] at hfields
      simp only [hfields, true_or]

/-! ## Windows -/

/-- A signature without verbatim strings occurs where the events look the same. -/
theorem map_actionKey_of_visible {slice slice' : List EventSummary}
    (h : slice.map visible = slice'.map visible)
    (hunflagged : signatureContainsVerbatim (slice.map actionKey) = false) :
    slice'.map actionKey = slice.map actionKey := by
  induction slice generalizing slice' with
  | nil => rw [List.map_eq_nil_iff.1 h.symm]
  | cons e slice ih =>
      cases slice' with
      | nil => cases h
      | cons e' slice' =>
          rcases List.cons.inj h with ⟨hfirst, hrest⟩
          simp only [signatureContainsVerbatim, List.map_cons, List.any_cons,
            Bool.or_eq_false_iff] at hunflagged
          rw [List.map_cons, List.map_cons, ih hrest hunflagged.2]
          rcases actionKey_of_visible hfirst with hkey | ⟨hflag, -⟩
          · rw [hkey]
          · rw [isVerbatim, hunflagged.1] at hflag
            cases hflag

variable {events events' : List EventSummary} {signature : List String}

theorem OccursAt.of_visible (h : events.map visible = events'.map visible)
    (hunflagged : signatureContainsVerbatim signature = false) {start : Nat}
    (hoccurs : OccursAt events signature start) : OccursAt events' signature start := by
  unfold OccursAt at hoccurs ⊢
  have hslices : ((events.drop start).take signature.length).map visible =
      ((events'.drop start).take signature.length).map visible := by
    rw [List.map_take, List.map_drop, h, List.map_take, List.map_drop]
  rw [map_actionKey_of_visible hslices (by rwa [hoccurs]), hoccurs]

theorem hits_of_visible (h : events.map visible = events'.map visible)
    (hunflagged : signatureContainsVerbatim signature = false) :
    hits events signature = hits events' signature := by
  have hlength : events.length = events'.length := by
    simpa using congrArg List.length h
  unfold hits
  rw [hlength]
  apply List.filter_congr
  intro start _
  rw [decide_eq_decide]
  exact ⟨.of_visible h hunflagged, .of_visible h.symm hunflagged⟩

/-! ## Patterns -/

/-- What is visible of an occurrence. -/
def Occurrence.visible (o : Occurrence) : List Visible := o.slice.map Patterns.visible

theorem visible_chosen (hne : signature ≠ []) :
    (chosen events signature).map Occurrence.visible =
      (Packing.greedy signature.length 0 (hits events signature)).map fun start =>
        ((events.map Patterns.visible).drop start).take signature.length := by
  rw [← starts_chosen hne, List.map_map]
  apply List.map_congr_left
  intro o ho
  rw [Occurrence.visible, (slice_of_mem_occurrencesOf (mem_of_mem_chosen ho).1).2, List.map_take,
    List.map_drop]
  rfl

theorem first_of_visible {o o' : Occurrence} (h : o.visible = o'.visible) :
    o.first.occurredAt = o'.first.occurredAt := by
  -- the first event is the head of what is visible
  have hhead : ∀ o : Occurrence,
      some o.first.occurredAt = o.visible.head?.map Visible.occurredAt := by
    intro o
    rw [Occurrence.visible, List.head?_map, List.head?_eq_some_head o.nonempty]
    rfl
  exact Option.some.inj (by rw [hhead, hhead, h])

theorem last_of_visible {o o' : Occurrence} (h : o.visible = o'.visible) :
    o.last.occurredAt = o'.last.occurredAt := by
  have hlast : ∀ o : Occurrence,
      some o.last.occurredAt = o.visible.getLast?.map Visible.occurredAt := by
    intro o
    rw [Occurrence.visible, List.getLast?_map, List.getLast?_eq_some_getLast o.nonempty]
    rfl
  exact Option.some.inj (by rw [hlast, hlast, h])

theorem minutes_of_visible {o o' : Occurrence} (h : o.visible = o'.visible) :
    o.minutes = o'.minutes := by
  rw [Occurrence.minutes, Occurrence.minutes, first_of_visible h, last_of_visible h]

theorem ids_of_visible {o o' : Occurrence} (h : o.visible = o'.visible) :
    o.slice.filterMap EventSummary.id = o'.slice.filterMap EventSummary.id := by
  have hids : ∀ o : Occurrence,
      o.slice.filterMap EventSummary.id = o.visible.filterMap Visible.id := by
    intro o
    rw [Occurrence.visible, List.filterMap_map]
    rfl
  rw [hids, hids, h]

theorem map_of_visible {β : Type} {f : Occurrence → β} {occurrences occurrences' : List Occurrence}
    (hf : ∀ o o' : Occurrence, o.visible = o'.visible → f o = f o')
    (h : occurrences.map Occurrence.visible = occurrences'.map Occurrence.visible) :
    occurrences.map f = occurrences'.map f := by
  induction occurrences generalizing occurrences' with
  | nil => rw [List.map_eq_nil_iff.1 h.symm]
  | cons o occurrences ih =>
      cases occurrences' with
      | nil => cases h
      | cons o' occurrences' =>
          rcases List.cons.inj h with ⟨hfirst, hrest⟩
          rw [List.map_cons, List.map_cons, hf o o' hfirst, ih hrest]

/-- A pattern is described by what is visible of its occurrences. -/
theorem describe_of_visible {occurrences occurrences' : List Occurrence}
    (h : occurrences.map Occurrence.visible = occurrences'.map Occurrence.visible) :
    describe signature occurrences = describe signature occurrences' := by
  cases occurrences with
  | nil => rw [List.map_eq_nil_iff.1 h.symm]
  | cons o os =>
      cases occurrences' with
      | nil => cases h
      | cons o' os' =>
          have hlength : (o :: os).length = (o' :: os').length := by
            simpa using congrArg List.length h
          have hminutes := map_of_visible (fun o o' h => minutes_of_visible h) h
          have hids := map_of_visible (fun o o' h => ids_of_visible h) h
          rcases List.cons.inj h with ⟨hfirst, hrest⟩
          have hfirsts := map_of_visible (fun o o' h => first_of_visible h) hrest
          have hlasts := map_of_visible (fun o o' h => last_of_visible h) hrest
          -- count, first time, last time, minutes and ids, each from the visible parts
          unfold describe
          simp only [Option.some.injEq, DetectedPattern.mk.injEq, true_and, and_true]
          refine ⟨?_, ?_, ?_, ?_, ?_⟩
          · rw [hlength]
          · have hfold : ∀ (t : Timestamp) (os : List Occurrence),
                os.foldl (fun t o => min t o.first.occurredAt) t =
                  (os.map fun o => o.first.occurredAt).foldl min t :=
              fun t os => List.foldl_map.symm
            rw [hfold, hfold, hfirsts, first_of_visible hfirst]
          · have hfold : ∀ (t : Timestamp) (os : List Occurrence),
                os.foldl (fun t o => max t o.last.occurredAt) t =
                  (os.map fun o => o.last.occurredAt).foldl max t :=
              fun t os => List.foldl_map.symm
            rw [hfold, hfold, hlasts, last_of_visible hfirst]
          · rw [hminutes, hlength]
          · rw [List.flatMap_def, List.flatMap_def, hids]

theorem chosen_describe_of_visible (h : events.map visible = events'.map visible)
    (hne : signature ≠ []) (hunflagged : signatureContainsVerbatim signature = false) :
    (chosen events signature).length = (chosen events' signature).length ∧
      describe signature (chosen events signature) =
        describe signature (chosen events' signature) := by
  have hchosen : (chosen events signature).map Occurrence.visible =
      (chosen events' signature).map Occurrence.visible := by
    rw [visible_chosen hne, visible_chosen hne, hits_of_visible h hunflagged, h]
  exact ⟨by simpa using congrArg List.length hchosen, describe_of_visible hchosen⟩

/-- The flag of a pattern is that of its signature. -/
theorem describe_containsVerbatim {occurrences : List Occurrence} {detected : DetectedPattern}
    (h : describe signature occurrences = some detected) :
    detected.containsVerbatimStrings = signatureContainsVerbatim signature := by
  cases occurrences with
  | nil => cases h
  | cons o os =>
      cases h
      rfl

theorem mem_detect_of_visible {detector : PatternDetector}
    (h : events.map visible = events'.map visible) {detected : DetectedPattern}
    (hmem : detected ∈ detector.detect events)
    (hunflagged : detected.containsVerbatimStrings = false) :
    detected ∈ detector.detect events' := by
  rcases PatternDetector.mem_detect_iff.1 hmem with ⟨hsearches, hcount, hdescribe⟩
  rw [describe_containsVerbatim hdescribe] at hunflagged
  rcases chosen_describe_of_visible h (List.length_pos_iff.1 hsearches.1) hunflagged with
    ⟨hlength, hsame⟩
  exact PatternDetector.mem_detect_iff.2 ⟨hsearches, hlength ▸ hcount, hsame ▸ hdescribe⟩

/-- The patterns that are not flagged. -/
def unflagged (reported : List DetectedPattern) : List DetectedPattern :=
  reported.filter fun d => !d.containsVerbatimStrings

/-- Histories that look the same have the same unflagged patterns, and a provider is asked the same
about each of them. -/
theorem unflagged_detect_of_visible (detector : PatternDetector)
    (h : events.map visible = events'.map visible) {reported reported' : List DetectedPattern}
    (hreported : reported.Perm (detector.detect events))
    (hreported' : reported'.Perm (detector.detect events')) (patternIdHint : String) :
    (unflagged reported).Perm (unflagged reported') ∧
      ((unflagged reported).map (buildPrompt patternIdHint)).Perm
        ((unflagged reported').map (buildPrompt patternIdHint)) := by
  -- no signature is reported twice, so the lists are compared by their members
  have hnodup : ∀ {events reported}, reported.Perm (detector.detect events) →
      (unflagged reported).Nodup := by
    intro events reported hperm
    apply List.Nodup.filter
    apply List.Nodup.of_map (·.signature)
    exact (hperm.map _).nodup_iff.2 (PatternDetector.signatures_detect_nodup _ _)
  have hperm : (unflagged reported).Perm (unflagged reported') := by
    apply (List.perm_ext_iff_of_nodup (hnodup hreported) (hnodup hreported')).2
    intro d
    simp only [unflagged, List.mem_filter, hreported.mem_iff, hreported'.mem_iff,
      Bool.not_eq_true', and_congr_left_iff]
    intro hunflagged
    exact ⟨fun hd => mem_detect_of_visible h hd hunflagged,
      fun hd => mem_detect_of_visible h.symm hd hunflagged⟩
  exact ⟨hperm, hperm.map _⟩

/-- Two windows get the focus in turn, and a domain is visited after each turn. -/
def browsing (domains : List String) : List EventSummary :=
  (domains.flatMap fun domain =>
    [("linux.active_window", SignalType.appFocusChange, "app", "editor"),
      ("linux.active_window", .appFocusChange, "app", "shell"),
      ("browser.domains", .browserDomainVisited, "domain", domain)]).mapIdx fun i signal =>
    { EventSummary.new 0 signal.1 signal.2.1 .workflowMetadata
        (.object [(signal.2.2.1, .string signal.2.2.2)]) none with id := some (i + 1) }

/-- Whether one domain is visited three times or three domains once cannot be told. -/
theorem unflagged_detect_browsing :
    unflagged (PatternDetector.standard.detect (browsing ["a.org", "a.org", "a.org"])) ≠ [] ∧
      (unflagged (PatternDetector.standard.detect (browsing ["a.org", "a.org", "a.org"]))).Perm
        (unflagged (PatternDetector.standard.detect (browsing ["a.org", "b.org", "c.org"]))) ∧
      ((unflagged (PatternDetector.standard.detect
          (browsing ["a.org", "a.org", "a.org"]))).map (buildPrompt "1")).Perm
        ((unflagged (PatternDetector.standard.detect
          (browsing ["a.org", "b.org", "c.org"]))).map (buildPrompt "1")) :=
  ⟨by decide +kernel,
    unflagged_detect_of_visible .standard (by decide +kernel) (List.Perm.refl _)
      (List.Perm.refl _) "1"⟩

end Patterns
end HiddenSteps
