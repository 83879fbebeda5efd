import HiddenSteps.Patterns.Growth
import HiddenSteps.Recommendations.Synthesizer
import Mathlib.Algebra.Order.BigOperators.Group.List
import Mathlib.Algebra.Order.Field.Basic
import Mathlib.Data.Rat.Cast.Order

/-!
# Elapsed — the time a recommendation claims to save

The kept windows of a pattern do not overlap, so in a sorted history their spans lie one behind the
other between the times at which the pattern was first and last seen.
-/

namespace HiddenSteps
namespace Patterns

open Systems Recommendations

variable {events : List EventSummary} {signature : List String}

/-- An instant in minutes since the epoch. -/
def minutesAt (t : Timestamp) : ℚ := (t : ℚ) / 1000000000 / 60

theorem minutesAt_le {s t : Timestamp} (h : s ≤ t) : minutesAt s ≤ minutesAt t := by
  have hcast : (s : ℚ) ≤ t := Int.cast_le.2 h
  exact div_le_div_of_nonneg_right (div_le_div_of_nonneg_right hcast (by decide)) (by decide)

theorem Occurrence.minutes_eq (o : Occurrence) :
    o.minutes = minutesAt o.last.occurredAt - minutesAt o.first.occurredAt := by
  rw [Occurrence.minutes, minutesAt, minutesAt, Int.cast_sub, sub_div, sub_div]

/-- The last event of an occurrence is the one at its end. -/
theorem last_of_mem_chosen (hne : signature ≠ []) {o : Occurrence}
    (h : o ∈ chosen events signature) :
    events[o.start + signature.length - 1]? = some o.last := by
  have hpos := List.length_pos_iff.2 hne
  have hfits := (occursAt_of_mem_chosen hne h).le_length hne
  have hlast : o.slice.getLast? = some o.last := List.getLast?_eq_some_getLast o.nonempty
  rw [slice_of_mem_chosen h, List.getLast?_eq_getElem?, List.length_take, List.length_drop,
    Nat.min_eq_left (by omega), List.getElem?_take_of_lt (by omega), List.getElem?_drop,
    ← Nat.add_sub_assoc hpos] at hlast
  exact hlast

/-- Times that claim no more than what has passed. -/
structure WithinElapsed (detected : DetectedPattern) : Prop where
  seen_le : detected.firstSeenAt ≤ detected.lastSeenAt
  estimate_nonneg : 0 ≤ detected.estimatedMinutesPerOccurrence
  total_le : detected.estimatedMinutesPerOccurrence * detected.occurrenceCount ≤
    minutesAt detected.lastSeenAt - minutesAt detected.firstSeenAt

/-- In a sorted history, what stands at an earlier position happened no later. -/
theorem occurredAt_le (hsorted : events.Pairwise fun a b => a.occurredAt ≤ b.occurredAt)
    {i j : Nat} {a b : EventSummary} (ha : events[i]? = some a) (hb : events[j]? = some b)
    (hij : i ≤ j) : a.occurredAt ≤ b.occurredAt := by
  rcases List.getElem?_eq_some_iff.1 ha with ⟨hi, rfl⟩
  rcases List.getElem?_eq_some_iff.1 hb with ⟨hj, rfl⟩
  rcases Nat.lt_or_eq_of_le hij with hlt | rfl
  · exact List.pairwise_iff_getElem.1 hsorted _ _ hi hj hlt
  · exact le_refl _

theorem first_le_last (hsorted : events.Pairwise fun a b => a.occurredAt ≤ b.occurredAt)
    (hne : signature ≠ []) {o : Occurrence} (ho : o ∈ chosen events signature) :
    o.first.occurredAt ≤ o.last.occurredAt := by
  have hpos := List.length_pos_iff.2 hne
  exact occurredAt_le hsorted (first_of_mem_chosen ho) (last_of_mem_chosen hne ho) (by omega)

/-- In a sorted history, a kept window ends before the next one begins. -/
theorem last_le_first_pairwise
    (hsorted : events.Pairwise fun a b => a.occurredAt ≤ b.occurredAt) (hne : signature ≠ []) :
    (chosen events signature).Pairwise fun o o' => o.last.occurredAt ≤ o'.first.occurredAt := by
  have hdisjoint : Packing.Disjoint signature.length
      ((chosen events signature).map Occurrence.start) := by
    rw [starts_chosen hne]
    exact Packing.greedy_disjoint _ _
  refine (List.pairwise_map.1 hdisjoint).imp_of_mem ?_
  intro o o' ho ho' hapart
  exact occurredAt_le hsorted (last_of_mem_chosen hne ho) (first_of_mem_chosen ho') (by omega)

/-- The spans of the kept windows fit between the first and the last time. -/
theorem sum_minutes_le (hsorted : events.Pairwise fun a b => a.occurredAt ≤ b.occurredAt)
    (hne : signature ≠ []) {detected : DetectedPattern}
    (h : describe signature (chosen events signature) = some detected)
    (hseen : detected.firstSeenAt ≤ detected.lastSeenAt) :
    ((chosen events signature).map Occurrence.minutes).sum ≤
      minutesAt detected.lastSeenAt - minutesAt detected.firstSeenAt := by
  have hminutes : (chosen events signature).map Occurrence.minutes =
      (chosen events signature).map fun o =>
        minutesAt o.last.occurredAt - minutesAt o.first.occurredAt :=
    List.map_congr_left fun o _ => o.minutes_eq
  rw [hminutes]
  apply Packing.sum_lengths_le _ (minutesAt_le hseen)
  · exact fun o ho => minutesAt_le ((describe_firstSeenAt h).2 o ho)
  · exact fun o ho => minutesAt_le ((describe_lastSeenAt h).2 o ho)
  · exact (last_le_first_pairwise hsorted hne).imp minutesAt_le

theorem describe_minutes {occurrences : List Occurrence} {detected : DetectedPattern}
    (h : describe signature occurrences = some detected) :
    detected.estimatedMinutesPerOccurrence =
      (occurrences.map Occurrence.minutes).sum / occurrences.length := by
  cases occurrences with
  | nil => cases h
  | cons o occurrences =>
      cases h
      rfl

theorem withinElapsed_of_detect {detector : PatternDetector} {detected : DetectedPattern}
    (hsorted : events.Pairwise fun a b => a.occurredAt ≤ b.occurredAt)
    (h : detected ∈ detector.detect events) : WithinElapsed detected := by
  rcases PatternDetector.mem_detect_iff.1 h with ⟨hsearches, -, hdescribe⟩
  have hne : detected.signature ≠ [] := List.length_pos_iff.1 hsearches.1
  have hseen : detected.firstSeenAt ≤ detected.lastSeenAt := by
    obtain ⟨o, ho⟩ := List.exists_mem_of_ne_nil _ (describe_signature hdescribe).2
    calc
      detected.firstSeenAt ≤ o.first.occurredAt := (describe_firstSeenAt hdescribe).2 o ho
      _ ≤ o.last.occurredAt := first_le_last hsorted hne ho
      _ ≤ detected.lastSeenAt := (describe_lastSeenAt hdescribe).2 o ho
  have hnonneg : 0 ≤ ((chosen events detected.signature).map Occurrence.minutes).sum := by
    apply List.sum_nonneg
    intro minutes hminutes
    rcases List.mem_map.1 hminutes with ⟨o, ho, rfl⟩
    rw [o.minutes_eq]
    exact sub_nonneg.2 (minutesAt_le (first_le_last hsorted hne ho))
  have hestimate : 0 ≤ detected.estimatedMinutesPerOccurrence := by
    rw [describe_minutes hdescribe]
    exact div_nonneg hnonneg (Nat.cast_nonneg _)
  refine ⟨hseen, hestimate, ?_⟩
  -- the count is the number that the sum is divided by, or less when it wraps
  have hcount : detected.occurrenceCount ≤ (chosen events detected.signature).length := by
    rw [describe_count hdescribe]
    exact Nat.mod_le _ _
  have hpos : (0 : ℚ) < (chosen events detected.signature).length :=
    Nat.cast_pos.2 (List.length_pos_iff.2 (describe_signature hdescribe).2)
  calc
    detected.estimatedMinutesPerOccurrence * detected.occurrenceCount
        ≤ detected.estimatedMinutesPerOccurrence *
            (chosen events detected.signature).length :=
          mul_le_mul_of_nonneg_left (Nat.cast_le.2 hcount) hestimate
    _ = ((chosen events detected.signature).map Occurrence.minutes).sum := by
          rw [describe_minutes hdescribe, div_mul_cancel₀ _ hpos.ne']
    _ ≤ minutesAt detected.lastSeenAt - minutesAt detected.firstSeenAt :=
          sum_minutes_le hsorted hne hdescribe hseen

/-- What is detected in a sorted history claims no more time than has passed between its first and
its last event, and neither does a recommendation that is built from it. -/
theorem claimed_time_le_elapsed {detector : PatternDetector} {events : List EventSummary}
    (hsorted : events.Pairwise fun a b => a.occurredAt ≤ b.occurredAt)
    {detected : DetectedPattern} (h : detected ∈ detector.detect events) :
    WithinElapsed detected ∧
      ∀ ext providerId patternId now text rec,
        tryBuild ext providerId patternId detected now text = .ok rec →
          rec.estimatedTimeSavedMinutes ≤
            minutesAt detected.lastSeenAt - minutesAt detected.firstSeenAt := by
  have hwithin := withinElapsed_of_detect hsorted h
  refine ⟨hwithin, ?_⟩
  intro ext providerId patternId now text rec hbuild
  obtain ⟨fields, category, difficulty, burden, -, -, -, rfl⟩ := fields_of_tryBuild hbuild
  exact hwithin.total_le

/-- Two windows in turn, a minute apart, three times. -/
def switching : List EventSummary :=
  (List.range 6).map fun (i : Nat) =>
    { EventSummary.new (60000000000 * (i : Int)) "linux.active_window" .appFocusChange
        .workflowMetadata (.object [("app", .string (if i % 2 = 0 then "editor" else "shell"))])
        none with
      id := some (i + 1) }

/-- Three minutes of the five are claimed. -/
def switched : DetectedPattern where
  signature := ["app_focus_change:editor", "app_focus_change:shell"]
  occurrenceCount := 3
  firstSeenAt := 0
  lastSeenAt := 300000000000
  estimatedMinutesPerOccurrence := 1
  contributingEventIds := [1, 2, 3, 4, 5, 6]
  containsVerbatimStrings := false

theorem claimed_time_le_elapsed_switching :
    WithinElapsed switched ∧
      ∀ ext providerId patternId now text rec,
        tryBuild ext providerId patternId switched now text = .ok rec →
          rec.estimatedTimeSavedMinutes ≤
            minutesAt switched.lastSeenAt - minutesAt switched.firstSeenAt :=
  @claimed_time_le_elapsed .standard switching (by decide) switched (by decide +kernel)

end Patterns
end HiddenSteps
