import HiddenSteps.Patterns.Exact
import HiddenSteps.Patterns.Growth

/-!
# Incremental — a pattern in a history that goes on

Whatever is appended to a history, the windows kept before are kept again, in front of the new ones.
The patterns follow as long as their counts do, which are taken in 32 bits.
-/

namespace HiddenSteps
namespace Patterns

open Systems

variable {history new events : List EventSummary} {signature : List String}

/-! ## The kept windows -/

/-- Where an occurrence starts and its events are all there is to it. -/
theorem Occurrence.span_injective :
    Function.Injective fun o : Occurrence => (o.start, o.slice) := by
  rintro ⟨start, slice, h⟩ ⟨start', slice', h'⟩ heq
  simpa using heq

/-- The kept windows are read off the starts of the packing. -/
theorem spans_chosen (hne : signature ≠ []) :
    (chosen events signature).map (fun o => (o.start, o.slice)) =
      (Packing.greedy signature.length 0 (hits events signature)).map fun start =>
        (start, (events.drop start).take signature.length) := by
  rw [← starts_chosen hne, List.map_map]
  refine List.map_congr_left fun o ho => ?_
  rw [Function.comp_apply, slice_of_mem_chosen ho]

/-- A history that goes on keeps the windows it has kept. -/
theorem chosen_extends (history new : List EventSummary) (hne : signature ≠ []) :
    chosen history signature <+: chosen (history ++ new) signature := by
  obtain ⟨later, hlater⟩ : ∃ later, hits (history ++ new) signature =
      hits history signature ++ later := hits_append_right hne
  obtain ⟨next, hgreedy⟩ := Packing.greedy_append 0 (hits history signature) later
  -- a kept window of the old history has the same events in the new one
  have hsame : (Packing.greedy signature.length 0 (hits history signature)).map (fun start =>
        (start, ((history ++ new).drop start).take signature.length)) =
      (chosen history signature).map fun o => (o.start, o.slice) := by
    rw [spans_chosen hne]
    refine List.map_congr_left fun start hstart => ?_
    have hhit := (mem_hits hne).1 ((Packing.greedy_sublist 0 _).subset hstart)
    rw [slice_append_right (hhit.le_length hne)]
  have hspans := @spans_chosen (history ++ new) _ hne
  rw [hlater, hgreedy, List.map_append, hsame] at hspans
  rcases List.map_eq_append_iff.1 hspans with ⟨old, rest, hchosen, hold, -⟩
  exact ⟨rest, by rw [hchosen, List.map_injective_iff.2 Occurrence.span_injective hold]⟩

/-! ## Patterns -/

/-- The pattern of a history that has gone on, against the one before. -/
structure Continues (history new : List EventSummary) (before after : DetectedPattern) : Prop where
  signature_eq : after.signature = before.signature
  first_eq : (chosen (history ++ new) before.signature).head? =
    (chosen history before.signature).head?
  firstSeenAt_eq : (history ++ new).Pairwise (fun a b => a.occurredAt ≤ b.occurredAt) →
    after.firstSeenAt = before.firstSeenAt
  count_le : before.occurrenceCount ≤ after.occurrenceCount
  ids_extend : before.contributingEventIds <+: after.contributingEventIds

theorem eventIds_extend {occurrences occurrences' : List Occurrence}
    {before after : DetectedPattern} (h : occurrences <+: occurrences')
    (hbefore : describe signature occurrences = some before)
    (hafter : describe signature occurrences' = some after) :
    before.contributingEventIds <+: after.contributingEventIds := by
  rcases h with ⟨rest, rfl⟩
  rw [describe_eventIds hbefore, describe_eventIds hafter, List.flatMap_append]
  exact List.prefix_append _ _

/-- In a sorted history a pattern is first seen at the first event of its first window. -/
theorem firstSeenAt_eq_head (hsorted : events.Pairwise fun a b => a.occurredAt ≤ b.occurredAt)
    (hne : signature ≠ []) {o : Occurrence} {occurrences : List Occurrence}
    (hchosen : chosen events signature = o :: occurrences) {detected : DetectedPattern}
    (h : describe signature (chosen events signature) = some detected) :
    detected.firstSeenAt = o.first.occurredAt := by
  have hstarts : Packing.Disjoint signature.length
      ((chosen events signature).map Occurrence.start) := by
    rw [starts_chosen hne]
    exact Packing.greedy_disjoint _ _
  have ho : o ∈ chosen events signature := by
    rw [hchosen]
    exact List.mem_cons_self
  rcases describe_firstSeenAt h with ⟨⟨o', ho', hfirst⟩, hle⟩
  refine le_antisymm (hle o ho) ?_
  rw [hfirst]
  apply first_le_of_start_le hsorted ho ho'
  -- the windows come in order, so none starts before the first
  rw [hchosen, List.map_cons, Packing.Disjoint, List.pairwise_cons] at hstarts
  rw [hchosen] at ho'
  rcases List.mem_cons.1 ho' with rfl | hmem
  · exact Nat.le_refl _
  · have := hstarts.1 _ (List.mem_map_of_mem hmem)
    omega

namespace PatternDetector

variable {detector : PatternDetector}

/-- Every pattern of a history continues in the history that goes on. -/
def Incremental (detector : PatternDetector) (history new : List EventSummary) : Prop :=
  ∀ before ∈ detector.detect history, ∃ after ∈ detector.detect (history ++ new),
    Continues history new before after

/-- The number of disjoint occurrences of a searched signature, which never goes back, does not go
back in 32 bits either, if it was enough. -/
def CountsKeepUp (detector : PatternDetector) (history new : List EventSummary) : Prop :=
  ∀ signature n n', detector.Searches signature.length → IsMaxCount history signature n →
    IsMaxCount (history ++ new) signature n' → 0 < n → detector.minOccurrences ≤ asU32 n →
      asU32 n ≤ asU32 n'

theorem continues_of_count_le {before : DetectedPattern} (hbefore : before ∈ detector.detect history)
    (hcount : before.occurrenceCount ≤
      asU32 (chosen (history ++ new) before.signature).length) :
    ∃ after ∈ detector.detect (history ++ new), Continues history new before after := by
  rcases mem_detect_iff.1 hbefore with ⟨hsearches, henough, hdescribe⟩
  have hne : before.signature ≠ [] := hsearches.ne_nil
  have hprefix := chosen_extends history new hne
  cases hchosen : chosen history before.signature with
  | nil => exact absurd hchosen (describe_signature hdescribe).2
  | cons o occurrences =>
      obtain ⟨rest, hrest⟩ := hprefix
      rw [hchosen, List.cons_append] at hrest
      obtain ⟨after, hafter⟩ : ∃ after,
          describe before.signature (chosen (history ++ new) before.signature) = some after :=
        ⟨_, by rw [← hrest]; rfl⟩
      have hsignature := (describe_signature hafter).1
      refine ⟨after, mem_detect_iff.2 ⟨?_, ?_, ?_⟩, hsignature, ?_, ?_, ?_, ?_⟩
      · rwa [hsignature]
      · rw [hsignature]
        rw [describe_count hdescribe] at hcount
        exact henough.trans hcount
      · rwa [hsignature]
      · rw [← hrest, hchosen]
        rfl
      · intro hsorted
        rw [firstSeenAt_eq_head hsorted hne hrest.symm hafter,
          firstSeenAt_eq_head (hsorted.sublist (List.sublist_append_left _ _)) hne hchosen hdescribe]
      · rwa [describe_count hafter]
      · exact eventIds_extend (chosen_extends history new hne) hdescribe hafter

/-- Detection is incremental exactly if the counts keep up. -/
theorem incremental_iff_countsKeepUp :
    detector.Incremental history new ↔ detector.CountsKeepUp history new := by
  constructor
  · intro h signature n n' hsearches hn hn' hpos henough
    have hne := hsearches.ne_nil
    have hlength : (chosen history signature).length = n :=
      (isMaxCount_chosen hne).unique hn
    have hlength' : (chosen (history ++ new) signature).length = n' :=
      (isMaxCount_chosen hne).unique hn'
    obtain ⟨before, hdescribe⟩ : ∃ before,
        describe signature (chosen history signature) = some before := by
      cases hchosen : chosen history signature with
      | nil =>
          rw [hchosen, List.length_nil] at hlength
          omega
      | cons o occurrences => exact ⟨_, rfl⟩
    rcases describe_signature hdescribe with ⟨rfl, -⟩
    have hbefore : before ∈ detector.detect history :=
      mem_detect_iff.2 ⟨hsearches, hlength ▸ henough, hdescribe⟩
    rcases h before hbefore with ⟨after, hafter, hcontinues⟩
    have hdescribe' := (mem_detect_iff.1 hafter).2.2
    rw [hcontinues.signature_eq] at hdescribe'
    have hle := hcontinues.count_le
    rwa [describe_count hdescribe, describe_count hdescribe', hlength, hlength'] at hle
  · intro h before hbefore
    rcases mem_detect_iff.1 hbefore with ⟨hsearches, henough, hdescribe⟩
    have hne := hsearches.ne_nil
    apply continues_of_count_le hbefore
    rw [describe_count hdescribe]
    exact h _ _ _ hsearches (isMaxCount_chosen hne) (isMaxCount_chosen hne)
      (List.length_pos_iff.2 (describe_signature hdescribe).2) henough

/-- Below 2^32 events every count keeps up. -/
theorem incremental_of_length_lt (h : (history ++ new).length < 2 ^ 32) :
    detector.Incremental history new := by
  rw [incremental_iff_countsKeepUp]
  intro signature n n' hsearches hn hn' _ _
  have hne := hsearches.ne_nil
  rw [← (isMaxCount_chosen hne).unique hn, ← (isMaxCount_chosen hne).unique hn']
  have hle := (chosen_extends history new hne).length_le
  have hfits := length_chosen_le (history ++ new) hne
  rw [asU32, asU32, Nat.mod_eq_of_lt (by omega), Nat.mod_eq_of_lt (by omega)]
  exact hle

/-- One event after another equal one. -/
theorem incremental_on_two_events :
    (⟨1, 1, 1⟩ : PatternDetector).Incremental (List.replicate 1 pasted)
      (List.replicate 1 pasted) :=
  incremental_of_length_lt (by decide)

theorem isMaxCount_replicate (n : Nat) :
    IsMaxCount (List.replicate n pasted) [actionKey pasted] n := by
  constructor
  · exact ⟨List.range n, packs_replicate n, List.length_range⟩
  · rintro m ⟨starts, hpacks, rfl⟩
    simpa using hpacks.length_le (List.cons_ne_nil _ _)

/-- One more event after 2^32 - 1 equal ones, and the pattern is gone. -/
theorem long_history_not_incremental :
    ¬ ∀ (detector : PatternDetector) (history new : List EventSummary),
      detector.Incremental history new := by
  intro h
  have hkeepUp := incremental_iff_countsKeepUp.1
    (h ⟨1, 1, 1⟩ (List.replicate (2 ^ 32 - 1) pasted) (List.replicate 1 pasted))
  have hlong : List.replicate (2 ^ 32 - 1) pasted ++ List.replicate 1 pasted =
      List.replicate (2 ^ 32) pasted := List.replicate_append_replicate
  have hmax : IsMaxCount (List.replicate (2 ^ 32 - 1) pasted ++ List.replicate 1 pasted)
      [actionKey pasted] (2 ^ 32) := by
    rw [hlong]
    exact isMaxCount_replicate _
  have hle := hkeepUp [actionKey pasted] _ _ ⟨Nat.le_refl 1, Nat.le_refl 1, Nat.le_refl 1⟩
    (isMaxCount_replicate _) hmax (by decide) (by decide)
  exact absurd hle (by decide)

end PatternDetector
end Patterns
end HiddenSteps
