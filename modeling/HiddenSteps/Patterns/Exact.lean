import HiddenSteps.Patterns.DetectorLaws
import Mathlib.Data.List.Perm.Subperm

/-!
# Exact — detection against its specification

`Exact` is what detection is for, said without windows, groups or selection: one pattern for each
searched sequence of action keys with enough disjoint occurrences, counted by the largest number of
them.  The program counts in 32 bits, and detection is exact on the histories in which no sequence
reaches that many.
-/

namespace HiddenSteps
namespace Patterns

open Systems

variable {events : List EventSummary} {signature : List String}

/-! ## Packings of a history -/

/-- Disjoint occurrences of a signature, in order. -/
structure Packs (events : List EventSummary) (signature : List String) (starts : List Nat) :
    Prop where
  occurs : ∀ start ∈ starts, OccursAt events signature start
  disjoint : Packing.Disjoint signature.length starts

/-- The ids of the events of some occurrences. -/
def idsAt (events : List EventSummary) (window : Nat) (starts : List Nat) : List Nat :=
  starts.flatMap fun start => ((events.drop start).take window).filterMap EventSummary.id

theorem Packs.length_le {starts : List Nat} (hne : signature ≠ [])
    (h : Packs events signature starts) : starts.length ≤ events.length := by
  have hpos := List.length_pos_iff.2 hne
  -- a step of the length of the signature is a step forward
  have hnodup : starts.Nodup := by
    apply List.Pairwise.imp _ h.disjoint
    intro i j hij
    omega
  have hsubset : starts ⊆ List.range events.length := by
    intro start hstart
    have := (h.occurs start hstart).le_length hne
    exact List.mem_range.2 (by omega)
  simpa using (List.subperm_of_subset hnodup hsubset).length_le

/-- A packing of a history is a choice of disjoint intervals among the hits. -/
theorem packs_iff {starts : List Nat} (hne : signature ≠ []) :
    Packs events signature starts ↔
      (∀ start ∈ starts, start ∈ hits events signature) ∧
        Packing.Disjoint signature.length starts := by
  constructor
  · intro h
    exact ⟨fun start hstart => (mem_hits hne).2 (h.occurs start hstart), h.disjoint⟩
  · rintro ⟨hhits, hdisjoint⟩
    exact ⟨fun start hstart => (mem_hits hne).1 (hhits start hstart), hdisjoint⟩

theorem packs_chosen (hne : signature ≠ []) :
    Packs events signature ((chosen events signature).map Occurrence.start) := by
  rw [packs_iff hne, starts_chosen hne]
  exact ⟨fun start hstart => (Packing.greedy_sublist _ _).subset hstart,
    Packing.greedy_disjoint _ _⟩

theorem idsAt_chosen :
    idsAt events signature.length ((chosen events signature).map Occurrence.start) =
      (chosen events signature).flatMap fun o => o.slice.filterMap EventSummary.id := by
  rw [idsAt, List.flatMap_map]
  apply List.flatMap_congr
  intro o ho
  rw [(slice_of_mem_occurrencesOf (mem_of_mem_chosen ho).1).2]

/-- A paste of text, as the pipeline stores it. -/
def pasted : EventSummary :=
  .new 0 "linux.clipboard" .clipboardMetadata .applicationMetadata
    (.object [("content_type", .string "text/plain"), ("size_bytes", .number 4)]) none

/-- Every position of a history of equal events is an occurrence of their key. -/
theorem packs_replicate (n : Nat) :
    Packs (List.replicate n pasted) [actionKey pasted] (List.range n) where
  occurs := by
    intro start hstart
    have hlt := List.mem_range.1 hstart
    unfold OccursAt
    rw [List.drop_replicate, List.take_replicate, List.map_replicate, List.length_singleton,
      Nat.min_eq_left (by omega), List.replicate_one]
  disjoint := List.pairwise_lt_range.imp fun h => h

/-! ## Exactness -/

/-- How many occurrences of a signature are disjoint at most. -/
def IsMaxCount (events : List EventSummary) (signature : List String) (count : Nat) : Prop :=
  IsGreatest {n | ∃ starts, Packs events signature starts ∧ starts.length = n} count

theorem isMaxCount_chosen (hne : signature ≠ []) :
    IsMaxCount events signature (chosen events signature).length := by
  have hgreatest := Packing.isGreatest_length_greedy (List.length_pos_iff.2 hne)
    (hits_sorted events signature)
  rw [← starts_chosen hne, List.length_map] at hgreatest
  simpa only [IsMaxCount, packs_iff hne, and_assoc] using hgreatest

/-- No packing is longer than what the detector keeps. -/
theorem Packs.length_le_chosen {starts : List Nat} (hne : signature ≠ [])
    (h : Packs events signature starts) : starts.length ≤ (chosen events signature).length :=
  (isMaxCount_chosen hne).2 ⟨starts, h, rfl⟩

namespace PatternDetector

variable {detector : PatternDetector}

/-- Detection reports exactly the searched signatures with enough disjoint occurrences. -/
structure Exact (detector : PatternDetector) (events : List EventSummary)
    (reported : List DetectedPattern) : Prop where
  signatures_nodup : (reported.map (·.signature)).Nodup
  searched : ∀ d ∈ reported, detector.Searches d.signature.length
  enough : ∀ d ∈ reported, detector.minOccurrences ≤ d.occurrenceCount
  maximal : ∀ d ∈ reported, IsMaxCount events d.signature d.occurrenceCount
  eventIds : ∀ d ∈ reported, ∃ starts, Packs events d.signature starts ∧
    starts.length = d.occurrenceCount ∧
      d.contributingEventIds = idsAt events d.signature.length starts
  complete : ∀ signature starts, detector.Searches signature.length →
    Packs events signature starts → detector.minOccurrences ≤ starts.length →
      ∃ d ∈ reported, d.signature = signature

/-- No searched signature with enough disjoint occurrences has more of them than 32 bits count. -/
def CountsFit (detector : PatternDetector) (events : List EventSummary) : Prop :=
  ∀ signature starts, detector.Searches signature.length → Packs events signature starts →
    detector.minOccurrences ≤ starts.length → starts.length < 2 ^ 32

theorem Searches.ne_nil (h : detector.Searches signature.length) : signature ≠ [] :=
  List.length_pos_iff.1 h.1

/-- A reported count is the number of kept windows when that number fits. -/
theorem count_of_mem_detect (hfit : detector.CountsFit events) {detected : DetectedPattern}
    (h : detected ∈ detector.detect events) :
    detected.occurrenceCount = (chosen events detected.signature).length := by
  rcases mem_detect_iff.1 h with ⟨hsearches, hcount, hdescribe⟩
  -- the count in 32 bits is never above the number, so the number is enough as well
  have hle : asU32 (chosen events detected.signature).length ≤
      (chosen events detected.signature).length := Nat.mod_le _ _
  have hlt := hfit _ _ hsearches (packs_chosen hsearches.ne_nil) (by
    rw [List.length_map]
    omega)
  rw [List.length_map] at hlt
  rw [describe_count hdescribe, asU32, Nat.mod_eq_of_lt hlt]

theorem exact_detect (hmin : 1 ≤ detector.minOccurrences) (hfit : detector.CountsFit events) :
    detector.Exact events (detector.detect events) where
  signatures_nodup := signatures_detect_nodup detector events
  searched := fun d hd => (mem_detect_iff.1 hd).1
  enough := by
    intro d hd
    rcases mem_detect_iff.1 hd with ⟨-, hcount, hdescribe⟩
    rwa [describe_count hdescribe]
  maximal := by
    intro d hd
    rw [count_of_mem_detect hfit hd]
    exact isMaxCount_chosen (mem_detect_iff.1 hd).1.ne_nil
  eventIds := by
    intro d hd
    rcases mem_detect_iff.1 hd with ⟨hsearches, -, hdescribe⟩
    refine ⟨_, packs_chosen hsearches.ne_nil, ?_, ?_⟩
    · rw [List.length_map, count_of_mem_detect hfit hd]
    · rw [describe_eventIds hdescribe, idsAt_chosen]
  complete := by
    intro signature starts hsearches hpacks hstarts
    have hlength := hpacks.length_le_chosen hsearches.ne_nil
    have hlt := hfit _ _ hsearches (packs_chosen hsearches.ne_nil) (by
      rw [List.length_map]
      omega)
    rw [List.length_map] at hlt
    cases hchosen : chosen events signature with
    | nil =>
        -- the packing would be empty, too
        rw [hchosen, List.length_nil] at hlength
        omega
    | cons o os =>
        -- something is kept, so there is a pattern to describe
        obtain ⟨detected, hdescribe⟩ : ∃ d, describe signature (o :: os) = some d := ⟨_, rfl⟩
        rcases describe_signature hdescribe with ⟨rfl, -⟩
        refine ⟨detected, mem_detect_iff.2 ⟨hsearches, ?_, hchosen ▸ hdescribe⟩, rfl⟩
        rw [asU32, Nat.mod_eq_of_lt hlt]
        omega

/-- A count that does not fit is reported too small, or not at all. -/
theorem countsFit_of_exact {reported : List DetectedPattern}
    (hreported : ∀ d ∈ reported, d.occurrenceCount < 2 ^ 32)
    (hexact : detector.Exact events reported) : detector.CountsFit events := by
  intro signature starts hsearches hpacks hstarts
  rcases hexact.complete signature starts hsearches hpacks hstarts with ⟨d, hd, rfl⟩
  calc
    starts.length ≤ d.occurrenceCount := (hexact.maximal d hd).2 ⟨starts, hpacks, rfl⟩
    _ < 2 ^ 32 := hreported d hd

theorem count_lt_of_mem_detect {detected : DetectedPattern} (h : detected ∈ detector.detect events) :
    detected.occurrenceCount < 2 ^ 32 := by
  rw [describe_count (mem_detect_iff.1 h).2.2]
  exact Nat.mod_lt _ (Nat.two_pow_pos 32)

theorem Exact.perm {reported reported' : List DetectedPattern} (hperm : reported'.Perm reported)
    (h : detector.Exact events reported) : detector.Exact events reported' where
  signatures_nodup := (hperm.map _).nodup_iff.2 h.signatures_nodup
  searched := fun d hd => h.searched d (hperm.mem_iff.1 hd)
  enough := fun d hd => h.enough d (hperm.mem_iff.1 hd)
  maximal := fun d hd => h.maximal d (hperm.mem_iff.1 hd)
  eventIds := fun d hd => h.eventIds d (hperm.mem_iff.1 hd)
  complete := by
    intro signature starts hsearches hpacks hstarts
    rcases h.complete signature starts hsearches hpacks hstarts with ⟨d, hd, hsignature⟩
    exact ⟨d, hperm.mem_iff.2 hd, hsignature⟩

/-- Detection, in whatever order it reports, is exact if and only if the counts fit. -/
theorem exact_iff_countsFit (hmin : 1 ≤ detector.minOccurrences)
    (reported : List DetectedPattern) (hreported : reported.Perm (detector.detect events)) :
    detector.Exact events reported ↔ detector.CountsFit events := by
  constructor
  · apply countsFit_of_exact
    intro d hd
    exact count_lt_of_mem_detect (hreported.mem_iff.1 hd)
  · intro hfit
    exact (exact_detect hmin hfit).perm hreported

/-- A short history fits whatever is searched. -/
theorem exact_on_one_event :
    (⟨1, 1, 1⟩ : PatternDetector).Exact (List.replicate 1 pasted)
      ((⟨1, 1, 1⟩ : PatternDetector).detect (List.replicate 1 pasted)) := by
  apply (exact_iff_countsFit (Nat.le_refl 1) _ (List.Perm.refl _)).2
  intro signature starts hsearches hpacks _
  calc
    starts.length ≤ 1 := hpacks.length_le hsearches.ne_nil
    _ < 2 ^ 32 := by decide

/-! ## A history that is too long -/

/-- 2^32 equal events hold 2^32 disjoint occurrences of their one action key. -/
theorem long_history_not_exact :
    ¬ (⟨1, 1, 1⟩ : PatternDetector).Exact (List.replicate (2 ^ 32) pasted)
      ((⟨1, 1, 1⟩ : PatternDetector).detect (List.replicate (2 ^ 32) pasted)) := by
  intro hexact
  have hfit := countsFit_of_exact (fun d hd => count_lt_of_mem_detect hd) hexact
  -- the positions of the history are the packing that does not fit
  have hlt := hfit [actionKey pasted] (List.range (2 ^ 32))
    ⟨Nat.le_refl 1, Nat.le_refl 1, Nat.le_refl 1⟩ (packs_replicate _)
    (List.length_range.symm ▸ Nat.two_pow_pos 32)
  rw [List.length_range] at hlt
  exact Nat.lt_irrefl _ hlt

end PatternDetector
end Patterns
end HiddenSteps
