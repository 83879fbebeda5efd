import HiddenSteps.Patterns.Detector
import HiddenSteps.Systems.Grouping
import HiddenSteps.Systems.Packing

/-!
# DetectorLaws — the occurrences a pattern is reported for

`chosen` is what the detector keeps of the windows with a signature: the greedy packing of the
positions where the signature occurs.  `mem_detect_iff` says what `detect` reports in these terms,
without its grouping and its loop over the window sizes.
-/

namespace HiddenSteps
namespace Patterns

open Systems

variable {events : List EventSummary} {signature : List String}

/-! ## Windows -/

/-- The action keys of the events from a position on are a signature. -/
def OccursAt (events : List EventSummary) (signature : List String) (start : Nat) : Prop :=
  ((events.drop start).take signature.length).map actionKey = signature

instance (start : Nat) : Decidable (OccursAt events signature start) :=
  inferInstanceAs (Decidable (_ = _))

theorem OccursAt.le_length {start : Nat} (hne : signature ≠ [])
    (h : OccursAt events signature start) : start + signature.length ≤ events.length := by
  have hlength := congrArg List.length h
  have hpos := List.length_pos_iff.2 hne
  simp only [List.length_map, List.length_take, List.length_drop] at hlength
  omega

theorem slice_of_mem_occurrencesOf {window : Nat} {o : Occurrence}
    (h : o ∈ occurrencesOf events window) :
    o.start < events.length + 1 - window ∧ o.slice = (events.drop o.start).take window := by
  rcases List.mem_filterMap.1 h with ⟨start, hstart, h⟩
  simp only at h
  split at h
  · cases h
    exact ⟨List.mem_range.1 hstart, rfl⟩
  · cases h

theorem length_of_mem_occurrencesOf {window : Nat} {o : Occurrence}
    (h : o ∈ occurrencesOf events window) : o.slice.length = window := by
  rcases slice_of_mem_occurrencesOf h with ⟨hlt, hslice⟩
  rw [hslice, List.length_take, List.length_drop]
  omega

/-- There is one window for each position at which the window fits. -/
theorem starts_occurrencesOf {window : Nat} (hwindow : 1 ≤ window) :
    (occurrencesOf events window).map Occurrence.start =
      List.range (events.length + 1 - window) := by
  -- every window of the range has a first event, so none is passed over
  have hsome : ∀ start ∈ List.range (events.length + 1 - window),
      (events.drop start).take window ≠ [] := by
    intro start hstart hnil
    have hlength := congrArg List.length hnil
    have := List.mem_range.1 hstart
    simp only [List.length_take, List.length_drop, List.length_nil] at hlength
    omega
  unfold occurrencesOf
  rw [List.map_filterMap]
  refine (List.filterMap_congr ?_).trans List.filterMap_some
  intro start hstart
  simp [hsome start hstart]

/-! ## Selection -/

/-- Where a signature occurs. -/
def hits (events : List EventSummary) (signature : List String) : List Nat :=
  (List.range (events.length + 1 - signature.length)).filter fun start =>
    OccursAt events signature start

theorem mem_hits (hne : signature ≠ []) {start : Nat} :
    start ∈ hits events signature ↔ OccursAt events signature start := by
  simp only [hits, List.mem_filter, List.mem_range, decide_eq_true_eq, and_iff_right_iff_imp]
  intro h
  have := h.le_length hne
  omega

theorem hits_sorted (events : List EventSummary) (signature : List String) :
    (hits events signature).Pairwise (· < ·) :=
  List.pairwise_lt_range.filter _

/-- The windows with a signature, first to last. -/
def windowsOf (events : List EventSummary) (signature : List String) : List Occurrence :=
  Grouping.members Occurrence.signature signature (occurrencesOf events signature.length)

/-- The windows of a signature that the detector keeps. -/
def chosen (events : List EventSummary) (signature : List String) : List Occurrence :=
  selectNonOverlapping (windowsOf events signature)

theorem starts_windowsOf (hne : signature ≠ []) :
    (windowsOf events signature).map Occurrence.start = hits events signature := by
  -- a window has the signature when the signature occurs where it starts
  have hwindows : windowsOf events signature =
      (occurrencesOf events signature.length).filter fun o =>
        OccursAt events signature o.start := by
    unfold windowsOf Grouping.members
    apply List.filter_congr
    intro o ho
    rw [decide_eq_decide, Occurrence.signature, (slice_of_mem_occurrencesOf ho).2]
    exact Iff.rfl
  rw [hwindows, hits, ← starts_occurrencesOf (List.length_pos_iff.2 hne), List.filter_map]
  rfl

/-- Selecting windows of one size is packing their starts. -/
theorem starts_selectFrom {window : Nat} (next : Nat) {occurrences : List Occurrence}
    (h : ∀ o ∈ occurrences, o.slice.length = window) :
    (selectFrom next occurrences).map Occurrence.start =
      Packing.greedy window next (occurrences.map Occurrence.start) := by
  induction occurrences generalizing next with
  | nil => rfl
  | cons o occurrences ih =>
      rcases List.forall_mem_cons.1 h with ⟨hfirst, hrest⟩
      simp only [selectFrom, List.map_cons, Packing.greedy]
      split
      · rw [List.map_cons, hfirst, ih _ hrest]
      · exact ih _ hrest

theorem mem_of_mem_selectFrom {next : Nat} {occurrences : List Occurrence} {o : Occurrence}
    (h : o ∈ selectFrom next occurrences) : o ∈ occurrences := by
  induction occurrences generalizing next with
  | nil => simp [selectFrom] at h
  | cons first occurrences ih =>
      simp only [selectFrom] at h
      split at h
      · rcases List.mem_cons.1 h with rfl | h
        · simp
        · exact List.mem_cons_of_mem _ (ih h)
      · exact List.mem_cons_of_mem _ (ih h)

theorem mem_of_mem_chosen {o : Occurrence} (h : o ∈ chosen events signature) :
    o ∈ occurrencesOf events signature.length ∧ o.signature = signature := by
  have hmem := (List.mem_insertionSort _).1 (mem_of_mem_selectFrom h)
  simpa [windowsOf, Grouping.members] using hmem

/-- What is kept of the windows with a signature is a greedy packing; they come in order, so sorting
leaves them as they are. -/
theorem starts_chosen (hne : signature ≠ []) :
    (chosen events signature).map Occurrence.start =
      Packing.greedy signature.length 0 (hits events signature) := by
  have hsorted : (windowsOf events signature).Pairwise fun a b => a.start ≤ b.start := by
    apply List.pairwise_map.1
    rw [starts_windowsOf hne]
    exact (hits_sorted events signature).imp Nat.le_of_lt
  have hlength : ∀ o ∈ windowsOf events signature, o.slice.length = signature.length :=
    fun o ho => length_of_mem_occurrencesOf (List.mem_filter.1 ho).1
  rw [chosen, selectNonOverlapping, hsorted.insertionSort_eq, starts_selectFrom 0 hlength,
    starts_windowsOf hne]

/-! ## Detection -/

theorem pushOccurrence_eq (o : Occurrence) (groups : List (List String × List Occurrence)) :
    pushOccurrence o groups = Grouping.push Occurrence.signature o groups := by
  induction groups with
  | nil => rfl
  | cons g groups ih => simp only [pushOccurrence, Grouping.push, ih]

theorem describe_signature {occurrences : List Occurrence} {detected : DetectedPattern}
    (h : describe signature occurrences = some detected) :
    detected.signature = signature ∧ occurrences ≠ [] := by
  cases occurrences with
  | nil => cases h
  | cons o occurrences =>
      cases h
      exact ⟨rfl, List.cons_ne_nil _ _⟩

theorem describe_count {occurrences : List Occurrence} {detected : DetectedPattern}
    (h : describe signature occurrences = some detected) :
    detected.occurrenceCount = asU32 occurrences.length := by
  cases occurrences with
  | nil => cases h
  | cons o occurrences =>
      cases h
      rfl

theorem describe_eventIds {occurrences : List Occurrence} {detected : DetectedPattern}
    (h : describe signature occurrences = some detected) :
    detected.contributingEventIds =
      occurrences.flatMap fun o => o.slice.filterMap EventSummary.id := by
  cases occurrences with
  | nil => cases h
  | cons o occurrences =>
      cases h
      rfl

/-- A signature with an occurrence is no longer than the history. -/
theorem length_le_of_describe {detected : DetectedPattern}
    (h : describe signature (chosen events signature) = some detected) :
    signature.length ≤ events.length := by
  rcases List.exists_mem_of_ne_nil _ (describe_signature h).2 with ⟨o, ho⟩
  have := (slice_of_mem_occurrencesOf (mem_of_mem_chosen ho).1).1
  omega

/-- The groups of one window size. -/
def groupsOf (events : List EventSummary) (window : Nat) :
    List (List String × List Occurrence) :=
  Grouping.group Occurrence.signature (occurrencesOf events window)

theorem grouped_groupsOf (events : List EventSummary) (window : Nat) :
    Grouping.Grouped Occurrence.signature (occurrencesOf events window)
      (groupsOf events window) :=
  Grouping.grouped_group _

namespace PatternDetector

variable {detector : PatternDetector}

/-- The detector looks at windows of a size. -/
def Searches (detector : PatternDetector) (window : Nat) : Prop :=
  1 ≤ window ∧ detector.minWindow ≤ window ∧ window ≤ detector.maxWindow

theorem detectForWindow_eq (events : List EventSummary) (window : Nat) :
    detector.detectForWindow events window =
      (((groupsOf events window).map fun g => (g.1, selectNonOverlapping g.2)).filter
        fun g => detector.minOccurrences ≤ asU32 g.2.length).filterMap
          fun g => describe g.1 g.2 := by
  simp only [detectForWindow, groupsOf, Grouping.group, pushOccurrence_eq]

theorem mem_detectForWindow_iff {window : Nat} {detected : DetectedPattern} :
    detected ∈ detector.detectForWindow events window ↔
      detected.signature.length = window ∧
        detector.minOccurrences ≤ asU32 (chosen events detected.signature).length ∧
        describe detected.signature (chosen events detected.signature) = some detected := by
  rw [detectForWindow_eq]
  constructor
  · intro h
    rcases List.mem_filterMap.1 h with ⟨g, hg, hdescribe⟩
    rcases List.mem_filter.1 hg with ⟨hg, hcount⟩
    rcases List.mem_map.1 hg with ⟨⟨signature, occurrences⟩, hmem, rfl⟩
    -- the group of a signature is the list of its windows
    rcases ((grouped_groupsOf events window).mem_iff _ _).1 hmem with ⟨rfl, hne⟩
    rcases describe_signature hdescribe with ⟨rfl, -⟩
    -- a member of the group tells how long the signature is
    have hlength : detected.signature.length = window := by
      rcases List.exists_mem_of_ne_nil _ hne with ⟨o, ho⟩
      rcases List.mem_filter.1 ho with ⟨ho, hsignature⟩
      rw [← of_decide_eq_true hsignature, Occurrence.signature, List.length_map,
        length_of_mem_occurrencesOf ho]
    subst hlength
    exact ⟨rfl, of_decide_eq_true hcount, hdescribe⟩
  · rintro ⟨rfl, hcount, hdescribe⟩
    -- a signature with a kept window has a group
    have hmem : (detected.signature, windowsOf events detected.signature) ∈
        groupsOf events detected.signature.length := by
      apply ((grouped_groupsOf events _).mem_iff _ _).2
      refine ⟨rfl, ?_⟩
      intro hnil
      exact (describe_signature hdescribe).2 (congrArg selectNonOverlapping hnil)
    apply List.mem_filterMap.2
    refine ⟨(detected.signature, chosen events detected.signature), ?_, hdescribe⟩
    exact List.mem_filter.2 ⟨List.mem_map.2 ⟨_, hmem, rfl⟩, decide_eq_true hcount⟩

/-- What the detector reports: for each signature of a searched length, the pattern of the windows
it keeps, if these are enough. -/
theorem mem_detect_iff {detected : DetectedPattern} :
    detected ∈ detector.detect events ↔
      detector.Searches detected.signature.length ∧
        detector.minOccurrences ≤ asU32 (chosen events detected.signature).length ∧
        describe detected.signature (chosen events detected.signature) = some detected := by
  unfold detect Searches
  rw [List.mem_flatMap]
  constructor
  · rintro ⟨window, hwindow, h⟩
    have hrange := List.mem_range'_1.1 hwindow
    split at h
    · cases h
    · rename_i hfits
      rcases mem_detectForWindow_iff.1 h with ⟨rfl, hcount, hdescribe⟩
      exact ⟨by omega, hcount, hdescribe⟩
  · rintro ⟨hsearches, hcount, hdescribe⟩
    -- the loop passes over window sizes larger than the history, where nothing occurs
    have hfits := length_le_of_describe hdescribe
    refine ⟨detected.signature.length, List.mem_range'_1.2 (by omega), ?_⟩
    rw [if_neg (by omega)]
    exact mem_detectForWindow_iff.2 ⟨rfl, hcount, hdescribe⟩

theorem signatures_detectForWindow_nodup (detector : PatternDetector)
    (events : List EventSummary) (window : Nat) :
    ((detector.detectForWindow events window).map (·.signature)).Nodup := by
  -- a group is described at most once, under its own signature
  have hkeys : ∀ groups : List (List String × List Occurrence),
      ((groups.filterMap fun g => describe g.1 g.2).map (·.signature)).Sublist
        (groups.map Prod.fst) := by
    intro groups
    induction groups with
    | nil => exact List.Sublist.refl _
    | cons g groups ih =>
        rw [List.filterMap_cons]
        split
        · exact ih.cons _
        · rename_i hdescribe
          rw [List.map_cons, List.map_cons, (describe_signature hdescribe).1]
          exact ih.cons_cons _
  rw [detectForWindow_eq]
  apply List.Nodup.sublist ((hkeys _).trans (List.filter_sublist.map _))
  simpa [Function.comp_def] using (grouped_groupsOf events window).keys_nodup

/-- No signature is reported twice. -/
theorem signatures_detect_nodup (detector : PatternDetector) (events : List EventSummary) :
    ((detector.detect events).map (·.signature)).Nodup := by
  unfold detect
  rw [List.map_flatMap, List.nodup_flatMap]
  constructor
  · intro window _
    split
    · exact List.nodup_nil
    · exact signatures_detectForWindow_nodup detector events window
  ·
    -- signatures of different window sizes differ in length
    apply List.Pairwise.imp _ List.nodup_range'
    intro window window' hne
    apply List.disjoint_left.2
    have hlength : ∀ w, ∀ s ∈ (if w = 0 ∨ events.length < w then []
        else detector.detectForWindow events w).map (·.signature), s.length = w := by
      intro w s hs
      rcases List.mem_map.1 hs with ⟨detected, hmem, rfl⟩
      split at hmem
      · cases hmem
      · exact (mem_detectForWindow_iff.1 hmem).1
    intro s hs hs'
    exact hne ((hlength window s hs).symm.trans (hlength window' s hs'))

end PatternDetector

/-- A detected pattern is made of events of the history. -/
theorem mem_of_detect {detector : PatternDetector} {detected : DetectedPattern}
    (h : detected ∈ detector.detect events) {id : Nat}
    (hid : id ∈ detected.contributingEventIds) : ∃ e ∈ events, e.id = some id := by
  have hdescribe := (PatternDetector.mem_detect_iff.1 h).2.2
  rw [describe_eventIds hdescribe] at hid
  rcases List.mem_flatMap.1 hid with ⟨o, ho, hid⟩
  rcases List.mem_filterMap.1 hid with ⟨e, he, hid⟩
  rw [(slice_of_mem_occurrencesOf (mem_of_mem_chosen ho).1).2] at he
  exact ⟨e, List.mem_of_mem_drop (List.mem_of_mem_take he), hid⟩

end Patterns
end HiddenSteps
