import HiddenSteps.Patterns.DetectorLaws
import Mathlib.Data.List.Sort

/-!
# Growth — one pattern in two histories

A history that goes on and loses events from its beginning.  As long as the events that are lost
come before the first occurrence of a pattern, the detector keeps the same occurrences and adds
later ones: it is in the same phase.
-/

namespace HiddenSteps
namespace Patterns

open Systems

variable {events : List EventSummary} {signature : List String}

/-! ## The times of a pattern -/

section Fold

variable {α β : Type} (pick : β → β → β) (f : α → β)

/-- What picks one of two picks one of many. -/
theorem foldl_attains (hpick : ∀ a b, pick a b = a ∨ pick a b = b) (init : β) (l : List α) :
    l.foldl (fun t a => pick t (f a)) init = init ∨
      ∃ a ∈ l, l.foldl (fun t a => pick t (f a)) init = f a := by
  induction l generalizing init with
  | nil => exact Or.inl rfl
  | cons a l ih =>
      rw [List.foldl_cons]
      rcases ih (pick init (f a)) with h | ⟨b, hb, h⟩
      · rcases hpick init (f a) with hinit | hfirst
        · exact Or.inl (h.trans hinit)
        · exact Or.inr ⟨a, List.mem_cons_self, h.trans hfirst⟩
      · exact Or.inr ⟨b, List.mem_cons_of_mem _ hb, h⟩

/-- What is picked of two bounds both, so what is picked of many bounds all. -/
theorem foldl_bounds (r : β → β → Prop) (hrefl : ∀ a, r a a)
    (htrans : ∀ {a b c}, r a b → r b c → r a c) (hleft : ∀ a b, r (pick a b) a)
    (hright : ∀ a b, r (pick a b) b) (init : β) (l : List α) :
    r (l.foldl (fun t a => pick t (f a)) init) init ∧
      ∀ a ∈ l, r (l.foldl (fun t a => pick t (f a)) init) (f a) := by
  induction l generalizing init with
  | nil => exact ⟨hrefl init, by simp⟩
  | cons a l ih =>
      rcases ih (pick init (f a)) with ⟨hinit, hrest⟩
      rw [List.foldl_cons]
      refine ⟨htrans hinit (hleft _ _), ?_⟩
      intro b hb
      rcases List.mem_cons.1 hb with rfl | hb
      · exact htrans hinit (hright _ _)
      · exact hrest b hb

end Fold

/-- A pattern is first seen at the first event of an occurrence, and no occurrence begins before. -/
theorem describe_firstSeenAt {occurrences : List Occurrence} {detected : DetectedPattern}
    (h : describe signature occurrences = some detected) :
    (∃ o ∈ occurrences, detected.firstSeenAt = o.first.occurredAt) ∧
      ∀ o ∈ occurrences, detected.firstSeenAt ≤ o.first.occurredAt := by
  cases occurrences with
  | nil => cases h
  | cons o occurrences =>
      cases h
      -- the time is folded over the occurrences, from the first one
      have hattains := foldl_attains min (fun o : Occurrence => o.first.occurredAt) min_choice
        o.first.occurredAt occurrences
      have hbounds := foldl_bounds min (fun o : Occurrence => o.first.occurredAt) (· ≤ ·) le_refl
        le_trans min_le_left min_le_right o.first.occurredAt occurrences
      constructor
      · rcases hattains with h | ⟨o', ho', h⟩
        · exact ⟨o, List.mem_cons_self, h⟩
        · exact ⟨o', List.mem_cons_of_mem _ ho', h⟩
      · exact List.forall_mem_cons.2 hbounds

/-- A pattern is last seen at the last event of an occurrence, and no occurrence ends later. -/
theorem describe_lastSeenAt {occurrences : List Occurrence} {detected : DetectedPattern}
    (h : describe signature occurrences = some detected) :
    (∃ o ∈ occurrences, detected.lastSeenAt = o.last.occurredAt) ∧
      ∀ o ∈ occurrences, o.last.occurredAt ≤ detected.lastSeenAt := by
  cases occurrences with
  | nil => cases h
  | cons o occurrences =>
      cases h
      -- the bound of the fold is read downwards here
      have hattains := foldl_attains max (fun o : Occurrence => o.last.occurredAt) max_choice
        o.last.occurredAt occurrences
      have hbounds := foldl_bounds max (fun o : Occurrence => o.last.occurredAt) (· ≥ ·) le_refl
        (fun hab hbc => le_trans hbc hab) le_max_left le_max_right o.last.occurredAt occurrences
      constructor
      · rcases hattains with h | ⟨o', ho', h⟩
        · exact ⟨o, List.mem_cons_self, h⟩
        · exact ⟨o', List.mem_cons_of_mem _ ho', h⟩
      · exact List.forall_mem_cons.2 hbounds

/-! ## Hits in a longer and in a later history -/

variable {lost kept new : List EventSummary}

theorem occursAt_append_left {start : Nat} :
    OccursAt (lost ++ kept) signature (start + lost.length) ↔ OccursAt kept signature start := by
  unfold OccursAt
  rw [Nat.add_comm, List.drop_append, List.drop_eq_nil_of_le (Nat.le_add_right _ _),
    List.nil_append, Nat.add_sub_cancel_left]

theorem slice_append_right {start : Nat} (h : start + signature.length ≤ kept.length) :
    ((kept ++ new).drop start).take signature.length = (kept.drop start).take signature.length := by
  have hstart : start ≤ kept.length := by omega
  have hfits : signature.length ≤ (kept.drop start).length := by
    rw [List.length_drop]
    omega
  rw [List.drop_append_of_le_length hstart, List.take_append_of_le_length hfits]

/-- New events only add later hits. -/
theorem hits_append_right (hne : signature ≠ []) :
    ∃ later, hits (kept ++ new) signature = hits kept signature ++ later := by
  have hpos := List.length_pos_iff.2 hne
  have hsplit : (kept ++ new).length + 1 - signature.length =
      (kept.length + 1 - signature.length) +
        ((kept ++ new).length + 1 - signature.length - (kept.length + 1 - signature.length)) := by
    rw [List.length_append]
    omega
  -- a window that fits into the old history is the same in the new one
  have hsame : ((List.range (kept.length + 1 - signature.length)).filter fun start =>
      OccursAt (kept ++ new) signature start) = hits kept signature := by
    apply List.filter_congr
    intro start hstart
    have hlt := List.mem_range.1 hstart
    rw [decide_eq_decide]
    unfold OccursAt
    rw [slice_append_right (by omega)]
  exact ⟨_, by rw [hits, hsplit, List.range_add, List.filter_append, hsame]⟩

/-- Lost events without hits only move the other hits. -/
theorem hits_append_left (hne : signature ≠ [])
    (hlost : ∀ start ∈ hits (lost ++ kept) signature, lost.length ≤ start) :
    hits (lost ++ kept) signature = (hits kept signature).map (· + lost.length) := by
  refine List.Pairwise.eq_of_mem_iff (hits_sorted _ _) ?_ ?_
  · refine List.pairwise_map.2 ((hits_sorted kept signature).imp ?_)
    intro i j hij
    omega
  · intro start
    rw [List.mem_map]
    constructor
    -- a hit lies behind what is lost, so it is a hit of the rest
    · intro hstart
      have hle := hlost start hstart
      refine ⟨start - lost.length, ?_, Nat.sub_add_cancel hle⟩
      rw [mem_hits hne] at hstart ⊢
      have hmoved : OccursAt (lost ++ kept) signature (start - lost.length + lost.length) := by
        rwa [Nat.sub_add_cancel hle]
      exact occursAt_append_left.1 hmoved
    · rintro ⟨i, hi, rfl⟩
      rw [mem_hits hne] at hi ⊢
      exact occursAt_append_left.2 hi

/-! ## Occurrences in a longer and in a later history -/

theorem mem_starts (hne : signature ≠ []) {start : Nat} :
    start ∈ Packing.greedy signature.length 0 (hits events signature) ↔
      ∃ o ∈ chosen events signature, o.start = start := by
  rw [← starts_chosen hne, List.mem_map]

theorem length_chosen (hne : signature ≠ []) :
    (chosen events signature).length =
      (Packing.greedy signature.length 0 (hits events signature)).length := by
  rw [← starts_chosen hne, List.length_map]

theorem occursAt_of_mem_chosen (hne : signature ≠ []) {o : Occurrence}
    (h : o ∈ chosen events signature) : OccursAt events signature o.start := by
  rw [← mem_hits hne]
  apply (Packing.greedy_sublist 0 _).subset
  exact (mem_starts hne).2 ⟨o, h, rfl⟩

theorem slice_of_mem_chosen {o : Occurrence} (h : o ∈ chosen events signature) :
    o.slice = (events.drop o.start).take signature.length :=
  (slice_of_mem_occurrencesOf (mem_of_mem_chosen h).1).2

/-- The first event of an occurrence is the one at its start. -/
theorem first_of_mem_chosen {o : Occurrence} (h : o ∈ chosen events signature) :
    events[o.start]? = some o.first := by
  have hslice := slice_of_mem_chosen h
  have hhead : o.slice.head? = some o.first := List.head?_eq_some_head o.nonempty
  rw [hslice, List.head?_take, List.head?_drop] at hhead
  split at hhead
  · cases hhead
  · exact hhead

/-- No event at or after the start of the first occurrence is lost. -/
structure LosesEarlier (lost kept : List EventSummary) (signature : List String) : Prop where
  nonempty : signature ≠ []
  lost_le : ∀ start ∈ hits (lost ++ kept) signature, lost.length ≤ start

namespace LosesEarlier

variable (h : LosesEarlier lost kept signature)

include h

theorem starts_eq :
    Packing.greedy signature.length 0 (hits (lost ++ kept) signature) =
      (Packing.greedy signature.length 0 (hits kept signature)).map (· + lost.length) := by
  rw [hits_append_left h.nonempty h.lost_le, Packing.greedy_shift]

/-- Every occurrence that was chosen is chosen again. -/
theorem exists_chosen {o : Occurrence} (ho : o ∈ chosen (lost ++ kept) signature) :
    ∃ o' ∈ chosen (kept ++ new) signature,
      o'.start + lost.length = o.start ∧ o'.slice = o.slice := by
  have hne := h.nonempty
  have hstart := (mem_starts hne).2 ⟨o, ho, rfl⟩
  -- the occurrence is chosen in the rest of the history, and later hits do not change that
  rw [h.starts_eq] at hstart
  rcases List.mem_map.1 hstart with ⟨i, hi, hio⟩
  have hfits : i + signature.length ≤ kept.length := by
    have hhit := (mem_hits hne).1 ((Packing.greedy_sublist 0 _).subset hi)
    exact hhit.le_length hne
  obtain ⟨later, hlater⟩ : ∃ later, hits (kept ++ new) signature = hits kept signature ++ later :=
    hits_append_right hne
  obtain ⟨next, hgreedy⟩ := Packing.greedy_append 0 (hits kept signature) later
  have hchosen : i ∈ Packing.greedy signature.length 0 (hits (kept ++ new) signature) := by
    rw [hlater, hgreedy]
    exact List.mem_append_left _ hi
  rcases (mem_starts hne).1 hchosen with ⟨o', ho', rfl⟩
  refine ⟨o', ho', hio, ?_⟩
  rw [slice_of_mem_chosen ho', slice_of_mem_chosen ho, slice_append_right hfits, ← hio,
    Nat.add_comm, List.drop_append, List.drop_eq_nil_of_le (Nat.le_add_right _ _),
    List.nil_append, Nat.add_sub_cancel_left]

theorem length_le :
    (chosen (lost ++ kept) signature).length ≤ (chosen (kept ++ new) signature).length := by
  have hne := h.nonempty
  obtain ⟨later, hlater⟩ : ∃ later, hits (kept ++ new) signature = hits kept signature ++ later :=
    hits_append_right hne
  obtain ⟨next, hgreedy⟩ := Packing.greedy_append 0 (hits kept signature) later
  rw [length_chosen hne, length_chosen hne, h.starts_eq, hlater, hgreedy, List.length_map,
    List.length_append]
  exact Nat.le_add_right _ _

end LosesEarlier

/-- The first hit is chosen. -/
theorem exists_first_chosen (hne : signature ≠ []) {start : Nat}
    (h : start ∈ hits events signature) :
    ∃ o ∈ chosen events signature, o.start ≤ start ∧ ∀ i ∈ hits events signature, o.start ≤ i := by
  obtain ⟨first, hfirst, hle, hleast⟩ : ∃ first ∈ Packing.greedy signature.length 0
      (hits events signature), first ≤ start ∧ ∀ i ∈ hits events signature, first ≤ i :=
    Packing.exists_first (hits_sorted events signature) h
  rcases (mem_starts hne).1 hfirst with ⟨o, ho, rfl⟩
  exact ⟨o, ho, hle, hleast⟩

theorem losesEarlier_of_firstSeenAt {before : DetectedPattern} (hne : signature ≠ [])
    (hbefore : describe signature (chosen (lost ++ kept) signature) = some before)
    (hlost : ∀ e ∈ lost, e.occurredAt < before.firstSeenAt) :
    LosesEarlier lost kept signature := by
  refine ⟨hne, ?_⟩
  intro start hstart
  by_contra hlt
  -- otherwise the first chosen occurrence would begin with a lost event
  obtain ⟨o, ho, hle, -⟩ := exists_first_chosen hne hstart
  have hfirst : lost[o.start]? = some o.first := by
    rw [← List.getElem?_append_left (by omega : o.start < lost.length)]
    exact first_of_mem_chosen ho
  have hbound := (describe_firstSeenAt hbefore).2 o ho
  exact absurd (hlost _ (List.mem_of_getElem? hfirst)) (not_lt.2 hbound)

/-- In a sorted history, an occurrence that begins earlier has the earlier first event. -/
theorem first_le_of_start_le
    (hsorted : events.Pairwise fun a b => a.occurredAt ≤ b.occurredAt) {o o' : Occurrence}
    (ho : o ∈ chosen events signature) (ho' : o' ∈ chosen events signature)
    (hle : o.start ≤ o'.start) : o.first.occurredAt ≤ o'.first.occurredAt := by
  rcases List.getElem?_eq_some_iff.1 (first_of_mem_chosen ho) with ⟨hlt, hfirst⟩
  rcases List.getElem?_eq_some_iff.1 (first_of_mem_chosen ho') with ⟨hlt', hfirst'⟩
  rcases Nat.lt_or_eq_of_le hle with hbefore | hsame
  · rw [← hfirst, ← hfirst']
    exact List.pairwise_iff_getElem.1 hsorted _ _ hlt hlt' hbefore
  · have heq : o.first = o'.first := by
      rw [← hfirst, ← hfirst']
      simp only [hsame]
    rw [heq]

/-- The first occurrence stays the first one. -/
theorem LosesEarlier.first_le (h : LosesEarlier lost kept signature)
    (hsorted : (kept ++ new).Pairwise fun a b => a.occurredAt ≤ b.occurredAt)
    {start : Nat} (hstart : start ∈ hits (lost ++ kept) signature) :
    ∃ o ∈ chosen (lost ++ kept) signature, ∀ o' ∈ chosen (kept ++ new) signature,
      o.first.occurredAt ≤ o'.first.occurredAt := by
  have hne := h.nonempty
  obtain ⟨o, ho, -, hleast⟩ := exists_first_chosen hne hstart
  refine ⟨o, ho, ?_⟩
  intro o' ho'
  obtain ⟨same, hsame, hmoved, hslice⟩ : ∃ same ∈ chosen (kept ++ new) signature,
      same.start + lost.length = o.start ∧ same.slice = o.slice := h.exists_chosen ho
  -- the first occurrence is still there, moved by what is lost
  have hfirst : same.first = o.first := by
    unfold Occurrence.first
    simp only [hslice]
  rw [← hfirst]
  apply first_le_of_start_le hsorted hsame ho'
  by_contra hlt
  -- an occurrence before the first one would have been there before
  have hkept : same.start + signature.length ≤ kept.length := by
    have hlength := (occursAt_of_mem_chosen hne ho).le_length hne
    rw [List.length_append] at hlength
    omega
  have hoccurs : OccursAt kept signature o'.start := by
    have hoccurs := occursAt_of_mem_chosen hne ho'
    unfold OccursAt at hoccurs ⊢
    rwa [slice_append_right (by omega)] at hoccurs
  have hle := hleast _ ((mem_hits hne).2 (occursAt_append_left.2 hoccurs))
  omega

/-! ## Detections -/

theorem length_chosen_le (events : List EventSummary) (hne : signature ≠ []) :
    (chosen events signature).length ≤ events.length := by
  have hpos := List.length_pos_iff.2 hne
  calc
    (chosen events signature).length
        = (Packing.greedy signature.length 0 (hits events signature)).length := length_chosen hne
    _ ≤ (hits events signature).length := (Packing.greedy_sublist 0 _).length_le
    _ ≤ (List.range (events.length + 1 - signature.length)).length := List.length_filter_le _ _
    _ ≤ events.length := by
        rw [List.length_range]
        omega

/-- When a history loses only events from before a pattern was first seen and goes on, the count of
the pattern and its last time do not go back, and it is not first seen earlier. -/
theorem detected_grows {detector : PatternDetector} {before after : DetectedPattern}
    (hbefore : before ∈ detector.detect (lost ++ kept))
    (hafter : after ∈ detector.detect (kept ++ new))
    (hsignature : before.signature = after.signature)
    (hlost : ∀ e ∈ lost, e.occurredAt < before.firstSeenAt)
    (hsorted : (kept ++ new).Pairwise fun a b => a.occurredAt ≤ b.occurredAt)
    (hlength : (kept ++ new).length < 2 ^ 32) :
    before.occurrenceCount ≤ after.occurrenceCount ∧ before.lastSeenAt ≤ after.lastSeenAt ∧
      before.firstSeenAt ≤ after.firstSeenAt := by
  rcases PatternDetector.mem_detect_iff.1 hbefore with ⟨hsearches, -, hdescribe⟩
  rcases PatternDetector.mem_detect_iff.1 hafter with ⟨-, -, hdescribe'⟩
  have hne : before.signature ≠ [] := List.length_pos_iff.1 hsearches.1
  rw [← hsignature] at hdescribe'
  have hloses := losesEarlier_of_firstSeenAt hne hdescribe hlost
  refine ⟨?_, ?_, ?_⟩
  · have hle := length_chosen_le (kept ++ new) hne
    calc
      before.occurrenceCount
          = (chosen (lost ++ kept) before.signature).length % 2 ^ 32 := describe_count hdescribe
      _ ≤ (chosen (lost ++ kept) before.signature).length := Nat.mod_le _ _
      _ ≤ (chosen (kept ++ new) before.signature).length := hloses.length_le
      _ = (chosen (kept ++ new) before.signature).length % 2 ^ 32 :=
          (Nat.mod_eq_of_lt (by omega)).symm
      _ = after.occurrenceCount := (describe_count hdescribe').symm
  · rcases (describe_lastSeenAt hdescribe).1 with ⟨o, ho, hlast⟩
    obtain ⟨o', ho', -, hslice⟩ : ∃ o' ∈ chosen (kept ++ new) before.signature,
        o'.start + lost.length = o.start ∧ o'.slice = o.slice := hloses.exists_chosen ho
    have hsame : o'.last = o.last := by
      unfold Occurrence.last
      simp only [hslice]
    rw [hlast, ← hsame]
    exact (describe_lastSeenAt hdescribe').2 o' ho'
  · rcases (describe_firstSeenAt hdescribe').1 with ⟨o', ho', hfirst⟩
    obtain ⟨o, ho⟩ := List.exists_mem_of_ne_nil _ (describe_signature hdescribe).2
    have hhit := (mem_hits hne).2 (occursAt_of_mem_chosen hne ho)
    obtain ⟨first, hmem, hle⟩ := hloses.first_le hsorted hhit
    rw [hfirst]
    exact ((describe_firstSeenAt hdescribe).2 first hmem).trans (hle o' ho')

/-! ## The latest events -/

/-- The last events of a history, up to a number. -/
def latest (limit : Nat) (events : List EventSummary) : List EventSummary :=
  events.drop (events.length - limit)

theorem mem_of_detect_first {detector : PatternDetector} {detected : DetectedPattern}
    (h : detected ∈ detector.detect events) : ∃ e ∈ events, e.occurredAt = detected.firstSeenAt := by
  have hdescribe := (PatternDetector.mem_detect_iff.1 h).2.2
  rcases (describe_firstSeenAt hdescribe).1 with ⟨o, ho, hfirst⟩
  exact ⟨o.first, List.mem_of_getElem? (first_of_mem_chosen ho), hfirst.symm⟩

/-- The same for the latest events of a history that goes on, when the events that are left out come
before the pattern was first seen. -/
theorem detected_grows_latest {detector : PatternDetector} {limit : Nat}
    {history events : List EventSummary} {before after : DetectedPattern}
    (hhistory : history <+: events) (hbefore : before ∈ detector.detect (latest limit history))
    (hafter : after ∈ detector.detect (latest limit events))
    (hsignature : before.signature = after.signature)
    (hlost : ∀ e ∈ events.take (events.length - limit), e.occurredAt < before.firstSeenAt)
    (hsorted : events.Pairwise fun a b => a.occurredAt ≤ b.occurredAt) (hlimit : limit < 2 ^ 32) :
    before.occurrenceCount ≤ after.occurrenceCount ∧ before.lastSeenAt ≤ after.lastSeenAt ∧
      before.firstSeenAt ≤ after.firstSeenAt := by
  rcases hhistory with ⟨new, rfl⟩
  have hcut : (history ++ new).length - limit ≤ history.length := by
    -- otherwise all occurrences had been left out
    by_contra hlt
    rcases mem_of_detect_first hbefore with ⟨e, he, hfirst⟩
    have hmem : e ∈ (history ++ new).take ((history ++ new).length - limit) := by
      rw [List.take_append]
      apply List.mem_append_left
      rw [List.take_of_length_le (by omega)]
      exact List.mem_of_mem_drop he
    exact absurd (hlost e hmem) (by rw [hfirst]; exact lt_irrefl _)
  have hle : history.length - limit ≤ (history ++ new).length - limit := by
    rw [List.length_append]
    omega
  have hold : latest limit history =
      (history.take ((history ++ new).length - limit)).drop (history.length - limit) ++
        history.drop ((history ++ new).length - limit) := by
    have hfits : history.length - limit ≤
        (history.take ((history ++ new).length - limit)).length := by
      rw [List.length_take]
      omega
    rw [← List.drop_append_of_le_length hfits, List.take_append_drop, latest]
  have hnow : latest limit (history ++ new) =
      history.drop ((history ++ new).length - limit) ++ new := by
    rw [latest, List.drop_append_of_le_length hcut]
  rw [hold] at hbefore
  rw [hnow] at hafter
  refine detected_grows hbefore hafter hsignature ?_ ?_ ?_
  · intro e he
    apply hlost
    rw [List.take_append_of_le_length hcut]
    exact List.mem_of_mem_drop he
  · rw [← hnow]
    exact hsorted.sublist (List.drop_sublist _ _)
  · rw [← hnow, latest, List.length_drop]
    omega

end Patterns
end HiddenSteps
