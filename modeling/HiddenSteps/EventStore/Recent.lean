import HiddenSteps.Domain.TimeOrder
import HiddenSteps.EventStore.StoreLaws
import Mathlib.Data.List.Pairwise

/-!
# Recent — text columns read as instants

The store sorts and expires its events by the texts of their times.  This is what the instants say
exactly if no two of the texts are of one second with the fraction of one continuing the fraction
of the other.
-/

namespace HiddenSteps
namespace EventStore
namespace Store

open TimeFmt

variable {store : Store}

/-- The rows read are the newest events, newest first, and oldest first when reversed. -/
structure ReadsNewest (store : Store) (n : Nat) : Prop where
  length_eq : (store.listRecentEvents n).length = min n store.events.length
  newest : ∃ omitted, (store.listRecentEvents n ++ omitted).Perm store.events ∧
    ∀ row ∈ store.listRecentEvents n, ∀ other ∈ omitted, other.occurredAt ≤ row.occurredAt
  newestFirst : (store.listRecentEvents n).Pairwise fun a b => b.occurredAt ≤ a.occurredAt
  oldestFirst : (store.listRecentEvents n).reverse.Pairwise fun a b => a.occurredAt ≤ b.occurredAt

/-- The events left are those whose retention has not ended. -/
def ExpiresExactly (store : Store) (now : Timestamp) : Prop :=
  (store.deleteExpiredEvents now).2.events =
    store.events.filter fun e => !e.ttlExpiresAt.any fun ttl => decide (ttl ≤ now)

/-- The times of the events are of the years that the format can write. -/
structure InFormat (store : Store) : Prop where
  occurredAt : ∀ e ∈ store.events, InYears e.occurredAt
  ttlExpiresAt : ∀ e ∈ store.events, ∀ ttl, e.ttlExpiresAt = some ttl → InYears ttl

/-! ## Reading -/

theorem listRecentEvents_eq_take (store : Store) (n : Nat) :
    store.listRecentEvents n = (newestFirst store.events).take n := by
  have hnonneg : ¬ (n : Int) < 0 := Int.not_lt.2 (Int.natCast_nonneg n)
  rw [listRecentEvents, limited, if_neg hnonneg, Int.toNat_natCast]

theorem newestFirst_perm (events : List EventSummary) : (newestFirst events).Perm events :=
  (List.perm_insertionSort _ _).trans (List.reverse_perm events)

theorem newestFirst_pairwise (events : List EventSummary) :
    (newestFirst events).Pairwise fun a b =>
      textLe (toRfc3339 b.occurredAt) (toRfc3339 a.occurredAt) = true := by
  let later : EventSummary → EventSummary → Prop := fun a b =>
    textLe (toRfc3339 b.occurredAt) (toRfc3339 a.occurredAt) = true
  have htotal : Std.Total later := ⟨fun a b => textLe_total _ _⟩
  have htrans : IsTrans EventSummary later := ⟨fun a b c hab hbc => textLe_trans hbc hab⟩
  exact List.pairwise_insertionSort later _

/-- Rows that are sorted as a whole are read newest first at every limit. -/
theorem readsNewest_of_pairwise
    (h : (newestFirst store.events).Pairwise fun a b => b.occurredAt ≤ a.occurredAt) (n : Nat) :
    ReadsNewest store n := by
  have hread := listRecentEvents_eq_take store n
  have hsplit : (newestFirst store.events).take n ++ (newestFirst store.events).drop n =
      newestFirst store.events :=
    List.take_append_drop n _
  have hsorted : (store.listRecentEvents n).Pairwise fun a b => b.occurredAt ≤ a.occurredAt := by
    rw [hread]
    exact h.sublist (List.take_sublist n _)
  -- what is omitted is the rest of the sorted rows
  refine ⟨?_, ⟨(newestFirst store.events).drop n, ?_, ?_⟩, hsorted, List.pairwise_reverse.2 hsorted⟩
  · rw [hread, List.length_take, (newestFirst_perm store.events).length_eq]
  · rw [hread, hsplit]
    exact newestFirst_perm store.events
  · rw [hread]
    rw [← hsplit, List.pairwise_append] at h
    exact h.2.2

theorem pairwise_of_readsNewest (h : ∀ n, ReadsNewest store n) :
    (newestFirst store.events).Pairwise fun a b => b.occurredAt ≤ a.occurredAt := by
  have hall := (h (newestFirst store.events).length).newestFirst
  rwa [listRecentEvents_eq_take, List.take_length] at hall

/-- The rows are sorted as instants if no time truncates another one. -/
theorem pairwise_newestFirst_iff (h : InFormat store) :
    ((newestFirst store.events).Pairwise fun a b => b.occurredAt ≤ a.occurredAt) ↔
      ∀ a ∈ store.events, ∀ b ∈ store.events, ¬ Truncates a.occurredAt b.occurredAt := by
  have hmem : ∀ e, e ∈ newestFirst store.events ↔ e ∈ store.events := fun e =>
    (newestFirst_perm store.events).mem_iff
  have htexts := newestFirst_pairwise store.events
  constructor
  · intro hsorted
    let apart : EventSummary → EventSummary → Prop := fun a b =>
      ¬ Truncates a.occurredAt b.occurredAt ∧ ¬ Truncates b.occurredAt a.occurredAt
    have hsymm : Std.Symm apart := ⟨fun a b hab => ⟨hab.2, hab.1⟩⟩
    have hself : ∀ a ∈ newestFirst store.events, apart a a := fun a _ =>
      ⟨fun hself => absurd hself.lt (lt_irrefl _), fun hself => absurd hself.lt (lt_irrefl _)⟩
    -- neighbours in both orders, of the instants and of the texts, do not truncate one another
    have hapart : (newestFirst store.events).Pairwise apart := by
      refine (hsorted.and htexts).imp_of_mem ?_
      rintro a b ha hb ⟨hle, htext⟩
      have hnot : ¬ Truncates a.occurredAt b.occurredAt := fun hab => absurd hab.lt hle.not_gt
      rw [textLe_toRfc3339 (h.occurredAt b ((hmem b).1 hb)) (h.occurredAt a ((hmem a).1 ha))]
        at htext
      rcases htext with ⟨-, hback⟩ | hab
      · exact ⟨hnot, hback⟩
      · exact absurd hab hnot
    intro a ha b hb
    exact (hapart.forall_of_forall hself ((hmem a).2 ha) ((hmem b).2 hb)).1
  · intro hapart
    -- the texts are sorted in any case, and they compare like the instants here
    refine htexts.imp_of_mem ?_
    intro a b ha hb htext
    have ha' := (hmem a).1 ha
    have hb' := (hmem b).1 hb
    rw [textLe_toRfc3339 (h.occurredAt b hb') (h.occurredAt a ha')] at htext
    rcases htext with ⟨hle, -⟩ | hab
    · exact hle
    · exact absurd hab (hapart a ha' b hb')

/-! ## Expiry -/

theorem filter_eq_filter_iff {α : Type} {p q : α → Bool} {l : List α} :
    l.filter p = l.filter q ↔ ∀ a ∈ l, (p a = true ↔ q a = true) := by
  constructor
  · intro h a ha
    have hmem : a ∈ l.filter p ↔ a ∈ l.filter q := by rw [h]
    simpa only [List.mem_filter, ha, true_and] using hmem
  · exact fun h => List.filter_congr fun a ha => Bool.eq_iff_iff.2 (h a ha)

/-- An end of retention is compared as an instant unless it truncates the present or continues it. -/
theorem ttl_compared_iff {ttl now : Timestamp} (httl : InYears ttl) (hnow : InYears now) :
    (textLe (toRfc3339 ttl) (toRfc3339 now) = true ↔ ttl ≤ now) ↔
      ¬ Truncates ttl now ∧ ¬ Truncates now ttl := by
  rw [textLe_toRfc3339 httl hnow]
  constructor
  · intro hsame
    have hback : ¬ Truncates now ttl := fun hback =>
      absurd (hsame.1 (Or.inr hback)) hback.lt.not_ge
    refine ⟨fun hcut => ?_, hback⟩
    rcases hsame.2 hcut.lt.le with ⟨-, hnot⟩ | hback'
    · exact hnot hcut
    · exact hback hback'
  · rintro ⟨hcut, hback⟩
    constructor
    · rintro (⟨hle, -⟩ | hback')
      · exact hle
      · exact absurd hback' hback
    · exact fun hle => Or.inl ⟨hle, hcut⟩

theorem expiresExactly_iff {now : Timestamp} (h : InFormat store) (hnow : InYears now) :
    ExpiresExactly store now ↔
      ∀ e ∈ store.events, ∀ ttl, e.ttlExpiresAt = some ttl →
        ¬ Truncates ttl now ∧ ¬ Truncates now ttl := by
  -- the same events are left when each is judged the same
  have hfilters : ExpiresExactly store now ↔ ∀ e ∈ store.events,
      ((!e.ttlExpiresAt.any fun ttl => textLe (toRfc3339 ttl) (toRfc3339 now)) = true ↔
        (!e.ttlExpiresAt.any fun ttl => decide (ttl ≤ now)) = true) :=
    filter_eq_filter_iff
  rw [hfilters]
  refine forall₂_congr fun e he => ?_
  cases httl : e.ttlExpiresAt with
  | none => simp
  | some ttl =>
      have hcompared := ttl_compared_iff (h.ttlExpiresAt e he ttl httl) hnow
      simp only [Option.any_some, Bool.not_eq_true', ← Bool.not_eq_true, decide_eq_true_eq,
        not_iff_not, Option.some.injEq, forall_eq']
      exact hcompared

/-! ## Reading and expiry -/

/-- The texts are read as instants exactly if no two times of the store truncate one another, nor
the end of a retention and the present. -/
theorem readsInstants_iff {now : Timestamp} (h : InFormat store) (hnow : InYears now) :
    ((∀ n, ReadsNewest store n) ∧ ExpiresExactly store now) ↔
      (∀ a ∈ store.events, ∀ b ∈ store.events, ¬ Truncates a.occurredAt b.occurredAt) ∧
        ∀ e ∈ store.events, ∀ ttl, e.ttlExpiresAt = some ttl →
          ¬ Truncates ttl now ∧ ¬ Truncates now ttl := by
  rw [← pairwise_newestFirst_iff h, ← expiresExactly_iff h hnow]
  have hreads : (∀ n, ReadsNewest store n) ↔
      (newestFirst store.events).Pairwise fun a b => b.occurredAt ≤ a.occurredAt :=
    ⟨pairwise_of_readsNewest, readsNewest_of_pairwise⟩
  rw [hreads]

/-- A store of events at the given times, each kept for a minute. -/
def observedAt (times : List Timestamp) : Store :=
  { empty with
    events := times.map fun t =>
      .new t "accessibility" .windowTitle .maximumAssistance .null (some (t + 60000000000)) }

theorem readsInstants_tenths :
    ((∀ n, ReadsNewest (observedAt [100000000, 300000000]) n) ∧
      ExpiresExactly (observedAt [100000000, 300000000]) 60200000000) :=
  (readsInstants_iff
    ⟨by decide +kernel, by decide +kernel⟩ (by decide +kernel)).2
    ⟨by decide +kernel, by decide +kernel⟩

/-- At half a second past a full second the text sorts before the text of the full second. -/
theorem full_second_read_as_newer :
    ¬ ∀ store now, InFormat store → InYears now →
      (∀ n, ReadsNewest store n) ∧ ExpiresExactly store now := by
  intro h
  have hsorted := ((h (observedAt [0, 500000000]) 0 ⟨by decide +kernel, by decide +kernel⟩
    (by decide +kernel)).1 2).newestFirst
  exact absurd hsorted (by decide +kernel)

end Store
end EventStore
end HiddenSteps
