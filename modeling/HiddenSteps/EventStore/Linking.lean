import HiddenSteps.EventStore.StoreLaws
import HiddenSteps.Systems.Transaction
import Mathlib.Data.List.TakeWhile

/-!
# Linking — the links of a pattern are committed one by one

`link_pattern_events` runs one insertion for each event, outside of a transaction.  An insertion
fails when a row is missing that a new link would refer to; the links made in front of it stay.
-/

namespace HiddenSteps
namespace EventStore
namespace Store

open Systems Transaction

variable {store : Store} {patternId : Nat}

/-- The link exists, or both rows are there that it would refer to. -/
def canLink (store : Store) (patternId eventId : Nat) : Bool :=
  store.patternEvents.contains (patternId, eventId) ||
    (store.hasPattern patternId && store.hasEvent eventId)

/-- What an insertion that succeeds leaves behind. -/
def addLink (patternId : Nat) (store : Store) (eventId : Nat) : Store :=
  if store.patternEvents.contains (patternId, eventId) then store
  else { store with patternEvents := store.patternEvents ++ [(patternId, eventId)] }

/-! ## One link -/

theorem linkPatternEvent_of_canLink {eventId : Nat} (h : store.canLink patternId eventId = true) :
    store.linkPatternEvent patternId eventId = .ok (addLink patternId store eventId) := by
  rw [canLink, Bool.or_eq_true] at h
  unfold linkPatternEvent addLink
  by_cases hlink : store.patternEvents.contains (patternId, eventId) = true
  · rw [if_pos hlink, if_pos hlink]
  · rw [if_neg hlink, if_neg hlink, if_pos (h.resolve_left hlink)]

theorem linkPatternEvent_of_not_canLink {eventId : Nat}
    (h : store.canLink patternId eventId = false) :
    store.linkPatternEvent patternId eventId =
      .error (.database "FOREIGN KEY constraint failed") := by
  rw [canLink, Bool.or_eq_false_iff] at h
  rw [linkPatternEvent, h.1, h.2]
  rfl

theorem mem_addLink {eventId : Nat} {link : Nat × Nat} :
    link ∈ (addLink patternId store eventId).patternEvents ↔
      link ∈ store.patternEvents ∨ link = (patternId, eventId) := by
  unfold addLink
  split
  · rename_i hlink
    have hmem : (patternId, eventId) ∈ store.patternEvents := List.contains_iff_mem.1 hlink
    constructor
    · exact Or.inl
    · rintro (h | rfl)
      · exact h
      · exact hmem
  · rw [List.mem_append, List.mem_singleton]

/-- A new link neither makes nor breaks the conditions for others. -/
theorem canLink_addLink {eventId : Nat} (h : store.canLink patternId eventId = true) (other : Nat) :
    (addLink patternId store eventId).canLink patternId other =
      store.canLink patternId other := by
  have hrows : ∀ id, (addLink patternId store eventId).hasPattern id = store.hasPattern id ∧
      (addLink patternId store eventId).hasEvent id = store.hasEvent id := by
    intro id
    unfold addLink
    split <;> exact ⟨rfl, rfl⟩
  rw [Bool.eq_iff_iff]
  simp only [canLink, Bool.or_eq_true, List.contains_iff_mem, mem_addLink, (hrows _).1, (hrows _).2]
  constructor
  · rintro ((hlink | heq) | hthere)
    · exact Or.inl hlink
    · obtain ⟨-, rfl⟩ := Prod.mk.inj heq
      simpa only [canLink, Bool.or_eq_true, List.contains_iff_mem] using h
    · exact Or.inr hthere
  · rintro (hlink | hthere)
    · exact Or.inl (Or.inl hlink)
    · exact Or.inr hthere

/-! ## The loop -/

/-- The loop is a sequence of statements outside of a transaction. -/
theorem linkPatternEvents_eq_executeAll (store : Store) (patternId : Nat) (eventIds : List Nat) :
    let r := (Connection.autocommit store).executeAll (fun _ => none)
      (eventIds.map fun eventId store => store.linkPatternEvent patternId eventId)
    store.linkPatternEvents patternId eventIds = (r.1, r.2.view) := by
  induction eventIds generalizing store with
  | nil => rfl
  | cons eventId eventIds ih =>
      have hview : (Connection.autocommit store).view = store := rfl
      simp only [linkPatternEvents, List.map_cons, Connection.executeAll, Connection.execute, hview]
      cases store.linkPatternEvent patternId eventId with
      | error e => rfl
      | ok store' => exact ih store'

/-- The events in front of the first that cannot be linked are linked, and nothing else changes. -/
theorem linkPatternEvents_eq_foldl (store : Store) (patternId : Nat) (eventIds : List Nat) :
    store.linkPatternEvents patternId eventIds =
      ( if eventIds.all (store.canLink patternId) then .ok ()
        else .error (.database "FOREIGN KEY constraint failed"),
        (eventIds.takeWhile (store.canLink patternId)).foldl (addLink patternId) store ) := by
  have hrun := Connection.executeAll_autocommit
    (f := fun eventId store => store.linkPatternEvent patternId eventId)
    (p := store.canLink patternId) (g := addLink patternId)
    (e := .database "FOREIGN KEY constraint failed")
    (I := fun s => ∀ id, s.canLink patternId id = store.canLink patternId id)
    (fun s id hs hid => ⟨linkPatternEvent_of_canLink ((hs id).trans hid),
      fun other => (canLink_addLink ((hs id).trans hid) other).trans (hs other)⟩)
    (fun s id hs hid => linkPatternEvent_of_not_canLink ((hs id).trans hid))
    (fun _ => rfl) eventIds
  rw [linkPatternEvents_eq_executeAll, hrun]
  rfl

theorem mem_foldl_addLink {eventIds : List Nat} {link : Nat × Nat} :
    link ∈ (eventIds.foldl (addLink patternId) store).patternEvents ↔
      link ∈ store.patternEvents ∨ ∃ id ∈ eventIds, link = (patternId, id) := by
  induction eventIds generalizing store with
  | nil => simp
  | cons id eventIds ih =>
      rw [List.foldl_cons, ih, mem_addLink]
      simp only [List.mem_cons, exists_eq_or_imp, or_assoc]

/-- No link is new exactly when all of them existed. -/
theorem foldl_addLink_eq_iff {eventIds : List Nat} :
    (eventIds.foldl (addLink patternId) store).patternEvents = store.patternEvents ↔
      ∀ id ∈ eventIds, (patternId, id) ∈ store.patternEvents := by
  constructor
  · intro h id hid
    rw [← h]
    exact mem_foldl_addLink.2 (Or.inr ⟨id, hid, rfl⟩)
  · intro h
    induction eventIds with
    | nil => rfl
    | cons id eventIds ih =>
        rcases List.forall_mem_cons.1 h with ⟨hid, hrest⟩
        rw [List.foldl_cons, addLink, if_pos (List.contains_iff_mem.2 hid)]
        exact ih hrest

/-! ## All or nothing -/

/-- Every event is linked, or the call fails and the links are as before. -/
def LinksAtomically (store : Store) (patternId : Nat) (eventIds : List Nat) : Prop :=
  let r := store.linkPatternEvents patternId eventIds
  (r.1 = .ok () ∧ ∀ id ∈ eventIds, (patternId, id) ∈ r.2.patternEvents) ∨
    ((∃ e, r.1 = .error e) ∧ r.2.patternEvents = store.patternEvents)

/-- Linking is atomic exactly if every event can be linked, or those in front of the first that
cannot have been linked before. -/
theorem linksAtomically_iff (store : Store) (patternId : Nat) (eventIds : List Nat) :
    LinksAtomically store patternId eventIds ↔
      (∀ id ∈ eventIds, store.canLink patternId id = true) ∨
        ∀ id ∈ eventIds.takeWhile (store.canLink patternId),
          (patternId, id) ∈ store.patternEvents := by
  unfold LinksAtomically
  rw [linkPatternEvents_eq_foldl]
  by_cases hall : eventIds.all (store.canLink patternId) = true
  · have hlinkable : ∀ id ∈ eventIds, store.canLink patternId id = true := List.all_eq_true.1 hall
    have hwhole : eventIds.takeWhile (store.canLink patternId) = eventIds :=
      List.takeWhile_eq_self_iff.2 hlinkable
    refine iff_of_true (Or.inl ⟨if_pos hall, ?_⟩) (Or.inl hlinkable)
    intro id hid
    rw [hwhole]
    exact mem_foldl_addLink.2 (Or.inr ⟨id, hid, rfl⟩)
  · rw [if_neg hall]
    constructor
    · rintro (⟨hok, -⟩ | ⟨-, hlinks⟩)
      · cases hok
      · exact Or.inr (foldl_addLink_eq_iff.1 hlinks)
    · rintro (hlinkable | hlinked)
      · exact absurd (List.all_eq_true.2 hlinkable) hall
      · exact Or.inr ⟨⟨_, rfl⟩, foldl_addLink_eq_iff.2 hlinked⟩

/-- Event 1 is stored and event 2 is not: the call fails, and the link to event 1 stays. -/
theorem missing_event_half_linked :
    let store : Store := { empty with
      events :=
        [{ id := some 1, occurredAt := 0, sourceId := "files", signalType := .fileOperationMetadata,
           privacyLevelAtCapture := .workflowMetadata, summary := .object [], isDeepMode := false,
           ttlExpiresAt := none }]
      patterns :=
        [{ id := some 1, firstSeenAt := 0, lastSeenAt := 0, occurrenceCount := 3,
           estimatedMinutesPerOccurrence := none, sequenceSignature := .array [],
           status := .active }] }
    store.linkPatternEvents 1 [1, 2] =
        (.error (.database "FOREIGN KEY constraint failed"),
          { store with patternEvents := [(1, 1)] }) ∧
      ¬ LinksAtomically store 1 [1, 2] := by
  intro store
  have hrun : store.linkPatternEvents 1 [1, 2] =
      (.error (.database "FOREIGN KEY constraint failed"),
        { store with patternEvents := [(1, 1)] }) := rfl
  refine ⟨hrun, ?_⟩
  unfold LinksAtomically
  rw [hrun]
  rintro (⟨hok, -⟩ | ⟨-, hlinks⟩)
  · cases hok
  · cases hlinks

end Store
end EventStore
end HiddenSteps
