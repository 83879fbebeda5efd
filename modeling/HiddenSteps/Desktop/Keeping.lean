import HiddenSteps.Desktop.Provenance
import HiddenSteps.Desktop.SweepEnds

/-!
# Keeping — runs in which nothing is deleted

Without deletions the events of a store only grow at their end, and the rows of the patterns and
their links change in two places of a sweep only: where a detected pattern is handled and where a
new one is linked.
-/

namespace HiddenSteps
namespace Desktop

open EventStore Patterns PrivacyEngine Recommendations Systems

/-! ## Steps that delete nothing -/

/-- The commands that delete events. -/
def Command.deletes : Command → Bool
  | .deleteEvents _ | .deleteAllData => true
  | _ => false

/-- The step deletes no event: it is no step of a deletion, and a sweep that begins finds nothing
expired or does not reach the store. -/
def keepsEvents (app : App) : Action → Bool
  | .call id _ => (app.call? id).all fun call => !call.command.deletes
  | .sweep o =>
      match app.sweep with
      | .start => o.storeFault.isSome || (app.store.deleteExpiredEvents o.now).1 == 0
      | _ => true
  | _ => true

/-- The events grow at their end, the patterns and their links stay. -/
structure Keeps (store store' : Store) : Prop where
  events : store.events <+: store'.events
  patterns : store'.patterns = store.patterns
  patternSeq : store'.patternSeq = store.patternSeq
  links : store'.patternEvents = store.patternEvents

theorem Keeps.of_eq {store store' : Store} (hevents : store'.events = store.events)
    (hpatterns : store'.patterns = store.patterns) (hpatternSeq : store'.patternSeq = store.patternSeq)
    (hlinks : store'.patternEvents = store.patternEvents) : Keeps store store' :=
  ⟨hevents ▸ List.prefix_refl _, hpatterns, hpatternSeq, hlinks⟩

theorem Keeps.refl (store : Store) : Keeps store store := .of_eq rfl rfl rfl rfl

theorem keeps_insertEventSummary (store : Store) (event : EventSummary) :
    Keeps store (store.insertEventSummary event).2 :=
  ⟨List.prefix_append _ _, rfl, rfl, rfl⟩

/-- A deletion that finds no event changes nothing. -/
theorem keeps_deleteEventsWhere {store : Store} {p : EventSummary → Bool}
    (h : (store.deleteEventsWhere p).1 = 0) : Keeps store (store.deleteEventsWhere p).2 := by
  -- the number that is reported is the number of the events that go
  have hgone : store.events.filter p = [] := List.length_eq_zero_iff.1 h
  have hevents : (store.events.filter fun e => !p e) = store.events := by
    apply List.filter_eq_self.2
    intro e he
    simpa using List.filter_eq_nil_iff.1 hgone e he
  refine .of_eq hevents rfl rfl ?_
  simp [Store.deleteEventsWhere, hgone]

/-- The command that takes a step that deletes no event is not one that deletes. -/
theorem commandOf_of_keepsEvents {app : App} {action : Action}
    (h : keepsEvents app action = true) :
    ((app.commandOf action).all fun command => !command.deletes) = true := by
  cases action with
  | call id o =>
      rw [App.commandOf, Option.all_map]
      exact h
  | _ => rfl

theorem TableStep.keeps {store store' : Store} {command : Option Command} {es : List Effect}
    (h : TableStep store command es store')
    (hdeletes : (command.all fun command => !command.deletes) = true) : Keeps store store' := by
  cases h with
  | same hsame =>
      exact .of_eq hsame.events hsame.patterns hsame.patternSeq hsame.patternEvents
  | captured => exact keeps_insertEventSummary _ _
  | eventsDeleted | erased => cases hdeletes
  | statusSet => exact .of_eq rfl rfl rfl rfl

theorem keeps_of_appStep {ext : Externals} {app app' : App} {action : Action} {es : List Effect}
    (h : AppStep ext app action app' es) (hkeeps : keepsEvents app action = true)
    (hother : ∀ o, action ≠ .sweep o) : Keeps app.store app'.store :=
  (tableStep_of_appStep h hother).keeps (commandOf_of_keepsEvents hkeeps)

/-! ## Steps of a sweep -/

section Sweep

variable {ext : Recommendations.Externals} {vault : Vault} {gate : DispatchGate} {o : Outside}
  {store : Store} {progress : SweepProgress}

/-- A sweep that begins without anything to expire. -/
theorem keeps_started
    (h : Sweep.step ext vault gate .start o store = some progress)
    (hkeeps : (o.storeFault.isSome || (store.deleteExpiredEvents o.now).1 == 0) = true) :
    Keeps store progress.store ∧
      (progress.pc = .readingState ∨ ∃ entry, progress.pc = .logging entry .readingState) := by
  simp only [Sweep.step] at h
  cases hfault : o.storeFault with
  | some e =>
      rw [hfault] at h
      cases h
      exact ⟨.refl _, Or.inr ⟨_, rfl⟩⟩
  | none =>
      rw [hfault] at h hkeeps
      -- without a fault the condition says that nothing expires
      have hnone : (store.deleteExpiredEvents o.now).1 = 0 := by simpa using hkeeps
      cases h
      refine ⟨keeps_deleteEventsWhere hnone, ?_⟩
      simp only [hnone, Nat.lt_irrefl, if_false, true_or]

theorem keeps_logged {entry : AuditEntry} {next : SweepPc}
    (h : Sweep.step ext vault gate (.logging entry next) o store = some progress) :
    Keeps store progress.store ∧ progress.pc = next := by
  simp only [Sweep.step] at h
  -- an entry that cannot be written is given up, and the sweep goes on
  split at h <;> cases h
  · exact ⟨.refl _, rfl⟩
  · exact ⟨.of_eq rfl rfl rfl rfl, rfl⟩

theorem keeps_of_synthesis {context : SweepContext} {pattern : NewPattern} {pc : SynthesisPc}
    (h : SweepStep vault gate o store (.synthesizing context pattern pc) progress) :
    Keeps store progress.store := by
  cases h with
  | recommended hinsert =>
      rcases Store.insertRecommendation_eq_ok hinsert with ⟨_, _, rfl⟩
      exact .of_eq rfl rfl rfl rfl
  | _ => exact .refl _

theorem keeps_synthesizing {context : SweepContext} {pattern : NewPattern} {pc : SynthesisPc}
    (h : Sweep.step ext vault gate (.synthesizing context pattern pc) o store = some progress) :
    Keeps store progress.store ∧ SynthesisGoes context pattern progress.pc := by
  refine ⟨keeps_of_synthesis (sweepStep_of_step h), ?_⟩
  cases h
  exact synthesisGoes_resume context pattern _

end Sweep

/-! ## The rows of the patterns -/

/-- Every row has an id of its own, and the ids have been given out. -/
structure RowIds (store : Store) : Prop where
  distinct : (store.patterns.map (·.id)).Nodup
  given : ∀ p ∈ store.patterns, ∃ id, p.id = some id ∧ id ≤ store.patternSeq

namespace RowIds

variable {store store' : Store}

theorem eq_of_id (h : RowIds store) {p q : Pattern} (hp : p ∈ store.patterns)
    (hq : q ∈ store.patterns) (hid : p.id = q.id) : p = q :=
  List.inj_on_of_nodup_map h.distinct hp hq hid

theorem keeps (h : RowIds store) (hkeeps : Keeps store store') : RowIds store' where
  distinct := hkeeps.patterns ▸ h.distinct
  given := by
    rw [hkeeps.patterns, hkeeps.patternSeq]
    exact h.given

theorem updated (h : RowIds store) (patternId : Nat) (lastSeenAt : Timestamp)
    (occurrenceCount : Nat) (minutes : Option ℚ) :
    RowIds (store.updatePatternStats patternId lastSeenAt occurrenceCount minutes) := by
  constructor
  · rw [Store.ids_updatePatternStats]
    exact h.distinct
  · intro p hp
    -- an id of a row is an id that a row had before
    have hid := List.mem_map_of_mem (f := (·.id)) hp
    rw [Store.ids_updatePatternStats] at hid
    rcases List.mem_map.1 hid with ⟨q, hq, hsame⟩
    rcases h.given q hq with ⟨id, hgiven, hle⟩
    exact ⟨id, hsame ▸ hgiven, hle⟩

theorem inserted (h : RowIds store) (pattern : Pattern) :
    RowIds (store.insertPattern pattern).2 := by
  constructor
  -- the sequence is ahead of every id it has given out
  · have hfresh : some (store.patternSeq + 1) ∉ store.patterns.map (·.id) := by
      intro hmem
      rcases List.mem_map.1 hmem with ⟨p, hp, hid⟩
      rcases h.given p hp with ⟨id, hid', hle⟩
      rw [hid', Option.some.injEq] at hid
      omega
    simp only [Store.insertPattern, List.map_append]
    exact h.distinct.append (List.nodup_singleton _) (by simpa using hfresh)
  · intro p hp
    rcases List.mem_append.1 hp with hp | hp
    · rcases h.given p hp with ⟨id, hid, hle⟩
      exact ⟨id, hid, hle.trans (Nat.le_succ _)⟩
    · rw [List.mem_singleton.1 hp]
      exact ⟨_, rfl, Nat.le_refl _⟩

end RowIds

/-- A row with an id and a signature. -/
def HasRow (store : Store) (id : Option Nat) (signature : Json) : Prop :=
  ∃ p ∈ store.patterns, p.id = id ∧ p.sequenceSignature = signature

namespace HasRow

variable {store store' : Store} {id : Option Nat} {signature : Json}

theorem of_patterns (h : HasRow store id signature)
    (hpatterns : store'.patterns = store.patterns) : HasRow store' id signature := by
  rcases h with ⟨p, hp, hrow⟩
  exact ⟨p, hpatterns ▸ hp, hrow⟩

theorem updated (h : HasRow store id signature) (patternId : Nat) (lastSeenAt : Timestamp)
    (occurrenceCount : Nat) (minutes : Option ℚ) :
    HasRow (store.updatePatternStats patternId lastSeenAt occurrenceCount minutes) id
      signature := by
  rcases h with ⟨p, hp, hid, hsignature⟩
  refine ⟨_, List.mem_map_of_mem hp, ?_⟩
  split <;> exact ⟨hid, hsignature⟩

theorem inserted (h : HasRow store id signature) (pattern : Pattern) :
    HasRow (store.insertPattern pattern).2 id signature := by
  rcases h with ⟨p, hp, hrow⟩
  exact ⟨p, List.mem_append_left _ hp, hrow⟩

end HasRow

/-- The row that a sweep updates for a known pattern has the signature of the pattern. -/
theorem signature_of_known {store : Store} (hrows : RowIds store) {existing : List Pattern}
    (hexisting : ∀ p ∈ existing, HasRow store p.id p.sequenceSignature)
    {detected : DetectedPattern} {p : Pattern} (hknown : known existing detected = some p)
    {r : Pattern} (hr : r ∈ store.patterns) (hid : r.id = p.id) :
    r.sequenceSignature = (patternRow detected).sequenceSignature := by
  rcases known_eq_some hknown with ⟨hmem, hsignature⟩
  rcases hexisting p hmem with ⟨q, hq, hqid, hqsignature⟩
  -- ids are distinct, so the row of the known pattern is the row it was read from
  have hsame : r = q := hrows.eq_of_id hr hq (hid.trans hqid.symm)
  rw [hsame, hqsignature, hsignature]

end Desktop
end HiddenSteps
