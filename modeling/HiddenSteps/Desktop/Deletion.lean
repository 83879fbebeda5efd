import HiddenSteps.Desktop.Numbering

/-!
# Deletion — what is left after a delete-all

A sweep works for minutes with events it read at its start, while a delete-all clears the tables in
one transaction.  Along the runs whose steps meet `deletionSafe`, nothing that was computed from
events stored before a delete-all is in the store after it.
-/

namespace HiddenSteps
namespace Desktop

open EventStore Patterns PrivacyEngine Systems

/-- The next step of a command is the transaction of a delete-all. -/
def Call.erases (call : Call) (o : Outside) : Bool :=
  match call.pc, call.command, o.storeFault with
  | .start, .deleteAllData, none => true
  | _, _, _ => false

/-- A sweep holds a detected pattern that it does not know, and will insert. -/
def SweepPc.holdsUnknown : SweepPc → Bool
  | .logging _ next => next.holdsUnknown
  | .readingPatterns _ _ detected => !detected.isEmpty
  | .patterns context | .linking context _ | .synthesizing context _ _ =>
      context.rest.any fun detected => (known context.existing detected).isNone
  | _ => false

/-- The transaction of a delete-all runs while the sweep holds no pattern that it will insert. -/
def deletionSafe (app : App) : Action → Bool
  | .call id o =>
      (app.call? id).all fun call => !call.erases o || !app.sweep.holdsUnknown
  | _ => true

/-! ## A delete-all that has returned has erased -/

/-- A delete-all has not started yet, has failed, or has erased after it was invoked. -/
def Call.Erased (history : List Effect) (call : Call) : Prop :=
  call.pc = .start ∨ (∃ message, call.pc = .returned (.error message)) ∨
    ∃ seq, .erased seq ∈ history ∧ call.eventSeq ≤ seq

theorem Call.Erased.append {history : List Effect} {call : Call} (h : call.Erased history)
    (es : List Effect) : call.Erased (history ++ es) := by
  rcases h with h | h | ⟨seq, hmem, hle⟩
  · exact Or.inl h
  · exact Or.inr (Or.inl h)
  · exact Or.inr (Or.inr ⟨seq, List.mem_append_left _ hmem, hle⟩)

/-- Every delete-all that returned without an error erased after it was invoked. -/
structure ErasedBeforeReturn (app : App) (history : List Effect) : Prop where
  calls : ∀ call ∈ app.calls, call.command = .deleteAllData →
    call.eventSeq ≤ app.store.eventSeq ∧ call.Erased history
  returned : ∀ seq, .returned .deleteAllData seq true ∈ history →
    ∃ seq', .erased seq' ∈ history ∧ seq ≤ seq'

theorem erased_of_callStep {call : Call} {o : Outside} {shared : Shared} {progress : Progress}
    {history : List Effect} (hcommand : call.command = .deleteAllData)
    (hseq : call.eventSeq ≤ shared.store.eventSeq) (herased : call.Erased history)
    (h : CallStep call o shared call.pc progress) :
    Call.Erased (history ++ progress.effects) { call with pc := progress.pc } ∧
      ∀ seq, .returned .deleteAllData seq true ∈ progress.effects →
        ∃ seq', .erased seq' ∈ history ∧ seq ≤ seq' := by
  rcases call with ⟨command, pc, eventSeq⟩
  obtain rfl : command = .deleteAllData := hcommand
  have hlater : ∀ {pc' : CallPc} {es : List Effect},
      (∃ seq, .erased seq ∈ history ∧ eventSeq ≤ seq) →
      Call.Erased (history ++ es) ⟨.deleteAllData, pc', eventSeq⟩ :=
    fun ⟨seq, hmem, hle⟩ => Or.inr (Or.inr ⟨seq, List.mem_append_left _ hmem, hle⟩)
  cases h with
  | failed => exact ⟨Or.inr (Or.inl ⟨_, rfl⟩), by simp [Call.fail]⟩
  -- the call was invoked no later than the last event before the transaction
  | erased => exact ⟨Or.inr (Or.inr ⟨_, by simp, hseq⟩), by simp⟩
  | erasedLate => exact ⟨Or.inr (Or.inl ⟨_, rfl⟩), by simp⟩
  | checked hcommand => cases hcommand
  | providerKeyStored hcommand | eventsDeleted hcommand | exported hcommand | statusSet hcommand
  | consentSet hcommand | settingSet hcommand => cases hcommand
  | keyStored | logged =>
      have herased : ∃ seq, .erased seq ∈ history ∧ eventSeq ≤ seq := by
        rcases herased with hpc | ⟨message, hpc⟩ | herased
        · cases hpc
        · cases hpc
        · exact herased
      refine ⟨hlater herased, ?_⟩
      intro seq hmem
      cases List.mem_singleton.1 hmem
      exact herased
  | _ =>
      have herased : ∃ seq, .erased seq ∈ history ∧ eventSeq ≤ seq := by
        rcases herased with hpc | ⟨message, hpc⟩ | herased
        · cases hpc
        · cases hpc
        · exact herased
      exact ⟨hlater herased, by simp [Call.goOn, Call.fail]⟩

theorem command_of_returned {call : Call} {o : Outside} {shared : Shared} {pc : CallPc}
    {progress : Progress} (h : CallStep call o shared pc progress) {command : Command} {seq : Nat}
    {ok : Bool} (hmem : .returned command seq ok ∈ progress.effects) : call.command = command := by
  cases h <;> simp [Call.fail, Call.goOn, Call.finish] at hmem <;> simp [hmem]

theorem eventSeq_le_of_appStep {ext : Externals} {app app' : App} {action : Action}
    {es : List Effect} (h : AppStep ext app action app' es) :
    app.store.eventSeq ≤ app'.store.eventSeq := by
  rcases events_of_appStep h with ⟨_, _, _, _, _, _, hseq, _⟩ | ⟨_, hseq, _⟩ <;> omega

theorem ErasedBeforeReturn.quiet {app app' : App} {history es : List Effect}
    (hinv : ErasedBeforeReturn app history)
    (hcalls : ∀ call ∈ app'.calls, call ∈ app.calls ∨
      call.pc = .start ∧ call.eventSeq ≤ app'.store.eventSeq)
    (hseq : app.store.eventSeq ≤ app'.store.eventSeq) (htask : ∀ e ∈ es, e.task ≠ .command) :
    ErasedBeforeReturn app' (history ++ es) := by
  constructor
  · intro call hcall hcommand
    rcases hcalls call hcall with hold | ⟨hpc, hle⟩
    · rcases hinv.calls call hold hcommand with ⟨hle, herased⟩
      exact ⟨hle.trans hseq, herased.append es⟩
    · exact ⟨hle, Or.inl hpc⟩
  · intro seq hmem
    rcases List.mem_append.1 hmem with hmem | hmem
    · rcases hinv.returned seq hmem with ⟨seq', hmem', hle⟩
      exact ⟨seq', List.mem_append_left _ hmem', hle⟩
    · exact absurd rfl (htask _ hmem)

theorem erasedBeforeReturn_step {ext : Externals} {app app' : App} {history es : List Effect}
    {action : Action} (hinv : ErasedBeforeReturn app history)
    (h : (machine ext).step app action = some (app', es)) :
    ErasedBeforeReturn app' (history ++ es) := by
  have hstep := appStep_of_step h
  have hseq := eventSeq_le_of_appStep hstep
  cases hstep with
  | @launch app input hprocess =>
      refine hinv.quiet ?_ hseq (by simp)
      intro call hcall
      rcases (launch_cases app input).2 with ⟨_, hsame⟩ | ⟨_, _, _, _, hstart⟩
      · rw [App.calls, hsame, hprocess] at hcall
        cases hcall
      · rw [App.calls, hstart] at hcall
        cases hcall
  | exit => exact hinv.quiet (fun call hcall => (by cases hcall)) hseq (by simp)
  | @invoke vault database process command =>
      refine hinv.quiet ?_ hseq (by simp)
      intro call hcall
      rcases List.mem_append.1 hcall with hcall | hcall
      · exact Or.inl hcall
      · rw [List.mem_singleton.1 hcall]
        exact Or.inr ⟨rfl, le_rfl⟩
  | operate | notify => exact hinv.quiet (fun call hcall => Or.inl hcall) hseq (by simp)
  | observe hobserve =>
      refine hinv.quiet (fun call hcall => Or.inl hcall) hseq ?_
      intro e he
      rw [task_of_observationStep hobserve e he]
      decide
  | sweep hsweep =>
      refine hinv.quiet (fun call hcall => Or.inl hcall) hseq ?_
      intro e he
      rw [task_of_sweepStep hsweep e he]
      decide
  | @call vault database process id o call progress hcall hcallStep =>
      have hmem : call ∈ process.calls := List.mem_of_getElem? hcall
      have hcalls : call.command = .deleteAllData →
          call.eventSeq ≤ (Shared.mk vault database process.gate).store.eventSeq ∧
            call.Erased history := hinv.calls call hmem
      constructor
      · intro call' hcall' hcommand
        rcases List.mem_or_eq_of_mem_set hcall' with hold | rfl
        · rcases hinv.calls call' hold hcommand with ⟨hle, herased⟩
          exact ⟨hle.trans hseq, herased.append _⟩
        · replace hcommand : call.command = .deleteAllData := hcommand
          rcases hcalls hcommand with ⟨hle, herased⟩
          exact ⟨hle.trans hseq, (erased_of_callStep hcommand hle herased hcallStep).1⟩
      · intro seq hreturned
        rcases List.mem_append.1 hreturned with hreturned | hreturned
        · rcases hinv.returned seq hreturned with ⟨seq', hmem', hle⟩
          exact ⟨seq', List.mem_append_left _ hmem', hle⟩
        · have hcommand := command_of_returned hcallStep hreturned
          rcases hcalls hcommand with ⟨hle, herased⟩
          obtain ⟨seq', hmem', hle'⟩ :=
            (erased_of_callStep hcommand hle herased hcallStep).2 seq hreturned
          exact ⟨seq', List.mem_append_left _ hmem', hle'⟩

/-! ## What is computed from later events -/

/-- A detected pattern is made of events stored after a number of them. -/
def After (seq : Nat) (detected : DetectedPattern) : Prop :=
  ∀ id ∈ detected.contributingEventIds, seq < id

/-- What a sweep has still to handle is made of later events, or known under an id that is gone. -/
def SweepContext.Cleared (seq : Nat) (store : Store) (context : SweepContext) : Prop :=
  ∀ detected ∈ context.rest, After seq detected ∨
    ∃ p, known context.existing detected = some p ∧
      ∀ id, p.id = some id → store.hasPattern id = false

def SweepPc.Cleared (seq : Nat) (store : Store) : SweepPc → Prop
  | .logging _ next => next.Cleared seq store
  | .readingPatterns _ _ detected => ∀ d ∈ detected, After seq d
  | .patterns context => context.Cleared seq store
  | .linking context pattern | .synthesizing context pattern _ =>
      context.Cleared seq store ∧
        (After seq pattern.detected ∨ store.hasPattern pattern.id = false)
  | _ => True

/-- The store and the sweep hold nothing that was computed from the first events. -/
structure Cleared (seq : Nat) (store : Store) (sweep : SweepPc) (history : List Effect) : Prop where
  bound : seq ≤ store.eventSeq
  events : ∀ event ∈ store.events, ∀ id, event.id = some id → seq < id
  patterns : ∀ id detected, store.hasPattern id = true →
    .patternStored id detected ∈ history → After seq detected
  links : ∀ link ∈ store.patternEvents, seq < link.2
  recommendations : ∀ r ∈ store.recommendations, ∀ id detected, r.id = some id →
    .recommendationStored id detected ∈ history → After seq detected
  sweep : sweep.Cleared seq store

/-- Ids that are gone stay gone. -/
theorem SweepPc.Cleared.mono {seq bound : Nat} {store store' : Store}
    (hgone : ∀ id ≤ bound, store.hasPattern id = false → store'.hasPattern id = false)
    {pc : SweepPc} (hnumbered : pc.Numbered bound) (h : pc.Cleared seq store) :
    pc.Cleared seq store' := by
  have hcontext : ∀ context : SweepContext, context.Numbered bound →
      context.Cleared seq store → context.Cleared seq store' := by
    intro context hnumbered h detected hmem
    rcases h detected hmem with hafter | ⟨p, hknown, hid⟩
    · exact Or.inl hafter
    · refine Or.inr ⟨p, hknown, fun id hpid => hgone id ?_ (hid id hpid)⟩
      exact hnumbered p (List.mem_of_find?_eq_some hknown) id hpid
  induction pc with
  | logging entry next ih => exact ih hnumbered h
  | readingPatterns => exact h
  | patterns => exact hcontext _ hnumbered h
  | linking => exact ⟨hcontext _ hnumbered.1 h.1, h.2.imp_right (hgone _ hnumbered.2)⟩
  | synthesizing => exact ⟨hcontext _ hnumbered.1 h.1, h.2.imp_right (hgone _ hnumbered.2.1)⟩
  | _ => trivial

theorem hasPattern_of_shrinks {store store' : Store} (h : Shrinks store store') {id : Nat}
    (hgone : store.hasPattern id = false) : store'.hasPattern id = false := by
  rw [← Bool.not_eq_true, hasPattern_iff] at hgone ⊢
  exact fun ⟨p, hp, hid⟩ => hgone ⟨p, h.patterns p hp, hid⟩

/-- A step that adds no row keeps a cleared store cleared; the events it adds are later ones. -/
theorem Cleared.of_shrinks {seq : Nat} {store store' : Store} {sweep sweep' : SweepPc}
    {history es : List Effect} (h : Cleared seq store sweep history)
    (hshrinks : Shrinks store store') (hbound : store.eventSeq ≤ store'.eventSeq)
    (hevents : ∀ event ∈ store'.events, event ∈ store.events ∨
      event.id = some (store.eventSeq + 1))
    (hsweep : sweep'.Cleared seq store) (hrows : ∀ e ∈ es, e.storesRow = false) {bound : Nat}
    (hnumbered : sweep'.Numbered bound) :
    Cleared seq store' sweep' (history ++ es) := by
  have hold : ∀ e ∈ history ++ es, e.storesRow = true → e ∈ history :=
    fun e => mem_of_storesRow hrows
  refine ⟨h.bound.trans hbound, ?_, ?_,
    fun link hlink => h.links link (hshrinks.links link hlink), ?_,
    hsweep.mono (fun id _ => hasPattern_of_shrinks hshrinks) hnumbered⟩
  · intro event hevent id hid
    rcases hevents event hevent with hevent | hnew
    · exact h.events event hevent id hid
    · rw [hnew, Option.some.injEq] at hid
      have hle := h.bound
      omega
  · intro id d hpattern hd
    refine h.patterns id d ?_ (hold _ hd rfl)
    by_contra hgone
    rw [Bool.not_eq_true] at hgone
    rw [hasPattern_of_shrinks hshrinks hgone] at hpattern
    cases hpattern
  · intro r' hr' id d hid hd
    rcases hshrinks.recommendations r' hr' with ⟨r, hr, hrid⟩
    exact h.recommendations r hr id d ((id_eq_of_withoutStatus hrid).symm.trans hid)
      (hold _ hd rfl)

/-- The transaction of a delete-all clears the store of everything, if the sweep holds nothing that
it will insert. -/
theorem cleared_of_erased {store : Store} {sweep : SweepPc} {history : List Effect}
    {now : Timestamp} (hunknown : sweep.holdsUnknown = false) :
    Cleared store.eventSeq (store.deleteAllData now) sweep history := by
  refine ⟨le_rfl, fun event hevent => (by cases hevent), fun id d hpattern => (by cases hpattern),
    fun link hlink => (by cases hlink), fun r hr => (by cases hr), ?_⟩
  have hcontext : ∀ context : SweepContext,
      (context.rest.any fun detected => (known context.existing detected).isNone) = false →
      context.Cleared store.eventSeq (store.deleteAllData now) := by
    intro context h detected hmem
    have hknown := List.any_eq_false.1 h detected hmem
    cases hfind : known context.existing detected with
    | none => simp [hfind] at hknown
    | some p => exact Or.inr ⟨p, rfl, fun _ _ => rfl⟩
  induction sweep with
  | logging entry next ih => exact ih hunknown
  | readingPatterns state events detected =>
      intro d hd
      cases detected with
      | nil => cases hd
      | cons => cases hunknown
  | patterns => exact hcontext _ hunknown
  | linking | synthesizing => exact ⟨hcontext _ hunknown, Or.inr rfl⟩
  | _ => trivial

/-! ## Steps of the sweep -/

@[simp] theorem hasPattern_updatePatternStats (store : Store) (patternId : Nat)
    (lastSeenAt : Timestamp) (occurrenceCount : Nat) (minutes : Option ℚ) (id : Nat) :
    (store.updatePatternStats patternId lastSeenAt occurrenceCount minutes).hasPattern id =
      store.hasPattern id := by
  simp only [Store.hasPattern, Store.updatePatternStats, List.any_map]
  congr 1
  funext p
  simp only [Function.comp]
  split <;> rfl

theorem hasPattern_insertPattern (store : Store) (pattern : Pattern) (id : Nat) :
    (store.insertPattern pattern).2.hasPattern id =
      (store.hasPattern id || store.patternSeq + 1 == id) := by
  simp [Store.hasPattern, Store.insertPattern]

theorem Cleared.updated {seq : Nat} {store : Store} {context : SweepContext}
    {detected : DetectedPattern} {rest : List DetectedPattern} {p : Pattern} {id : Nat}
    {history : List Effect} (h : Cleared seq store (.patterns context) history)
    (hnumbered : SweepPc.Numbered store.patternSeq (.patterns context))
    (hrest : context.rest = detected :: rest)
    (hknown : known context.existing detected = some p) (hid : p.id = some id) :
    Cleared seq
      (store.updatePatternStats id detected.lastSeenAt detected.occurrenceCount
        (some detected.estimatedMinutesPerOccurrence))
      (.patterns { context with rest := rest })
      (history ++ if store.hasPattern id then [.patternStored id detected] else []) := by
  refine ⟨h.bound, h.events, ?_, h.links, ?_, ?_⟩
  · intro id' d hpattern hd
    rw [hasPattern_updatePatternStats] at hpattern
    rcases List.mem_append.1 hd with hd | hd
    · exact h.patterns id' d hpattern hd
    · split at hd
      · rename_i hthere
        cases List.mem_singleton.1 hd
        -- the row is there, so the pattern is not one whose id is gone
        rcases h.sweep detected (by simp [hrest]) with hafter | ⟨p', hknown', hgone⟩
        · exact hafter
        · rw [hknown, Option.some.injEq] at hknown'
          rw [hgone id (hknown' ▸ hid)] at hthere
          cases hthere
      · simp at hd
  · intro r hr id' d hrid hd
    refine h.recommendations r hr id' d hrid ((List.mem_append.1 hd).resolve_right ?_)
    intro hd
    split at hd <;> simp at hd
  · have hsweep : SweepPc.Cleared seq store (.patterns { context with rest := rest }) :=
      fun d hd => h.sweep d (by simp [hrest, hd])
    have hnumbered : SweepPc.Numbered store.patternSeq (.patterns { context with rest := rest }) :=
      hnumbered
    exact hsweep.mono (fun id' _ hgone => by simpa using hgone) hnumbered

theorem Cleared.inserted {seq : Nat} {store : Store} {context : SweepContext}
    {detected : DetectedPattern} {rest : List DetectedPattern} {history : List Effect}
    (h : Cleared seq store (.patterns context) history)
    (hnumbered : Numbered store (.patterns context) history)
    (hrest : context.rest = detected :: rest)
    (hknown : known context.existing detected = none) :
    Cleared seq (store.insertPattern (patternRow detected)).2
      (.linking { context with rest := rest }
        ⟨(store.insertPattern (patternRow detected)).1, detected⟩)
      (history ++ [.patternStored (store.insertPattern (patternRow detected)).1 detected]) := by
  have hafter : After seq detected := by
    rcases h.sweep detected (by simp [hrest]) with hafter | ⟨p, hsome, _⟩
    · exact hafter
    · rw [hknown] at hsome
      cases hsome
  refine ⟨h.bound, h.events, ?_, h.links, ?_, ?_, Or.inl hafter⟩
  · intro id d hpattern hd
    rcases List.mem_append.1 hd with hd | hd
    · rw [hasPattern_insertPattern, Bool.or_eq_true] at hpattern
      rcases hpattern with hpattern | hnew
      · exact h.patterns id d hpattern hd
      · -- the new id has not been reported before
        have hle := hnumbered.patternIds id d hd
        rw [beq_iff_eq] at hnew
        omega
    · cases List.mem_singleton.1 hd
      exact hafter
  · intro r hr id d hrid hd
    exact h.recommendations r hr id d hrid (by simpa using hd)
  · have hsweep : SweepPc.Cleared seq store (.patterns { context with rest := rest }) :=
      fun d hd => h.sweep d (by simp [hrest, hd])
    have hbound : SweepPc.Numbered store.patternSeq (.patterns { context with rest := rest }) :=
      hnumbered.sweep
    refine hsweep.mono ?_ hbound
    intro id hle hgone
    rw [hasPattern_insertPattern, hgone, Bool.false_or, beq_eq_false_iff_ne]
    omega

theorem Cleared.linked {seq : Nat} {store store' : Store} {context : SweepContext}
    {pattern : NewPattern} {history : List Effect}
    (h : Cleared seq store (.linking context pattern) history)
    (hnumbered : SweepPc.Numbered store.patternSeq (.linking context pattern))
    (hstore : store' = store ∨ store' = Desktop.linked store pattern) :
    Cleared seq store' (.synthesizing context pattern .getProvider) history := by
  have hsweep : SweepPc.Cleared seq store (.synthesizing context pattern .getProvider) := h.sweep
  rcases hstore with rfl | rfl
  · exact ⟨h.bound, h.events, h.patterns, h.links, h.recommendations, hsweep⟩
  · obtain ⟨links, hlinks, hmem⟩ := Store.linkPatternEvents_eq store pattern.id
      pattern.detected.contributingEventIds
    rw [Desktop.linked, hlinks]
    refine ⟨h.bound, h.events, h.patterns, ?_, h.recommendations, hsweep⟩
    intro link hlink
    rcases List.mem_append.1 hlink with hlink | hlink
    · exact h.links link hlink
    -- a new link needs the row of its pattern, which is gone unless the pattern is a later one
    · rcases hmem link hlink with ⟨_, hid, hthere⟩
      rcases h.sweep.2 with hafter | hgone
      · exact hafter _ hid
      · rw [hgone] at hthere
        cases hthere

theorem Cleared.recommended {seq : Nat} {store store' : Store} {context : SweepContext}
    {pattern : NewPattern} {recommendation : Recommendation} {id : Nat} {history : List Effect}
    (h : Cleared seq store (.synthesizing context pattern (.inserting recommendation)) history)
    (hnumbered : Numbered store (.synthesizing context pattern (.inserting recommendation))
      history)
    (hinsert : store.insertRecommendation recommendation = .ok (id, store')) :
    Cleared seq store' (.patterns context)
      (history ++ [.recommendationStored id pattern.detected]) := by
  rcases Store.insertRecommendation_eq_ok hinsert with ⟨hthere, rfl, rfl⟩
  have hafter : After seq pattern.detected := by
    rcases h.sweep.2 with hafter | hgone
    · exact hafter
    -- the foreign key refuses a recommendation for a row that is gone
    · rw [hnumbered.sweep.2.2 _ rfl, hgone] at hthere
      cases hthere
  refine ⟨h.bound, h.events, fun id d hpattern hd => h.patterns id d hpattern (by simpa using hd),
    h.links, ?_, h.sweep.1⟩
  intro r hr id d hrid hd
  rcases List.mem_append.1 hd with hd | hd
  · rcases List.mem_append.1 hr with hr | hr
    · exact h.recommendations r hr id d hrid hd
    · rw [List.mem_singleton.1 hr, Option.some.injEq] at hrid
      have hle := hnumbered.recommendationIds id d hd
      omega
  · cases List.mem_singleton.1 hd
    exact hafter

theorem Cleared.sweepStep {seq : Nat} {vault : Vault} {gate : DispatchGate} {o : Outside}
    {store : Store} {pc : SweepPc} {progress : SweepProgress} {history : List Effect}
    (h : Cleared seq store pc history) (hnumbered : Numbered store pc history)
    (hstep : SweepStep vault gate o store pc progress) :
    Cleared seq progress.store progress.pc (history ++ progress.effects) := by
  have hnext := (hnumbered.sweepStep hstep).sweep
  have hsweep := h.sweep
  have hevents : ∀ event ∈ store.events, event ∈ store.events ∨
      event.id = some (store.eventSeq + 1) := fun _ => Or.inl
  cases hstep with
  | started hstore hpc =>
      refine h.of_shrinks ?_ ?_ (fun event hmem => Or.inl ?_) ?_ (by simp) hnext
      · rcases hstore with rfl | rfl
        · exact .refl _
        · exact shrinks_deleteEventsWhere _ _
      · rcases hstore with rfl | rfl <;> exact le_rfl
      · rcases hstore with rfl | rfl
        · exact hmem
        · exact mem_of_mem_deleteEventsWhere hmem
      · rcases hpc with rfl | ⟨entry, rfl⟩ <;> trivial
  | logged hstore =>
      rcases hstore with rfl | rfl
      · exact h.of_shrinks (.refl _) le_rfl hevents hsweep (by simp) hnext
      · refine h.of_shrinks ?_ le_rfl hevents hsweep (by simp) hnext
        exact .of_eq rfl rfl rfl rfl rfl
  | @eventsRead state events hread hdetected =>
      -- the events of the store are later ones, and so is what is detected in them
      refine h.of_shrinks (.refl _) le_rfl hevents ?_ (by simp) hnext
      intro d hd id hid
      rcases mem_of_detect (hdetected.mem_iff.1 hd) hid with ⟨event, hmem, heventId⟩
      rw [hread] at hmem
      exact h.events event (Store.mem_of_mem_listRecentEvents (List.mem_reverse.1 hmem)) id heventId
  | patternsRead =>
      exact h.of_shrinks (.refl _) le_rfl hevents (fun d hd => Or.inl (hsweep d hd)) (by simp) hnext
  | skipped hrest =>
      exact h.of_shrinks (.refl _) le_rfl hevents (fun d hd => hsweep d (by simp [hrest, hd]))
        (by simp) hnext
  | updated hrest hknown hid => exact h.updated hnumbered.sweep hrest hknown hid
  | inserted hrest hknown => exact h.inserted hnumbered hrest hknown
  | linked hstore =>
      rw [List.append_nil]
      exact h.linked hnumbered.sweep hstore
  | synthesisEnded hpc =>
      refine h.of_shrinks (.refl _) le_rfl hevents ?_ (by simp) hnext
      rcases hpc with rfl | ⟨entry, rfl⟩ <;> exact hsweep.1
  | recommended hinsert => exact h.recommended hnumbered hinsert
  | providerRead | providerBuilt | allowed | requested | again | answered =>
      exact h.of_shrinks (.refl _) le_rfl hevents hsweep (by simp [Effect.storesRow]) hnext
  | _ => exact h.of_shrinks (.refl _) le_rfl hevents trivial (by simp) hnext

/-! ## Runs -/

theorem store_of_erased {call : Call} {o : Outside} {shared : Shared} {progress : Progress}
    (h : CallStep call o shared call.pc progress) {seq : Nat}
    (hmem : .erased seq ∈ progress.effects) :
    call.erases o = true ∧ seq = shared.store.eventSeq ∧
      progress.shared.store = shared.store.deleteAllData o.now := by
  rcases call with ⟨command, pc, eventSeq⟩
  cases h with
  | erased hcommand hstore | erasedLate hcommand hstore =>
      obtain rfl : command = .deleteAllData := hcommand
      exact ⟨by simp [Call.erases, hstore], by simpa using hmem, rfl⟩
  | _ => simp [Call.fail, Call.goOn, Call.finish] at hmem

/-- What a run keeps: the numbering, that delete-alls erase, and that they erase for good. -/
structure DeletionInvariant (app : App) (history : List Effect) : Prop where
  numbered : app.Numbered history
  returned : ErasedBeforeReturn app history
  cleared : ∀ seq, .erased seq ∈ history → Cleared seq app.store app.sweep history

theorem deletionInvariant_step {ext : Externals} {app app' : App} {history es : List Effect}
    {action : Action} (hinv : DeletionInvariant app history)
    (hsafe : deletionSafe app action = true)
    (h : (machine ext).step app action = some (app', es)) :
    DeletionInvariant app' (history ++ es) := by
  have hnumbered := numbered_step hinv.numbered h
  refine ⟨hnumbered, erasedBeforeReturn_step hinv.returned h, ?_⟩
  intro seq hseq
  have hstep := appStep_of_step h
  have htables := tableStep_of_appStep hstep
  have hsweep := sweep_of_appStep hstep
  -- the events that a step adds have the next id
  have hevents : ∀ event ∈ app'.store.events, event ∈ app.store.events ∨
      event.id = some (app.store.eventSeq + 1) := by
    rcases events_of_appStep hstep with ⟨new, _, _, _, hid, hnew, _⟩ | ⟨hold, _⟩
    · intro event hmem
      rw [hnew] at hmem
      rcases List.mem_append.1 hmem with hmem | hmem
      · exact Or.inl hmem
      · exact Or.inr (List.mem_singleton.1 hmem ▸ hid)
    · exact fun event hmem => Or.inl (hold event hmem)
  have hbound := eventSeq_le_of_appStep hstep
  have hquiet : (∀ o, action ≠ .sweep o) → .erased seq ∈ history →
      Cleared seq app'.store app'.sweep (history ++ es) := by
    intro hother hold
    rcases hsweep hother with ⟨htask, hpc⟩
    refine (hinv.cleared seq hold).of_shrinks (htables hother).shrinks hbound hevents ?_
      (fun e he => storesRow_of_task (htask e he)) hnumbered.sweep
    rcases hpc with hpc | hpc <;> rw [hpc]
    · exact (hinv.cleared seq hold).sweep
    · trivial
  rcases List.mem_append.1 hseq with hold | hnew
  · -- a delete-all that has erased before: what it cleared stays cleared
    cases hstep with
    | sweep hsweepStep => exact (hinv.cleared seq hold).sweepStep hinv.numbered hsweepStep
    | _ => exact hquiet (by rintro o ⟨⟩) hold
  · -- a delete-all that erases in this step: the guard makes it clear everything
    cases hstep with
    | sweep hsweepStep => cases task_of_sweepStep hsweepStep _ hnew
    | observe hobserve => cases task_of_observationStep hobserve _ hnew
    | @call vault database process id o call progress hcall hcallStep =>
        rcases store_of_erased hcallStep hnew with ⟨herases, rfl, hstore⟩
        have hunknown : process.sweep.holdsUnknown = false := by
          simpa [deletionSafe, App.call?, hcall, herases, App.sweep] using hsafe
        show Cleared _ progress.shared.store process.sweep _
        rw [hstore]
        exact cleared_of_erased hunknown
    | _ => simp at hnew

/-- Along every run whose steps meet `deletionSafe`, once a delete-all has returned, every pattern,
link and recommendation in the store is computed from events stored after it was invoked. -/
theorem deletion_final_of_deletionSafe {ext : Externals} {app : App} {history : List Effect}
    (hreach : (machine ext).Reach App.Initial
      (fun app action => deletionSafe app action = true) app history)
    {seq : Nat} (hreturned : .returned .deleteAllData seq true ∈ history) :
    (∀ p ∈ app.store.patterns, ∃ id, p.id = some id ∧
        (∃ detected, .patternStored id detected ∈ history) ∧
        ∀ detected, .patternStored id detected ∈ history → After seq detected) ∧
      (∀ link ∈ app.store.patternEvents, seq < link.2) ∧
      ∀ r ∈ app.store.recommendations, ∃ id, r.id = some id ∧
        (∃ detected, .recommendationStored id detected ∈ history) ∧
        ∀ detected, .recommendationStored id detected ∈ history → After seq detected := by
  have hinv : DeletionInvariant app history := by
    refine hreach.invariant DeletionInvariant ?_ ?_
    · intro app hinitial
      have hcalls : app.calls = [] := by rw [App.calls, hinitial.2]
      refine ⟨?_, ⟨?_, by simp⟩, by simp⟩
      · rw [App.Numbered, hinitial.store_eq, hinitial.sweep_eq]
        exact ⟨fun _ hp => (by cases hp), by simp, fun _ hr => (by cases hr), by simp, trivial⟩
      · rw [hcalls]
        rintro call ⟨⟩
    · intro app history action app' es hinv hsafe hstep
      exact deletionInvariant_step hinv hsafe hstep
  rcases hinv.returned.returned seq hreturned with ⟨seq', herased, hle⟩
  have hcleared := hinv.cleared seq' herased
  have hafter : ∀ detected, After seq' detected → After seq detected :=
    fun _ h id hid => lt_of_le_of_lt hle (h id hid)
  refine ⟨?_, fun link hlink => lt_of_le_of_lt hle (hcleared.links link hlink), ?_⟩
  · intro p hp
    rcases hinv.numbered.patterns p hp with ⟨id, hid, hstored⟩
    have hthere : app.store.hasPattern id = true := hasPattern_iff.2 ⟨p, hp, hid⟩
    exact ⟨id, hid, hstored, fun d hd => hafter d (hcleared.patterns id d hthere hd)⟩
  · intro r hr
    rcases hinv.numbered.recommendations r hr with ⟨id, hid, hstored⟩
    exact ⟨id, hid, hstored, fun d hd => hafter d (hcleared.recommendations r hr id d hid hd)⟩

/-- A delete-all as a call of a number, from its transaction to its return. -/
def Action.deleting (id : Nat) : List Action := Action.complete id .deleteAllData 3

/-- Capture, delete all, capture again, and sweep. -/
def deletedRun : List Action :=
  .launch (.plain (.repeating 1) [.measured]) :: Action.consenting 0 2 ++ Action.capturing ++
    Action.deleting 3 ++ Action.consenting 4 2 ++ Action.capturing ++
    Action.sweeping (focusPattern 7) 3

theorem deletion_final_deletedRun :
    ∃ app history,
      (machine .reference).Reach App.Initial
        (fun app action => deletionSafe app action = true) app history ∧
      .returned .deleteAllData 6 true ∈ history ∧
      ∃ p ∈ app.store.patterns, ∃ id, p.id = some id ∧
        (∃ detected, .patternStored id detected ∈ history) ∧
        ∀ detected, .patternStored id detected ∈ history → After 6 detected := by
  obtain ⟨app, history, hreach, htest⟩ := exists_run
    (fun app action => deletionSafe app action = true)
    (fun app history =>
      decide (.returned .deleteAllData 6 true ∈ history) && !app.store.patterns.isEmpty)
    deletedRun (by decide +kernel)
  simp only [Bool.and_eq_true, decide_eq_true_eq, Bool.not_eq_true',
    List.isEmpty_eq_false_iff_exists_mem] at htest
  rcases htest with ⟨hreturned, p, hp⟩
  exact ⟨app, history, hreach, hreturned, p, hp,
    (deletion_final_of_deletionSafe hreach hreturned).1 p hp⟩

/-- A sweep inserts a pattern of deleted events after the delete-all has returned. -/
theorem pattern_after_deletion :
    ¬ ∀ ext app history, (machine ext).Reach App.Initial Machine.always app history →
      ∀ seq, .returned .deleteAllData seq true ∈ history →
        (∀ p ∈ app.store.patterns, ∃ id, p.id = some id ∧
            (∃ detected, .patternStored id detected ∈ history) ∧
            ∀ detected, .patternStored id detected ∈ history → After seq detected) ∧
          (∀ link ∈ app.store.patternEvents, seq < link.2) ∧
          ∀ r ∈ app.store.recommendations, ∃ id, r.id = some id ∧
            (∃ detected, .recommendationStored id detected ∈ history) ∧
            ∀ detected, .recommendationStored id detected ∈ history → After seq detected := by
  intro h
  obtain ⟨app, history, hreach, htest⟩ := exists_run Machine.always
    (fun app history =>
      decide (.returned .deleteAllData 6 true ∈ history ∧
        .patternStored 1 (focusPattern 1) ∈ history ∧
        app.store.patterns.map Pattern.id = [some 1]))
    (.launch (.plain (.repeating 1) [.measured]) :: Action.consenting 0 2 ++
      Action.capturing ++ Action.sweeping (focusPattern 1) 1 ++ Action.deleting 3 ++
      [.sweep (.plain 0)]) (by decide +kernel)
  rcases of_decide_eq_true htest with ⟨hreturned, hstored, hids⟩
  rcases List.mem_map.1 (hids ▸ List.mem_singleton_self (some 1)) with ⟨p, hp, hid⟩
  rcases (h _ app history hreach 6 hreturned).1 p hp with ⟨id, hid', _, hafter⟩
  rw [hid, Option.some.injEq] at hid'
  subst hid'
  exact absurd (hafter _ hstored 1 (by decide)) (by decide)

end Desktop
end HiddenSteps
