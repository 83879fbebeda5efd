import HiddenSteps.Desktop.Explanations
import HiddenSteps.Desktop.Revocation

/-!
# Exposure — how often a pattern is sent, and to whom

Only a new pattern is sent to a provider.  A sweep has two attempts for it, both at the provider it
has built first; an interrupted sweep gives its attempts up, and a later one finds the pattern known.
-/

namespace HiddenSteps
namespace Desktop

open EventStore Patterns PrivacyEngine Recommendations Systems

/-! ## The pattern of a request -/

/-- A prompt names the id that it is made with. -/
theorem buildPrompt_injective {detected : DetectedPattern} {hint hint' : String}
    (h : buildPrompt hint detected = buildPrompt hint' detected) : hint = hint' := by
  unfold buildPrompt at h
  simp only [String.append_left_inj, String.append_right_inj] at h
  exact h

/-- The request for a detected pattern names the id of its row. -/
theorem synthesisRequest_injective {detected : DetectedPattern} {id id' : Nat}
    (h : synthesisRequest id detected = synthesisRequest id' detected) : id = id' := by
  simp only [synthesisRequest, CompletionRequest.mk.injEq, true_and, and_true] at h
  have hdigits : Nat.toDigits 10 id = Nat.toDigits 10 id' := by
    simpa only [Nat.toString_eq_ofList_toDigits, String.ofList_inj] using buildPrompt_injective h
  rw [← @Nat.ofDigitChars_ten_toDigits id, hdigits, Nat.ofDigitChars_ten_toDigits]

/-- A request about the pattern with an id. -/
def Effect.asksFor (id : Nat) : Effect → Bool
  | .requested dispatch _ => dispatch.request == synthesisRequest id dispatch.detected
  | _ => false

theorem asksFor_of_task {e : Effect} {id : Nat} (h : e.task ≠ .sweep) : e.asksFor id = false := by
  cases e <;> first | exact absurd rfl h | rfl

/-! ## The attempts that are left -/

def SynthesisPc.attemptsLeft : SynthesisPc → Nat
  | .requesting gated => gated.attempts.left
  -- the request of one of them has been sent
  | .awaiting gated => gated.attempts.left - 1
  | .inserting _ => 0
  | _ => 2

/-- The attempts that a sweep has left for a pattern. -/
def SweepPc.attemptsLeft (id : Nat) : SweepPc → Nat
  | .logging _ next => next.attemptsLeft id
  | .linking _ pattern => if pattern.id = id then 2 else 0
  | .synthesizing _ pattern pc => if pattern.id = id then pc.attemptsLeft else 0
  | _ => 0

/-- The provider behind the gate that a synthesis asks through. -/
def SynthesisPc.asking : SynthesisPc → Option Provider
  | .requesting gated => some gated.provider
  | .awaiting gated => some gated.provider
  | _ => none

def SweepPc.asking (id : Nat) : SweepPc → Option Provider
  | .logging _ next => next.asking id
  | .synthesizing _ pattern pc => if pattern.id = id then pc.asking else none
  | _ => none

/-- The requests that there may be about a pattern, once the ids up to some number are given out. -/
def allowance (id seq : Nat) : Nat := if id ≤ seq then 2 else 0

theorem allowance_le (id seq : Nat) : allowance id seq ≤ 2 := by
  unfold allowance
  split
  · exact Nat.le_refl 2
  · exact Nat.zero_le 2

@[simp] theorem attemptsLeft_done {id : Nat} {context : SweepContext} {pattern : NewPattern}
    (log : Option AuditEntry) :
    (Synthesis.resume context pattern (.done log)).attemptsLeft id = 0 := by
  cases log <;> rfl

@[simp] theorem asking_done {id : Nat} {context : SweepContext} {pattern : NewPattern}
    (log : Option AuditEntry) :
    (Synthesis.resume context pattern (.done log)).asking id = none := by
  cases log <;> rfl

/-! ## One step of a sweep -/

/-- What a step of a sweep asks about a pattern. -/
structure Asks (id : Nat) (store : Store) (pc : SweepPc) (progress : SweepProgress) : Prop where
  /-- A request is paid from the attempts left, or by the pattern's having been inserted. -/
  pays : progress.effects.countP (Effect.asksFor id) + progress.pc.attemptsLeft id +
    allowance id store.patternSeq ≤ pc.attemptsLeft id + allowance id progress.store.patternSeq
  asked : ∀ dispatch consent, .requested dispatch consent ∈ progress.effects →
    dispatch.request = synthesisRequest id dispatch.detected →
      pc.asking id = some dispatch.provider
  /-- The provider is chosen before the first attempt. -/
  chosen : ∀ provider, progress.pc.asking id = some provider →
    pc.asking id = some provider ∨ (pc.asking id = none ∧ pc.attemptsLeft id = 2)

section Sweep

variable {ext : Recommendations.Externals} {vault : Vault} {gate : DispatchGate} {o : Outside}
  {store : Store} {id : Nat}

/-- A step that asks nothing, and goes where no provider is asked. -/
theorem Asks.of_silent {pc : SweepPc} {progress : SweepProgress}
    (hseq : progress.store.patternSeq = store.patternSeq)
    (hleft : progress.pc.attemptsLeft id ≤ pc.attemptsLeft id)
    (hasking : progress.pc.asking id = none)
    (hes : ∀ dispatch consent, .requested dispatch consent ∉ progress.effects) :
    Asks id store pc progress where
  pays := by
    have hzero : progress.effects.countP (Effect.asksFor id) = 0 := by
      refine List.countP_eq_zero.2 fun e he => ?_
      cases e with
      | requested dispatch consent => exact absurd he (hes dispatch consent)
      | _ => exact Bool.false_ne_true
    rw [hzero, hseq, Nat.zero_add]
    exact Nat.add_le_add_right hleft _
  asked := fun dispatch consent h => absurd h (hes dispatch consent)
  chosen := by
    intro provider h
    rw [hasking] at h
    cases h

/-- A step of the synthesis for another pattern. -/
theorem asks_other {context : SweepContext} {pattern : NewPattern} {pc : SynthesisPc}
    {progress : SynthesisProgress} (hid : pattern.id ≠ id)
    (hseq : progress.store.patternSeq = store.patternSeq)
    (hes : ∀ dispatch consent, .requested dispatch consent ∈ progress.effects →
      dispatch.request = synthesisRequest pattern.id dispatch.detected) :
    Asks id store (.synthesizing context pattern pc)
      ⟨progress.store, Synthesis.resume context pattern progress.next, progress.effects⟩ where
  pays := by
    have hzero : progress.effects.countP (Effect.asksFor id) = 0 := by
      refine List.countP_eq_zero.2 fun e he hasks => ?_
      cases e with
      | requested dispatch consent =>
          exact hid (synthesisRequest_injective
            ((hes dispatch consent he).symm.trans (beq_iff_eq.1 hasks)))
      | _ => cases hasks
    have hleft : (Synthesis.resume context pattern progress.next).attemptsLeft id = 0 := by
      cases progress.next with
      | goOn pc => exact if_neg hid
      | done log => exact attemptsLeft_done log
    simp only [hzero, hleft, hseq]
    omega
  asked := fun dispatch consent he hasks =>
    absurd (synthesisRequest_injective ((hes dispatch consent he).symm.trans hasks)) hid
  chosen := by
    intro provider h
    cases hnext : progress.next with
    | goOn pc => simp [hnext, Synthesis.resume, SweepPc.asking, hid] at h
    | done log => simp [hnext] at h

/-- What a synthesis requests is asked about its own pattern; it inserts no pattern. -/
theorem request_of_synthesis {context : SweepContext} {pattern : NewPattern} {pc : SynthesisPc} :
    let progress := Synthesis.step ext vault gate context pattern pc o store
    progress.store.patternSeq = store.patternSeq ∧
      ∀ dispatch consent, .requested dispatch consent ∈ progress.effects →
        dispatch.request = synthesisRequest pattern.id dispatch.detected := by
  cases pc with
  | requesting gated =>
      simp only [Synthesis.step]
      split <;> simp
  | inserting recommendation =>
      simp only [Synthesis.step]
      split
      · rename_i hinsert
        rcases Store.insertRecommendation_eq_ok hinsert with ⟨_, _, heq⟩
        have hseq := congrArg Store.patternSeq heq
        exact ⟨hseq, by simp⟩
      · simp
  | _ =>
      simp only [Synthesis.step]
      split <;> simp

/-- A synthesis asks one provider, and every request uses one of its attempts up. -/
theorem asks_synthesis {context : SweepContext} {pattern : NewPattern} {pc : SynthesisPc}
    (hattempts : pc.HasAttempts) :
    let progress := Synthesis.step ext vault gate context pattern pc o store
    Asks id store (.synthesizing context pattern pc)
      ⟨progress.store, Synthesis.resume context pattern progress.next, progress.effects⟩ := by
  have hrequest := @request_of_synthesis ext vault gate o store context pattern pc
  by_cases hid : pattern.id = id
  case neg => exact asks_other hid hrequest.1 hrequest.2
  subst hid
  -- a synthesis that ends gives up what it has left
  have hstop : ∀ (pc : SynthesisPc) (log : Option AuditEntry),
      Asks pattern.id store (.synthesizing context pattern pc)
        ⟨store, Synthesis.resume context pattern (.done log), []⟩ := by
    intro pc log
    exact .of_silent rfl (by simp) (by simp) (by simp)
  -- before the gate, both attempts are left
  have hearly : ∀ (pc pc' : SynthesisPc), pc.attemptsLeft = 2 → pc.asking = none →
      pc'.attemptsLeft = 2 →
        Asks pattern.id store (.synthesizing context pattern pc)
          ⟨store, .synthesizing context pattern pc', []⟩ := by
    intro pc pc' hleft hasking hleft'
    refine ⟨?_, by simp, fun _ _ => Or.inr ⟨?_, ?_⟩⟩
    · simp [SweepPc.attemptsLeft, hleft, hleft']
    · simp [SweepPc.asking, hasking]
    · simp [SweepPc.attemptsLeft, hleft]
  cases pc with
  | getProvider =>
      simp only [Synthesis.step]
      split
      · exact hearly _ _ rfl rfl rfl
      · exact hstop _ _
  | buildProvider config =>
      simp only [Synthesis.step]
      split
      · exact hearly _ _ rfl rfl rfl
      · exact hstop _ _
  | snapshotGate provider =>
      simp only [Synthesis.step]
      split
      · exact hearly _ _ rfl rfl rfl
      · exact hstop _ _
  | requesting gated =>
      rcases hattempts with ⟨hpos, _⟩
      simp only [Synthesis.step]
      split
      · refine ⟨?_, ?_, ?_⟩
        · simp only [List.countP_singleton, Effect.asksFor, beq_self_eq_true, if_true,
            Synthesis.resume, SweepPc.attemptsLeft, SynthesisPc.attemptsLeft]
          omega
        · intro dispatch consent h _
          cases List.mem_singleton.1 h
          simp [SweepPc.asking, SynthesisPc.asking]
        · intro provider h
          exact Or.inl h
      · exact hstop _ _
  | awaiting gated =>
      simp only [Synthesis.step]
      split
      · rename_i attempts hagain
        have hleft := (nextAttempt_left hagain).1
        refine ⟨?_, by simp, fun provider h => Or.inl h⟩
        simp [Synthesis.resume, SweepPc.attemptsLeft, SynthesisPc.attemptsLeft, hleft]
      · refine .of_silent rfl ?_ ?_ (by simp)
        · simp [Synthesis.resume, SweepPc.attemptsLeft, SynthesisPc.attemptsLeft]
        · simp [Synthesis.resume, SweepPc.asking, SynthesisPc.asking]
      · exact hstop _ _
  | inserting recommendation =>
      simp only [Synthesis.step]
      split
      · rename_i hinsert
        rcases Store.insertRecommendation_eq_ok hinsert with ⟨_, _, heq⟩
        have hseq := congrArg Store.patternSeq heq
        exact .of_silent hseq (by simp) (by simp) (by simp)
      · exact hstop _ _

/-- Outside a synthesis nothing is asked; a pattern that is inserted gets two attempts. -/
theorem asks_outside {pc : SweepPc} {progress : SweepProgress}
    (houtside : ∀ context pattern synthesis, pc ≠ .synthesizing context pattern synthesis)
    (h : SweepStep vault gate o store pc progress) : Asks id store pc progress := by
  cases h with
  | @started store' next hstore hnext =>
      refine .of_silent ?_ ?_ ?_ (by simp)
      · rcases hstore with rfl | rfl <;> rfl
      · rcases hnext with rfl | ⟨entry, rfl⟩ <;> exact Nat.le_refl 0
      · rcases hnext with rfl | ⟨entry, rfl⟩ <;> rfl
  | logged hstore =>
      -- what comes behind the entry has its attempts and its provider already
      refine ⟨?_, by simp, fun _ h => Or.inl h⟩
      rcases hstore with rfl | rfl <;> simp [SweepPc.attemptsLeft, Store.appendAuditEntry]
  | updated =>
      refine .of_silent rfl (Nat.le_refl 0) rfl ?_
      intro dispatch consent h
      split at h <;> simp at h
  | @inserted context detected rest =>
      refine ⟨?_, by simp, by rintro _ ⟨⟩⟩
      -- the id of the new pattern is the next one
      show 0 + (if store.patternSeq + 1 = id then 2 else 0) +
        (if id ≤ store.patternSeq then 2 else 0) ≤ 0 + if id ≤ store.patternSeq + 1 then 2 else 0
      split <;> split <;> split <;> omega
  | @linked context pattern store' hstore =>
      obtain ⟨links, hlinks, _⟩ := Store.linkPatternEvents_eq store pattern.id
        pattern.detected.contributingEventIds
      refine .of_silent ?_ (Nat.le_refl _) ?_ (by simp)
      · rcases hstore with rfl | rfl
        · rfl
        · have hseq := congrArg Store.patternSeq hlinks
          exact hseq
      · show (if _ then none else none) = none
        exact ite_self none
  | synthesisEnded | providerRead | providerBuilt | allowed | requested | again | answered |
      recommended => exact absurd rfl (houtside _ _ _)
  | _ => exact .of_silent rfl (Nat.zero_le _) rfl (by simp)

theorem asks_sweep {pc : SweepPc} {progress : SweepProgress} (hattempts : pc.HasAttempts)
    (h : Sweep.step ext vault gate pc o store = some progress) : Asks id store pc progress := by
  cases pc with
  | synthesizing context pattern pc =>
      cases h
      exact asks_synthesis hattempts
  | _ => exact asks_outside (by rintro _ _ _ ⟨⟩) (sweepStep_of_step h)

end Sweep

/-! ## Runs -/

/-- The requests about a pattern so far. -/
structure Asked (app : App) (history : List Effect) (id : Nat) : Prop where
  count : history.countP (Effect.asksFor id) + app.sweep.attemptsLeft id ≤
    allowance id app.store.patternSeq
  /-- The sweep goes on at the provider that it has asked. -/
  current : ∀ dispatch consent provider, .requested dispatch consent ∈ history →
    dispatch.request = synthesisRequest id dispatch.detected →
      app.sweep.asking id = some provider → dispatch.provider = provider
  same : ∀ dispatch dispatch' consent consent', .requested dispatch consent ∈ history →
    .requested dispatch' consent' ∈ history →
      dispatch.request = synthesisRequest id dispatch.detected →
        dispatch'.request = synthesisRequest id dispatch'.detected →
          dispatch.provider = dispatch'.provider

/-- As long as both attempts are left, nothing has been asked. -/
theorem Asked.none_of_left {app : App} {history : List Effect} {id : Nat}
    (h : Asked app history id) (hleft : app.sweep.attemptsLeft id = 2) {dispatch : Dispatch}
    {consent : Bool} (hmem : .requested dispatch consent ∈ history) :
    dispatch.request ≠ synthesisRequest id dispatch.detected := by
  intro hasks
  have hcount := h.count
  have hle := allowance_le id app.store.patternSeq
  have hpos : 0 < history.countP (Effect.asksFor id) :=
    List.countP_pos_iff.2 ⟨_, hmem, beq_iff_eq.2 hasks⟩
  omega

theorem asked_of_sweepStep {app app' : App} {history : List Effect} {id : Nat}
    {progress : SweepProgress} (hasked : Asked app history id)
    (h : Asks id app.store app.sweep progress) (hstore : app'.store = progress.store)
    (hpc : app'.sweep = progress.pc) : Asked app' (history ++ progress.effects) id := by
  have hcurrent : ∀ dispatch consent provider, .requested dispatch consent ∈ history →
      dispatch.request = synthesisRequest id dispatch.detected →
        progress.pc.asking id = some provider → dispatch.provider = provider := by
    intro dispatch consent provider hmem hfor hasking
    rcases h.chosen provider hasking with hsame | ⟨_, hleft⟩
    · exact hasked.current dispatch consent provider hmem hfor hsame
    · exact absurd hfor (hasked.none_of_left hleft hmem)
  refine ⟨?_, ?_, ?_⟩
  · have hpays := h.pays
    have hcount := hasked.count
    rw [List.countP_append, hstore, hpc]
    omega
  · intro dispatch consent provider hmem hfor hasking
    rw [hpc] at hasking
    rcases List.mem_append.1 hmem with hmem | hmem
    · exact hcurrent dispatch consent provider hmem hfor hasking
    · have hasked' := h.asked dispatch consent hmem hfor
      rcases h.chosen provider hasking with hsame | ⟨hnone, _⟩
      · exact Option.some.inj (hasked'.symm.trans hsame)
      · rw [hnone] at hasked'
        cases hasked'
  · intro dispatch dispatch' consent consent' hmem hmem' hfor hfor'
    rcases List.mem_append.1 hmem with hmem | hmem <;>
      rcases List.mem_append.1 hmem' with hmem' | hmem'
    · exact hasked.same dispatch dispatch' consent consent' hmem hmem' hfor hfor'
    · exact hasked.current dispatch consent _ hmem hfor (h.asked dispatch' consent' hmem' hfor')
    · exact (hasked.current dispatch' consent' _ hmem' hfor'
        (h.asked dispatch consent hmem hfor)).symm
    · exact Option.some.inj ((h.asked dispatch consent hmem hfor).symm.trans
        (h.asked dispatch' consent' hmem' hfor'))

theorem asked_step {ext : Externals} {app app' : App} {history es : List Effect} {action : Action}
    {id : Nat} (hattempts : app.sweep.HasAttempts) (hasked : Asked app history id)
    (h : (machine ext).step app action = some (app', es)) : Asked app' (history ++ es) id := by
  by_cases hsweep : ∃ o, action = .sweep o
  · rcases hsweep with ⟨o, rfl⟩
    rcases sweep_of_step h with ⟨process, progress, _, hstep, hstore, hpc, rfl⟩
    exact asked_of_sweepStep hasked (asks_sweep hattempts hstep) hstore hpc
  · have hother : ∀ o, action ≠ .sweep o := fun o ho => hsweep ⟨o, ho⟩
    rcases sweep_of_appStep (appStep_of_step h) hother with ⟨htask, hpc⟩
    have hseq := (tableStep_of_appStep (appStep_of_step h) hother).shrinks.patternSeq
    -- the sweep goes on, or it is given up
    have hold : ∀ dispatch consent, .requested dispatch consent ∈ history ++ es →
        .requested dispatch consent ∈ history := by
      intro dispatch consent hmem
      exact (List.mem_append.1 hmem).resolve_right fun hnew => htask _ hnew rfl
    refine ⟨?_, ?_, ?_⟩
    · have hcount := hasked.count
      have hzero : es.countP (Effect.asksFor id) = 0 :=
        List.countP_eq_zero.2 fun e he => by simp [asksFor_of_task (htask e he)]
      rw [List.countP_append, hzero, hseq]
      rcases hpc with hpc | hpc <;> rw [hpc]
      · exact hcount
      · exact (Nat.le_add_right _ _).trans hcount
    · intro dispatch consent provider hmem hfor hasking
      rcases hpc with hpc | hpc <;> rw [hpc] at hasking
      · exact hasked.current dispatch consent provider (hold _ _ hmem) hfor hasking
      · cases hasking
    · intro dispatch dispatch' consent consent' hmem hmem'
      exact hasked.same dispatch dispatch' consent consent' (hold _ _ hmem) (hold _ _ hmem')

theorem asked_of_reach {ext : Externals} {guard : App → Action → Prop} {app : App}
    {history : List Effect} (hreach : (machine ext).Reach App.Initial guard app history)
    (id : Nat) : Asked app history id := by
  have hinv : Asked app history id ∧ app.sweep.HasAttempts := by
    refine hreach.invariant (fun app history => Asked app history id ∧ app.sweep.HasAttempts) ?_ ?_
    · intro app hinitial
      rw [hinitial.sweep_eq]
      refine ⟨⟨?_, by simp, by simp⟩, trivial⟩
      rw [hinitial.sweep_eq]
      exact Nat.zero_le _
    · rintro app history action app' es ⟨hasked, hattempts⟩ _ hstep
      exact ⟨asked_step hattempts hasked hstep, hasAttempts_step hattempts hstep⟩
  exact hinv.1

/-- Every request is about a pattern as it was inserted. -/
def Purposed (history : List Effect) : Effect → Prop
  | .requested dispatch _ => ∃ id, origin history id = some dispatch.detected ∧
      dispatch.request = synthesisRequest id dispatch.detected
  | _ => True

theorem Purposed.append {history : List Effect} {e : Effect} (h : Purposed history e)
    (es : List Effect) : Purposed (history ++ es) e := by
  cases e with
  | requested dispatch consent =>
      rcases h with ⟨id, horigin, hrequest⟩
      exact ⟨id, origin_append horigin es, hrequest⟩
  | _ => trivial

theorem purposed_step {ext : Externals} {app app' : App} {history es : List Effect}
    {action : Action} (hexplained : app.Explained history)
    (h : (machine ext).step app action = some (app', es)) : ∀ e ∈ es, Purposed history e := by
  by_cases hsweep : ∃ o, action = .sweep o
  · rcases hsweep with ⟨o, rfl⟩
    rcases sweep_of_step h with ⟨process, progress, _, hstep, _, _, rfl⟩
    have hcurrent := hexplained.sweep
    have hsweepStep := sweepStep_of_step hstep
    generalize app.sweep = pc at hcurrent hsweepStep
    cases hsweepStep with
    | @requested context pattern gated =>
        intro e he
        cases List.mem_singleton.1 he
        exact ⟨pattern.id, hcurrent, rfl⟩
    | updated =>
        intro e he
        split at he
        · cases List.mem_singleton.1 he
          trivial
        · cases he
    | _ => simp [Purposed]
  · have htask := (sweep_of_appStep (appStep_of_step h) fun o ho => hsweep ⟨o, ho⟩).1
    intro e he
    cases e with
    | requested dispatch consent => exact absurd rfl (htask _ he)
    | _ => trivial

theorem purposed_of_reach {ext : Externals} {guard : App → Action → Prop} {app : App}
    {history : List Effect} (hreach : (machine ext).Reach App.Initial guard app history) :
    ∀ e ∈ history, Purposed history e := by
  induction hreach with
  | start => simp
  | step hreach _ hstep ih =>
      intro e he
      rcases List.mem_append.1 he with he | he
      · exact (ih e he).append _
      · exact (purposed_step (explained_of_reach hreach) hstep e he).append _

/-- Over any number of launches, every request of a sweep is about a pattern as it was inserted, and
sweeps ask about a pattern at most twice: both times with the same text, at the same provider. -/
theorem requests_bounded {ext : Externals} {app : App} {history : List Effect}
    (hreach : (machine ext).Reach App.Initial Machine.always app history) :
    (∀ dispatch consent, .requested dispatch consent ∈ history →
      ∃ id, origin history id = some dispatch.detected ∧
        dispatch.request = synthesisRequest id dispatch.detected) ∧
      ∀ id, history.countP (Effect.asksFor id) ≤ 2 ∧
        ∀ dispatch dispatch' consent consent', .requested dispatch consent ∈ history →
          .requested dispatch' consent' ∈ history →
            dispatch.request = synthesisRequest id dispatch.detected →
              dispatch'.request = synthesisRequest id dispatch'.detected →
                dispatch.provider = dispatch'.provider ∧ dispatch.request = dispatch'.request := by
  have hpurposed := purposed_of_reach hreach
  refine ⟨?_, fun id => ⟨?_, ?_⟩⟩
  · exact fun dispatch consent hmem => hpurposed _ hmem
  · have hcount := (asked_of_reach hreach id).count
    exact (Nat.le_add_right _ _).trans (hcount.trans (allowance_le _ _))
  · intro dispatch dispatch' consent consent' hmem hmem' hfor hfor'
    refine ⟨(asked_of_reach hreach id).same _ _ _ _ hmem hmem' hfor hfor', ?_⟩
    -- both are about the detection that the pattern was inserted for
    rcases hpurposed _ hmem with ⟨id₁, horigin, hrequest⟩
    rcases hpurposed _ hmem' with ⟨id₂, horigin', hrequest'⟩
    cases synthesisRequest_injective (hfor.symm.trans hrequest)
    cases synthesisRequest_injective (hfor'.symm.trans hrequest')
    rw [hfor, hfor', Option.some.inj (horigin.symm.trans horigin')]

/-- The user turns to another provider while the first answer is awaited. -/
def switchingRun : List Action :=
  dispatchRun 2 2 ++
    Action.complete 6 (.setAiProvider ⟨"ollama", "ollama", true, some "m", none, none⟩) 4 ++
    [.sweep { Outside.plain 0 with answer := .ok "" }, .sweep (.plain 0), .sweep (.plain 0)]

theorem requests_bounded_switchingRun :
    ∃ app history, (machine .reference).Reach App.Initial Machine.always app history ∧
      history.countP (Effect.asksFor 1) = 2 ∧
      ((∀ dispatch consent, .requested dispatch consent ∈ history →
        ∃ id, origin history id = some dispatch.detected ∧
          dispatch.request = synthesisRequest id dispatch.detected) ∧
        ∀ id, history.countP (Effect.asksFor id) ≤ 2 ∧
          ∀ dispatch dispatch' consent consent', .requested dispatch consent ∈ history →
            .requested dispatch' consent' ∈ history →
              dispatch.request = synthesisRequest id dispatch.detected →
                dispatch'.request = synthesisRequest id dispatch'.detected →
                  dispatch.provider = dispatch'.provider ∧
                    dispatch.request = dispatch'.request) := by
  obtain ⟨app, history, hreach, htest⟩ := exists_run Machine.always
    (fun _ history => history.countP (Effect.asksFor 1) == 2) switchingRun (by decide +kernel)
  exact ⟨app, history, hreach, beq_iff_eq.1 htest, requests_bounded hreach⟩

end Desktop
end HiddenSteps
