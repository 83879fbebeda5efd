import HiddenSteps.Desktop.CloudDispatch
import HiddenSteps.Desktop.RowRule
import HiddenSteps.Desktop.SweepEnds
import HiddenSteps.Systems.Potential

/-!
# Revocation — what is still under way when a permission is taken back

A sweep asks a provider through a copy of the gate, and a tick stores events under a privacy state
it has read.  Taking back the consent or pausing the observation does not reach these copies; here
it is bounded what still happens through them.
-/

namespace HiddenSteps
namespace Desktop

open EventStore Patterns Pipeline PrivacyEngine Recommendations Systems

/-! ## Requests to a cloud provider -/

/-- The attempts that a synthesis has left at a cloud provider, without another look at the gate. -/
def SynthesisPc.cloudAttempts : SynthesisPc → Nat
  | .requesting gated => if gated.provider.isLocal then 0 else gated.attempts.left
  -- the request of one of the attempts left has been sent
  | .awaiting gated => if gated.provider.isLocal then 0 else gated.attempts.left - 1
  | _ => 0

/-- The attempts that a sweep has left, and the pattern they are for. -/
def SweepPc.cloudAttempts : SweepPc → Nat
  | .logging _ next => next.cloudAttempts
  | .synthesizing _ _ pc => pc.cloudAttempts
  | _ => 0

def SweepPc.attemptsFor : SweepPc → Option DetectedPattern
  | .logging _ next => next.attemptsFor
  | .synthesizing _ pattern pc => if 0 < pc.cloudAttempts then some pattern.detected else none
  | _ => none

/-- A synthesis that asks has one or two attempts left. -/
def SynthesisPc.HasAttempts : SynthesisPc → Prop
  | .requesting gated => 0 < gated.attempts.left ∧ gated.attempts.left ≤ 2
  | .awaiting gated => 0 < gated.attempts.left ∧ gated.attempts.left ≤ 2
  | _ => True

def SweepPc.HasAttempts : SweepPc → Prop
  | .logging _ next => next.HasAttempts
  | .synthesizing _ _ pc => pc.HasAttempts
  | _ => True

theorem SweepPc.HasAttempts.cloudAttempts_le {pc : SweepPc} (h : pc.HasAttempts) :
    pc.cloudAttempts ≤ 2 := by
  induction pc with
  | logging entry next ih => exact ih h
  | synthesizing context pattern pc =>
      cases pc with
      | requesting gated =>
          simp only [SweepPc.cloudAttempts, SynthesisPc.cloudAttempts]
          split
          · exact Nat.zero_le 2
          · exact h.2
      | awaiting gated =>
          simp only [SweepPc.cloudAttempts, SynthesisPc.cloudAttempts]
          split
          · exact Nat.zero_le 2
          · exact (Nat.sub_le _ _).trans h.2
      | _ => exact Nat.zero_le 2
  | _ => exact Nat.zero_le 2

/-- A request to a provider that is not local. -/
def Effect.asksCloud : Effect → Bool
  | .requested dispatch _ => !dispatch.provider.isLocal
  | _ => false

/-- A request to a cloud provider is for a given pattern. -/
def Effect.AsksCloudFor (detected : Option DetectedPattern) : Effect → Prop
  | .requested dispatch _ => dispatch.provider.isLocal = false → detected = some dispatch.detected
  | _ => True

theorem asksCloud_of_task {e : Effect} (h : e.task ≠ .sweep) : e.asksCloud = false := by
  cases e <;> first | exact absurd rfl h | rfl

theorem asksCloudFor_of_task {e : Effect} {detected : Option DetectedPattern}
    (h : e.task ≠ .sweep) : e.AsksCloudFor detected := by
  cases e <;> first | exact absurd rfl h | trivial

/-- Another attempt is one of those left. -/
theorem nextAttempt_left {ext : Recommendations.Externals} {providerId : String} {patternId : Nat}
    {detected : DetectedPattern} {now : Timestamp} {attempts attempts' : Attempts}
    {answer : Except String String}
    (h : nextAttempt ext providerId patternId detected now attempts answer = .again attempts') :
    attempts'.left = attempts.left - 1 ∧ 0 < attempts'.left := by
  unfold nextAttempt at h
  split at h
  · cases h
  · split at h
    · cases h
    · simp only at h
      split at h
      · cases h
      · rename_i hleft
        cases h
        exact ⟨rfl, Nat.pos_of_ne_zero hleft⟩

section Sweep

variable {ext : Recommendations.Externals} {vault : Vault} {gate : DispatchGate} {o : Outside}
  {store : Store}

/-- Where a sweep stands after it has left the synthesis has no attempts. -/
theorem resume_done (context : SweepContext) (pattern : NewPattern) (log : Option AuditEntry) :
    (Synthesis.resume context pattern (.done log)).HasAttempts ∧
      (Synthesis.resume context pattern (.done log)).cloudAttempts = 0 ∧
      (Synthesis.resume context pattern (.done log)).attemptsFor = none := by
  cases log <;> exact ⟨trivial, rfl, rfl⟩

/-- What a step of a sweep leaves of the attempts. -/
structure Spends (gate : DispatchGate) (pc pc' : SweepPc) (es : List Effect) : Prop where
  attempts : pc'.HasAttempts
  /-- Without consent in the gate, a request is paid from the attempts left. -/
  pays : gate.generalCloudConsent = false →
    es.countP Effect.asksCloud + pc'.cloudAttempts ≤ pc.cloudAttempts
  pattern : gate.generalCloudConsent = false →
    ∀ detected, pc'.attemptsFor = some detected → pc.attemptsFor = some detected
  asks : ∀ e ∈ es, e.AsksCloudFor pc.attemptsFor

/-- A sweep that ends a synthesis or stands outside one has no attempts left. -/
theorem Spends.of_none {pc pc' : SweepPc} {es : List Effect} (hattempts : pc'.HasAttempts)
    (hcloud : pc'.cloudAttempts = 0) (hfor : pc'.attemptsFor = none)
    (hes : ∀ e ∈ es, e.asksCloud = false) : Spends gate pc pc' es where
  attempts := hattempts
  pays := by
    intro _
    have hzero : es.countP Effect.asksCloud = 0 :=
      List.countP_eq_zero.2 fun e he => by simp [hes e he]
    rw [hzero, hcloud]
    exact Nat.zero_le _
  pattern := by
    intro _ detected h
    rw [hfor] at h
    cases h
  asks := by
    intro e he
    have hno := hes e he
    cases e with
    | requested dispatch consent =>
        intro hcloud
        simp [Effect.asksCloud, hcloud] at hno
    | _ => trivial

/-- A synthesis gets its attempts from an open gate, and every request uses one of them up. -/
theorem spends_synthesis {context : SweepContext} {pattern : NewPattern} {pc : SynthesisPc}
    (hattempts : pc.HasAttempts) :
    let progress := Synthesis.step ext vault gate context pattern pc o store
    Spends gate (.synthesizing context pattern pc)
      (Synthesis.resume context pattern progress.next) progress.effects := by
  -- without attempts after the step, nothing is left to show
  have hstop : ∀ (pc : SynthesisPc) (log : Option AuditEntry),
      Spends gate (.synthesizing context pattern pc)
        (Synthesis.resume context pattern (.done log)) [] := by
    intro pc log
    rcases resume_done context pattern log with ⟨hhas, hcloud, hfor⟩
    exact .of_none hhas hcloud hfor (by simp)
  cases pc with
  | getProvider =>
      simp only [Synthesis.step]
      split
      · exact .of_none trivial rfl rfl (by simp)
      · exact hstop _ _
  | buildProvider config =>
      simp only [Synthesis.step]
      split
      · exact .of_none trivial rfl rfl (by simp)
      · exact hstop _ _
  | snapshotGate provider =>
      simp only [Synthesis.step]
      split
      · rename_i hallow
        -- a gate without consent lets local providers pass only
        have hlocal : gate.generalCloudConsent = false → provider.isLocal = true := by
          intro hconsent
          rcases DispatchGate.evaluate_eq_allow_iff.1 hallow with hlocal | ⟨hgeneral, _⟩
          · exact hlocal
          · rw [hconsent] at hgeneral
            cases hgeneral
        refine ⟨⟨Nat.succ_pos 1, Nat.le_refl 2⟩, ?_, ?_, by simp⟩
        · intro hconsent
          simp [Synthesis.resume, SweepPc.cloudAttempts, SynthesisPc.cloudAttempts,
            hlocal hconsent]
        · intro hconsent detected h
          simp [Synthesis.resume, SweepPc.attemptsFor, SynthesisPc.cloudAttempts,
            hlocal hconsent] at h
      · exact hstop _ _
  | requesting gated =>
      rcases hattempts with ⟨hpos, hle⟩
      simp only [Synthesis.step]
      split
      · cases hlocal : gated.provider.isLocal with
        | true =>
            refine .of_none ⟨hpos, hle⟩ ?_ ?_ ?_
            · simp [Synthesis.resume, SweepPc.cloudAttempts, SynthesisPc.cloudAttempts, hlocal]
            · simp [Synthesis.resume, SweepPc.attemptsFor, SynthesisPc.cloudAttempts, hlocal]
            · simp [Effect.asksCloud, hlocal]
        | false =>
            refine ⟨⟨hpos, hle⟩, ?_, ?_, ?_⟩
            · intro _
              simp only [Synthesis.resume, SweepPc.cloudAttempts, SynthesisPc.cloudAttempts,
                hlocal, List.countP_singleton, Effect.asksCloud]
              simp only [Bool.not_false, if_true, Bool.false_eq_true, if_false]
              omega
            · intro _ detected h
              simp only [Synthesis.resume, SweepPc.attemptsFor, SynthesisPc.cloudAttempts, hlocal,
                Bool.false_eq_true, if_false] at h ⊢
              split at h
              · rwa [if_pos hpos]
              · cases h
            · simp [Effect.AsksCloudFor, SweepPc.attemptsFor, SynthesisPc.cloudAttempts, hlocal,
                hpos]
      · exact hstop _ _
  | awaiting gated =>
      rcases hattempts with ⟨hpos, hle⟩
      simp only [Synthesis.step]
      split
      · rename_i attempts hagain
        rcases nextAttempt_left hagain with ⟨hleft, hagainPos⟩
        refine ⟨⟨hagainPos, ?_⟩, ?_, ?_, by simp⟩
        · show attempts.left ≤ 2
          omega
        · intro _
          simp [Synthesis.resume, SweepPc.cloudAttempts, SynthesisPc.cloudAttempts, hleft]
        · intro _ detected h
          simp only [Synthesis.resume, SweepPc.attemptsFor, SynthesisPc.cloudAttempts, hleft] at h ⊢
          exact h
      · exact .of_none trivial rfl rfl (by simp)
      · exact hstop _ _
  | inserting recommendation =>
      simp only [Synthesis.step]
      split
      · exact .of_none trivial rfl rfl (by simp [Effect.asksCloud])
      · exact hstop _ _

/-- Outside a synthesis nothing is asked. -/
theorem spends_outside {pc : SweepPc} {progress : SweepProgress} (hattempts : pc.HasAttempts)
    (houtside : ∀ context pattern synthesis, pc ≠ .synthesizing context pattern synthesis)
    (h : SweepStep vault gate o store pc progress) :
    Spends gate pc progress.pc progress.effects := by
  cases h with
  | started _ hnext =>
      rcases hnext with rfl | ⟨entry, rfl⟩ <;> exact .of_none trivial rfl rfl (by simp)
  | logged =>
      -- the attempts wait behind the entry
      exact ⟨hattempts, fun _ => by simp [SweepPc.cloudAttempts], fun _ _ hfor => hfor, by simp⟩
  | updated =>
      refine .of_none trivial rfl rfl ?_
      intro e he
      simp only at he
      split at he
      · rw [List.mem_singleton.1 he]
        rfl
      · cases he
  | inserted => exact .of_none trivial rfl rfl (by simp [Effect.asksCloud])
  | synthesisEnded | providerRead | providerBuilt | allowed | requested | again | answered |
      recommended => exact absurd rfl (houtside _ _ _)
  | _ => exact .of_none trivial rfl rfl (by simp)

/-- One step of a sweep. -/
theorem spends_sweep {pc : SweepPc} {progress : SweepProgress} (hattempts : pc.HasAttempts)
    (h : Sweep.step ext vault gate pc o store = some progress) :
    Spends gate pc progress.pc progress.effects := by
  cases pc with
  | synthesizing context pattern pc =>
      cases h
      exact spends_synthesis hattempts
  | _ => exact spends_outside hattempts (by rintro _ _ _ ⟨⟩) (sweepStep_of_step h)

end Sweep

/-- Whether the gate of the process has the general consent. -/
def App.hasConsent (app : App) : Bool :=
  app.process.any fun process => process.gate.generalCloudConsent

/-- The process goes on, and no command brings consent to its gate. -/
def staysRevoked (app : App) : Action → Bool
  | .launch _ => false
  | .call id _ =>
      (app.call? id).all fun call =>
        match call.pc with
        | .openingGate granted => !granted
        | _ => true
  | _ => true

/-- Only an opening with consent gives the gate the consent. -/
theorem consent_of_callStep {call : Call} {o : Outside} {shared : Shared} {pc : CallPc}
    {progress : Progress} (h : CallStep call o shared pc progress)
    (hpc : pc ≠ .openingGate true) (hgate : shared.gate.generalCloudConsent = false) :
    progress.shared.gate.generalCloudConsent = false := by
  cases h with
  | @gateOpened granted =>
      cases granted with
      | true => exact absurd rfl hpc
      | false => rfl
  | logged hstore => exact hgate
  | _ => exact hgate

theorem hasAttempts_step {ext : Externals} {app app' : App} {action : Action} {es : List Effect}
    (hattempts : app.sweep.HasAttempts) (h : (machine ext).step app action = some (app', es)) :
    app'.sweep.HasAttempts := by
  by_cases hsweep : ∃ o, action = .sweep o
  · rcases hsweep with ⟨o, rfl⟩
    rcases sweep_of_step h with ⟨process, progress, _, hstep, _, hpc, _⟩
    rw [hpc]
    exact (spends_sweep hattempts hstep).attempts
  · rcases (sweep_of_appStep (appStep_of_step h) fun o ho => hsweep ⟨o, ho⟩).2 with hsame | hstart
    · rwa [hsame]
    · rw [hstart]
      trivial

theorem hasConsent_step {ext : Externals} {app app' : App} {action : Action} {es : List Effect}
    (hgate : app.hasConsent = false) (hrevoked : staysRevoked app action = true)
    (h : (machine ext).step app action = some (app', es)) : app'.hasConsent = false := by
  cases appStep_of_step h with
  | launch => cases hrevoked
  | exit => rfl
  | @call vault database process id o call progress hcall hcallStep =>
      have hpc : call.pc ≠ .openingGate true := ?_
      · exact consent_of_callStep hcallStep hpc hgate
      intro hpc
      simp [staysRevoked, App.call?, hcall, hpc] at hrevoked
  | invoke | observe | sweep | operate | notify => exact hgate

/-- One step while the consent stays revoked. -/
theorem spends_step {ext : Externals} {app app' : App} {action : Action} {es : List Effect}
    (hattempts : app.sweep.HasAttempts) (hgate : app.hasConsent = false)
    (hrevoked : staysRevoked app action = true)
    (h : (machine ext).step app action = some (app', es)) :
    es.countP Effect.asksCloud + app'.sweep.cloudAttempts ≤ app.sweep.cloudAttempts ∧
      (∀ detected, app'.sweep.attemptsFor = some detected →
        app.sweep.attemptsFor = some detected) ∧
      ∀ e ∈ es, e.AsksCloudFor app.sweep.attemptsFor := by
  by_cases hsweep : ∃ o, action = .sweep o
  · rcases hsweep with ⟨o, rfl⟩
    rcases sweep_of_step h with ⟨process, progress, hprocess, hstep, _, hpc, rfl⟩
    have hspends := spends_sweep hattempts hstep
    have hclosed : process.gate.generalCloudConsent = false := by
      simpa [App.hasConsent, hprocess] using hgate
    rw [hpc]
    exact ⟨hspends.pays hclosed, hspends.pattern hclosed, hspends.asks⟩
  · rcases sweep_of_appStep (appStep_of_step h) fun o ho => hsweep ⟨o, ho⟩ with ⟨htask, hnext⟩
    have hzero : es.countP Effect.asksCloud = 0 :=
      List.countP_eq_zero.2 fun e he => by simp [asksCloud_of_task (htask e he)]
    refine ⟨?_, ?_, fun e he => asksCloudFor_of_task (htask e he)⟩
    · rw [hzero, Nat.zero_add]
      rcases hnext with hsame | hstart
      · rw [hsame]
      · rw [hstart]
        exact Nat.zero_le _
    · intro detected hfor
      rcases hnext with hsame | hstart
      · rwa [hsame] at hfor
      · rw [hstart] at hfor
        cases hfor

/-- Once the gate has lost the consent, and as long as it does not get it back, sweeps send at most
as many requests to a cloud provider as the synthesis under way has attempts left.  These are at
most two, and all of them are for the one pattern of that synthesis. -/
theorem requests_after_revocation {ext : Externals} {app app' : App} {before after : List Effect}
    (hreach : (machine ext).Reach App.Initial Machine.always app before)
    (hgate : app.hasConsent = false)
    (hlater : (machine ext).Reach (· = app)
      (fun app action => staysRevoked app action = true) app' after) :
    after.countP Effect.asksCloud ≤ app.sweep.cloudAttempts ∧ app.sweep.cloudAttempts ≤ 2 ∧
      ∀ e ∈ after, e.AsksCloudFor app.sweep.attemptsFor := by
  have hattempts : app.sweep.HasAttempts := by
    refine hreach.invariant (fun app _ => app.sweep.HasAttempts) ?_ ?_
    · intro app hinit
      rw [hinit.sweep_eq]
      trivial
    · intro app _ action app' es hattempts _ hstep
      exact hasAttempts_step hattempts hstep
  have hspent := hlater.spends Effect.asksCloud (fun app => app.sweep.cloudAttempts)
    (fun app => app.sweep.HasAttempts ∧ app.hasConsent = false) ⟨hattempts, hgate⟩ (by
      rintro app action app' es ⟨hattempts, hgate⟩ hrevoked hstep
      exact ⟨⟨hasAttempts_step hattempts hstep, hasConsent_step hgate hrevoked hstep⟩,
        (spends_step hattempts hgate hrevoked hstep).1⟩)
  refine ⟨(Nat.le_add_right _ _).trans hspent.2, hattempts.cloudAttempts_le, ?_⟩
  have hfor := hlater.emits
    (fun app' => (app'.sweep.HasAttempts ∧ app'.hasConsent = false) ∧
      ∀ detected, app'.sweep.attemptsFor = some detected → app.sweep.attemptsFor = some detected)
    (fun e => e.AsksCloudFor app.sweep.attemptsFor) ?_ ?_
  · exact hfor.2
  · rintro _ rfl
    exact ⟨⟨hattempts, hgate⟩, fun _ h => h⟩
  · rintro app₁ action app₂ es ⟨⟨hattempts, hgate⟩, hsame⟩ hrevoked hstep
    rcases spends_step hattempts hgate hrevoked hstep with ⟨_, hpattern, hasks⟩
    refine ⟨⟨⟨hasAttempts_step hattempts hstep, hasConsent_step hgate hrevoked hstep⟩,
      fun detected h => hsame detected (hpattern detected h)⟩, ?_⟩
    intro e he
    have hask := hasks e he
    cases e with
    | requested dispatch consent => exact fun hcloud => hsame _ (hask hcloud)
    | _ => trivial

/-- A sweep has sent its first request; the consent is taken back, and a useless answer comes in. -/
theorem request_after_revocation :
    ∃ app before app' after,
      (machine .reference).Reach App.Initial Machine.always app before ∧
      app.hasConsent = false ∧
      (machine .reference).Reach (· = app)
        (fun app action => staysRevoked app action = true) app' after ∧
      after.countP Effect.asksCloud = 1 ∧
      (after.countP Effect.asksCloud ≤ app.sweep.cloudAttempts ∧ app.sweep.cloudAttempts ≤ 2 ∧
        ∀ e ∈ after, e.AsksCloudFor app.sweep.attemptsFor) := by
  obtain ⟨app, before, app', after, hreach, hlater, htest⟩ :=
    Machine.exists_reach_after (machine .reference) Machine.always
      (fun app action => staysRevoked app action = true)
      (fun app after => !app.hasConsent && after.countP Effect.asksCloud == 1)
      (dispatchRun 2 2 ++ Action.complete 6 (.setCloudConsent false) 3)
      [.sweep { Outside.plain 0 with answer := .ok "" }, .sweep (.plain 0), .sweep (.plain 0)]
      App.fresh_initial (by decide +kernel)
  rw [Bool.and_eq_true, Bool.not_eq_true', beq_iff_eq] at htest
  exact ⟨app, before, app', after, hreach, htest.1, hlater, htest.2,
    requests_after_revocation hreach htest.1 hlater⟩

/-! ## Polls and insertions of a paused observation -/

/-- What a tick has still to poll of a list of sources. -/
def ObservationPc.left {β : Type} (sources : List β) : ObservationPc → List β
  | .polling _ next => sources.drop next
  | .storing _ next _ => sources.drop next
  | _ => []

/-- The sources that the tick in progress has left, by their labels. -/
def App.sourcesLeft (app : App) : List (String × PrivacyLevel) :=
  app.observation.left (app.sources.map Source.label)

/-- The privacy state that a tick works with. -/
def ObservationPc.tickState : ObservationPc → Option PrivacyState
  | .polling state _ => some state
  | .storing state _ _ => some state
  | _ => none

def Effect.polledSource : Effect → Option (String × PrivacyLevel)
  | .polled source minPrivacyLevel _ => some (source, minPrivacyLevel)
  | _ => none

/-- What is polled and stored is so at the level of a given tick. -/
def Effect.OfTick (state : Option PrivacyState) : Effect → Prop
  | .polled _ _ level => state.map PrivacyState.currentLevel = some level
  | .stored event _ _ => state.map PrivacyState.currentLevel = some event.privacyLevelAtCapture
  | _ => True

theorem polledSource_of_task {e : Effect} (h : e.task ≠ .observation) : e.polledSource = none := by
  cases e <;> first | exact absurd rfl h | rfl

theorem ofTick_of_task {e : Effect} {state : Option PrivacyState} (h : e.task ≠ .observation) :
    e.OfTick state := by
  cases e <;> first | exact absurd rfl h | trivial

/-- The stored row does not permit observation. -/
def App.paused (app : App) : Bool :=
  app.privacyRow.all fun row => !row.permitsObservation

/-- No command writes a row that permits observation. -/
def staysPaused (app : App) : Action → Bool
  | .call id o =>
      ((app.call? id).bind fun call => call.privacyWrite o).all fun row =>
        !row.permitsObservation
  | _ => true

theorem paused_step {ext : Externals} {app app' : App} {action : Action} {es : List Effect}
    (hpaused : app.paused = true) (hstays : staysPaused app action = true)
    (h : (machine ext).step app action = some (app', es)) : app'.paused = true := by
  cases appStep_of_step h with
  | @launch _ input hprocess =>
      -- the row of a new file does not permit observation
      have hinitial : (some (PrivacyState.initial input.now)).all
          (fun row => !row.permitsObservation) = true := rfl
      rcases row_of_launch input hprocess with ⟨_, hrow⟩ | ⟨_, _, _, _, _, hrow⟩
      · rwa [App.paused, hrow]
      · rw [App.paused, hrow]
        split
        · exact hinitial
        · exact hpaused
  | @call vault database process id o call progress hcall hcallStep =>
      replace hpaused : database.store.privacyState.all
          (fun row => !row.permitsObservation) = true := hpaused
      show progress.shared.store.privacyState.all (fun row => !row.permitsObservation) = true
      rcases privacyState_of_callStep hcallStep with hsame | ⟨row, hwrite, hnew⟩
      · rw [hsame]
        exact hpaused
      · have hrow : row.permitsObservation = false := by
          simpa [staysPaused, App.call?, hcall, hwrite] using hstays
        rw [hnew]
        show (Option.map _ database.store.privacyState).all _ = true
        cases database.store.privacyState with
        | none => rfl
        | some old => simp [hrow]
  | exit | invoke | operate | notify => exact hpaused
  | observe hobserve =>
      rw [App.paused, (row_of_step h (by rintro _ ⟨⟩) (by rintro _ _ ⟨⟩)).1]
      exact hpaused
  | sweep hsweep =>
      rw [App.paused, (row_of_step h (by rintro _ ⟨⟩) (by rintro _ _ ⟨⟩)).1]
      exact hpaused

/-- A tick in progress polls the sources it has left; no other tick begins. -/
theorem polls_observe {pipeline : EventPipeline} {o : Outside} {store : Store}
    {sources : List Source} {pc : ObservationPc} {progress : ObservationProgress}
    (hpaused : store.privacyState.all (fun row => !row.permitsObservation) = true)
    (h : ObservationStep pipeline o store sources pc progress) :
    progress.effects.filterMap Effect.polledSource ++
        progress.pc.left (progress.sources.map Source.label) <+:
      pc.left (sources.map Source.label) ∧
      (∀ state, progress.pc.tickState = some state → pc.tickState = some state) ∧
      ∀ e ∈ progress.effects, e.OfTick pc.tickState := by
  cases h with
  | ended => exact ⟨List.nil_prefix, by rintro _ ⟨⟩, by simp⟩
  | waited => exact ⟨List.nil_prefix, fun _ h => h, by simp⟩
  | began hstore hread hpermits =>
      -- the row is read when a tick begins
      rw [hread] at hpaused
      simp [hpermits] at hpaused
  | tickEnded => exact ⟨List.nil_prefix, by rintro _ ⟨⟩, by simp⟩
  | @polled state next source hsource =>
      refine ⟨?_, fun _ h => h, by simp [Effect.OfTick, ObservationPc.tickState]⟩
      -- the first source that is left is polled
      rcases List.getElem?_eq_some_iff.1 hsource with ⟨hnext, hget⟩
      have hdrop : (sources.map Source.label).drop next =
          source.label :: (sources.map Source.label).drop (next + 1) := by
        rw [List.drop_eq_getElem_cons (by simpa using hnext), List.getElem_map, hget]
      simp only [ObservationPc.left, set_poll_label hsource, hdrop]
      exact List.prefix_refl _
  | sourceEnded | dropped => exact ⟨List.prefix_refl _, fun _ h => h, by simp⟩
  | stored hprocess =>
      refine ⟨List.prefix_refl _, fun _ h => h, ?_⟩
      simp only [List.mem_singleton, forall_eq]
      exact congrArg some (process_level hprocess).1.symm

/-- One step while the observation stays paused. -/
theorem polls_step {ext : Externals} {app app' : App} {action : Action} {es : List Effect}
    (hpaused : app.paused = true) (h : (machine ext).step app action = some (app', es)) :
    es.filterMap Effect.polledSource ++ app'.sourcesLeft <+: app.sourcesLeft ∧
      (∀ state, app'.observation.tickState = some state →
        app.observation.tickState = some state) ∧
      ∀ e ∈ es, e.OfTick app.observation.tickState := by
  have hstep := appStep_of_step h
  have hquiet := observation_of_appStep hstep
  cases hstep with
  | observe hobserve => exact polls_observe hpaused hobserve
  | _ =>
      rcases hquiet (by rintro o ⟨⟩) with ⟨htask, hpc⟩
      rw [List.filterMap_eq_nil_iff.2 fun e he => polledSource_of_task (htask e he),
        List.nil_append]
      refine ⟨?_, ?_, fun e he => ofTick_of_task (htask e he)⟩
      · unfold App.sourcesLeft
        rcases hpc with hpc | hpc | ⟨hpc, hsources⟩
        · rw [hpc]
          exact List.nil_prefix
        · rw [hpc]
          exact List.nil_prefix
        · rw [hpc, hsources]
      · intro state hstate
        rcases hpc with hpc | hpc | ⟨hpc, _⟩ <;> rw [hpc] at hstate
        · cases hstate
        · cases hstate
        · exact hstate

/-- Once the stored row does not permit observation, and as long as no command makes it permit
observation again, nothing is polled but the sources that the tick in progress has left, in their
order, and what is polled and stored is so at the level of that tick.  Between two ticks nothing is
left. -/
theorem observed_after_pause {ext : Externals} {app app' : App} {after : List Effect}
    (hpaused : app.paused = true)
    (hlater : (machine ext).Reach (· = app)
      (fun app action => staysPaused app action = true) app' after) :
    after.filterMap Effect.polledSource <+: app.sourcesLeft ∧
      ∀ e ∈ after, e.OfTick app.observation.tickState := by
  have hpolled := hlater.emits_prefix Effect.polledSource App.sourcesLeft
    (fun app => app.paused = true) hpaused (by
      intro app action app' es hpaused hstays hstep
      exact ⟨paused_step hpaused hstays hstep, (polls_step hpaused hstep).1⟩)
  refine ⟨(List.prefix_append _ _).trans hpolled.2, ?_⟩
  have htick := hlater.emits
    (fun app' => app'.paused = true ∧ ∀ state, app'.observation.tickState = some state →
      app.observation.tickState = some state)
    (fun e => e.OfTick app.observation.tickState) ?_ ?_
  · exact htick.2
  · rintro _ rfl
    exact ⟨hpaused, fun _ h => h⟩
  · rintro app₁ action app₂ es ⟨hpaused, hsame⟩ hstays hstep
    rcases polls_step hpaused hstep with ⟨_, hstate, hes⟩
    refine ⟨⟨paused_step hpaused hstays hstep, fun state h => hsame state (hstate state h)⟩, ?_⟩
    intro e he
    have htick := hes e he
    cases hpc : app₁.observation.tickState with
    | some state => rwa [hsame state hpc, ← hpc]
    | none =>
        rw [hpc] at htick
        cases e <;> trivial

/-- A tick has polled the first of two sources when the observation is paused. -/
theorem poll_after_pause :
    ∃ app app' after, app.paused = true ∧
      (machine .reference).Reach (· = app)
        (fun app action => staysPaused app action = true) app' after ∧
      after.filterMap Effect.polledSource = [Source.measured.label] ∧
      (after.filterMap Effect.polledSource <+: app.sourcesLeft ∧
        ∀ e ∈ after, e.OfTick app.observation.tickState) := by
  obtain ⟨app, before, app', after, _, hlater, htest⟩ :=
    Machine.exists_reach_after (machine .reference) Machine.always
      (fun app action => staysPaused app action = true)
      (fun app after => app.paused &&
        after.filterMap Effect.polledSource == [Source.measured.label])
      (.launch (.plain (.repeating 1) [.watcher, .measured]) :: Action.consenting 0 2 ++
        [.observe (.plain 0), .observe (.plain 0)] ++ Action.complete 3 .pauseObservation 4)
      (List.replicate 5 (.observe (.plain 0))) App.fresh_initial (by decide +kernel)
  rw [Bool.and_eq_true, beq_iff_eq] at htest
  exact ⟨app, app', after, htest.1, hlater, htest.2, observed_after_pause htest.1 hlater⟩

end Desktop
end HiddenSteps
