import HiddenSteps.Interface.Consent

/-!
# Validation — what the user consents to has passed a check

The wizard forgets a check when the fields it was about are changed, but sets the answer of a check
whatever has been changed while it was under way.  Along the runs in which no answer comes back that
late, the screen with the start is reached with a choice that a provider has answered for.
-/

namespace HiddenSteps
namespace Interface

open Desktop Systems

namespace OnboardingWizard

/-- The fields have not been changed since the check was sent. -/
def answersChoice (w : OnboardingWizard) : Input → Bool
  | .validated check _ => w.checks[check]? == some w.choice.connectivityRequest
  | _ => true

/-- A check of the choice has passed. -/
def Passed (history : List Event) (w : OnboardingWizard) : Prop :=
  .window (.validated w.choice.connectivityRequest true) ∈ history ∧ w.choice.selectedModel ≠ ""

/-- What the wizard takes for checked has been checked. -/
structure Sound (history : List Event) (w : OnboardingWizard) : Prop where
  validation : w.validation.ok = true → w.Passed history
  step : 7 ≤ w.step → w.Passed history
  checks : ∀ request ∈ w.checks, request.model ≠ ""

theorem sound_start (history : List Event) : start.Sound history :=
  ⟨by simp [start, Validation.unchecked], by simp [start], by simp [start]⟩

theorem Passed.append {history : List Event} {w : OnboardingWizard} (h : w.Passed history)
    (es : List Event) : w.Passed (history ++ es) :=
  ⟨List.mem_append_left _ h.1, h.2⟩

theorem Sound.append {history : List Event} {w : OnboardingWizard} (h : w.Sound history)
    (es : List Event) : w.Sound (history ++ es) :=
  ⟨fun hok => (h.validation hok).append es, fun hstep => (h.step hstep).append es, h.checks⟩

/-- The fields of a check determine what it asks. -/
theorem passed_congr {history : List Event} {w w' : OnboardingWizard}
    (h : w'.validates = w.validates) : w'.Passed history ↔ w.Passed history := by
  simp only [validates, Prod.mk.injEq] at h
  rcases h with ⟨hprovider, hmodel, hkey⟩
  simp only [Passed, Choice.connectivityRequest, Choice.sentKey, hprovider, hmodel, hkey]

theorem modelChosen_ne {w : OnboardingWizard} (h : w.modelChosen = true) :
    w.choice.selectedModel ≠ "" := by
  intro hempty
  rw [modelChosen, hempty] at h
  cases h

/-! ## The effects keep it -/

theorem fillModel_eq {w : OnboardingWizard} (h : w.choice.selectedModel ≠ "") :
    w.fillModel = w := by
  rw [fillModel, if_neg h]

/-- A model that is there is left alone. -/
theorem validates_commit {before after : OnboardingWizard} {detected : Bool}
    (h : after.choice.selectedModel ≠ "") :
    (before.commit after detected).validates = after.validates := by
  have hasked : (before.detectRuntimes after).choice = after.choice := by
    unfold detectRuntimes
    split <;> rfl
  unfold commit resetValidation suggestModel
  rw [fillModel_eq (hasked ▸ h), ite_self]
  split <;> simp [validates, hasked]

/-- A validation that is kept was there before, for the same fields. -/
theorem validation_commit {before after : OnboardingWizard} {detected : Bool}
    (h : (before.commit after detected).validation.ok = true) :
    after.validation.ok = true ∧ after.validates = before.validates ∧
      (before.commit after detected).validates = before.validates := by
  have hfilled : (before.suggestModel (before.detectRuntimes after) detected).validation =
      after.validation := by
    unfold suggestModel detectRuntimes fillModel
    split_ifs <;> rfl
  unfold commit resetValidation at h ⊢
  split at h
  · rename_i hsame
    rw [if_pos hsame]
    exact ⟨hfilled ▸ h, hsame.1, hsame.2.trans hsame.1⟩
  · cases h

/-- A change is committed soundly, if its validation is passed with the fields there were and a
later screen is shown for a choice that has passed. -/
theorem sound_commit {history : List Event} {before after : OnboardingWizard} {detected : Bool}
    (hvalidation : after.validation.ok = true → after.validates = before.validates →
      before.Passed history)
    (hstep : 7 ≤ after.step → after.Passed history)
    (hchecks : ∀ request ∈ after.checks, request.model ≠ "") :
    (before.commit after detected).Sound history := by
  refine ⟨?_, ?_, ?_⟩
  · intro hok
    rcases validation_commit hok with ⟨hok', hsame, hfinal⟩
    exact (passed_congr hfinal).2 (hvalidation hok' hsame)
  · intro h
    rw [commit_step] at h
    exact (passed_congr (validates_commit (hstep h).2)).2 (hstep h)
  · rwa [commit_checks]

/-! ## The steps keep it -/

theorem sound_input {history : List Event} {w : OnboardingWizard} {i : Input}
    {r : Reaction OnboardingWizard} (hinv : w.Sound history) (hguard : w.answersChoice i = true)
    (h : InputStep w i r) : r.state.Sound (history ++ r.reports.map .window) := by
  cases h with
  | continued henabled =>
      simp only [quiet, List.map_nil, List.append_nil]
      refine sound_commit (fun hok _ => hinv.validation hok) ?_ hinv.checks
      intro hstep
      replace hstep : 7 ≤ min totalSteps (w.step + 1) := hstep
      -- the screen before the start is left with a passed check
      have hok : w.validation.ok = true := by
        simp only [continueEnabled, Bool.or_eq_true, Bool.and_eq_true, decide_eq_true_eq] at henabled
        rcases henabled with hearly | ⟨_, hok⟩
        · simp only [totalSteps] at hstep
          omega
        · exact hok
      exact hinv.validation hok
  | wentBack =>
      simp only [quiet, List.map_nil, List.append_nil]
      refine sound_commit (fun hok _ => hinv.validation hok) ?_ hinv.checks
      intro hstep
      replace hstep : 7 ≤ max 1 (w.step - 1) := hstep
      exact hinv.step (by omega)
  | changed hstep hstarting hchecks hvalidation hchoice =>
      simp only [quiet, List.map_nil, List.append_nil]
      refine sound_commit (fun hok _ => hinv.validation (hvalidation ▸ hok)) ?_
        (hchecks ▸ hinv.checks)
      intro hlate
      rw [hstep] at hlate
      -- the fields are changed on their own screen only
      rcases hchoice with hfive | hsame
      · omega
      · exact (passed_congr hsame).2 (hinv.step hlate)
  | probed hmodel =>
      refine ⟨fun hok => (hinv.validation hok).append _, fun hstep => (hinv.step hstep).append _, ?_⟩
      intro request hrequest
      rcases List.mem_append.1 hrequest with hrequest | hrequest
      · exact hinv.checks request hrequest
      · obtain rfl := List.mem_singleton.1 hrequest
        exact modelChosen_ne hmodel
  | started hstep _ _ =>
      exact sound_commit (fun hok _ => (hinv.validation hok).append _)
        (fun _ => (hinv.step (by omega)).append _) hinv.checks
  | detected =>
      simp only [quiet, List.map_nil, List.append_nil]
      exact sound_commit (fun hok _ => hinv.validation hok) hinv.step hinv.checks
  | @validated check result request hcheck =>
      have hrequest : request = w.choice.connectivityRequest := by
        simp only [answersChoice, hcheck, beq_iff_eq, Option.some.injEq] at hguard
        exact hguard
      have hmodel : w.choice.selectedModel ≠ "" := by
        have := hinv.checks request (List.mem_of_getElem? hcheck)
        rwa [hrequest] at this
      refine sound_commit ?_ (fun hstep => (hinv.step hstep).append _)
        fun r hr => hinv.checks r (List.mem_of_mem_eraseIdx hr)
      intro hok _
      replace hok : (Validation.ofResult result).ok = true := hok
      rw [hok, hrequest]
      exact ⟨by simp, hmodel⟩

/-- A result that does not end the wizard. -/
theorem sound_answered {history : List Event} {w : OnboardingWizard} {result : Except String Reply}
    {r : Reaction OnboardingWizard} (hinv : w.Sound history) (h : w.answered result = some r) :
    r.reports.any Report.isCompleted = true ∨
      r.state.Sound (history ++ r.reports.map .window) := by
  simp only [answered, bind, Option.bind_eq_some_iff] at h
  rcases h with ⟨attempt, hstarting, h⟩
  split at h
  · cases h
    refine Or.inr ?_
    simp only [quiet, List.map_nil, List.append_nil]
    exact sound_commit (fun hok _ => hinv.validation hok) hinv.step hinv.checks
  · -- the next call is sent with the choice of the start
    have hsame := hinv.append []
    split at h
    · cases h
      exact Or.inr ⟨hsame.validation, hsame.step, hsame.checks⟩
    · cases h
      exact Or.inr ⟨hsame.validation, hsame.step, hsame.checks⟩
    · cases h
      exact Or.inl rfl

end OnboardingWizard

namespace AppComponent

/-- The wizard is sound as long as it is shown. -/
def Sound (history : List Event) (c : AppComponent) : Prop :=
  c.screen = .wizard → c.wizard.Sound history

theorem sound_mount (history : List Event) : mount.Sound history := by
  rintro ⟨⟩

theorem sound_rerender {history : List Event} {before after : AppComponent}
    (hinv : before.Sound history) (hwizard : after.wizard = before.wizard) :
    (before.rerender after).Sound history := by
  unfold rerender
  split
  · rename_i hscreen
    exact fun _ => hwizard ▸ hinv hscreen
  · exact fun _ => OnboardingWizard.sound_start history

theorem sound_onboardingAnswered {history : List Event} {c : AppComponent}
    (hinv : c.Sound history) (answer : Except String Bool) :
    (c.onboardingAnswered answer).Sound history := by
  cases answer <;> exact sound_rerender hinv rfl

theorem sound_input {history : List Event} {c : AppComponent} {i : Input}
    {r : OnboardingWizard.Reaction AppComponent} (hinv : c.Sound history)
    (hguard : ∀ i', i = .wizard i' → c.wizard.answersChoice i' = true)
    (h : c.input i = some r) : r.state.Sound (history ++ r.reports.map .window) := by
  cases i with
  | retry =>
      simp only [input, Option.ite_none_right_eq_some] at h
      cases h.2
      simp only [List.map_nil, List.append_nil]
      exact sound_rerender hinv rfl
  | wizard i =>
      simp only [input, Option.ite_none_right_eq_some] at h
      rcases Option.map_eq_some_iff.1 h.2 with ⟨r', hr', rfl⟩
      exact fun _ => OnboardingWizard.sound_input (hinv h.1) (hguard i rfl)
        (OnboardingWizard.inputStep_of_input hr')
  | main command =>
      simp only [input, Option.ite_none_right_eq_some] at h
      cases h.2
      exact fun hscreen => (hinv hscreen).append _

theorem sound_answered {history : List Event} {c : AppComponent} {result : Except String Reply}
    {r : OnboardingWizard.Reaction AppComponent} (hinv : c.Sound history)
    (h : c.answered result = some r) : r.state.Sound (history ++ r.reports.map .window) := by
  simp only [answered, Option.ite_none_right_eq_some] at h
  rcases h with ⟨hscreen, h⟩
  rcases Option.map_eq_some_iff.1 h with ⟨r', hr', rfl⟩
  rcases OnboardingWizard.sound_answered (hinv hscreen) hr' with hcompleted | hsound
  · -- the wizard is not shown any more
    rw [if_pos hcompleted]
    intro hscreen'
    unfold screen at hscreen'
    split at hscreen' <;> cases hscreen'
  · intro _
    split <;> exact hsound

end AppComponent

/-! ## Runs -/

/-- No answer to a check comes back after the fields have been changed. -/
def answersChosen (s : Installation) : Action → Bool
  | .input (.wizard i) => s.window.all fun w => w.component.wizard.answersChoice i
  | _ => true

def Installation.Sound (history : List Event) (s : Installation) : Prop :=
  ∀ w, s.window = some w → w.component.Sound history

theorem Reacts.sound {device : App} {window : Window} {action : Action} {awaited : Option Nat}
    {r : OnboardingWizard.Reaction AppComponent} {history : List Event}
    (hinv : window.component.Sound history)
    (hguard : answersChosen ⟨device, some window⟩ action = true)
    (h : Reacts device window action awaited r) :
    r.state.Sound (history ++ r.reports.map .window) := by
  cases h with
  | input hinput =>
      refine AppComponent.sound_input hinv ?_ hinput
      rintro i rfl
      simpa [answersChosen] using hguard
  | answered _ _ _ hanswered => exact AppComponent.sound_answered hinv hanswered

/-- A start is reported for a choice that has passed. -/
theorem Reacts.passed {device : App} {window : Window} {action : Action} {awaited : Option Nat}
    {r : OnboardingWizard.Reaction AppComponent} {history : List Event} {choice : Choice}
    (hinv : window.component.Sound history) (h : Reacts device window action awaited r)
    (hconsented : .consented choice ∈ r.reports) :
    r.reports = [.consented choice] ∧
      .window (.validated choice.connectivityRequest true) ∈ history := by
  cases h with
  | @input i _ hinput =>
      cases i with
      | wizard i =>
          simp only [AppComponent.input, Option.ite_none_right_eq_some] at hinput
          rcases Option.map_eq_some_iff.1 hinput.2 with ⟨r', hr', rfl⟩
          cases OnboardingWizard.inputStep_of_input hr' with
          | started hstep =>
              simp only [List.mem_singleton, OnboardingWizard.Report.consented.injEq] at hconsented
              subst hconsented
              exact ⟨rfl, ((hinv hinput.1).step (by omega)).1⟩
          | _ => simp [OnboardingWizard.quiet] at hconsented
      | _ =>
          simp only [AppComponent.input, Option.ite_none_right_eq_some] at hinput
          cases hinput.2
          cases hconsented
  | answered _ _ _ hanswered =>
      simp only [AppComponent.answered, Option.ite_none_right_eq_some] at hanswered
      rcases Option.map_eq_some_iff.1 hanswered.2 with ⟨r', hr', rfl⟩
      simp only [OnboardingWizard.answered, bind, Option.bind_eq_some_iff] at hr'
      rcases hr' with ⟨attempt, _, hr'⟩
      split at hr'
      · cases hr'
        cases hconsented
      · split at hr' <;> cases hr' <;> simp at hconsented

theorem mem_reports_of_consented {reports : List OnboardingWizard.Report} {rest : List Event}
    {choice : Choice} (hrest : ∀ e ∈ rest, e.isConsent = false)
    (h : .window (.consented choice) ∈ reports.map Event.window ++ rest) :
    .consented choice ∈ reports := by
  rcases List.mem_append.1 h with h | h
  · rcases List.mem_map.1 h with ⟨report, hreport, heq⟩
    cases heq
    exact hreport
  · cases hrest _ h

/-- One step keeps the wizard sound, and starts with a choice that has passed before it. -/
theorem Installation.sound_step {ext : Externals} {s s' : Installation} {action : Action}
    {history es : List Event} (hinv : s.Sound history) (hguard : answersChosen s action = true)
    (h : (installation ext).step s action = some (s', es)) :
    s'.Sound (history ++ es) ∧ ∀ choice, .window (.consented choice) ∈ es →
      .window (.validated choice.connectivityRequest true) ∈ history := by
  have hdevice : ∀ effects : List Effect, ∀ e ∈ effects.map Event.device, e.isConsent = false := by
    intro effects e he
    rcases List.mem_map.1 he with ⟨_, _, rfl⟩
    rfl
  cases installationStep_of_step h with
  | device _ _ hwindow =>
      constructor
      · intro w hw
        rcases hwindow with hwindow | ⟨hwindow, _⟩ | ⟨hwindow, _⟩
        · cases hwindow.symm.trans hw
        · cases hwindow.symm.trans hw
          exact AppComponent.sound_mount _
        · exact fun hscreen => (hinv w (hwindow.symm.trans hw) hscreen).append _
      · intro choice hconsented
        cases hdevice _ _ hconsented
  | reloaded =>
      refine ⟨?_, by simp⟩
      rintro w ⟨⟩
      exact AppComponent.sound_mount _
  | reacted hr =>
      have hw := hinv _ rfl
      constructor
      · rintro w ⟨⟩
        exact hr.sound hw hguard
      · intro choice hconsented
        rw [← List.append_nil (List.map _ _)] at hconsented
        exact (hr.passed hw (mem_reports_of_consented (by simp) hconsented)).2
  | sent hr =>
      have hw := hinv _ rfl
      constructor
      · rintro w ⟨⟩ hscreen
        rw [← List.append_assoc]
        exact (hr.sound hw hguard hscreen).append _
      · intro choice hconsented
        refine (hr.passed hw (mem_reports_of_consented ?_ hconsented)).2
        intro e he
        rcases List.mem_cons.1 he with rfl | he
        · rfl
        · exact hdevice _ e he
  | read =>
      refine ⟨?_, by simp⟩
      rintro w ⟨⟩ hscreen
      exact (hinv _ rfl hscreen).append _
  | onboarded =>
      refine ⟨?_, by simp⟩
      rintro w ⟨⟩ hscreen
      exact (AppComponent.sound_onboardingAnswered (hinv _ rfl) _ hscreen).append _

/-- In every run in which no answer to a check comes back after the fields have been changed, the
user starts the observation with a provider, a model and a key that have passed a check. -/
theorem consented_choice_validated {ext : Externals} {s : Installation} {history : List Event}
    (hreach : (installation ext).Reach Installation.Initial
      (fun s action => answersChosen s action = true) s history)
    {before after : List Event} {choice : Choice}
    (hhistory : history = before ++ .window (.consented choice) :: after) :
    .window (.validated choice.connectivityRequest true) ∈ before := by
  have hpreceded : s.Sound history ∧ Preceded (fun e => e.isConsent = true)
      (fun f e => ∃ choice, e = .window (.consented choice) ∧
        f = .window (.validated choice.connectivityRequest true)) history := by
    refine hreach.preceded (fun s h => s.Sound h) ?_ ?_
    · intro s hs w hw
      cases hs.2.symm.trans hw
    · intro s h action s' es hinv hguard hstep
      rcases Installation.sound_step hinv hguard hstep with ⟨hinv', hpassed⟩
      refine ⟨hinv', ?_⟩
      rintro before e after rfl hconsent
      rcases Event.consented_of_isConsent hconsent with ⟨choice, rfl⟩
      exact ⟨_, List.mem_append_left _ (hpassed choice (by simp)), choice, rfl, rfl⟩
  rcases hpreceded.2 before _ after hhistory rfl with ⟨f, hf, choice', heq, rfl⟩
  cases heq
  exact hf

/-- In a first run, the choice that the user starts with has passed. -/
theorem consented_choice_validated_onboarding :
    ∃ s history before after choice,
      (installation .reference).Reach Installation.Initial
        (fun s action => answersChosen s action = true) s history ∧
      history = before ++ .window (.consented choice) :: after ∧
      .window (.validated choice.connectivityRequest true) ∈ before := by
  obtain ⟨s, history, hreach, htest⟩ := Machine.exists_reach (installation .reference)
    (fun s action => answersChosen s action = true) (fun _ history => history.any Event.isConsent)
    (Action.onboarding []) Installation.fresh_initial (by decide +kernel)
  rcases List.any_eq_true.1 htest with ⟨e, he, hconsent⟩
  rcases Event.consented_of_isConsent hconsent with ⟨choice, rfl⟩
  rcases List.append_of_mem he with ⟨before, after, rfl⟩
  exact ⟨s, _, before, after, choice, hreach, rfl, consented_choice_validated hreach rfl⟩

end Interface
end HiddenSteps
