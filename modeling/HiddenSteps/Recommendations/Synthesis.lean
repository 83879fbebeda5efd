import HiddenSteps.Recommendations.Acceptance
import HiddenSteps.Systems.Retry

/-!
# Synthesis — the attempts of a synthesizer

`synthesize` asks its provider until an answer is acceptable, and asks no more after that.  It ends
with the first acceptable answer, with the provider's first error or, when no attempt is left, with
the reason why the last answer was not acceptable.
-/

namespace HiddenSteps
namespace Recommendations

open Text Patterns Systems

/-- A provider and the number of times it may be asked, at least once. -/
structure Synthesizer where
  providerId : String
  /-- The outcome of a call, from the number of calls before it. -/
  complete : Nat → CompletionRequest → Except String String
  maxAttempts : Nat
  maxAttempts_pos : 0 < maxAttempts

namespace Synthesizer

def new (providerId : String) (complete : Nat → CompletionRequest → Except String String) :
    Synthesizer :=
  { providerId := providerId
    complete := complete
    maxAttempts := 2
    maxAttempts_pos := Nat.succ_pos 1 }

def withMaxAttempts (providerId : String)
    (complete : Nat → CompletionRequest → Except String String) (maxAttempts : Nat) : Synthesizer :=
  { providerId := providerId
    complete := complete
    maxAttempts := max maxAttempts 1
    maxAttempts_pos := Nat.lt_of_lt_of_le Nat.zero_lt_one (Nat.le_max_right maxAttempts 1) }

/-- One attempt: what the synthesis returns, or the reason to ask again. -/
def attempt (s : Synthesizer) (ext : Externals) (patternId : Nat) (detected : DetectedPattern)
    (now : Nat → Timestamp) (i : Nat) :
    Except String (Except SynthesisError Recommendation) :=
  match s.complete i (synthesisRequest patternId detected) with
  | .error e => .ok (.error (.provider e))
  | .ok text =>
      match tryBuild ext s.providerId patternId detected (now i) text with
      | .ok recommendation => .ok (.ok recommendation)
      | .error reason => .error reason

/-- What is returned after a number of attempts. -/
def conclude (s : Synthesizer)
    (attempts : Nat × Except String (Except SynthesisError Recommendation)) :
    Nat × Except SynthesisError Recommendation :=
  (attempts.1,
    match attempts.2 with
    | .ok result => result
    | .error lastError => .error (.exhaustedRetries s.maxAttempts lastError))

/-- The number of calls of the provider, and the result. -/
def synthesize (s : Synthesizer) (ext : Externals) (patternId : Nat) (detected : DetectedPattern)
    (now : Nat → Timestamp) : Nat × Except SynthesisError Recommendation :=
  s.conclude (retry s.maxAttempts (s.attempt ext patternId detected now) "")

end Synthesizer

/-! ## What a recommendation says -/

/-- Every text of a recommendation that a provider has written. -/
def freeText (recommendation : Recommendation) : List String :=
  [recommendation.why, recommendation.title, recommendation.privacyImplications,
      recommendation.implementationEffort] ++
    recommendation.assumptions ++ recommendation.ignoredInformation ++
    recommendation.alternatives.flatMap fun a => [a.approach, a.tradeoff]

/-- A recommendation is sound for a pattern: its confidence is in range, no text contradicts the
count, and its saving comes from the pattern. -/
structure SoundFor (u : UnicodeClasses) (detected : DetectedPattern)
    (recommendation : Recommendation) : Prop where
  confidence_nonneg : 0 ≤ recommendation.confidence
  confidence_le_one : recommendation.confidence ≤ 1
  consistent : ∀ text ∈ freeText recommendation,
    contradictsOccurrenceCount u text detected.occurrenceCount = false
  timeSaved : recommendation.estimatedTimeSavedMinutes =
    detected.estimatedMinutesPerOccurrence * detected.occurrenceCount

theorem soundFor_of_tryBuild {ext : Externals} {providerId : String} {patternId : Nat}
    {detected : DetectedPattern} {now : Timestamp} {text : String} {rec : Recommendation}
    (h : tryBuild ext providerId patternId detected now text = .ok rec) :
    SoundFor ext.classes detected rec := by
  rcases tryBuild_eq_ok_iff.1 h with ⟨fields, hacceptable, hmade⟩
  have hclear := hacceptable.consistent
  refine ⟨?_, ?_, ?_, hmade.timeSaved⟩
  · rw [hmade.confidence]
    exact hacceptable.confidence_nonneg
  · rw [hmade.confidence]
    exact hacceptable.confidence_le_one
  · simp only [freeText, hmade.why, hmade.title, hmade.privacyImplications,
      hmade.implementationEffort, hmade.assumptions, hmade.ignoredInformation, hmade.alternatives,
      List.flatMap_map, List.forall_mem_append, List.forall_mem_cons, List.forall_mem_flatMap]
    exact ⟨⟨⟨⟨hclear.why, hclear.title, hclear.privacyImplications, hclear.implementationEffort,
      by simp⟩, hclear.assumptions⟩, hclear.ignoredInformation⟩, fun a ha =>
      ⟨(hclear.alternatives a ha).1, (hclear.alternatives a ha).2, by simp⟩⟩

/-! ## The attempts in order -/

namespace Synthesizer

section Runs

variable (s : Synthesizer) (ext : Externals) (patternId : Nat) (detected : DetectedPattern)
  (now : Nat → Timestamp)

/-- An answer that is not acceptable. -/
def Rejected (i : Nat) : Prop :=
  ∃ text, s.complete i (synthesisRequest patternId detected) = .ok text ∧
    ∀ fields, ¬ Acceptable ext detected text fields

/-- A run of at most `limit` calls ends with the first answer that is an error or acceptable; a
recommendation is made of the fields of that answer. -/
structure EndsAtFirst (limit : Nat) (run : Nat × Except SynthesisError Recommendation) : Prop where
  calls_le : run.1 ≤ limit
  failed : ∀ k < limit, (∀ i < k, s.Rejected ext patternId detected i) →
    ∀ e, s.complete k (synthesisRequest patternId detected) = .error e →
      run = (k + 1, .error (.provider e))
  accepted : ∀ k < limit, (∀ i < k, s.Rejected ext patternId detected i) →
    ∀ text fields, s.complete k (synthesisRequest patternId detected) = .ok text →
      Acceptable ext detected text fields →
      ∃ recommendation, MadeOf s.providerId patternId detected (now k) fields recommendation ∧
        run = (k + 1, .ok recommendation)
  exhausted : (∀ i < limit, s.Rejected ext patternId detected i) →
    ∃ text reason,
      s.complete (limit - 1) (synthesisRequest patternId detected) = .ok text ∧
      tryBuild ext s.providerId patternId detected (now (limit - 1)) text = .error reason ∧
      run = (limit, .error (.exhaustedRetries limit reason))

variable {s ext patternId detected now}

theorem attempts_fail {k : Nat} (hrejected : ∀ i < k, s.Rejected ext patternId detected i) :
    ∀ i < k, ∃ reason, s.attempt ext patternId detected now i = .error reason := by
  intro i hi
  rcases hrejected i hi with ⟨text, htext, hnone⟩
  obtain ⟨reason, hreason⟩ : ∃ reason,
      tryBuild ext s.providerId patternId detected (now i) text = .error reason :=
    tryBuild_eq_error_iff.2 hnone
  exact ⟨reason, by simp only [attempt, htext, hreason]⟩

theorem answer_of_attempt {i : Nat} {reason : String}
    (h : s.attempt ext patternId detected now i = .error reason) :
    ∃ text, s.complete i (synthesisRequest patternId detected) = .ok text ∧
      tryBuild ext s.providerId patternId detected (now i) text = .error reason := by
  unfold attempt at h
  split at h
  · cases h
  · rename_i text htext
    split at h
    · cases h
    · rename_i reason' hbuild
      cases h
      exact ⟨text, htext, hbuild⟩

theorem synthesize_of_attempt {k : Nat} {result : Except SynthesisError Recommendation}
    (hk : k < s.maxAttempts) (hrejected : ∀ i < k, s.Rejected ext patternId detected i)
    (hresult : s.attempt ext patternId detected now k = .ok result) :
    s.synthesize ext patternId detected now = (k + 1, result) := by
  simp only [synthesize, conclude, retry_succeeds hk (attempts_fail hrejected) hresult]

theorem endsAtFirst_synthesize :
    s.EndsAtFirst ext patternId detected now s.maxAttempts
      (s.synthesize ext patternId detected now) where
  calls_le := by
    have hle : (retry s.maxAttempts (s.attempt ext patternId detected now) "").1 ≤
        s.maxAttempts := retry_fst_le
    exact hle
  failed := by
    intro k hk hrejected e he
    refine synthesize_of_attempt hk hrejected ?_
    simp only [attempt, he]
  accepted := by
    intro k hk hrejected text fields htext hacceptable
    rcases hacceptable.exists_madeOf s.providerId patternId (now k) with ⟨recommendation, hmade⟩
    have hbuild := tryBuild_eq_ok_iff.2 ⟨fields, hacceptable, hmade⟩
    refine ⟨recommendation, hmade, synthesize_of_attempt hk hrejected ?_⟩
    simp only [attempt, htext, hbuild]
  exhausted := by
    intro hrejected
    rcases @retry_exhausted _ _ _ _ "" (attempts_fail hrejected) with ⟨reason, hretry, hlast⟩
    rcases answer_of_attempt (hlast _ (Nat.sub_add_cancel s.maxAttempts_pos)) with
      ⟨text, htext, hbuild⟩
    refine ⟨text, reason, htext, hbuild, ?_⟩
    simp only [synthesize, conclude, hretry]

/-- A recommendation comes out of an answer. -/
theorem tryBuild_of_synthesize {recommendation : Recommendation}
    (h : (s.synthesize ext patternId detected now).2 = .ok recommendation) :
    ∃ i text, tryBuild ext s.providerId patternId detected (now i) text = .ok recommendation := by
  dsimp only [synthesize, conclude] at h
  split at h
  · rename_i result hretry
    rcases exists_attempt_of_retry hretry with ⟨i, -, hattempt⟩
    have hresult : result = .ok recommendation := h
    rw [hresult, attempt] at hattempt
    split at hattempt
    · cases hattempt
    · rename_i text _
      split at hattempt
      · rename_i hbuild
        cases hattempt
        exact ⟨i, text, hbuild⟩
      · cases hattempt
  · cases h

end Runs

/-! ## One attempt at a time -/

section Attempts

variable (s : Synthesizer) (ext : Externals) (patternId : Nat) (detected : DetectedPattern)
  (now : Nat → Timestamp)

/-- A run of single attempts from number `i` on: the number of calls it makes, and its result. -/
inductive AttemptRun : Attempts → Nat → Nat × Except SynthesisError Recommendation → Prop where
  | finished {attempts : Attempts} {i : Nat} {result : Except SynthesisError Recommendation}
      (h : nextAttempt ext s.providerId patternId detected (now i) attempts
        (s.complete i (synthesisRequest patternId detected)) = .finished result) :
      AttemptRun attempts i (1, result)
  | again {attempts attempts' : Attempts} {i : Nat}
      {rest : Nat × Except SynthesisError Recommendation}
      (h : nextAttempt ext s.providerId patternId detected (now i) attempts
        (s.complete i (synthesisRequest patternId detected)) = .again attempts')
      (hrest : AttemptRun attempts' (i + 1) rest) : AttemptRun attempts i (rest.1 + 1, rest.2)

variable {s ext patternId detected now}

theorem nextAttempt_of_attempt_ok {attempts : Attempts} {i : Nat}
    {result : Except SynthesisError Recommendation}
    (h : s.attempt ext patternId detected now i = .ok result) :
    nextAttempt ext s.providerId patternId detected (now i) attempts
      (s.complete i (synthesisRequest patternId detected)) = .finished result := by
  unfold attempt at h
  split at h
  · rename_i hanswer
    cases h
    simp only [nextAttempt, hanswer]
  · rename_i hanswer
    split at h
    · rename_i hbuild
      cases h
      simp only [nextAttempt, hanswer, hbuild]
    · cases h

theorem nextAttempt_of_attempt_error {attempts : Attempts} {i : Nat} {reason : String}
    (h : s.attempt ext patternId detected now i = .error reason) :
    nextAttempt ext s.providerId patternId detected (now i) attempts
        (s.complete i (synthesisRequest patternId detected)) =
      if attempts.left - 1 = 0 then
        .finished (.error (.exhaustedRetries attempts.maxAttempts reason))
      else .again { attempts with left := attempts.left - 1, lastError := reason } := by
  rcases answer_of_attempt h with ⟨text, htext, hbuild⟩
  simp only [nextAttempt, htext, hbuild]

/-- Single attempts do what the loop does with as many attempts left. -/
theorem attemptRun_conclude {left i : Nat} {attempts : Attempts} {last : String}
    (hleft : attempts.left = left + 1) (hmax : attempts.maxAttempts = s.maxAttempts) :
    AttemptRun s ext patternId detected now attempts i
      (s.conclude (retry (left + 1) (fun j => s.attempt ext patternId detected now (i + j))
        last)) := by
  induction left generalizing i attempts last with
  | zero =>
      cases hattempt : s.attempt ext patternId detected now i with
      | ok result =>
          rw [retry_ok hattempt]
          exact .finished (nextAttempt_of_attempt_ok hattempt)
      | error reason =>
          rw [retry_error hattempt]
          refine .finished ?_
          rw [nextAttempt_of_attempt_error hattempt, hleft, if_pos rfl, hmax]
          rfl
  | succ left ih =>
      cases hattempt : s.attempt ext patternId detected now i with
      | ok result =>
          rw [retry_ok hattempt]
          exact .finished (nextAttempt_of_attempt_ok hattempt)
      | error reason =>
          have hnext := @nextAttempt_of_attempt_error s ext patternId detected now attempts i
            reason hattempt
          rw [hleft, Nat.add_sub_cancel, if_neg (Nat.succ_ne_zero left)] at hnext
          have hshift : (fun j => s.attempt ext patternId detected now (i + (j + 1))) =
              fun j => s.attempt ext patternId detected now (i + 1 + j) := by
            funext j
            rw [Nat.add_assoc, Nat.add_comm 1]
          rw [retry_error hattempt, hshift]
          exact .again hnext (ih rfl hmax)

/-- A synthesis is a run of single attempts. -/
theorem attemptRun_synthesize :
    AttemptRun s ext patternId detected now
      { maxAttempts := s.maxAttempts, left := s.maxAttempts, lastError := "" } 0
      (s.synthesize ext patternId detected now) := by
  have hleft : s.maxAttempts = s.maxAttempts - 1 + 1 :=
    (Nat.sub_add_cancel s.maxAttempts_pos).symm
  have hrun := @attemptRun_conclude s ext patternId detected now (s.maxAttempts - 1) 0
    { maxAttempts := s.maxAttempts, left := s.maxAttempts, lastError := "" } "" hleft rfl
  rw [← hleft] at hrun
  simpa [synthesize] using hrun

end Attempts

/-- An attempt succeeds exactly on the acceptable answers, and a synthesis ends at the first answer
that decides it.  What it returns is made of the fields of an acceptable answer and sound for the
pattern, and its saving does not depend on the answers. -/
theorem synthesize_takes_first_acceptable (ext : Externals) (providerId : String)
    (complete : Nat → CompletionRequest → Except String String) (maxAttempts patternId : Nat)
    (detected : DetectedPattern) (now : Nat → Timestamp) :
    let s := Synthesizer.withMaxAttempts providerId complete maxAttempts
    let run := s.synthesize ext patternId detected now
    (∀ i text recommendation,
        tryBuild ext providerId patternId detected (now i) text = .ok recommendation ↔
          ∃ fields, Acceptable ext detected text fields ∧
            MadeOf providerId patternId detected (now i) fields recommendation) ∧
      s.EndsAtFirst ext patternId detected now (max 1 maxAttempts) run ∧
      (∀ recommendation, run.2 = .ok recommendation →
        SoundFor ext.classes detected recommendation) ∧
      ∀ complete' now' recommendation recommendation', run.2 = .ok recommendation →
        ((Synthesizer.withMaxAttempts providerId complete' maxAttempts).synthesize ext patternId
          detected now').2 = .ok recommendation' →
        recommendation.estimatedTimeSavedMinutes =
          recommendation'.estimatedTimeSavedMinutes := by
  have hsound : ∀ complete now recommendation,
      ((Synthesizer.withMaxAttempts providerId complete maxAttempts).synthesize ext patternId
        detected now).2 = .ok recommendation → SoundFor ext.classes detected recommendation := by
    intro complete now recommendation h
    rcases tryBuild_of_synthesize h with ⟨i, text, hbuild⟩
    exact soundFor_of_tryBuild hbuild
  refine ⟨fun _ _ _ => tryBuild_eq_ok_iff, ?_, hsound complete now, ?_⟩
  · rw [Nat.max_comm]
    exact endsAtFirst_synthesize
  · intro complete' now' recommendation recommendation' h h'
    rw [(hsound _ _ _ h).timeSaved, (hsound _ _ _ h').timeSaved]

end Synthesizer

end Recommendations
end HiddenSteps
