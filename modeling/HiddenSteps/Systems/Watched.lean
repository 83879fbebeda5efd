import HiddenSteps.Systems.Machine

/-!
# Watched — machines with a note of what has happened

`M.watched note` steps as `M` does and keeps a note beside the state.  The note decides nothing:
the runs of a watched machine are those of the machine itself, each with exactly one note
(`reach_of_watched`, `exists_watched`).  A note serves to state what a state alone cannot say, such
as which step a value in it comes from.
-/

namespace HiddenSteps
namespace Systems
namespace Machine

variable {σ α ε γ : Type} {M : Machine σ α ε} {note : σ → α → γ → γ}

/-- The machine with a note that every step updates from the state before it and its action. -/
def watched (M : Machine σ α ε) (note : σ → α → γ → γ) : Machine (σ × γ) α ε where
  step s a := (M.step s.1 a).map fun r => ((r.1, note s.1 a s.2), r.2)

/-- The runs of a watched machine that begin with a blank note. -/
abbrev WatchedReach (M : Machine σ α ε) (note : σ → α → γ → γ) (blank : γ) (init : σ → Prop)
    (guard : σ → α → Prop) : σ × γ → List ε → Prop :=
  Reach (M.watched note) (fun s => init s.1 ∧ s.2 = blank) fun s a => guard s.1 a

theorem watched_step_eq_some {s s' : σ × γ} {a : α} {es : List ε} :
    (M.watched note).step s a = some (s', es) ↔
      M.step s.1 a = some (s'.1, es) ∧ s'.2 = note s.1 a s.2 := by
  rcases s' with ⟨s', g'⟩
  constructor
  · intro h
    rcases Option.map_eq_some_iff.1 h with ⟨⟨s₁, es₁⟩, hstep, heq⟩
    cases heq
    exact ⟨hstep, rfl⟩
  · rintro ⟨hstep, rfl⟩
    exact Option.map_eq_some_iff.2 ⟨(s', es), hstep, rfl⟩

variable {blank : γ} {init : σ → Prop} {guard : σ → α → Prop}

/-- A watched run is a run. -/
theorem reach_of_watched {s : σ × γ} {h : List ε}
    (hreach : WatchedReach M note blank init guard s h) : Reach M init guard s.1 h := by
  induction hreach with
  | start h => exact .start h.1
  | step _ hguard hstep ih => exact .step ih hguard (watched_step_eq_some.1 hstep).1

/-- A run can be watched. -/
theorem exists_watched {s : σ} {h : List ε} (hreach : Reach M init guard s h) :
    ∃ g, WatchedReach M note blank init guard (s, g) h := by
  induction hreach with
  | start h => exact ⟨blank, .start ⟨h, rfl⟩⟩
  | @step s s' a h es _ hguard hstep ih =>
      rcases ih with ⟨g, hreach⟩
      have hwatched : (M.watched note).step (s, g) a = some ((s', note s a g), es) :=
        watched_step_eq_some.2 ⟨hstep, rfl⟩
      exact ⟨note s a g, hreach.step hguard hwatched⟩

/-- An invariant of the states and their notes. -/
theorem WatchedReach.invariant {Inv : σ → γ → Prop} (hinit : ∀ s, init s → Inv s blank)
    (hpres : ∀ s g a s' es, Inv s g → guard s a → M.step s a = some (s', es) →
      Inv s' (note s a g))
    {s : σ × γ} {h : List ε} (hreach : WatchedReach M note blank init guard s h) :
    Inv s.1 s.2 := by
  refine Reach.invariant (fun s _ => Inv s.1 s.2) ?_ ?_ hreach
  · rintro ⟨s, g⟩ ⟨hs, rfl⟩
    exact hinit s hs
  · rintro ⟨s, g⟩ h a ⟨s', g'⟩ es hinv hguard hstep
    rcases watched_step_eq_some.1 hstep with ⟨hstep, rfl⟩
    exact hpres s g a s' es hinv hguard hstep

end Machine
end Systems
end HiddenSteps
