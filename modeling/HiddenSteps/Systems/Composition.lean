import HiddenSteps.Systems.Machine

/-!
# Composition — machines as parts of larger machines, and what comes before what

A step of a larger machine is a step of a part or leaves the part alone, so the runs of the part are
all there is of it in the runs of the whole (`Reach.project`).  `Preceded` states that an effect
does not come before another that it needs, and `Reach.preceded` proves it of a machine.
-/

namespace HiddenSteps
namespace Systems

variable {σ τ α β ε δ : Type}

/-! ## Parts -/

namespace Machine

variable {M : Machine σ α ε} {N : Machine τ β δ} {init : σ → Prop} {guard : σ → α → Prop}

/-- The runs of the whole are runs of the part, if every step is one of the part or leaves it
alone. -/
theorem Reach.project {init' : τ → Prop} {guard' : τ → β → Prop} (part : σ → τ)
    (view : ε → Option δ) (hinit : ∀ s, init s → init' (part s))
    (hsteps : ∀ s a s' es, guard s a → M.step s a = some (s', es) →
      part s' = part s ∧ es.filterMap view = [] ∨
        ∃ b, guard' (part s) b ∧ N.step (part s) b = some (part s', es.filterMap view))
    {s : σ} {h : List ε} (hreach : Reach M init guard s h) :
    Reach N init' guard' (part s) (h.filterMap view) := by
  induction hreach with
  | start h => exact .start (hinit _ h)
  | step _ hguard hstep ih =>
      rw [List.filterMap_append]
      rcases hsteps _ _ _ _ hguard hstep with ⟨hpart, hview⟩ | ⟨b, hguard', hstep'⟩
      · rw [hpart, hview, List.append_nil]
        exact ih
      · exact ih.step hguard' hstep'

end Machine

/-! ## Precedence -/

/-- Every effect that needs a cause has one before it. -/
def Preceded (needs : ε → Prop) (cause : ε → ε → Prop) (h : List ε) : Prop :=
  ∀ before e after, h = before ++ e :: after → needs e → ∃ f ∈ before, cause f e

variable {needs : ε → Prop} {cause : ε → ε → Prop}

theorem Preceded.nil : Preceded needs cause [] := by
  intro before e after h
  simp at h

/-- More effects may follow whose causes are among the earlier ones or before them. -/
theorem Preceded.append {h es : List ε} (hearlier : Preceded needs cause h)
    (hlater : ∀ before e after, es = before ++ e :: after → needs e →
      ∃ f ∈ h ++ before, cause f e) :
    Preceded needs cause (h ++ es) := by
  intro before e after heq hneeds
  rcases List.append_eq_append_iff.1 heq with ⟨between, rfl, hes⟩ | ⟨between, hh, hes⟩
  · -- the effect is one of the later ones
    exact hlater between e after hes hneeds
  · cases between with
    | nil =>
        have hlast := hlater [] e after (by simpa using hes.symm) hneeds
        simpa [hh] using hlast
    | cons f between =>
        rcases List.cons.inj hes with ⟨rfl, _⟩
        exact hearlier before e between hh hneeds

/-- Causes come first along the runs of a machine, if an invariant provides for the effects of every
step. -/
theorem Machine.Reach.preceded {M : Machine σ α ε} {init : σ → Prop} {guard : σ → α → Prop}
    (Inv : σ → List ε → Prop) (hinit : ∀ s, init s → Inv s [])
    (hpres : ∀ s h a s' es, Inv s h → guard s a → M.step s a = some (s', es) →
      Inv s' (h ++ es) ∧ ∀ before e after, es = before ++ e :: after → needs e →
        ∃ f ∈ h ++ before, cause f e)
    {s : σ} {h : List ε} (hreach : Machine.Reach M init guard s h) :
    Inv s h ∧ Preceded needs cause h := by
  refine hreach.invariant (fun s h => Inv s h ∧ Preceded needs cause h)
    (fun s hs => ⟨hinit s hs, .nil⟩) ?_
  rintro s h a s' es ⟨hinv, hpreceded⟩ hguard hstep
  rcases hpres s h a s' es hinv hguard hstep with ⟨hinv', hes⟩
  exact ⟨hinv', hpreceded.append hes⟩

end Systems
end HiddenSteps
