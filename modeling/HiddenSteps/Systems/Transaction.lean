import Mathlib.Tactic.Common

/-!
# Transaction — statements that commit one by one and statements in a transaction

A connection has a committed state, and a working copy while a transaction is in progress.  A
statement that fails changes nothing.  Outside of a transaction every statement commits by itself;
within one the statements change the working copy, which a commit makes the committed state and a
rollback throws away.  Faults strike from outside, each before a given statement.
-/

namespace HiddenSteps
namespace Systems
namespace Transaction

variable {σ ε : Type}

structure Connection (σ : Type) where
  committed : σ
  /-- The working copy of a transaction in progress. -/
  pending : Option σ

abbrev Statement (σ ε : Type) := σ → Except ε σ

/-- The faults that meet the statements of a sequence, by their positions. -/
abbrev Faults (ε : Type) := Nat → Option ε

namespace Connection

/-- Outside of a transaction. -/
def autocommit (s : σ) : Connection σ := { committed := s, pending := none }

/-- What statements of the connection see. -/
def view (c : Connection σ) : σ := c.pending.getD c.committed

def begin (c : Connection σ) : Connection σ := { c with pending := some c.committed }

def commit (c : Connection σ) : Connection σ := .autocommit c.view

def rollback (c : Connection σ) : Connection σ := .autocommit c.committed

/-- Take over the result of a statement. -/
def write (c : Connection σ) (s : σ) : Connection σ :=
  match c.pending with
  | some _ => { c with pending := some s }
  | none => .autocommit s

/-- Execute a statement, unless a fault meets it. -/
def execute (fault : Option ε) (statement : Statement σ ε) (c : Connection σ) :
    Except ε Unit × Connection σ :=
  match fault with
  | some e => (.error e, c)
  | none =>
      match statement c.view with
      | .error e => (.error e, c)
      | .ok s => (.ok (), c.write s)

/-- Execute statements up to the first that fails. -/
def executeAll (faults : Faults ε) :
    List (Statement σ ε) → Connection σ → Except ε Unit × Connection σ
  | [], c => (.ok (), c)
  | statement :: statements, c =>
      match c.execute (faults 0) statement with
      | (.error e, c) => (.error e, c)
      | (.ok (), c) => c.executeAll (fun i => faults (i + 1)) statements

/-- A transaction of statements: the first failure, also one of `BEGIN` (position 0) or of `COMMIT`
(behind the last statement), returns early, and the handle rolls back when it is dropped. -/
def transaction (faults : Faults ε) (statements : List (Statement σ ε)) (c : Connection σ) :
    Except ε Unit × Connection σ :=
  match faults 0 with
  | some e => (.error e, c)
  | none =>
      match c.begin.executeAll (fun i => faults (i + 1)) statements with
      | (.error e, c) => (.error e, c.rollback)
      | (.ok (), c) =>
          match faults (statements.length + 1) with
          | some e => (.error e, c.rollback)
          | none => (.ok (), c.commit)

end Connection

/-- The state that statements lead to when no fault meets them. -/
def runAll (statements : List (Statement σ ε)) (s : σ) : Except ε σ :=
  statements.foldlM (fun s statement => statement s) s

theorem runAll_cons (statement : Statement σ ε) (statements : List (Statement σ ε)) (s : σ) :
    runAll (statement :: statements) s =
      match statement s with
      | .error e => .error e
      | .ok s' => runAll statements s' := by
  rw [runAll, List.foldlM_cons]
  cases statement s <;> rfl

namespace Connection

/-- Outside of a transaction: when a condition that no statement changes decides which of them fail,
those in front of the first failure stay committed. -/
theorem executeAll_autocommit {α : Type} {f : α → Statement σ ε} {p : α → Bool} {g : σ → α → σ}
    {e : ε} {I : σ → Prop} (hok : ∀ s a, I s → p a = true → f a s = .ok (g s a) ∧ I (g s a))
    (herror : ∀ s a, I s → p a = false → f a s = .error e) {s : σ} (hs : I s) (as : List α) :
    (autocommit s).executeAll (fun _ => none) (as.map f) =
      (if as.all p then .ok () else .error e, autocommit ((as.takeWhile p).foldl g s)) := by
  induction as generalizing s with
  | nil => rfl
  | cons a as ih =>
      have hview : (autocommit s : Connection σ).view = s := rfl
      rw [List.map_cons, executeAll, execute, hview]
      cases hp : p a with
      | true =>
          obtain ⟨hstep, hs'⟩ := hok s a hs hp
          have hwrite : (autocommit s).write (g s a) = autocommit (g s a) := rfl
          rw [hstep, List.all_cons, hp, List.takeWhile_cons_of_pos hp, List.foldl_cons]
          exact ih hs'
      | false =>
          rw [herror s a hs hp, List.all_cons, hp, List.takeWhile_cons_of_neg (by simp [hp])]
          rfl

variable {faults : Faults ε} {statements : List (Statement σ ε)} {c : Connection σ} {s : σ}

/-- In a transaction the statements change the working copy only; they all succeed if no fault meets
them and each succeeds in its turn. -/
theorem executeAll_pending (hpending : c.pending = some s) :
    let r := c.executeAll faults statements
    r.2.committed = c.committed ∧
      (r.1 = .ok () → (∀ i < statements.length, faults i = none) ∧
        ∃ s', runAll statements s = .ok s' ∧ r.2.pending = some s') ∧
      ∀ e, r.1 = .error e → (∃ s', runAll statements s = .ok s') →
        ∃ i < statements.length, faults i = some e := by
  induction statements generalizing faults c s with
  | nil => exact ⟨rfl, fun _ => ⟨by simp, s, rfl, hpending⟩, fun e he => (by cases he)⟩
  | cons statement statements ih =>
      have hview : c.view = s := by rw [view, hpending, Option.getD_some]
      simp only [executeAll, execute]
      cases hfault : faults 0 with
      | some e =>
          refine ⟨rfl, fun hok => (by cases hok), ?_⟩
          rintro _ ⟨⟩ _
          exact ⟨0, by simp, hfault⟩
      | none =>
          rw [hview, runAll_cons]
          cases hstatement : statement s with
          | error e =>
              refine ⟨rfl, fun hok => (by cases hok), ?_⟩
              rintro _ _ ⟨s', hrun⟩
              cases hrun
          | ok s₁ =>
              have hwrite : c.write s₁ = { c with pending := some s₁ } := by
                rw [write, hpending]
              simp only [hwrite]
              obtain ⟨hcommitted, hok, herror⟩ :=
                @ih (fun i => faults (i + 1)) { c with pending := some s₁ } s₁ rfl
              refine ⟨hcommitted, ?_, ?_⟩
              · intro hr
                obtain ⟨hfaults, hrun⟩ := hok hr
                refine ⟨?_, hrun⟩
                intro i hi
                cases i with
                | zero => exact hfault
                | succ i => exact hfaults i (by simpa using hi)
              · intro e he hrun
                obtain ⟨i, hi, hfaulti⟩ := herror e he hrun
                exact ⟨i + 1, by simpa using hi, hfaulti⟩

/-- A transaction that fails changes nothing. -/
theorem transaction_error {e : ε}
    (h : ((autocommit s).transaction faults statements).1 = .error e) :
    ((autocommit s).transaction faults statements).2 = autocommit s := by
  obtain ⟨hcommitted, _⟩ :=
    @executeAll_pending σ ε (fun i => faults (i + 1)) statements (autocommit s).begin s rfl
  have hrollback : ((autocommit s).begin.executeAll
      (fun i => faults (i + 1)) statements).2.rollback = autocommit s :=
    congrArg autocommit hcommitted
  unfold transaction at h ⊢
  cases hfirst : faults 0 with
  | some e => rfl
  | none =>
      simp only [hfirst] at h ⊢
      cases hc : (autocommit s).begin.executeAll (fun i => faults (i + 1)) statements with
      | mk result c =>
          rw [hc] at hrollback
          cases result with
          | error e => exact hrollback
          | ok _ =>
              simp only [hc] at h ⊢
              cases hlast : faults (statements.length + 1) with
              | some e => exact hrollback
              | none => simp [hlast] at h

/-- A transaction that succeeds has met no fault, and commits what its statements lead to. -/
theorem transaction_ok (h : ((autocommit s).transaction faults statements).1 = .ok ()) :
    (∀ i ≤ statements.length + 1, faults i = none) ∧ ∃ s', runAll statements s = .ok s' ∧
      ((autocommit s).transaction faults statements).2 = autocommit s' := by
  obtain ⟨_, hok, _⟩ :=
    @executeAll_pending σ ε (fun i => faults (i + 1)) statements (autocommit s).begin s rfl
  unfold transaction at h ⊢
  cases hfirst : faults 0 with
  | some e => simp [hfirst] at h
  | none =>
      simp only [hfirst] at h ⊢
      cases hc : (autocommit s).begin.executeAll (fun i => faults (i + 1)) statements with
      | mk result c =>
          rw [hc] at hok
          cases result with
          | error e => simp [hc] at h
          | ok _ =>
              simp only [hc] at h ⊢
              obtain ⟨hfaults, s', hrun, hpending⟩ := hok rfl
              cases hlast : faults (statements.length + 1) with
              | some e => simp [hlast] at h
              | none =>
                  refine ⟨?_, s', hrun, ?_⟩
                  · intro i hi
                    rcases Nat.eq_or_lt_of_le hi with rfl | hi
                    · exact hlast
                    · cases i with
                      | zero => exact hfirst
                      | succ i => exact hfaults i (by simpa using hi)
                  · simp only
                    rw [commit, view, hpending, Option.getD_some]

/-- Statements that succeed in their turn fail only by a fault from outside. -/
theorem fault_of_transaction {e : ε}
    (h : ((autocommit s).transaction faults statements).1 = .error e)
    (hrun : ∃ s', runAll statements s = .ok s') :
    ∃ i ≤ statements.length + 1, faults i = some e := by
  obtain ⟨_, _, herror⟩ :=
    @executeAll_pending σ ε (fun i => faults (i + 1)) statements (autocommit s).begin s rfl
  unfold transaction at h
  split at h
  · rename_i hfirst
    cases h
    exact ⟨0, by simp, hfirst⟩
  · split at h
    · rename_i e' c hc
      cases h
      obtain ⟨i, hi, hfault⟩ := herror e (by rw [hc]) hrun
      exact ⟨i + 1, by simpa using Nat.le_of_lt hi, hfault⟩
    · split at h
      · rename_i hlast
        cases h
        exact ⟨statements.length + 1, Nat.le_refl _, hlast⟩
      · cases h

end Connection

end Transaction
end Systems
end HiddenSteps
