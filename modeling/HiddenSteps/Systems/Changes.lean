import Mathlib.Data.List.Destutter
import Mathlib.Data.List.ReduceOption
import Mathlib.Tactic.Common

/-!
# Changes — sensors that report what is new

A sensor is read again and again and reports along the way.  A *watch* on it is a part of its
memory, the key it has seen last, such that its reports of a kind are those of the readings whose
key differs from the one before.  The reports of a whole run are then the readings without their
repetitions (`Watch.reports_eq`).
-/

namespace HiddenSteps
namespace Systems

variable {σ ι ε α : Type}

/-! ## Changes of a key -/

section Changes

variable {κ : Type} [DecidableEq κ]

/-- What comes with the keys that differ from the one before. -/
def changes : Option κ → List (κ × α) → List α
  | _, [] => []
  | last, (k, a) :: l => if last = some k then changes last l else a :: changes (some k) l

theorem changes_cons_same {k : κ} {a : α} {l : List (κ × α)} :
    changes (some k) ((k, a) :: l) = changes (some k) l := if_pos rfl

theorem changes_cons_new {last : Option κ} {k : κ} {a : α} {l : List (κ × α)}
    (h : last ≠ some k) : changes last ((k, a) :: l) = a :: changes (some k) l := if_neg h

/-- The changes after a key are the destuttered list behind it. -/
theorem cons_changes (k : κ) (a : α) (l : List (κ × α)) :
    a :: changes (some k) l =
      (l.destutter' (fun p q => p.1 ≠ q.1) (k, a)).map Prod.snd := by
  induction l generalizing k a with
  | nil => rfl
  | cons p l ih =>
      rcases p with ⟨k', a'⟩
      by_cases h : k = k'
      · subst h
        rw [List.destutter'_cons_neg _ (by simp), changes_cons_same, ih]
      · rw [List.destutter'_cons_pos _ h, changes_cons_new (by simpa using h), List.map_cons, ih]

theorem changes_none (l : List (κ × α)) :
    changes none l = (l.destutter fun p q => p.1 ≠ q.1).map Prod.snd := by
  cases l with
  | nil => rfl
  | cons p l =>
      rw [List.destutter_cons', ← cons_changes, changes_cons_new (by simp)]

/-- Where the key determines what comes with it, the keys themselves are destuttered. -/
theorem changes_map (f : κ → α) (k : κ) (l : List κ) :
    f k :: changes (some k) (l.map fun k => (k, f k)) =
      ((k :: l).destutter (· ≠ ·)).map f := by
  rw [List.destutter_cons']
  induction l generalizing k with
  | nil => rfl
  | cons k' l ih =>
      rw [List.map_cons]
      by_cases h : k = k'
      · subst h
        rw [changes_cons_same, List.destutter'_cons_neg _ (by simp), ih]
      · rw [changes_cons_new (by simpa using h), List.destutter'_cons_pos _ h, List.map_cons, ih]

end Changes

/-! ## Sensors -/

/-- A sensor takes a reading and answers with reports. -/
structure Sensor (σ ι ε : Type) where
  read : σ → ι → σ × List ε

namespace Sensor

variable {S : Sensor σ ι ε}

/-- A run over some readings, with all its reports. -/
def run (S : Sensor σ ι ε) : σ → List ι → σ × List ε
  | s, [] => (s, [])
  | s, i :: is => ((S.run (S.read s i).1 is).1, (S.read s i).2 ++ (S.run (S.read s i).1 is).2)

/-- Reports of a kind, made when a key changes. -/
structure Watch (S : Sensor σ ι ε) (κ : Type) [DecidableEq κ] (kind : ε → Option α) where
  /-- The key that has been seen last. -/
  last : σ → Option κ
  /-- The key that a reading shows, if it shows one. -/
  sees : ι → Option κ
  /-- What a reading has to say when its key is new. -/
  tells : ι → Option α
  blind : ∀ s i, sees i = none →
    last (S.read s i).1 = last s ∧ (S.read s i).2.filterMap kind = []
  same : ∀ s i k, sees i = some k → last s = some k →
    last (S.read s i).1 = some k ∧ (S.read s i).2.filterMap kind = []
  new : ∀ s i k, sees i = some k → last s ≠ some k →
    last (S.read s i).1 = some k ∧ (S.read s i).2.filterMap kind = (tells i).toList

namespace Watch

variable {κ : Type} [DecidableEq κ] {kind : ε → Option α}

/-- The keys that some readings show, with what they tell. -/
def seen (W : Watch S κ kind) (is : List ι) : List (κ × Option α) :=
  is.filterMap fun i => (W.sees i).map fun k => (k, W.tells i)

theorem seen_cons_none (W : Watch S κ kind) {i : ι} {is : List ι} (h : W.sees i = none) :
    W.seen (i :: is) = W.seen is := by
  simp [seen, h]

theorem seen_cons_some (W : Watch S κ kind) {i : ι} {is : List ι} {k : κ}
    (h : W.sees i = some k) : W.seen (i :: is) = (k, W.tells i) :: W.seen is := by
  simp [seen, h]

/-- The reports of a run are what the changes of the key tell. -/
theorem reports_eq (W : Watch S κ kind) (s : σ) (is : List ι) :
    (S.run s is).2.filterMap kind = (changes (W.last s) (W.seen is)).reduceOption := by
  induction is generalizing s with
  | nil => rfl
  | cons i is ih =>
      rw [run, List.filterMap_append, ih]
      cases hsees : W.sees i with
      | none =>
          rcases W.blind s i hsees with ⟨hlast, hreports⟩
          rw [hlast, hreports, List.nil_append, W.seen_cons_none hsees]
      | some k =>
          rw [W.seen_cons_some hsees]
          by_cases hlast : W.last s = some k
          · rcases W.same s i k hsees hlast with ⟨hnext, hreports⟩
            rw [hnext, hreports, List.nil_append, hlast, changes_cons_same]
          · rcases W.new s i k hsees hlast with ⟨hnext, hreports⟩
            rw [hnext, hreports, changes_cons_new hlast]
            cases W.tells i with
            | none => rw [List.reduceOption_cons_of_none, Option.toList_none, List.nil_append]
            | some a => rw [List.reduceOption_cons_of_some, Option.toList_some, List.singleton_append]

/-- The key of the last reading that shows one is remembered. -/
theorem last_eq (W : Watch S κ kind) (s : σ) (is : List ι) :
    W.last (S.run s is).1 = ((is.filterMap W.sees).getLast?).or (W.last s) := by
  induction is generalizing s with
  | nil => rfl
  | cons i is ih =>
      rw [run, ih, List.filterMap_cons]
      cases hsees : W.sees i with
      | none => rw [(W.blind s i hsees).1]
      | some k =>
          have hnext : W.last (S.read s i).1 = some k := by
            by_cases hlast : W.last s = some k
            · exact (W.same s i k hsees hlast).1
            · exact (W.new s i k hsees hlast).1
          rw [hnext, List.getLast?_cons]
          cases (is.filterMap W.sees).getLast? <;> rfl

/-- Where the key determines what is told, the last report is that of the key remembered. -/
theorem last_report (W : Watch S κ kind) (f : κ → Option α)
    (htells : ∀ i k, W.sees i = some k → W.tells i = f k) (is : List ι) {s : σ} {reports : List α}
    (h : ∀ k a, W.last s = some k → f k = some a → reports.getLast? = some a) :
    ∀ k a, W.last (S.run s is).1 = some k → f k = some a →
      (reports ++ (S.run s is).2.filterMap kind).getLast? = some a := by
  induction is generalizing s reports with
  | nil => simpa [run] using h
  | cons i is ih =>
      rw [run, List.filterMap_append, ← List.append_assoc]
      -- one reading keeps the reports up to date
      refine ih ?_
      intro k a hlast hk
      cases hsees : W.sees i with
      | none =>
          rcases W.blind s i hsees with ⟨hsame, hreports⟩
          rw [hreports, List.append_nil]
          exact h k a (hsame ▸ hlast) hk
      | some k' =>
          by_cases hold : W.last s = some k'
          · rcases W.same s i k' hsees hold with ⟨hnext, hreports⟩
            rw [hreports, List.append_nil]
            exact h k a (hold.trans (hnext.symm.trans hlast)) hk
          · rcases W.new s i k' hsees hold with ⟨hnext, hreports⟩
            cases Option.some.inj (hnext.symm.trans hlast)
            rw [hreports, htells i k hsees, hk, Option.toList_some, List.getLast?_concat]

end Watch

end Sensor
end Systems
end HiddenSteps
