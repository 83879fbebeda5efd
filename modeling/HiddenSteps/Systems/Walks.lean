import Mathlib.Data.List.Basic
import Mathlib.Data.List.Count
import Mathlib.Data.List.Induction
import Mathlib.Data.List.Nodup
import Mathlib.Tactic.Common

/-!
# Walks — the steps of a walk and the places it visits

A walk is the list of its places.  Its steps are the pairs of consecutive places; every place but
the last is left once each time it is visited, every place but the first is entered.
-/

namespace HiddenSteps
namespace Systems
namespace Walks

variable {V : Type}

def steps (walk : List V) : List (V × V) :=
  walk.zip walk.tail

@[simp] theorem steps_nil : steps ([] : List V) = [] := rfl

@[simp] theorem steps_singleton (v : V) : steps [v] = [] := rfl

@[simp] theorem steps_cons_cons (u v : V) (walk : List V) :
    steps (u :: v :: walk) = (u, v) :: steps (v :: walk) := rfl

theorem length_steps (walk : List V) : (steps walk).length = walk.length - 1 := by
  rw [steps, List.length_zip, List.length_tail]
  omega

theorem steps_map {W : Type} (f : V → W) (walk : List V) :
    steps (walk.map f) = (steps walk).map (Prod.map f f) := by
  rw [steps, ← List.map_tail, List.zip_map, steps]

theorem map_fst_steps (walk : List V) : (steps walk).map Prod.fst = walk.dropLast := by
  induction walk with
  | nil => rfl
  | cons u walk ih =>
      cases walk with
      | nil => rfl
      | cons v walk => rw [steps_cons_cons, List.map_cons, ih, List.dropLast_cons_cons]

theorem map_snd_steps (walk : List V) : (steps walk).map Prod.snd = walk.tail := by
  rw [steps, List.map_snd_zip]
  rw [List.length_tail]
  omega

section Balance

variable [DecidableEq V]

/-- How often a walk leaves a place and how often it enters it differ by its ends only. -/
theorem flow_balance (walk : List V) (v : V) :
    ((steps walk).countP (fun p => p.1 = v) : Int) - (steps walk).countP (fun p => p.2 = v) =
      (if walk.head? = some v then 1 else 0) - (if walk.getLast? = some v then 1 else 0) := by
  have hout : (steps walk).countP (fun p => p.1 = v) = walk.dropLast.count v := by
    rw [← map_fst_steps, List.count_eq_countP, List.countP_map]
    exact List.countP_congr fun p _ => by simp
  have hin : (steps walk).countP (fun p => p.2 = v) = walk.tail.count v := by
    rw [← map_snd_steps, List.count_eq_countP, List.countP_map]
    exact List.countP_congr fun p _ => by simp
  rw [hout, hin]
  cases walk with
  | nil => rfl
  | cons u walk =>
      -- all visits, counted without the first and without the last
      have hfirst : (u :: walk).count v =
          walk.count v + if (u :: walk).head? = some v then 1 else 0 := by
        simp [List.count_cons]
      have hlast : (u :: walk).count v =
          (u :: walk).dropLast.count v + if (u :: walk).getLast? = some v then 1 else 0 := by
        have hne : u :: walk ≠ [] := List.cons_ne_nil u walk
        have hsplit := congrArg (List.count v) (List.dropLast_append_getLast hne)
        rw [List.count_append] at hsplit
        rw [← hsplit, List.getLast?_eq_some_getLast hne]
        simp [List.count_singleton]
      rw [List.tail_cons]
      split_ifs at hfirst hlast ⊢ <;> omega

end Balance

/-! ## Places in the order of first appearance -/

section Appearance

variable [DecidableEq V]

/-- Note a place unless it has been noted before. -/
def appear (seen : List V) (v : V) : List V :=
  if v ∈ seen then seen else seen ++ [v]

def firstAppearances (walk : List V) : List V :=
  walk.foldl appear []

theorem mem_appear {seen : List V} {u v : V} : u ∈ appear seen v ↔ u ∈ seen ∨ u = v := by
  unfold appear
  split
  · rename_i hv
    constructor
    · exact Or.inl
    · rintro (h | rfl)
      · exact h
      · exact hv
  · rw [List.mem_append, List.mem_singleton]

theorem firstAppearances_concat (walk : List V) (v : V) :
    firstAppearances (walk ++ [v]) = appear (firstAppearances walk) v := by
  rw [firstAppearances, List.foldl_append]
  rfl

theorem mem_firstAppearances {walk : List V} {v : V} : v ∈ firstAppearances walk ↔ v ∈ walk := by
  induction walk using List.reverseRecOn with
  | nil => rfl
  | append_singleton walk u ih =>
      rw [firstAppearances_concat, mem_appear, ih, List.mem_append, List.mem_singleton]

theorem nodup_firstAppearances (walk : List V) : (firstAppearances walk).Nodup := by
  induction walk using List.reverseRecOn with
  | nil => exact List.nodup_nil
  | append_singleton walk u ih =>
      rw [firstAppearances_concat, appear]
      split
      · exact ih
      · rename_i hnew
        exact ih.append (List.nodup_singleton u) (by simpa using hnew)

/-- A place that appears earlier stands earlier. -/
theorem firstAppearances_sorted (walk : List V) :
    (firstAppearances walk).Pairwise fun u v => walk.idxOf u < walk.idxOf v := by
  induction walk using List.reverseRecOn with
  | nil => exact List.Pairwise.nil
  | append_singleton walk v ih =>
      have hkept : (firstAppearances walk).Pairwise fun a b =>
          (walk ++ [v]).idxOf a < (walk ++ [v]).idxOf b := by
        refine ih.imp_of_mem fun ha hb hlt => ?_
        rwa [List.idxOf_append_of_mem (mem_firstAppearances.1 ha),
          List.idxOf_append_of_mem (mem_firstAppearances.1 hb)]
      rw [firstAppearances_concat, appear]
      split
      · exact hkept
      · rename_i hnew
        rw [mem_firstAppearances] at hnew
        refine List.pairwise_append.2 ⟨hkept, List.pairwise_singleton .., ?_⟩
        intro a ha b hb
        have hmem := mem_firstAppearances.1 ha
        rw [List.mem_singleton.1 hb, List.idxOf_append_of_mem hmem,
          List.idxOf_append_of_notMem hnew]
        exact Nat.lt_of_lt_of_le (List.idxOf_lt_length_of_mem hmem) (Nat.le_add_right ..)

/-- Noting both ends of every step, the walk is noted from its second place on. -/
theorem foldl_steps_appear {u : V} {seen : List V} (walk : List V) (hu : u ∈ seen) :
    (steps (u :: walk)).foldl (fun seen p => appear (appear seen p.1) p.2) seen =
      walk.foldl appear seen := by
  induction walk generalizing u seen with
  | nil => rfl
  | cons v walk ih =>
      have hfirst : appear seen u = seen := if_pos hu
      rw [steps_cons_cons, List.foldl_cons, List.foldl_cons, hfirst]
      exact ih (mem_appear.2 (Or.inr rfl))

/-- A walk of one place has no step to note it by. -/
theorem foldl_steps_firstAppearances {walk : List V} (h : walk.length ≠ 1) :
    (steps walk).foldl (fun seen p => appear (appear seen p.1) p.2) [] =
      firstAppearances walk := by
  match walk with
  | [] => rfl
  | [_] => exact absurd rfl h
  | u :: v :: walk =>
      have hstart : appear (appear [] u) v = (u :: v :: []).foldl appear [] := rfl
      rw [steps_cons_cons, List.foldl_cons, hstart]
      exact foldl_steps_appear walk (mem_appear.2 (Or.inr rfl))

end Appearance

end Walks
end Systems
end HiddenSteps
