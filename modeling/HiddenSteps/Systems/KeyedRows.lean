import Mathlib.Data.List.Basic
import Mathlib.Data.List.Nodup
import Mathlib.Tactic.Common

/-!
# KeyedRows — tables with a primary key

A table is the list of its rows.  `upsert` is `INSERT .. ON CONFLICT (key) DO UPDATE`: it replaces
the row with the key of the new one, in its place, or appends the new row.  With distinct keys, a
condition that all rows it holds of share one key holds of one row at most.
-/

namespace HiddenSteps
namespace Systems
namespace KeyedRows

variable {α κ : Type} {key : α → κ} {row r : α} {rows : List α}

section Upsert

variable [DecidableEq κ]

def upsert (key : α → κ) (row : α) (rows : List α) : List α :=
  if rows.any fun r => key r == key row then
    rows.map fun r => if key r = key row then row else r
  else
    rows ++ [row]

theorem mem_upsert : r ∈ upsert key row rows ↔ r = row ∨ (r ∈ rows ∧ key r ≠ key row) := by
  unfold upsert
  split
  · rename_i hany
    rcases List.any_eq_true.1 hany with ⟨old, hold, hkey⟩
    rw [List.mem_map]
    constructor
    · rintro ⟨r', hr', rfl⟩
      split
      · exact Or.inl rfl
      · rename_i hne
        exact Or.inr ⟨hr', hne⟩
    · rintro (rfl | ⟨hr, hne⟩)
      · exact ⟨old, hold, if_pos (beq_iff_eq.1 hkey)⟩
      · exact ⟨r, hr, if_neg hne⟩
  · rename_i hany
    have hnone : ∀ r ∈ rows, key r ≠ key row := by
      intro r hr hkey
      exact hany (List.any_eq_true.2 ⟨r, hr, beq_iff_eq.2 hkey⟩)
    rw [List.mem_append, List.mem_singleton]
    constructor
    · rintro (hr | rfl)
      · exact Or.inr ⟨hr, hnone r hr⟩
      · exact Or.inl rfl
    · rintro (rfl | ⟨hr, _⟩)
      · exact Or.inr rfl
      · exact Or.inl hr

theorem nodup_keys_upsert (h : (rows.map key).Nodup) : ((upsert key row rows).map key).Nodup := by
  unfold upsert
  split
  · -- the replaced rows keep their keys
    have hkeys : (rows.map fun r => if key r = key row then row else r).map key = rows.map key := by
      rw [List.map_map]
      refine List.map_congr_left fun r _ => ?_
      rw [Function.comp_apply]
      split
      · rename_i hkey
        exact hkey.symm
      · rfl
    rwa [hkeys]
  · rename_i hany
    rw [List.map_append, List.nodup_append]
    refine ⟨h, List.nodup_singleton _, ?_⟩
    rintro k hk k' hk' rfl
    rcases List.mem_map.1 hk with ⟨r, hr, hkey⟩
    rw [List.map_singleton, List.mem_singleton] at hk'
    exact hany (List.any_eq_true.2 ⟨r, hr, beq_iff_eq.2 (hkey.trans hk')⟩)

end Upsert

/-- At most one row meets a condition exactly if all that meet it have one key. -/
theorem length_filter_le_one_iff (h : (rows.map key).Nodup) {p : α → Bool} :
    (rows.filter p).length ≤ 1 ↔
      ∀ a ∈ rows, ∀ b ∈ rows, p a = true → p b = true → key a = key b := by
  constructor
  · intro hlength a ha b hb hpa hpb
    have ha' : a ∈ rows.filter p := List.mem_filter.2 ⟨ha, hpa⟩
    have hb' : b ∈ rows.filter p := List.mem_filter.2 ⟨hb, hpb⟩
    cases hfilter : rows.filter p with
    | nil => simp [hfilter] at ha'
    | cons c rest =>
        have hrest : rest = [] := by simpa [hfilter] using hlength
        rw [hfilter, hrest, List.mem_singleton] at ha' hb'
        rw [ha', hb']
  · intro hkey
    have hnodup : ((rows.filter p).map key).Nodup :=
      h.sublist (List.filter_sublist.map key)
    have hmem : ∀ a ∈ rows.filter p, a ∈ rows ∧ p a = true := fun a => List.mem_filter.1
    cases hfilter : rows.filter p with
    | nil => simp
    | cons a rest =>
        cases rest with
        | nil => simp
        | cons b rest =>
            rw [hfilter] at hnodup hmem
            rcases hmem a (by simp) with ⟨ha, hpa⟩
            rcases hmem b (by simp) with ⟨hb, hpb⟩
            simp [hkey a ha b hb hpa hpb] at hnodup

/-- A row that is there is the only one to meet a condition that fixes its key. -/
theorem filter_eq_singleton (h : (rows.map key).Nodup) (hr : r ∈ rows) {p : α → Bool}
    (hp : ∀ a ∈ rows, p a = true ↔ key a = key r) : rows.filter p = [r] := by
  have hmem : r ∈ rows.filter p := List.mem_filter.2 ⟨hr, (hp r hr).2 rfl⟩
  have hlength : (rows.filter p).length ≤ 1 :=
    (length_filter_le_one_iff h).2 fun a ha b hb hpa hpb =>
      ((hp a ha).1 hpa).trans ((hp b hb).1 hpb).symm
  cases hfilter : rows.filter p with
  | nil => simp [hfilter] at hmem
  | cons a rest =>
      have hrest : rest = [] := by simpa [hfilter] using hlength
      rw [hfilter, hrest, List.mem_singleton] at hmem
      rw [hrest, hmem]

end KeyedRows
end Systems
end HiddenSteps
