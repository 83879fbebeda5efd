import Mathlib.Algebra.GroupWithZero.Nat
import Mathlib.Data.List.Basic
import Mathlib.Data.List.Nodup
import Mathlib.Tactic.Common

/-!
# Grouping — collecting items under their keys

`group` pushes items one after the other to the group of their key.  The groups have distinct keys,
and a group holds exactly the items with its key, in their order.
-/

namespace HiddenSteps
namespace Systems
namespace Grouping

variable {α κ : Type} [DecidableEq κ] (key : α → κ)

/-- Append an item to the group of its key, or begin that group at the end. -/
def push (a : α) : List (κ × List α) → List (κ × List α)
  | [] => [(key a, [a])]
  | g :: groups => if g.1 = key a then (g.1, g.2 ++ [a]) :: groups else g :: push a groups

def group (items : List α) : List (κ × List α) :=
  items.foldl (fun groups a => push key a groups) []

/-- The items with a key. -/
def members (k : κ) (items : List α) : List α :=
  items.filter fun a => key a = k

variable {key}

/-! ## One push -/

theorem keys_push (a : α) (groups : List (κ × List α)) :
    (push key a groups).map Prod.fst =
      if key a ∈ groups.map Prod.fst then groups.map Prod.fst
      else groups.map Prod.fst ++ [key a] := by
  induction groups with
  | nil => rfl
  | cons g groups ih =>
      unfold push
      by_cases hkey : g.1 = key a
      · simp [hkey]
      · rw [if_neg hkey, List.map_cons, ih, List.map_cons]
        by_cases hmem : key a ∈ groups.map Prod.fst
        · rw [if_pos hmem, if_pos (List.mem_cons_of_mem _ hmem)]
        · rw [if_neg hmem, if_neg (by simpa [Ne.symm hkey] using hmem), List.cons_append]

/-- With distinct keys, a push changes the group of the key and no other. -/
theorem mem_push {a : α} {groups : List (κ × List α)} (hkeys : (groups.map Prod.fst).Nodup)
    {k : κ} {l : List α} :
    (k, l) ∈ push key a groups ↔
      (k ≠ key a ∧ (k, l) ∈ groups) ∨
        (k = key a ∧
          ((∃ l', (k, l') ∈ groups ∧ l = l' ++ [a]) ∨ (k ∉ groups.map Prod.fst ∧ l = [a]))) := by
  induction groups with
  | nil => simp [push]
  | cons g groups ih =>
      rcases g with ⟨k', l'⟩
      rcases List.nodup_cons.1 hkeys with ⟨hfresh, hkeys⟩
      replace hfresh : ∀ l, (k', l) ∉ groups := by simpa using hfresh
      unfold push
      by_cases hkey : k' = key a
      · -- the first group takes the item
        subst hkey
        by_cases hk : k = key a
        · subst hk
          simp [hfresh]
        · simp [hk]
      · rw [if_neg hkey, List.mem_cons, ih hkeys]
        by_cases hk : k = key a
        · subst hk
          simp [Ne.symm hkey]
        · simp [hk]

/-- Groups that hold exactly some items. -/
structure Grouped (key : α → κ) (items : List α) (groups : List (κ × List α)) : Prop where
  keys_nodup : (groups.map Prod.fst).Nodup
  mem_iff : ∀ k l, (k, l) ∈ groups ↔ l = members key k items ∧ l ≠ []

namespace Grouped

variable {items : List α} {groups : List (κ × List α)}

theorem mem_keys_iff (h : Grouped key items groups) (k : κ) :
    k ∈ groups.map Prod.fst ↔ members key k items ≠ [] := by
  constructor
  · intro hk
    rcases List.mem_map.1 hk with ⟨⟨k, l⟩, hmem, rfl⟩
    rcases (h.mem_iff k l).1 hmem with ⟨rfl, hne⟩
    exact hne
  · intro hne
    exact List.mem_map.2 ⟨(k, members key k items), (h.mem_iff k _).2 ⟨rfl, hne⟩, rfl⟩

theorem nil : Grouped key [] [] where
  keys_nodup := List.nodup_nil
  mem_iff := by simp [members]

theorem push (h : Grouped key items groups) (a : α) :
    Grouped key (items ++ [a]) (push key a groups) where
  keys_nodup := by
    rw [keys_push]
    split
    · exact h.keys_nodup
    · rename_i hfresh
      exact h.keys_nodup.append (List.nodup_singleton _) (by simpa using hfresh)
  mem_iff := by
    intro k l
    rw [mem_push h.keys_nodup, h.mem_keys_iff]
    -- the members of the other keys stay as they are
    by_cases hk : k = key a
    · have hmembers : members key k (items ++ [a]) = members key k items ++ [a] := by
        simp [members, hk]
      rw [hmembers]
      by_cases hne : members key k items = []
      · -- the first item with this key
        have hnone : ∀ l', (k, l') ∉ groups := by
          intro l' hl'
          rcases (h.mem_iff k l').1 hl' with ⟨rfl, hne'⟩
          exact hne' hne
        simp only [← hk, hnone, false_and, exists_const, hne, ne_eq, not_true_eq_false,
          not_false_eq_true, true_and, false_or, List.nil_append]
        constructor
        · rintro rfl
          exact ⟨rfl, List.cons_ne_nil _ _⟩
        · exact And.left
      · simp only [← hk, h.mem_iff, hne, ne_eq, not_true_eq_false, false_and, false_or,
          not_false_eq_true, true_and, or_false]
        constructor
        · rintro ⟨l', ⟨rfl, _⟩, rfl⟩
          exact ⟨rfl, List.append_ne_nil_of_right_ne_nil _ (List.cons_ne_nil _ _)⟩
        · rintro ⟨rfl, _⟩
          exact ⟨_, ⟨rfl, hne⟩, rfl⟩
    · have hmembers : members key k (items ++ [a]) = members key k items := by
        simp [members, Ne.symm hk]
      simp [hk, h.mem_iff, hmembers]

end Grouped

theorem grouped_foldl {seen items : List α} {groups : List (κ × List α)}
    (h : Grouped key seen groups) :
    Grouped key (seen ++ items) (items.foldl (fun groups a => push key a groups) groups) := by
  induction items generalizing seen groups with
  | nil => simpa using h
  | cons a items ih => simpa using ih (h.push a)

/-- The groups of a list hold exactly its items. -/
theorem grouped_group (items : List α) : Grouped key items (group key items) :=
  grouped_foldl Grouped.nil

/-! ## Sizes of groups -/

theorem sum_length_push (p : κ → Bool) (a : α) (groups : List (κ × List α)) :
    (((push key a groups).filter fun g => p g.1).map fun g => g.2.length).sum =
      ((groups.filter fun g => p g.1).map fun g => g.2.length).sum +
        if p (key a) then 1 else 0 := by
  induction groups with
  | nil => cases hp : p (key a) <;> simp [push, hp]
  | cons g groups ih =>
      unfold push
      by_cases hkey : g.1 = key a
      · rw [if_pos hkey]
        cases hp : p (key a) <;> simp [hkey, hp]
        omega
      · rw [if_neg hkey]
        cases hp : p g.1
        · simp [hp, ih]
        · simp only [List.filter_cons, hp, if_true, List.map_cons, List.sum_cons, ih]
          omega

theorem sum_length_foldl (p : κ → Bool) (items : List α) (groups : List (κ × List α)) :
    (((items.foldl (fun groups a => push key a groups) groups).filter fun g => p g.1).map
        fun g => g.2.length).sum =
      ((groups.filter fun g => p g.1).map fun g => g.2.length).sum +
        items.countP fun a => p (key a) := by
  induction items generalizing groups with
  | nil => rfl
  | cons a items ih =>
      rw [List.foldl_cons, ih, sum_length_push, List.countP_cons]
      omega

/-- The groups whose keys meet a condition hold the items whose keys do. -/
theorem sum_length_group (p : κ → Bool) (items : List α) :
    (((group key items).filter fun g => p g.1).map fun g => g.2.length).sum =
      items.countP fun a => p (key a) := by
  rw [group, sum_length_foldl]
  exact Nat.zero_add _

end Grouping
end Systems
end HiddenSteps
