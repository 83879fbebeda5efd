import HiddenSteps.Systems.SqlTables
import Mathlib.Data.List.Sort

/-!
# RowFormats — records kept as rows of a table with ids

A format writes records by parameters and reads them by columns.  Tables all of whose rows hold
records can be listed, and a table whose rows show the records of a list behaves like that list.
-/

namespace HiddenSteps
namespace Systems
namespace SqlTables

/-! ## Lists that correspond -/

section Corresponding

variable {α β : Type} {R : α → β → Prop} {as : List α} {bs : List β}

theorem forall₂_filter (h : List.Forall₂ R as bs) {p : α → Bool} {q : β → Bool}
    (hpq : ∀ a b, R a b → (p a = true ↔ q b = true)) :
    List.Forall₂ R (as.filter p) (bs.filter q) :=
  List.rel_filter (fun a b hab => hpq a b hab) h

theorem any_eq_of_forall₂ (h : List.Forall₂ R as bs) {p : α → Bool} {q : β → Bool}
    (hpq : ∀ a b, R a b → (p a = true ↔ q b = true)) : as.any p = bs.any q := by
  induction h with
  | nil => rfl
  | cons hab _ ih => rw [List.any_cons, List.any_cons, ih, Bool.eq_iff_iff.2 (hpq _ _ hab)]

/-- Updates under conditions that agree. -/
theorem forall₂_map_ite (h : List.Forall₂ R as bs) {p : α → Prop} {q : β → Prop}
    [DecidablePred p] [DecidablePred q] {f : α → α} {g : β → β}
    (hpq : ∀ a b, R a b → (p a ↔ q b)) (hfg : ∀ a b, R a b → p a → R (f a) (g b)) :
    List.Forall₂ R (as.map fun a => if p a then f a else a)
      (bs.map fun b => if q b then g b else b) := by
  refine List.rel_map (fun a b hab => ?_) h
  by_cases hp : p a
  · rw [if_pos hp, if_pos ((hpq a b hab).1 hp)]
    exact hfg a b hab hp
  · rw [if_neg hp, if_neg fun hq => hp ((hpq a b hab).2 hq)]
    exact hab

/-- Sorting by orders that agree. -/
theorem forall₂_insertionSort (h : List.Forall₂ R as bs) {p : α → α → Bool} {q : β → β → Bool}
    (hpq : ∀ a b a' b', R a b → R a' b' → p a a' = q b b') :
    List.Forall₂ R (as.insertionSort fun a a' => p a a') (bs.insertionSort fun b b' => q b b') := by
  have hinsert : ∀ {a b}, R a b → ∀ {as bs}, List.Forall₂ R as bs →
      List.Forall₂ R (as.orderedInsert (fun a a' => p a a') a)
        (bs.orderedInsert (fun b b' => q b b') b) := by
    intro a b hab as bs h
    induction h with
    | nil => exact .cons hab .nil
    | @cons a' b' as bs hab' h ih =>
        rw [List.orderedInsert_cons, List.orderedInsert_cons, hpq a b a' b' hab hab']
        split
        · exact .cons hab (.cons hab' h)
        · exact .cons hab' ih
  induction h with
  | nil => exact .nil
  | cons hab _ ih =>
      rw [List.insertionSort_cons, List.insertionSort_cons]
      exact hinsert hab ih

end Corresponding

/-! ## Records as rows -/

/-- How records of a type are written to a table with ids, and read from it. -/
structure RowFormat (α : Type) where
  schema : Schema
  /-- The columns of an insertion; a query reads the id in front of them. -/
  inserted : List String
  read : Fetched → Except SqlError α
  id : α → Option Int
  withId : Int → α → α
  /-- The parameters that a record is bound by. -/
  Params : α → List SqlValue → Prop
  nodup : ("id" :: inserted).Nodup
  id_withId : ∀ n a, id (withId n a) = some n
  length_params : ∀ {a params}, Params a params → params.length = inserted.length
  read_params : ∀ {a params}, Params a params → ∀ n : Int,
    read (("id" :: inserted).zip (toSql n :: params)) = .ok (withId n a)

namespace RowFormat

variable {α : Type} {F : RowFormat α} {t : Table} {n : Nat} {a : α} {row : Row}

def selected (F : RowFormat α) : List String := "id" :: F.inserted

/-- The row has the columns of a record. -/
def Holds (F : RowFormat α) (n : Nat) (a : α) (row : Row) : Prop :=
  ∃ params, F.Params a params ∧ row.fetch F.selected = F.selected.zip (toSql (n : Int) :: params)

/-- Every row has the columns of a record and an id that has been given out. -/
def Decodes (F : RowFormat α) (t : Table) : Prop :=
  ∀ row ∈ t.rows, ∃ n ≤ t.seq, ∃ a, F.Holds n a row

theorem Holds.read_eq (h : F.Holds n a row) :
    F.read (row.fetch F.selected) = .ok (F.withId n a) := by
  obtain ⟨params, hparams, hfetch⟩ := h
  rw [hfetch]
  exact F.read_params hparams n

theorem Holds.id_eq (h : F.Holds n a row) : row "id" = toSql (n : Int) := by
  obtain ⟨params, -, hfetch⟩ := h
  exact eq_of_fetch hfetch (i := 0) rfl rfl

theorem holds_newRow {params : List SqlValue} (h : F.Params a params) :
    F.Holds (t.seq + 1) a (t.newRow F.inserted params) :=
  ⟨params, h, fetch_ofParams F.nodup (by simp [F.length_params h])⟩

theorem newRow_eq {params : List SqlValue} (h : F.Params a params) {i : Nat} {name : String}
    {value : SqlValue} (hname : F.inserted[i]? = some name) (hvalue : params[i]? = some value) :
    t.newRow F.inserted params name = value :=
  eq_of_fetch (fetch_ofParams F.nodup (by simp [F.length_params h])) (i := i + 1) hname hvalue

theorem decodes_empty (F : RowFormat α) : F.Decodes Table.empty := by
  intro row hrow
  cases hrow

theorem Decodes.insert (ht : F.Decodes t) {params : List SqlValue} (h : F.Params a params)
    {t' : Table} (hinsert : t.insert F.schema F.inserted params = .ok (n, t')) :
    F.Decodes t' := by
  obtain ⟨-, rfl, rfl⟩ := Table.insert_eq_ok hinsert
  intro row hrow
  rcases List.mem_append.1 hrow with hold | hnew
  · obtain ⟨m, hm, a, hrow⟩ := ht row hold
    exact ⟨m, Nat.le_succ_of_le hm, a, hrow⟩
  · cases List.mem_singleton.1 hnew
    exact ⟨t.seq + 1, Nat.le_refl _, a, holds_newRow h⟩

theorem Decodes.update (ht : F.Decodes t) {p : Row → Bool} {f : Row → Row}
    (hf : ∀ n a row, F.Holds n a row → ∃ a', F.Holds n a' (f row)) {t' : Table}
    (hupdate : t.update F.schema p f = .ok t') : F.Decodes t' := by
  rw [Table.update_eq_ok hupdate]
  intro row hrow
  obtain ⟨old, hold, rfl⟩ := List.mem_map.1 hrow
  obtain ⟨n, hn, a, ha⟩ := ht old hold
  split
  · obtain ⟨a', ha'⟩ := hf n a old ha
    exact ⟨n, hn, a', ha'⟩
  · exact ⟨n, hn, a, ha⟩

theorem Decodes.deleteWhere (ht : F.Decodes t) (p : Row → Bool) : F.Decodes (t.deleteWhere p) :=
  fun row hrow => ht row (List.mem_of_mem_filter hrow)

/-- A query over rows of the table and a row inserted afterwards reads the record under the new id,
and no other record under it. -/
theorem Decodes.query_newRow (ht : F.Decodes t) {params : List SqlValue} (h : F.Params a params)
    {rows : List Row} (hrows : ∀ row ∈ rows, row ∈ t.rows ∨ row = t.newRow F.inserted params)
    (hnew : t.newRow F.inserted params ∈ rows) :
    ∃ results, query F.read F.selected rows = .ok results ∧
      F.withId (t.seq + 1 : Nat) a ∈ results ∧
      ∀ b ∈ results, F.id b = some ((t.seq + 1 : Nat) : Int) → b = F.withId (t.seq + 1 : Nat) a := by
  have hread : ∀ row ∈ rows, ∃ b, F.read (row.fetch F.selected) = .ok b := by
    intro row hrow
    rcases hrows row hrow with hold | rfl
    · obtain ⟨m, -, b, hb⟩ := ht row hold
      exact ⟨_, hb.read_eq⟩
    · exact ⟨_, (holds_newRow h).read_eq⟩
  obtain ⟨results, hquery, hmem⟩ := exists_query hread
  refine ⟨results, hquery, hmem _ hnew _ (holds_newRow h).read_eq, ?_⟩
  intro b hb hid
  obtain ⟨row, hrow, hread⟩ := exists_of_mem_query hquery hb
  rcases hrows row hrow with hold | rfl
  · -- an older row has a smaller id
    obtain ⟨m, hm, b', hb'⟩ := ht row hold
    rw [hb'.read_eq, Except.ok.injEq] at hread
    rw [← hread, F.id_withId, Option.some.injEq, Int.ofNat_inj] at hid
    omega
  · rw [(holds_newRow h).read_eq, Except.ok.injEq] at hread
    exact hread.symm

/-! ## Tables as lists of records -/

section Representing

variable {β : Type} {image : α → β} {bs : List β}

/-- The row has the columns of a record with an id and this image. -/
def Shows (F : RowFormat α) (image : α → β) (row : Row) (b : β) : Prop :=
  ∃ n a, 0 < n ∧ F.Holds n a row ∧ b = image (F.withId (n : Nat) a)

/-- The rows are, in their order, those of a list. -/
def Represents (F : RowFormat α) (image : α → β) (rows : List Row) (bs : List β) : Prop :=
  List.Forall₂ (F.Shows image) rows bs

theorem Represents.append (h : F.Represents image t.rows bs) {params : List SqlValue}
    (hparams : F.Params a params) :
    F.Represents image (t.rows ++ [t.newRow F.inserted params])
      (bs ++ [image (F.withId (t.seq + 1 : Nat) a)]) :=
  List.rel_append h (.cons ⟨_, a, Nat.succ_pos _, holds_newRow hparams, rfl⟩ .nil)

/-- What a query reads are the records. -/
theorem Represents.query_eq {rows : List Row} (h : F.Represents image rows bs) :
    ∃ results, query F.read F.selected rows = .ok results ∧ results.map image = bs := by
  induction h with
  | nil => exact ⟨[], rfl, rfl⟩
  | cons hshows _ ih =>
      obtain ⟨n, a, -, hholds, rfl⟩ := hshows
      obtain ⟨results, hquery, rfl⟩ := ih
      exact ⟨F.withId n a :: results,
        query_eq_ok_iff.2 (.cons hholds.read_eq (query_eq_ok_iff.1 hquery)), rfl⟩

end Representing

end RowFormat

end SqlTables
end Systems
end HiddenSteps
