import HiddenSteps.Systems.BinaryFloat
import Mathlib.Data.List.Forall2
import Mathlib.Data.List.Nodup

/-!
# SqlTables — rows written by parameters and read by columns

A statement names its columns in an order of its own: parameters are bound in the order of an
insertion, columns are read in the order of a query.  What a query reads of an inserted row are the
parameters, as long as the two orders agree and no column is named twice.
-/

namespace HiddenSteps
namespace Systems
namespace SqlTables

open BinaryFloat

/-! ## Values and rows -/

inductive SqlValue where
  | null
  | integer (n : Int)
  | real (x : F64)
  | text (s : String)
  | blob (bytes : List UInt8)
  deriving DecidableEq

/-- Comparison character by character, or byte by byte; a proper prefix comes first. -/
def lexLe {α : Type} [BEq α] (toNat : α → Nat) (as bs : List α) : Bool :=
  !List.lex bs as fun a b => decide (toNat a < toNat b)

/-- Numbers come in front of texts, and texts in front of blobs. -/
def SqlValue.le : SqlValue → SqlValue → Bool
  | null, _ => true
  | _, null => false
  | integer m, integer n => decide (m ≤ n)
  | integer m, real y => decide ((m : ℚ) ≤ y.value)
  | real x, integer n => decide (x.value ≤ n)
  | real x, real y => decide (x.value ≤ y.value)
  | integer _, _ | real _, _ => true
  | text s, text t => lexLe Char.toNat s.toList t.toList
  | text _, blob _ => true
  | text _, _ => false
  | blob bytes, blob bytes' => lexLe UInt8.toNat bytes bytes'
  | blob _, _ => false

def SqlValue.dataType : SqlValue → String
  | null => "Null"
  | integer _ => "Integer"
  | real _ => "Real"
  | text _ => "Text"
  | blob _ => "Blob"

inductive SqlError where
  | invalidColumnIndex (i : Nat)
  | invalidColumnType (i : Nat) (name dataType : String)
  | fromSqlConversionFailure (i : Nat) (dataType message : String)
  | sqliteFailure (message : String)
  deriving DecidableEq

def SqlError.message : SqlError → String
  | invalidColumnIndex i => "Invalid column index: " ++ toString i
  | invalidColumnType i name dataType =>
      "Invalid column type " ++ dataType ++ " at index: " ++ toString i ++ ", name: " ++ name
  | fromSqlConversionFailure i dataType message =>
      "Conversion error from type " ++ dataType ++ " at index: " ++ toString i ++ ", " ++ message
  | sqliteFailure message => message

/-- The value in each column. -/
abbrev Row := String → SqlValue

/-- The columns of a query with their values, by position. -/
abbrev Fetched := List (String × SqlValue)

/-- The row of an insertion: a column that it does not name is null. -/
def Row.ofParams (columns : List String) (params : List SqlValue) : Row := fun name =>
  ((columns.zip params).lookup name).getD .null

def Row.fetch (row : Row) (columns : List String) : Fetched :=
  columns.map fun name => (name, row name)

theorem lookup_of_mem {columns : List String} {params : List SqlValue} (hnodup : columns.Nodup)
    {name : String} {value : SqlValue} (h : (name, value) ∈ columns.zip params) :
    (columns.zip params).lookup name = some value := by
  induction columns generalizing params with
  | nil => cases h
  | cons column columns ih =>
      cases params with
      | nil => cases h
      | cons param params =>
          rw [List.nodup_cons] at hnodup
          rw [List.zip_cons_cons] at h ⊢
          rcases List.mem_cons.1 h with heq | hmem
          · obtain ⟨rfl, rfl⟩ := Prod.mk.inj heq
            exact List.lookup_cons_self
          · have hne : name ≠ column := by
              rintro rfl
              exact hnodup.1 (List.of_mem_zip hmem).1
            rw [List.lookup_cons, beq_eq_false_iff_ne.2 hne]
            exact ih hnodup.2 hmem

/-- Reading the columns in the order in which they were written gives the parameters back. -/
theorem fetch_ofParams {columns : List String} {params : List SqlValue} (hnodup : columns.Nodup)
    (hlength : columns.length = params.length) :
    (Row.ofParams columns params).fetch columns = columns.zip params := by
  refine List.ext_getElem (by simp [Row.fetch, hlength]) fun i hi hi' => ?_
  have hcolumn : i < columns.length := by simpa [Row.fetch] using hi
  have hmem : (columns[i], params[i]) ∈ columns.zip params := by
    rw [← List.getElem_zip (h := hi')]
    exact List.getElem_mem hi'
  rw [List.getElem_zip]
  simp only [Row.fetch, List.getElem_map, Row.ofParams, lookup_of_mem hnodup hmem,
    Option.getD_some]

theorem eq_of_fetch {columns : List String} {row : Row} {values : List SqlValue}
    (hfetch : row.fetch columns = columns.zip values) {i : Nat} {name : String} {value : SqlValue}
    (hname : columns[i]? = some name) (hvalue : values[i]? = some value) : row name = value := by
  have hget : (row.fetch columns)[i]? = some (name, value) := by
    rw [hfetch, List.getElem?_zip_eq_some]
    exact ⟨hname, hvalue⟩
  rw [Row.fetch, List.getElem?_map, hname, Option.map_some, Option.some.injEq] at hget
  exact congrArg Prod.snd hget

/-- A column that is set changes at its own position. -/
theorem fetch_update {columns : List String} (hnodup : columns.Nodup) {row : Row}
    {values : List SqlValue} (hfetch : row.fetch columns = columns.zip values) {i : Nat}
    {name : String} (hname : columns[i]? = some name) (value : SqlValue) :
    Row.fetch (Function.update row name value) columns = columns.zip (values.set i value) := by
  induction columns generalizing i values with
  | nil => rfl
  | cons column columns ih =>
      rw [List.nodup_cons] at hnodup
      cases values with
      | nil => cases hfetch
      | cons first values =>
          rw [Row.fetch, List.map_cons, List.zip_cons_cons, List.cons.injEq] at hfetch
          rcases hfetch with ⟨hfirst, hrest⟩
          cases i with
          | zero =>
              have hcolumn : column = name := by simpa using hname
              have hothers : ∀ other ∈ columns, Function.update row name value other = row other := by
                rintro other hother
                refine Function.update_of_ne ?_ _ _
                rintro rfl
                exact hnodup.1 (hcolumn ▸ hother)
              rw [List.set_cons_zero, List.zip_cons_cons, ← hrest, Row.fetch, List.map_cons, hcolumn,
                Function.update_self]
              exact congrArg _ (List.map_congr_left fun other hother => by rw [hothers other hother])
          | succ i =>
              have hname' : columns[i]? = some name := by simpa using hname
              have hne : column ≠ name := by
                rintro rfl
                exact hnodup.1 (List.mem_of_getElem? hname')
              rw [List.set_cons_succ, List.zip_cons_cons, ← ih hnodup.2 hrest hname', Row.fetch,
                List.map_cons, Function.update_of_ne hne, hfirst]
              rfl

/-! ## Binding and reading -/

class ToSql (α : Type) where
  toSql : α → SqlValue

class FromSql (α : Type) where
  /-- `none` for a value of another type. -/
  fromSql : SqlValue → Option α

export ToSql (toSql)
export FromSql (fromSql)

instance : ToSql Int := ⟨.integer⟩

instance : FromSql Int where
  fromSql
    | .integer n => some n
    | _ => none

instance : ToSql F64 := ⟨.real⟩

instance : FromSql F64 where
  fromSql
    | .integer n => some (.ofInt n)
    | .real x => some x
    | _ => none

instance : ToSql String := ⟨.text⟩

instance : FromSql String where
  fromSql
    | .text s => some s
    | _ => none

instance : ToSql Bool := ⟨fun b => .integer (if b then 1 else 0)⟩

instance : FromSql Bool where
  fromSql
    | .integer n => some (n != 0)
    | _ => none

instance {α : Type} [ToSql α] : ToSql (Option α) where
  toSql
    | none => .null
    | some a => toSql a

instance {α : Type} [FromSql α] : FromSql (Option α) where
  fromSql
    | .null => some none
    | value => (fromSql value).map some

/-- A column of a type gives back what was bound to it. -/
class ReadsBack (α : Type) [ToSql α] [FromSql α] : Prop where
  fromSql_toSql : ∀ a : α, fromSql (toSql a) = some a
  toSql_ne_null : ∀ a : α, toSql a ≠ .null

instance : ReadsBack Int := ⟨fun _ => rfl, fun _ h => by cases h⟩

instance : ReadsBack F64 := ⟨fun _ => rfl, fun _ h => by cases h⟩

instance : ReadsBack String := ⟨fun _ => rfl, fun _ h => by cases h⟩

instance : ReadsBack Bool := ⟨fun b => by cases b <;> rfl, fun _ h => by cases h⟩

section Reading

variable {α : Type} [ToSql α] [FromSql α] [ReadsBack α]

@[simp] theorem fromSql_toSql (a : α) : fromSql (toSql a) = some a :=
  ReadsBack.fromSql_toSql a

@[simp] theorem fromSql_toSql_option (a : Option α) : fromSql (toSql a) = some a := by
  cases a with
  | none => rfl
  | some a =>
      have hne := ReadsBack.toSql_ne_null a
      have hback := ReadsBack.fromSql_toSql a
      show (match toSql a with
        | .null => some none
        | value => (fromSql value).map some) = some (some a)
      generalize toSql a = value at hne hback
      cases value with
      | null => exact absurd rfl hne
      | _ => exact congrArg (Option.map some) hback

end Reading

/-- `row.get(i)` -/
def Fetched.get {α : Type} [FromSql α] (row : Fetched) (i : Nat) : Except SqlError α :=
  match row[i]? with
  | none => .error (.invalidColumnIndex i)
  | some (name, value) =>
      match fromSql value with
      | some a => .ok a
      | none => .error (.invalidColumnType i name value.dataType)

-- not by `rfl`: the steps of a long reader are not to be unfolded all at once
theorem ok_bind {ε α β : Type} (a : α) (f : α → Except ε β) :
    ((Except.ok a : Except ε α) >>= f) = f a := by
  simp only [bind, Except.bind]

/-! ## Tables -/

structure Check where
  text : String
  holds : Row → Bool

structure Schema where
  name : String
  notNull : List String
  checks : List Check

def Schema.verify (schema : Schema) (row : Row) : Except SqlError Unit :=
  match schema.notNull.find? fun column => row column == .null with
  | some column =>
      .error (.sqliteFailure ("NOT NULL constraint failed: " ++ schema.name ++ "." ++ column))
  | none =>
      match schema.checks.find? fun check => !check.holds row with
      | some check => .error (.sqliteFailure ("CHECK constraint failed: " ++ check.text))
      | none => .ok ()

theorem Schema.verify_eq_ok {schema : Schema} {row : Row}
    (hnull : ∀ column ∈ schema.notNull, row column ≠ .null)
    (hchecks : ∀ check ∈ schema.checks, check.holds row = true) : schema.verify row = .ok () := by
  have hnone : (schema.notNull.find? fun column => row column == .null) = none := by
    simpa [List.find?_eq_none] using hnull
  have hnone' : (schema.checks.find? fun check => !check.holds row) = none := by
    simpa [List.find?_eq_none] using hchecks
  rw [verify, hnone]
  simp only [hnone']

theorem Schema.holds_of_verify {schema : Schema} {row : Row} (h : schema.verify row = .ok ())
    {check : Check} (hcheck : check ∈ schema.checks) : check.holds row = true := by
  unfold verify at h
  split at h
  · cases h
  · split at h
    · cases h
    · rename_i hnone
      simpa using List.find?_eq_none.1 hnone check hcheck

/-- The rows of a table with `AUTOINCREMENT`, oldest first, and the largest id given out. -/
structure Table where
  rows : List Row
  seq : Nat

namespace Table

def empty : Table := { rows := [], seq := 0 }

def newRow (t : Table) (columns : List String) (params : List SqlValue) : Row :=
  Row.ofParams ("id" :: columns) (toSql ((t.seq + 1 : Nat) : Int) :: params)

/-- `INSERT` of all columns but the id. -/
def insert (schema : Schema) (t : Table) (columns : List String) (params : List SqlValue) :
    Except SqlError (Nat × Table) := do
  schema.verify (t.newRow columns params)
  return (t.seq + 1, { rows := t.rows ++ [t.newRow columns params], seq := t.seq + 1 })

/-- `UPDATE` of the rows that meet a condition. -/
def update (schema : Schema) (t : Table) (p : Row → Bool) (f : Row → Row) :
    Except SqlError Table := do
  (t.rows.filter p).forM fun row => schema.verify (f row)
  return { t with rows := t.rows.map fun row => if p row then f row else row }

/-- `DELETE` of the rows that meet a condition. -/
def deleteWhere (t : Table) (p : Row → Bool) : Table :=
  { t with rows := t.rows.filter fun row => !p row }

theorem insert_eq_ok {schema : Schema} {t t' : Table} {columns : List String}
    {params : List SqlValue} {n : Nat} (h : t.insert schema columns params = .ok (n, t')) :
    schema.verify (t.newRow columns params) = .ok () ∧ n = t.seq + 1 ∧
      t' = { rows := t.rows ++ [t.newRow columns params], seq := t.seq + 1 } := by
  unfold insert at h
  cases hverify : schema.verify (t.newRow columns params) with
  | error e =>
      rw [hverify] at h
      cases h
  | ok _ =>
      rw [hverify] at h
      cases h
      exact ⟨rfl, rfl, rfl⟩

theorem update_eq_ok {schema : Schema} {t t' : Table} {p : Row → Bool} {f : Row → Row}
    (h : t.update schema p f = .ok t') :
    t' = { t with rows := t.rows.map fun row => if p row then f row else row } := by
  unfold update at h
  cases hverify : (t.rows.filter p).forM fun row => schema.verify (f row) with
  | error e =>
      rw [hverify] at h
      cases h
  | ok _ =>
      rw [hverify] at h
      cases h
      rfl

end Table

/-- `ON CONFLICT(key) DO UPDATE SET` of some columns to the excluded ones. -/
def upsert (schema : Schema) (key : String) (sets : List String) (rows : List Row) (new : Row) :
    Except SqlError (List Row) := do
  schema.verify new
  if rows.any fun row => row key == new key then
    return rows.map fun row =>
      if row key = new key then fun name => if name ∈ sets then new name else row name else row
  else
    return rows ++ [new]

theorem exists_upsert {schema : Schema} {new : Row} (h : schema.verify new = .ok ()) (key : String)
    (sets : List String) (rows : List Row) : ∃ rows', upsert schema key sets rows new = .ok rows' := by
  rw [upsert, h, ok_bind]
  split <;> exact ⟨_, rfl⟩

/-- With the key of the new row, its columns are the new ones. -/
theorem setColumns_eq {key : String} {sets : List String} {row new : Row}
    (hkey : row key = new key) {name : String} (hname : name ∈ key :: sets) :
    (if name ∈ sets then new name else row name) = new name := by
  split
  · rfl
  · rename_i hother
    rw [(List.mem_cons.1 hname).resolve_right hother, hkey]

/-- The rows of other keys are kept, and there is a row with the new values in place of the others. -/
theorem upsert_eq_ok {schema : Schema} {key : String} {sets : List String} {rows rows' : List Row}
    {new : Row} (h : upsert schema key sets rows new = .ok rows') :
    (∃ row ∈ rows', ∀ name ∈ key :: sets, row name = new name) ∧
      ∀ row ∈ rows', (row ∈ rows ∧ row key ≠ new key) ∨
        ∀ name ∈ key :: sets, row name = new name := by
  unfold upsert at h
  cases hverify : schema.verify new with
  | error e =>
      rw [hverify] at h
      cases h
  | ok _ =>
      rw [hverify, ok_bind] at h
      split at h
      · rename_i hany
        cases h
        obtain ⟨old, hold, hkey⟩ := List.any_eq_true.1 hany
        have hkey : old key = new key := beq_iff_eq.1 hkey
        refine ⟨⟨_, List.mem_map_of_mem hold, ?_⟩, fun row hrow => ?_⟩
        · rw [if_pos hkey]
          exact fun name => setColumns_eq hkey
        · obtain ⟨old, hold, rfl⟩ := List.mem_map.1 hrow
          split
          · rename_i hkey
            exact Or.inr fun name => setColumns_eq hkey
          · rename_i hne
            exact Or.inl ⟨hold, hne⟩
      · rename_i hany
        cases h
        refine ⟨⟨new, by simp, fun _ _ => rfl⟩, fun row hrow => ?_⟩
        rcases List.mem_append.1 hrow with hold | hnew
        · refine Or.inl ⟨hold, fun hkey => hany (List.any_eq_true.2 ⟨row, hold, ?_⟩)⟩
          exact beq_iff_eq.2 hkey
        · cases List.mem_singleton.1 hnew
          exact Or.inr fun _ _ => rfl

/-- Read the rows of a query; the first that cannot be read ends it. -/
def query {α : Type} (read : Fetched → Except SqlError α) (columns : List String)
    (rows : List Row) : Except SqlError (List α) :=
  rows.mapM fun row => read (row.fetch columns)

section Query

variable {α : Type} {read : Fetched → Except SqlError α} {columns : List String}
  {rows : List Row} {results : List α}

theorem query_eq_ok_iff : query read columns rows = .ok results ↔
    List.Forall₂ (fun row a => read (row.fetch columns) = .ok a) rows results := by
  induction rows generalizing results with
  | nil =>
      rw [List.forall₂_nil_left_iff]
      exact ⟨fun h => (Except.ok.inj h).symm, fun h => by rw [h]; rfl⟩
  | cons row rows ih =>
      have hcons : query read columns (row :: rows) =
          (read (row.fetch columns)).bind fun a =>
            (query read columns rows).bind fun as => .ok (a :: as) := List.mapM_cons
      rw [hcons]
      cases hread : read (row.fetch columns) with
      | error e => simp [Except.bind, List.forall₂_cons_left_iff, hread]
      | ok a =>
          cases hrest : query read columns rows with
          | error e =>
              have hnone : ∀ as, ¬ List.Forall₂ (fun row a => read (row.fetch columns) = .ok a)
                  rows as := by
                intro as has
                rw [← ih, hrest] at has
                cases has
              simp [Except.bind, List.forall₂_cons_left_iff, hnone]
          | ok as =>
              have hall := ih.1 hrest
              simp only [Except.bind, Except.ok.injEq]
              constructor
              · rintro rfl
                exact .cons hread hall
              · intro h
                obtain ⟨b, bs, hb, hbs, rfl⟩ := List.forall₂_cons_left_iff.1 h
                rw [hread] at hb
                rw [← ih, hrest] at hbs
                cases hb
                cases hbs
                rfl

/-- A query succeeds when each of its rows can be read, and gives each of them. -/
theorem exists_query (h : ∀ row ∈ rows, ∃ a, read (row.fetch columns) = .ok a) :
    ∃ results, query read columns rows = .ok results ∧
      ∀ row ∈ rows, ∀ a, read (row.fetch columns) = .ok a → a ∈ results := by
  induction rows with
  | nil => exact ⟨[], rfl, by simp⟩
  | cons row rows ih =>
      rcases List.forall_mem_cons.1 h with ⟨⟨a, ha⟩, hrows⟩
      obtain ⟨results, hquery, hmem⟩ := ih hrows
      refine ⟨a :: results, query_eq_ok_iff.2 (.cons ha (query_eq_ok_iff.1 hquery)), ?_⟩
      refine List.forall_mem_cons.2 ⟨?_, fun row' hrow' b hb => ?_⟩
      · intro b hb
        rw [ha] at hb
        cases hb
        exact List.mem_cons_self
      · exact List.mem_cons_of_mem _ (hmem row' hrow' b hb)

/-- A query gives nothing but what its rows are read as. -/
theorem exists_of_mem_query (h : query read columns rows = .ok results) {a : α}
    (ha : a ∈ results) : ∃ row ∈ rows, read (row.fetch columns) = .ok a := by
  have hall := query_eq_ok_iff.1 h
  clear h
  induction hall with
  | nil => cases ha
  | cons hread _ ih =>
      rcases List.mem_cons.1 ha with rfl | ha
      · exact ⟨_, List.mem_cons_self, hread⟩
      · obtain ⟨row, hrow, hrow'⟩ := ih ha
        exact ⟨row, List.mem_cons_of_mem _ hrow, hrow'⟩

end Query

end SqlTables
end Systems
end HiddenSteps
