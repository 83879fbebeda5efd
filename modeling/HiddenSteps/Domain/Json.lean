import Mathlib.Data.List.Basic

/-!
# Json — the JSON values that are stored and compared

Numbers are integers: byte counts, levels and versions are the only numbers the program puts into
a JSON value.
-/

namespace HiddenSteps

inductive Json where
  | null
  | bool (b : Bool)
  | number (n : Int)
  | string (s : String)
  | array (items : List Json)
  | object (fields : List (String × Json))

namespace Json

mutual

def decEq : (a b : Json) → Decidable (a = b)
  | null, null => isTrue rfl
  | bool a, bool b => decidable_of_iff (a = b) (by simp)
  | number a, number b => decidable_of_iff (a = b) (by simp)
  | string a, string b => decidable_of_iff (a = b) (by simp)
  | array as, array bs =>
      have := decEqItems as bs
      decidable_of_iff (as = bs) (by simp)
  | object as, object bs =>
      have := decEqFields as bs
      decidable_of_iff (as = bs) (by simp)
  | null, bool _ | null, number _ | null, string _ | null, array _ | null, object _
  | bool _, null | bool _, number _ | bool _, string _ | bool _, array _ | bool _, object _
  | number _, null | number _, bool _ | number _, string _ | number _, array _ | number _, object _
  | string _, null | string _, bool _ | string _, number _ | string _, array _ | string _, object _
  | array _, null | array _, bool _ | array _, number _ | array _, string _ | array _, object _
  | object _, null | object _, bool _ | object _, number _ | object _, string _
  | object _, array _ => isFalse (by simp)

def decEqItems : (as bs : List Json) → Decidable (as = bs)
  | [], [] => isTrue rfl
  | a :: as, b :: bs =>
      have := decEq a b
      have := decEqItems as bs
      decidable_of_iff (a = b ∧ as = bs) (by simp)
  | [], _ :: _ | _ :: _, [] => isFalse (by simp)

def decEqFields : (as bs : List (String × Json)) → Decidable (as = bs)
  | [], [] => isTrue rfl
  | (k, a) :: as, (l, b) :: bs =>
      have := decEq a b
      have := decEqFields as bs
      decidable_of_iff (k = l ∧ a = b ∧ as = bs) (by simp [and_assoc])
  | [], _ :: _ | _ :: _, [] => isFalse (by simp)

end

instance : DecidableEq Json := decEq

/-- `Value::as_object` -/
def asObject : Json → Option (List (String × Json))
  | object fields => some fields
  | _ => none

/-- `Value::as_str` -/
def asStr : Json → Option String
  | string s => some s
  | _ => none

/-- `Map::get` -/
def getField (fields : List (String × Json)) (name : String) : Option Json :=
  (fields.find? fun f => f.1 == name).map Prod.snd

/-- `Map::insert` on a map ordered by key. -/
def insertField (name : String) (value : Json) : List (String × Json) → List (String × Json)
  | [] => [(name, value)]
  | f :: fields =>
      if f.1 == name then (name, value) :: fields
      else if name < f.1 then (name, value) :: f :: fields
      else f :: insertField name value fields

end Json
end HiddenSteps
