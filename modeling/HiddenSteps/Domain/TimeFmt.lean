import HiddenSteps.Domain.Privacy

/-!
# TimeFmt — RFC 3339 text of an instant

The proleptic Gregorian calendar date of an instant, the time of day, and a fraction of a second
that is left out when it is zero and otherwise has no trailing zeros.
-/

namespace HiddenSteps
namespace TimeFmt

/-- The year, month and day of a day counted from the epoch, in 400-year cycles of years that
start in March. -/
def civilFromDays (days : Int) : Int × Nat × Nat :=
  let z := days + 719468
  let era := z / 146097
  let dayOfEra := (z % 146097).toNat
  -- leap days: one in 1460 days, none in a century, one in the era
  let yearOfEra :=
    (dayOfEra - dayOfEra / 1460 + dayOfEra / 36524 - dayOfEra / 146096) / 365
  let dayOfYear := dayOfEra - (365 * yearOfEra + yearOfEra / 4 - yearOfEra / 100)
  -- the month counted from March
  let mp := (5 * dayOfYear + 2) / 153
  let day := dayOfYear - (153 * mp + 2) / 5 + 1
  let month := if mp < 10 then mp + 3 else mp - 9
  let year := (yearOfEra : Int) + era * 400 + (if month ≤ 2 then 1 else 0)
  (year, month, day)

/-- The last `n` decimal digits of a number. -/
def padded : Nat → Nat → List Char
  | 0, _ => []
  | n + 1, value => padded n (value / 10) ++ [Nat.digitChar (value % 10)]

/-- The digits of a fraction of a second without trailing zeros, behind a dot; nothing for zero. -/
def fraction (nanos : Nat) : List Char :=
  if nanos = 0 then []
  else '.' :: ((padded 9 nanos).reverse.dropWhile (· == '0')).reverse

/-- `OffsetDateTime::format(&Rfc3339)` of a UTC instant of the years 0 to 9999. -/
def toRfc3339 (t : Timestamp) : List Char :=
  let seconds := t / 1000000000
  let nanos := (t % 1000000000).toNat
  let date := civilFromDays (seconds / 86400)
  let second := (seconds % 86400).toNat
  padded 4 date.1.toNat ++ '-' :: padded 2 date.2.1 ++ '-' :: padded 2 date.2.2 ++
    'T' :: padded 2 (second / 3600) ++ ':' :: padded 2 (second / 60 % 60) ++
      ':' :: padded 2 (second % 60) ++ fraction nanos ++ ['Z']

/-- Bytewise comparison of two ASCII texts, as `ORDER BY` and `<=` compare a text column. -/
def textLe : List Char → List Char → Bool
  | [], _ => true
  | _ :: _, [] => false
  | a :: as, b :: bs => a.toNat < b.toNat || (a == b && textLe as bs)

example : toRfc3339 1753600005500000000 = "2025-07-27T07:06:45.5Z".toList := by decide +kernel

end TimeFmt
end HiddenSteps
