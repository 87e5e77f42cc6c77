/-
The two forms in which a certificate writes a time.

A short time has a year of two digits, may leave the seconds out, and ends with `Z` or with an offset. A long time has a
year of four digits and up to three digits behind the point of the seconds, and ends with `Z`. Both must name a day of
the calendar and a time of that day.
-/
import SecureEndpoint.Der.Header

namespace SecureEndpoint.Certificate

open Der

/-- the number in two decimal digits -/
def twoDigits (a b : UInt8) : Option Nat :=
  if 48 ≤ a && a ≤ 57 && 48 ≤ b && b ≤ 57 then some ((a.toNat - 48) * 10 + (b.toNat - 48)) else none

/-- the days of a month; none in a month that there is not -/
def daysOf (year month : Nat) : Nat :=
  match month with
  | 2 => if year % 4 = 0 ∧ (year % 100 ≠ 0 ∨ year % 400 = 0) then 29 else 28
  | 4 | 6 | 9 | 11 => 30
  | 1 | 3 | 5 | 7 | 8 | 10 | 12 => 31
  | _ => 0

/-- a day of the calendar and a time of that day -/
def isMoment (year month day hour minute second : Nat) : Bool :=
  1 ≤ day && day ≤ daysOf year month && hour ≤ 23 && minute ≤ 59 && second ≤ 59

/-- what ends a short time: `Z`, or an offset of less than a day -/
def isZone : Bytes → Bool
  | [90] => true
  | [sign, a, b, c, d] =>
    (sign = 43 || sign = 45) &&
      match twoDigits a b, twoDigits c d with
      | some h, some m => h ≤ 25 && m ≤ 59
      | _, _ => false
  | _ => false

/-- a time with a year of two digits -/
def isShortTime (s : Bytes) : Bool :=
  match s with
  | y1 :: y2 :: mo1 :: mo2 :: d1 :: d2 :: h1 :: h2 :: mi1 :: mi2 :: rest =>
    let (second, zone) := match rest with
      | a :: b :: more => match twoDigits a b with
        | some n => (n, more)
        | none => (0, rest)
      | _ => (0, rest)
    match twoDigits y1 y2, twoDigits mo1 mo2, twoDigits d1 d2, twoDigits h1 h2, twoDigits mi1 mi2 with
    | some y, some mo, some d, some h, some mi => isMoment y mo d h mi second && isZone zone
    | _, _, _, _, _ => false
  | _ => false

/-- what ends a long time: `Z`, perhaps behind a point and up to three digits -/
def isFraction : Bytes → Bool
  | [90] => true
  | 46 :: rest =>
    let digits := rest.takeWhile fun b => 48 ≤ b && b ≤ 57
    let zone := rest.dropWhile fun b => 48 ≤ b && b ≤ 57
    1 ≤ digits.length && digits.length ≤ 3 && zone == [90]
  | _ => false

/-- a time with a year of four digits -/
def isLongTime (s : Bytes) : Bool :=
  match s with
  | y1 :: y2 :: y3 :: y4 :: mo1 :: mo2 :: d1 :: d2 :: h1 :: h2 :: mi1 :: mi2 :: s1 :: s2 :: rest =>
    match twoDigits y1 y2, twoDigits y3 y4, twoDigits mo1 mo2, twoDigits d1 d2, twoDigits h1 h2 with
    | some century, some y, some mo, some d, some h =>
      match twoDigits mi1 mi2, twoDigits s1 s2 with
      | some mi, some second => isMoment (century * 100 + y) mo d h mi second && isFraction rest
      | _, _ => false
    | _, _, _, _, _ => false
  | _ => false

end SecureEndpoint.Certificate
