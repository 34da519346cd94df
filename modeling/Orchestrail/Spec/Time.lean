import Orchestrail.Spec.Runtime

/-!
# UTC timestamps

`time.rs`: seconds of the Unix epoch as `YYYY-MM-DDTHH:MM:SSZ` and back, over the civil calendar
whose year begins on the first of March.
-/

namespace Orchestrail

/-- Days since 1970-01-01 of a civil date. Rust's division goes towards zero. -/
def daysFromCivil (year month day : Int) : Int :=
  let y := if month ≤ 2 then year - 1 else year
  let era := (if 0 ≤ y then y else y - 399).tdiv 400
  let yoe := y - era * 400
  let mp := if 2 < month then month - 3 else month + 9
  let doy := (153 * mp + 2).tdiv 5 + day - 1
  let doe := yoe * 365 + yoe.tdiv 4 - yoe.tdiv 100 + doy
  era * 146097 + doe - 719468

/-- The civil date of a count of days since 1970-01-01. -/
def civilFromDays (days : Int) : Int × Int × Int :=
  let z := days + 719468
  let era := (if 0 ≤ z then z else z - 146096).tdiv 146097
  let doe := z - era * 146097
  let yoe := (doe - doe.tdiv 1460 + doe.tdiv 36524 - doe.tdiv 146096).tdiv 365
  let y := yoe + era * 400
  let doy := doe - (365 * yoe + yoe.tdiv 4 - yoe.tdiv 100)
  let mp := (5 * doy + 2).tdiv 153
  let day := doy - (153 * mp + 2).tdiv 5 + 1
  let month := if mp < 10 then mp + 3 else mp - 9
  (if month ≤ 2 then y + 1 else y, month, day)

/-- A number in decimal, with zeros before it up to a width. -/
def padded (width n : Nat) : List Char :=
  let digits := Nat.toDigits 10 n
  List.replicate (width - digits.length) '0' ++ digits

/-- `YYYY-MM-DDTHH:MM:SSZ`. -/
def epochToIso (secs : Nat) : String :=
  let (year, month, day) := civilFromDays (secs / 86400 : Nat)
  let rem := secs % 86400
  String.ofList <|
    padded 4 year.toNat ++ '-' :: padded 2 month.toNat ++ '-' :: padded 2 day.toNat ++
      'T' :: padded 2 (rem / 3600) ++ ':' :: padded 2 (rem % 3600 / 60) ++
      ':' :: padded 2 (rem % 60) ++ ['Z']

/-- The number that decimal digits spell. -/
def decimal (digits : List Char) : Int :=
  digits.foldl (fun n ch => 10 * n + (ch.toNat - '0'.toNat : Nat)) 0

/-- The seconds of a strict UTC timestamp, a fraction cut off. -/
def isoToEpoch (s : String) : Option Nat :=
  if isIsoUtc s = false then none
  else
    let field (start len : Nat) : Int := decimal ((s.toList.drop start).take len)
    let days := daysFromCivil (field 0 4) (field 5 2) (field 8 2)
    let secs := days * 86400 + field 11 2 * 3600 + field 14 2 * 60 + field 17 2
    if 0 ≤ secs ∧ secs ≤ 18446744073709551615 then some secs.toNat else none

end Orchestrail
