import Mathlib.Algebra.Ring.Int.Defs
import Orchestrail.Spec.Contract

/-!
# Instants

What the fields of a strict UTC timestamp denote: milliseconds of the Unix epoch, before 1970 below
zero. A field out of its range counts on, as in the source's calendar. With it the timestamps that
`epoch_millis_to_iso` writes.
-/

namespace Orchestrail

open Text

/-- Epoch milliseconds as `YYYY-MM-DDTHH:MM:SS.mmmZ`. -/
def epochMillisToIso (millis : Nat) : String :=
  let whole := epochToIso (millis / 1000)
  String.ofList <|
    (whole.toList.reverse.dropWhile (· == 'Z')).reverse ++ '.' :: padded 3 (millis % 1000) ++ ['Z']

namespace Instant

/-- The number in some places of a timestamp. -/
def field (s : String) (start len : Nat) : Int := decimal ((s.toList.drop start).take len)

/-- The digits behind the point. -/
def fraction (s : String) : List Char := (s.toList.drop 20).dropLast

def seconds (s : String) : Int :=
  daysFromCivil (field s 0 4) (field s 5 2) (field s 8 2) * 86400 + field s 11 2 * 3600 +
    field s 14 2 * 60 + field s 17 2

/-- The milliseconds that the fields denote. -/
def millis (s : String) : Int :=
  seconds s * 1000 + decimal (fraction s) * 10 ^ (3 - (fraction s).length)

end Instant

end Orchestrail
