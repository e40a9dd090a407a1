import LabelHooks.Text.Basic

/-!
Points in time as milliseconds since the start of 1970, and their text in universal time.
-/

namespace LabelHooks

abbrev Instant := Int

namespace Instant

/-- Year, month and day of a day counted from the start of 1970. Years are counted from March,
in cycles of four hundred. -/
def date (days : Int) : Int × Nat × Nat :=
  let z := days + 719468
  let era := z.fdiv 146097
  let dayOfEra := (z.fmod 146097).toNat
  let yearOfEra :=
    (dayOfEra - dayOfEra / 1460 + dayOfEra / 36524 - dayOfEra / 146096) / 365
  let dayOfYear := dayOfEra - (365 * yearOfEra + yearOfEra / 4 - yearOfEra / 100)
  let shifted := (5 * dayOfYear + 2) / 153
  let day := dayOfYear - (153 * shifted + 2) / 5 + 1
  let month := if shifted < 10 then shifted + 3 else shifted - 9
  (era * 400 + yearOfEra + (if month ≤ 2 then 1 else 0), month, day)

private def padded (width n : Nat) : Text :=
  let digits := Text.ofNat n
  List.replicate (width - digits.length) (byte '0') ++ digits

private def year (y : Int) : Text :=
  if y < 0 then byte '-' :: padded 4 y.natAbs else padded 4 y.natAbs

def text (t : Instant) : Text :=
  let seconds := t.fdiv 1000
  let (y, m, d) := date (seconds.fdiv 86400)
  let rest := (seconds.fmod 86400).toNat
  year y ++ ("-" : Text) ++ padded 2 m ++ ("-" : Text) ++ padded 2 d ++ ("T" : Text) ++
    padded 2 (rest / 3600) ++ (":" : Text) ++ padded 2 (rest / 60 % 60) ++ (":" : Text) ++
    padded 2 (rest % 60) ++ ("Z" : Text)

end Instant
end LabelHooks
