import LabelHooks.Decimal.Shortest
import LabelHooks.Time.Duration

/-!
Lengths of time for reports: rounded for people, and in milliseconds for machines.
-/

namespace LabelHooks.Duration

private def seconds (n : Nat) : Binary :=
  (Binary.ofNat (n / 1000000000)).add
    ((Binary.ofNat (n % 1000000000)).div (Binary.ofNat 1000000000))

/-- Whole microseconds below a millisecond, whole milliseconds below a second, and seconds with
two places from there on. -/
def brief (d : Duration) : Text :=
  if d < millisecond then Text.ofInt (d.tdiv microsecond) ++ ("µs" : Text)
  else if d < second then Text.ofInt (d.tdiv millisecond) ++ ("ms" : Text)
  else (seconds d.toNat).fixed 2 ++ ("s" : Text)

def milliseconds (d : Duration) : Binary := (Binary.ofNat d.natAbs).div (Binary.ofNat 1000000)

def millisecondsText (d : Duration) : Text :=
  (if d < 0 then ("-" : Text) else []) ++ d.milliseconds.shortest

def clamp (n : Int) : Duration :=
  if n > largest then largest else if n < smallest then smallest else n

end LabelHooks.Duration
