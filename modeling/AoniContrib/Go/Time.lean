/-
# Wall-clock instants: package `time`

An instant is a signed 64-bit count of seconds since January 1 of year 1 and the nanoseconds
within the second; a `Duration` is a signed 64-bit count of nanoseconds.  `time.Unix` WRAPS,
`Time.Add` saturates the seconds, and `Time.Sub` saturates the duration.
-/
import Mathlib

namespace AoniContrib.Go

/-- `time.Duration`, in nanoseconds. -/
abbrev Duration := Int64

instance instNeZeroSecond : NeZero 1000000000 := ⟨by decide⟩

/-- `time.Time` without its location and monotonic reading. -/
structure Time where
  sec : Int64
  nsec : Fin 1000000000
  deriving DecidableEq, Repr

namespace Time

/-- The seconds from January 1 of year 1 to the Unix epoch. -/
def unixToInternal : Int64 := 62135596800

/-- `time.Unix(sec, 0)`. -/
def unix (sec : Int64) : Time := ⟨sec + unixToInternal, 0⟩

def toUnix (t : Time) : Int64 := t.sec - unixToInternal

/-- `Time.UnixNano`, which wraps outside the years 1678 to 2262. -/
def unixNano (t : Time) : Int64 := t.toUnix * 1000000000 + Int64.ofNat t.nsec

def isZero (t : Time) : Bool := t.sec == 0 && t.nsec == 0

/-- `addSec`: the sum, or the extreme it overflows to. -/
def addSec (sec : Int64) (d : Int) : Int64 :=
  let sum := sec.toInt + d
  if Int64.maxValue.toInt < sum then Int64.maxValue
  else if sum < Int64.minValue.toInt then Int64.ofInt (-Int64.maxValue.toInt)
  else Int64.ofInt sum

def add (t : Time) (d : Duration) : Time :=
  -- floor division: the carry that Go makes after its truncating one
  let total : Int := t.nsec.val + d.toInt
  ⟨addSec t.sec (total / 1000000000), Fin.ofNat _ (total % 1000000000).toNat⟩

def after (t u : Time) : Bool := u.sec < t.sec || (u.sec == t.sec && u.nsec < t.nsec)

/-- `Time.Sub`: the difference, or the extreme `Duration` it exceeds. -/
def sub (t u : Time) : Duration :=
  let d : Int := (t.sec.toInt - u.sec.toInt) * 1000000000 + (t.nsec.val - u.nsec.val : Int)
  if Int64.maxValue.toInt < d then Int64.maxValue
  else if d < Int64.minValue.toInt then Int64.minValue
  else Int64.ofInt d

def minute : Duration := 60000000000

end Time

end AoniContrib.Go
