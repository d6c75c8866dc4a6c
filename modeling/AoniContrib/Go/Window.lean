/-
# A time window, as it is checked and over the integers

A count of seconds is checked against the clock in two comparisons: it is not after the clock plus a
skew, and the clock minus it does not exceed a maximal age plus the skew.  Over the integers that is the
interval `[-skew, maxAge + skew]` for the age (`InWindow`).  With machine arithmetic (`Passes`) the sum
of the two durations WRAPS, `Sub` saturates at the largest duration, which then exceeds no bound that is
as large, and `time.Unix` moves the last counts of seconds by `2 ^ 64`.  `Undistorted` says for which
inputs the two decide alike.
-/
import AoniContrib.Go.Instant

namespace AoniContrib.Go

namespace Time

/-! ## 1. The two windows -/

instance instDecidableInRange (c : Int64) : Decidable (InRange c) :=
  inferInstanceAs (Decidable (c.toInt + 62135596800 < 2 ^ 63))

def ageOf (now : Time) (c : Int64) : Int := now.nanos - c.toInt * 1000000000

def InWindow (now : Time) (c : Int64) (maxAge skew : Duration) : Prop :=
  c.toInt * 1000000000 ≤ now.nanos + skew.toInt ∧ now.ageOf c ≤ maxAge.toInt + skew.toInt

def Passes (now : Time) (c : Int64) (maxAge skew : Duration) : Prop :=
  (unix c).after (now.add skew) = false ∧ now.sub (unix c) ≤ maxAge + skew

def maxDuration : Int := 2 ^ 63 - 1

/-- The nanoseconds by which `time.Unix` moves what it cannot represent. -/
def unixShift : Int := 2 ^ 64 * 1000000000

/-- What is left of a sum of two durations that may be too large for one. -/
def wrapped (bound : Int) : Int := if bound ≤ maxDuration then bound else bound - 2 ^ 64

/-- The inputs on which no overflow decides.  In the range of `time.Unix` they are those with a sum of
the durations below the largest one; those with just the largest one, where the age is none that
saturates; and those with a larger sum whose age is outside of what the wrap cuts off.  Out of the range
the time seems `unixShift` earlier than it is. -/
def Undistorted (now : Time) (c : Int64) (maxAge skew : Duration) : Prop :=
  let age := now.ageOf c
  let bound := maxAge.toInt + skew.toInt
  if InRange c then
    bound < maxDuration ∨ (bound = maxDuration ∧ age ≤ bound) ∨
      (maxDuration < bound ∧ (age < -skew.toInt ∨ age ≤ wrapped bound ∨ bound < age))
  else if bound = maxDuration then -skew.toInt ≤ age ∨ age + unixShift < -skew.toInt
  else age < -skew.toInt ∧ (age + unixShift < -skew.toInt ∨ wrapped bound < age + unixShift)

/-! ## 2. What is checked, as an interval -/

variable {now : Time} {c : Int64} {maxAge skew : Duration}

theorem inWindow_iff : InWindow now c maxAge skew ↔
    -skew.toInt ≤ now.ageOf c ∧ now.ageOf c ≤ maxAge.toInt + skew.toInt := by
  unfold InWindow ageOf
  omega

theorem toInt_add_wrapped (hage : 0 < maxAge.toInt) (hskew : 0 < skew.toInt) :
    (maxAge + skew).toInt = wrapped (maxAge.toInt + skew.toInt) := by
  have h1 : maxAge.toInt < 2 ^ 63 := maxAge.toInt_lt
  have h2 : skew.toInt < 2 ^ 63 := skew.toInt_lt
  rw [Int64.toInt_add]
  unfold wrapped maxDuration
  split_ifs with h
  · exact Int.bmod_eq_of_le (by omega) (by omega)
  · rw [← Int.sub_bmod_right]
    exact Int.bmod_eq_of_le (by omega) (by omega)

theorem passes_iff (hage : 0 < maxAge.toInt) (hskew : 0 < skew.toInt) :
    Passes now c maxAge skew ↔ -skew.toInt ≤ now.nanos - (unix c).nanos ∧
      (now.nanos - (unix c).nanos ≤ wrapped (maxAge.toInt + skew.toInt) ∨
        maxAge.toInt + skew.toInt = maxDuration) := by
  have hfuture : (unix c).after (now.add skew) = false ↔ -skew.toInt ≤ now.nanos - (unix c).nanos := by
    constructor
    · intro h
      have h1 := after_eq_false_iff.mp h
      have h2 := nanos_add_le now hskew.le
      omega
    · intro h
      exact unix_not_after_add hskew.le (by omega)
  have hmax : maxAge + skew = Int64.maxValue ↔ maxAge.toInt + skew.toInt = maxDuration := by
    have h1 : maxAge.toInt < 2 ^ 63 := maxAge.toInt_lt
    have h2 : skew.toInt < 2 ^ 63 := skew.toInt_lt
    have h3 : Int64.maxValue.toInt = 2 ^ 63 - 1 := by decide
    rw [← Int64.toInt_inj, toInt_add_wrapped hage hskew, h3]
    unfold wrapped maxDuration
    split_ifs <;> omega
  unfold Passes
  rw [hfuture, sub_le_iff, toInt_add_wrapped hage hskew, hmax]

theorem seen_age (h : InRange c) : now.nanos - (unix c).nanos = now.ageOf c := by
  rw [nanos_unix h, ageOf]

theorem seen_age_of_not (h : ¬ InRange c) : now.nanos - (unix c).nanos = now.ageOf c + unixShift := by
  rw [nanos_unix_of_not h, ageOf, unixShift]
  omega

theorem ageOf_neg (h : ¬ InRange c) : now.ageOf c < 0 := by
  have hlast := now.nanos_le_last
  have hval : last.nanos = (2 ^ 63 - 1 - 62135596800) * 1000000000 + 999999999 := by decide
  unfold InRange at h
  unfold ageOf
  omega

/-! ## 3. Where they agree -/

/-- **The checks decide the window over the integers exactly on the undistorted inputs.** -/
theorem passes_iff_inWindow (hage : 0 < maxAge.toInt) (hskew : 0 < skew.toInt) :
    (Passes now c maxAge skew ↔ InWindow now c maxAge skew) ↔ Undistorted now c maxAge skew := by
  have h1 : maxAge.toInt < 2 ^ 63 := maxAge.toInt_lt
  have h2 : skew.toInt < 2 ^ 63 := skew.toInt_lt
  rw [passes_iff hage hskew, inWindow_iff]
  unfold Undistorted
  dsimp only
  by_cases hrange : InRange c
  · rw [if_pos hrange, seen_age hrange]
    unfold wrapped maxDuration
    split_ifs <;> omega
  · have hneg : now.ageOf c < 0 := ageOf_neg hrange
    rw [if_neg hrange, seen_age_of_not hrange]
    unfold wrapped maxDuration unixShift
    split_ifs <;> omega

end Time

end AoniContrib.Go
