/-
# The backoff of `reconnectLoop` of `socket/connector`

The loop sleeps for its backoff, with jitter for up to half as long again, and at most for
`MaxBackoff`; then the backoff is multiplied by the factor, up to `MaxBackoff`.  The multiplication is
in floating point and is a parameter here.  The draw `rand.Int64N(backoff / 2)` panics for a backoff of
one nanosecond, and `backoff + jitter` can overflow (`backoff_safe_iff`).
-/
import AoniContrib.Go.Time

namespace AoniContrib.Socket

open Go

/-- What `reconnectLoop` reads of a policy with positive backoffs, which `New` keeps. -/
structure ReconnectPolicy where
  initialBackoff : Int64
  maxBackoff : Int64
  jitter : Bool

namespace ReconnectPolicy

/-- The backoff at the `n`-th failure; `scale` is the multiplication by the factor. -/
def backoff (P : ReconnectPolicy) (scale : Int64 → Int64) : Nat → Int64
  | 0 => P.initialBackoff
  | n + 1 => min (scale (P.backoff scale n)) P.maxBackoff

/-- What `rand.Int64N` may give for this backoff. -/
def Draws (P : ReconnectPolicy) (backoff jitterVal : Int64) : Prop :=
  if P.jitter then 0 ≤ jitterVal ∧ jitterVal < backoff / 2 else jitterVal = 0

def sleepDur (P : ReconnectPolicy) (backoff jitterVal : Int64) : Int64 :=
  min (backoff + jitterVal) P.maxBackoff

/-- **The property** of all passes with this multiplication. -/
def Safe (P : ReconnectPolicy) (scale : Int64 → Int64) : Prop :=
  ∀ n, (P.jitter = true → 0 < P.backoff scale n / 2) ∧
    (∀ jitterVal, P.Draws (P.backoff scale n) jitterVal → 0 < P.sleepDur (P.backoff scale n) jitterVal ∧
        P.sleepDur (P.backoff scale n) jitterVal ≤ P.maxBackoff) ∧
    (P.initialBackoff ≤ P.maxBackoff → P.backoff scale n ≤ P.backoff scale (n + 1))

/-- The largest backoff to which half of it can be added. -/
def jitterLimit : Int := 6148914691236517205

variable {P : ReconnectPolicy} {scale : Int64 → Int64} {a b j : Int64}

theorem toInt_min : (min a b).toInt = min a.toInt b.toInt := by
  change (if a ≤ b then a else b).toInt = _
  split_ifs with h
  · rw [min_eq_left (Int64.le_iff_toInt_le.mp h)]
  · rw [min_eq_right (not_le.mp (mt Int64.le_iff_toInt_le.mpr h)).le]

theorem pos_iff : 0 < a ↔ 0 < a.toInt := by
  rw [Int64.lt_iff_toInt_lt, Int64.toInt_zero]

theorem toInt_bounds (a : Int64) : -2 ^ 63 ≤ a.toInt ∧ a.toInt < 2 ^ 63 := ⟨a.le_toInt, a.toInt_lt⟩

theorem toInt_half (h : 0 < a) : (a / 2).toInt = a.toInt / 2 := by
  have := toInt_bounds a
  have := pos_iff.mp h
  rw [Int64.toInt_div, show (2 : Int64).toInt = 2 by decide, Int.tdiv_eq_ediv_of_nonneg (by omega),
    Int.bmod_eq_of_le (by omega) (by omega)]

theorem toInt_sum (ha : 0 < a) (hj : 0 ≤ j.toInt) : (a + j).toInt =
    if a.toInt + j.toInt < 2 ^ 63 then a.toInt + j.toInt else a.toInt + j.toInt - 2 ^ 64 := by
  have := toInt_bounds a
  have := toInt_bounds j
  have := pos_iff.mp ha
  rw [Int64.toInt_add, Int.bmod_def]
  split_ifs <;> omega

theorem backoff_bounds (hinit : 0 < P.initialBackoff) (hmax : 0 < P.maxBackoff)
    (hscale : ∀ b, 0 < b → b ≤ scale b) (n : Nat) :
    min P.initialBackoff.toInt P.maxBackoff.toInt ≤ (P.backoff scale n).toInt ∧
      (P.backoff scale n).toInt ≤ max P.initialBackoff.toInt P.maxBackoff.toInt ∧
      ((P.backoff scale n).toInt ≤ P.maxBackoff.toInt → P.backoff scale n ≤ P.backoff scale (n + 1)) := by
  rw [pos_iff] at hinit hmax
  have hstep (m : Nat) (hpos : 0 < (P.backoff scale m).toInt) :
      (P.backoff scale m).toInt ≤ (scale (P.backoff scale m)).toInt ∧ (P.backoff scale (m + 1)).toInt =
        min (scale (P.backoff scale m)).toInt P.maxBackoff.toInt :=
    ⟨Int64.le_iff_toInt_le.mp (hscale _ (pos_iff.mpr hpos)), toInt_min⟩
  have hbounds : min P.initialBackoff.toInt P.maxBackoff.toInt ≤ (P.backoff scale n).toInt ∧
      (P.backoff scale n).toInt ≤ max P.initialBackoff.toInt P.maxBackoff.toInt := by
    induction n with
    | zero => exact ⟨min_le_left _ _, le_max_left _ _⟩
    | succ n ih =>
      obtain ⟨hgrows, heq⟩ := hstep n (by omega)
      omega
  refine ⟨hbounds.1, hbounds.2, fun hle => ?_⟩
  obtain ⟨hgrows, heq⟩ := hstep n (by omega)
  rw [Int64.le_iff_toInt_le]
  omega

theorem backoff_le_max (hle : P.initialBackoff ≤ P.maxBackoff) (n : Nat) :
    (P.backoff scale n).toInt ≤ P.maxBackoff.toInt := by
  cases n with
  | zero => exact Int64.le_iff_toInt_le.mp hle
  | succ n => exact toInt_min.trans_le (min_le_right _ _)

theorem sleepDur_le (P : ReconnectPolicy) (b j : Int64) : P.sleepDur b j ≤ P.maxBackoff :=
  Int64.le_iff_toInt_le.mpr (toInt_min.trans_le (min_le_right _ _))

theorem jitter_safe_iff (hjitter : P.jitter = true) (hmax : 0 < P.maxBackoff) (hb : 0 < b) :
    (0 < b / 2 ∧ ∀ j, P.Draws b j → 0 < P.sleepDur b j) ↔ 2 ≤ b.toInt ∧ b.toInt ≤ jitterLimit := by
  have hlt := toInt_bounds b
  have hbpos := pos_iff.mp hb
  have hmaxpos := pos_iff.mp hmax
  simp only [Draws, hjitter, if_true, Int64.le_iff_toInt_le, Int64.lt_iff_toInt_lt, toInt_half hb,
    sleepDur, toInt_min, Int64.toInt_zero, jitterLimit]
  constructor
  · rintro ⟨hdraw, hsleep⟩
    -- the largest draw
    have hj : (Int64.ofInt (b.toInt / 2 - 1)).toInt = b.toInt / 2 - 1 :=
      Int64.toInt_ofInt_of_le (by omega) (by omega)
    have := hsleep (Int64.ofInt (b.toInt / 2 - 1)) (by omega)
    rw [toInt_sum hb (by omega), hj] at this
    split_ifs at this <;> omega
  · rintro ⟨htwo, hlimit⟩
    refine ⟨by omega, fun j hj => ?_⟩
    rw [toInt_sum hb hj.1, if_pos (by omega)]
    omega

/-- **When the backoff is safe**: without jitter always; with jitter when both durations are at least
two nanoseconds and at most two thirds of the largest duration. -/
theorem backoff_safe_iff (hinit : 0 < P.initialBackoff) (hmax : 0 < P.maxBackoff) :
    (∀ scale, (∀ b, 0 < b → b ≤ scale b) → P.Safe scale) ↔ P.jitter = false ∨
      (2 ≤ P.initialBackoff.toInt ∧ P.initialBackoff.toInt ≤ jitterLimit) ∧
        2 ≤ P.maxBackoff.toInt ∧ P.maxBackoff.toInt ≤ jitterLimit := by
  constructor
  · intro hsafe
    by_cases hjitter : P.jitter = true
    · right
      -- a multiplication that goes to `MaxBackoff` at once
      have hscale : ∀ b : Int64, 0 < b → b ≤ if b ≤ P.maxBackoff then P.maxBackoff else b := by
        intro b _
        split_ifs with h
        · exact h
        · exact Int64.le_refl b
      have hpass := hsafe _ hscale
      refine ⟨(jitter_safe_iff hjitter hmax hinit).mp ⟨(hpass 0).1 hjitter, fun j hj => ((hpass 0).2.1 j hj).1⟩,
        (jitter_safe_iff hjitter hmax hmax).mp ?_⟩
      have hsecond : P.backoff (fun b => if b ≤ P.maxBackoff then P.maxBackoff else b) 1 = P.maxBackoff := by
        rw [← Int64.toInt_inj, backoff, toInt_min, backoff]
        refine min_eq_right ?_
        split_ifs with h
        · exact le_rfl
        · exact (not_le.mp (mt Int64.le_iff_toInt_le.mpr h)).le
      have := hpass 1
      rw [hsecond] at this
      exact ⟨this.1 hjitter, fun j hj => (this.2.1 j hj).1⟩
    · exact .inl (Bool.eq_false_iff.mpr hjitter)
  · intro hcase scale hscale n
    obtain ⟨hmin, hmaxn, hgrows⟩ := backoff_bounds hinit hmax hscale n
    have hb : 0 < P.backoff scale n :=
      pos_iff.mpr (lt_of_lt_of_le (lt_min (pos_iff.mp hinit) (pos_iff.mp hmax)) hmin)
    have hpass : (P.jitter = true → 0 < P.backoff scale n / 2) ∧
        ∀ j, P.Draws (P.backoff scale n) j → 0 < P.sleepDur (P.backoff scale n) j := by
      by_cases hjitter : P.jitter = true
      · have hlimits := hcase.resolve_left (by simp [hjitter])
        have := (jitter_safe_iff hjitter hmax hb).mpr (by omega)
        exact ⟨fun _ => this.1, this.2⟩
      · refine ⟨fun h => absurd h hjitter, fun j hj => ?_⟩
        obtain rfl : j = 0 := by simpa [Draws, hjitter] using hj
        rw [sleepDur, Int64.add_zero, pos_iff, toInt_min]
        exact lt_min (pos_iff.mp hb) (pos_iff.mp hmax)
    exact ⟨hpass.1, fun j hj => ⟨hpass.2 j hj, sleepDur_le P _ j⟩, fun hle => hgrows (backoff_le_max hle n)⟩

theorem backoff_safe_iff_seconds : Safe ⟨1000000000, 60000000000, true⟩ id :=
  (backoff_safe_iff (by decide) (by decide)).mpr (.inr (by decide)) id fun b _ => Int64.le_refl b

/-- One nanosecond with jitter: the first draw is `rand.Int64N(0)`. -/
theorem one_nanosecond_panics : backoff ⟨1, 60000000000, true⟩ id 0 / 2 = 0 := by
  decide

end ReconnectPolicy
end AoniContrib.Socket
