/-
# Instants as integers

A `Time` on the integer line of nanoseconds since the Unix epoch.  There `After` is the order, `Sub` is
the difference cut off at the range of a `Duration`, and `Add` of a positive duration is the sum unless
the seconds overflow.  `time.Unix` is exact up to the last second of the range and WRAPS behind it.
-/
import AoniContrib.Go.Time

namespace AoniContrib.Go

namespace Time

def nanos (t : Time) : Int := (t.sec.toInt - 62135596800) * 1000000000 + t.nsec.val

def last : Time := ⟨Int64.maxValue, 999999999⟩

def first : Time := ⟨Int64.minValue, 0⟩

variable {t u : Time}

theorem after_iff : t.after u = true ↔ u.nanos < t.nanos := by
  have ht := t.nsec.isLt
  have hu := u.nsec.isLt
  simp only [after, Bool.or_eq_true, Bool.and_eq_true, decide_eq_true_eq, beq_iff_eq,
    Int64.lt_iff_toInt_lt, ← Int64.toInt_inj, Fin.lt_def, nanos]
  omega

theorem after_eq_false_iff : t.after u = false ↔ t.nanos ≤ u.nanos := by
  rw [← Bool.not_eq_true, after_iff, not_lt]

theorem nanos_le_last (t : Time) : t.nanos ≤ last.nanos := by
  have hsec := t.sec.toInt_lt
  have hnsec := t.nsec.isLt
  have hmax : last.sec.toInt = 2 ^ 63 - 1 := by decide
  have hlast : last.nsec.val = 999999999 := rfl
  simp only [nanos, hmax, hlast]
  omega

theorem first_le_nanos (t : Time) : first.nanos ≤ t.nanos := by
  have hsec := t.sec.le_toInt
  have hmin : first.sec.toInt = -2 ^ 63 := by decide
  have hfirst : first.nsec.val = 0 := rfl
  simp only [nanos, hmin, hfirst]
  omega

def ofNanos (n : Int) : Time :=
  ⟨Int64.ofInt (n / 1000000000 + 62135596800), Fin.ofNat _ (n % 1000000000).toNat⟩

theorem nanos_ofNanos {n : Int} (hlow : first.nanos ≤ n) (hhigh : n ≤ last.nanos) :
    (ofNanos n).nanos = n := by
  have hfirst : first.nanos = (-2 ^ 63 - 62135596800) * 1000000000 := by decide
  have hlast : last.nanos = (2 ^ 63 - 1 - 62135596800) * 1000000000 + 999999999 := by decide
  have hsec : (ofNanos n).sec.toInt = n / 1000000000 + 62135596800 :=
    Int64.toInt_ofInt_of_le (by omega) (by omega)
  have hnsec : (ofNanos n).nsec.val = (n % 1000000000).toNat % 1000000000 := rfl
  simp only [nanos, hsec, hnsec]
  omega

/-! ## `time.Unix` -/

theorem toInt_unix (c : Int64) : (unix c).sec.toInt = c.toInt + 62135596800 ∧ c.toInt + 62135596800 < 2 ^ 63 ∨
    (unix c).sec.toInt = c.toInt + 62135596800 - 2 ^ 64 ∧ 2 ^ 63 ≤ c.toInt + 62135596800 := by
  have hlow : -2 ^ 63 ≤ c.toInt := c.le_toInt
  have hhigh : c.toInt < 2 ^ 63 := c.toInt_lt
  have hepoch : unixToInternal.toInt = 62135596800 := by decide
  have hsum : (unix c).sec.toInt = (c.toInt + 62135596800).bmod (2 ^ 64) := by
    rw [unix, Int64.toInt_add, hepoch]
  rw [hsum]
  rcases lt_or_ge (c.toInt + 62135596800) (2 ^ 63) with h | h
  · exact .inl ⟨Int.bmod_eq_of_le (by omega) (by omega), h⟩
  · refine .inr ⟨?_, h⟩
    rw [← Int.sub_bmod_right]
    exact Int.bmod_eq_of_le (by omega) (by omega)

/-- An integer that `time.Unix` does not wrap. -/
def InRange (c : Int64) : Prop := c.toInt + 62135596800 < 2 ^ 63

variable {c : Int64}

theorem nanos_unix (h : InRange c) : (unix c).nanos = c.toInt * 1000000000 := by
  have hnsec : (unix c).nsec.val = 0 := rfl
  rcases toInt_unix c with ⟨hsec, -⟩ | ⟨-, hout⟩
  · simp only [nanos, hsec, hnsec]
    omega
  · unfold InRange at h
    omega

theorem nanos_unix_of_not (h : ¬ InRange c) : (unix c).nanos = (c.toInt - 2 ^ 64) * 1000000000 := by
  have hnsec : (unix c).nsec.val = 0 := rfl
  rcases toInt_unix c with ⟨-, hin⟩ | ⟨hsec, -⟩
  · exact absurd hin h
  · simp only [nanos, hsec, hnsec]
    omega

theorem nanos_unix_le (c : Int64) : (unix c).nanos ≤ c.toInt * 1000000000 := by
  by_cases h : InRange c
  · exact (nanos_unix h).le
  · rw [nanos_unix_of_not h]
    omega

/-! ## `Add` and `Sub` -/

theorem toInt_addSec (sec : Int64) {d : Int} (hd : 0 ≤ d) :
    (addSec sec d).toInt = min (2 ^ 63 - 1) (sec.toInt + d) := by
  have hlow : -2 ^ 63 ≤ sec.toInt := sec.le_toInt
  have hmax : Int64.maxValue.toInt = 2 ^ 63 - 1 := by decide
  have hmin : Int64.minValue.toInt = -2 ^ 63 := by decide
  unfold addSec
  dsimp only
  rw [hmax, hmin]
  split_ifs with h1 h2
  · rw [hmax, min_eq_left (by omega)]
  · omega
  · rw [min_eq_right (by omega), Int64.toInt_ofInt_of_le (by omega) (by omega)]

variable {d : Duration}

theorem add_parts (t : Time) (hd : 0 ≤ d.toInt) :
    (t.add d).sec.toInt = min (2 ^ 63 - 1) (t.sec.toInt + (t.nsec.val + d.toInt) / 1000000000) ∧
      ((t.add d).nsec.val : Int) = (t.nsec.val + d.toInt) % 1000000000 := by
  have hnn : (0 : Int) ≤ t.nsec.val := Int.natCast_nonneg _
  refine ⟨toInt_addSec _ (by omega), ?_⟩
  have hval : (t.add d).nsec.val = ((t.nsec.val + d.toInt) % 1000000000).toNat % 1000000000 := rfl
  rw [hval]
  omega

theorem nanos_add_le (t : Time) (hd : 0 ≤ d.toInt) : (t.add d).nanos ≤ t.nanos + d.toInt := by
  obtain ⟨hsec, hnsec⟩ := add_parts t hd
  have hle := min_le_right (2 ^ 63 - 1 : Int) (t.sec.toInt + (t.nsec.val + d.toInt) / 1000000000)
  rw [← hsec] at hle
  simp only [nanos, hnsec]
  omega

theorem unix_not_after_add (hd : 0 ≤ d.toInt)
    (h : (unix c).nanos ≤ t.nanos + d.toInt) : (unix c).after (t.add d) = false := by
  obtain ⟨hsec, hnsec⟩ := add_parts t hd
  have hzero : (unix c).nsec.val = 0 := rfl
  have hlt := (unix c).sec.toInt_lt
  rw [after_eq_false_iff]
  simp only [nanos, hzero, hnsec] at h ⊢
  rcases min_choice (2 ^ 63 - 1 : Int) (t.sec.toInt + (t.nsec.val + d.toInt) / 1000000000) with hm | hm
  · rw [hsec, hm]
    omega
  · rw [hsec, hm]
    omega

theorem sub_le_iff : t.sub u ≤ d ↔ t.nanos - u.nanos ≤ d.toInt ∨ d = Int64.maxValue := by
  have hmax : Int64.maxValue.toInt = 2 ^ 63 - 1 := by decide
  have hmin : Int64.minValue.toInt = -2 ^ 63 := by decide
  have hlow : -2 ^ 63 ≤ d.toInt := d.le_toInt
  have hhigh : d.toInt < 2 ^ 63 := d.toInt_lt
  have hdiff : (t.sec.toInt - u.sec.toInt) * 1000000000 + (t.nsec.val - u.nsec.val : Int) =
      t.nanos - u.nanos := by
    simp only [nanos]
    omega
  unfold Time.sub
  dsimp only
  rw [hdiff, hmax, hmin, Int64.le_iff_toInt_le, ← Int64.toInt_inj, hmax]
  split_ifs with h1 h2
  · rw [hmax]
    omega
  · rw [hmin]
    omega
  · rw [Int64.toInt_ofInt_of_le (by omega) (by omega)]
    omega

end Time

end AoniContrib.Go
