/-
# Decimal integers: package `strconv`

`FormatInt` and `ParseInt` in base ten for 64-bit integers.  `ParseInt` answers a value AND
an error, as in Go: one caller keeps the value and drops the error.
-/
import AoniContrib.Go.Bytes

namespace AoniContrib.Go

open List

def isDigit (b : UInt8) : Bool := 0x30 ≤ b && b ≤ 0x39

/-- The digits of a number, most significant first, without leading zeros. -/
def decimal (n : Nat) : Bytes :=
  if n = 0 then [0x30] else (Nat.digits 10 n).reverse.map (fun d => (0x30 + d).toUInt8)

/-- `strconv.FormatInt(n, 10)`. -/
def formatInt (n : Int64) : Bytes :=
  if n.toInt < 0 then minus :: decimal n.toInt.natAbs else decimal n.toInt.natAbs

inductive NumError where
  | errSyntax
  | errRange
  deriving DecidableEq, Repr

/-- The loop of `ParseUint` in base ten.  It stops at the first overflow, so a bad byte after
an overflow is not seen. -/
def parseUintLoop (n : Nat) : Bytes → Nat × Option NumError
  | [] => (n, none)
  | c :: s =>
    if isDigit c then
      let n1 := n * 10 + (c.toNat - 0x30)
      if 2 ^ 64 ≤ n1 then (2 ^ 64 - 1, some .errRange) else parseUintLoop n1 s
    else (0, some .errSyntax)

/-- `strconv.ParseUint(s, 10, 64)`. -/
def parseUint (s : Bytes) : Nat × Option NumError :=
  if s = [] then (0, some .errSyntax) else parseUintLoop 0 s

def splitSign : Bytes → Bool × Bytes
  | [] => (false, [])
  | c :: t => if c = plus then (false, t) else if c = minus then (true, t) else (false, c :: t)

/-- `strconv.ParseInt(s, 10, 64)`. -/
def parseInt (s : Bytes) : Int64 × Option NumError :=
  let (neg, digits) := splitSign s
  match parseUint digits with
  | (_, some .errSyntax) => (0, some .errSyntax)
  | (un, _) =>
    if neg then
      if 2 ^ 63 < un then (Int64.minValue, some .errRange) else (Int64.ofInt (-un), none)
    else
      if 2 ^ 63 ≤ un then (Int64.maxValue, some .errRange) else (Int64.ofInt un, none)

/-! ## What is printed -/

theorem isDigit_of_mem_decimal {n : Nat} {b : UInt8} (h : b ∈ decimal n) : isDigit b = true := by
  have hdigit : ∀ d < 10, isDigit (0x30 + d).toUInt8 = true := by decide
  unfold decimal at h
  split at h
  · obtain rfl := mem_singleton.mp h
    rfl
  · obtain ⟨d, hd, rfl⟩ := mem_map.mp h
    exact hdigit d (Nat.digits_lt_base (by omega) (mem_reverse.mp hd))

theorem mem_formatInt {n : Int64} {b : UInt8} (h : b ∈ formatInt n) : isDigit b = true ∨ b = minus := by
  unfold formatInt at h
  split at h
  · rcases mem_cons.mp h with rfl | h
    · exact .inr rfl
    · exact .inl (isDigit_of_mem_decimal h)
  · exact .inl (isDigit_of_mem_decimal h)

/-! ## What is printed is parsed again -/

theorem parseUintLoop_digits : ∀ (ds : List Nat) (n : Nat), (∀ d ∈ ds, d < 10) →
    ds.foldl (fun a d => a * 10 + d) n < 2 ^ 64 →
    parseUintLoop n (ds.map (fun d => (0x30 + d).toUInt8)) = (ds.foldl (fun a d => a * 10 + d) n, none)
  | [], n, _, _ => rfl
  | d :: ds, n, hd, hlt => by
    have hdigit : ∀ d < 10, isDigit (0x30 + d).toUInt8 = true ∧
        (0x30 + d).toUInt8.toNat - 0x30 = d := by decide
    obtain ⟨h1, h2⟩ := hdigit d (hd d mem_cons_self)
    -- a prefix of the digits is no larger than the number
    have hmono : ∀ (es : List Nat) (a : Nat), a ≤ es.foldl (fun a d => a * 10 + d) a := by
      intro es
      induction es with
      | nil => exact fun a => le_refl a
      | cons e es ih => exact fun a => le_trans (by omega) (ih (a * 10 + e))
    have hstep : ¬ 2 ^ 64 ≤ n * 10 + d := by
      have := hmono ds (n * 10 + d)
      rw [foldl_cons] at hlt
      omega
    rw [map_cons, parseUintLoop, if_pos h1, h2]
    simp only [if_neg hstep]
    exact parseUintLoop_digits ds (n * 10 + d) (forall_mem_cons.mp hd).2 hlt

theorem decimal_ne_nil (n : Nat) : decimal n ≠ [] := by
  unfold decimal
  split
  · exact cons_ne_nil _ _
  · rename_i h
    simpa using Nat.digits_ne_nil_iff_ne_zero.mpr h

variable {n : Nat}

theorem decimal_head (h : n ≠ 0) : (decimal n).head? ≠ some 0x30 := by
  have hdigit : ∀ d < 10, d ≠ 0 → (0x30 + d).toUInt8 ≠ 0x30 := by decide
  have hne : Nat.digits 10 n ≠ [] := Nat.digits_ne_nil_iff_ne_zero.mpr h
  have hlast := getLast_mem hne
  rw [decimal, if_neg h, head?_map, head?_reverse, getLast?_eq_some_getLast hne,
    Option.map_some, Ne, Option.some.injEq]
  exact hdigit _ (Nat.digits_lt_base (by omega) hlast) (Nat.getLast_digit_ne_zero 10 h)

theorem foldl_digits (n : Nat) : (Nat.digits 10 n).reverse.foldl (fun a d => a * 10 + d) 0 = n := by
  rw [foldl_reverse]
  conv_rhs => rw [← Nat.ofDigits_digits 10 n, Nat.ofDigits_eq_foldr]
  congr 1
  funext d a
  simp [Nat.mul_comm, Nat.add_comm]

theorem parseUint_decimal (h0 : n ≠ 0) (h : n < 2 ^ 64) : parseUint (decimal n) = (n, none) := by
  have hfold := foldl_digits n
  rw [parseUint, if_neg (decimal_ne_nil n), decimal, if_neg h0,
    parseUintLoop_digits _ _ _ (by rw [hfold]; exact h), hfold]
  intro d hd
  exact Nat.digits_lt_base (by omega) (mem_reverse.mp hd)

theorem foldl_decimal (n : Nat) : (decimal n).foldl (fun a b => a * 10 + (b.toNat - 0x30)) 0 = n := by
  by_cases h : n = 0
  · subst h
    rfl
  · have hdigit : ∀ d < 10, (0x30 + d).toUInt8.toNat - 0x30 = d := by decide
    rw [decimal, if_neg h, foldl_map]
    conv_rhs => rw [← foldl_digits n]
    refine foldl_ext _ _ _ fun a d hd => ?_
    rw [hdigit d (Nat.digits_lt_base (by omega) (mem_reverse.mp hd))]

theorem parseInt_decimal (h0 : n ≠ 0) (h : n < 2 ^ 63) :
    parseInt (decimal n) = (Int64.ofInt n, none) := by
  have hsign : ∀ b ∈ decimal n, b ≠ plus ∧ b ≠ minus := by
    intro b hb
    have hno : ∀ b : UInt8, isDigit b = true → b ≠ plus ∧ b ≠ minus := by grind [isDigit]
    exact hno b (isDigit_of_mem_decimal hb)
  have hu := parseUint_decimal h0 (by omega : n < 2 ^ 64)
  have hsplit : splitSign (decimal n) = (false, decimal n) := by
    cases hd : decimal n with
    | nil => rfl
    | cons b t =>
      obtain ⟨hp, hm⟩ := hsign b (by rw [hd]; exact mem_cons_self)
      rw [splitSign, if_neg hp, if_neg hm]
  simp only [parseInt, hsplit, hu, Bool.false_eq_true, if_false, if_neg (not_le.mpr h)]

theorem parseInt_decimal_le (h : n < 2 ^ 63) : parseInt (decimal n) = (Int64.ofInt n, none) := by
  by_cases h0 : n = 0
  · subst h0
    decide
  · exact parseInt_decimal h0 h

theorem parseInt_formatInt (n : Int64) : parseInt (formatInt n) = (n, none) := by
  have hlow : -2 ^ 63 ≤ n.toInt := n.le_toInt
  have hhigh : n.toInt < 2 ^ 63 := n.toInt_lt
  unfold formatInt
  split_ifs with hneg
  · have hu := parseUint_decimal (n := n.toInt.natAbs) (by omega) (by omega)
    have hsplit : splitSign (minus :: decimal n.toInt.natAbs) = (true, decimal n.toInt.natAbs) := rfl
    have hvalue : -(n.toInt.natAbs : Int) = n.toInt := by omega
    simp only [parseInt, hsplit, hu, if_true, if_neg (by omega : ¬ 2 ^ 63 < n.toInt.natAbs), hvalue,
      Int64.ofInt_toInt]
  · have hvalue : (n.toInt.natAbs : Int) = n.toInt := by omega
    rw [parseInt_decimal_le (by omega), hvalue, Int64.ofInt_toInt]

theorem parseInt_nonneg {s : Bytes} (h : (splitSign s).1 = false) : 0 ≤ (parseInt s).1 := by
  simp only [parseInt, h]
  split
  · exact Int64.le_refl 0
  · rename_i un _ _ _
    simp only [Bool.false_eq_true, if_false]
    split_ifs with hlt
    · decide
    · have ht : (Int64.ofInt un).toInt = un := Int64.toInt_ofInt_of_le (by omega) (by omega)
      rw [Int64.le_iff_toInt_le, ht]
      exact Int.natCast_nonneg un

theorem formatInt_pos {n : Int64} (h : 0 < n) :
    formatInt n = decimal n.toInt.natAbs ∧ 0 < n.toInt.natAbs ∧ n.toInt.natAbs < 2 ^ 63 := by
  have hpos : 0 < n.toInt := by simpa using Int64.lt_iff_toInt_lt.mp h
  have hlt : n.toInt < 2 ^ 63 := n.toInt_lt
  refine ⟨?_, by omega, by omega⟩
  rw [formatInt, if_neg (by omega)]

theorem formatInt_ofInt (h : n < 2 ^ 63) : formatInt (Int64.ofInt n) = decimal n := by
  have ht : (Int64.ofInt n).toInt = n := Int64.toInt_ofInt_of_le (by omega) (by omega)
  rw [formatInt, ht, if_neg (by omega), Int.natAbs_natCast]

theorem ofInt_pos (h0 : 0 < n) (h : n < 2 ^ 63) : 0 < Int64.ofInt n := by
  have ht : (Int64.ofInt n).toInt = n := Int64.toInt_ofInt_of_le (by omega) (by omega)
  rw [Int64.lt_iff_toInt_lt, ht]
  simpa using h0

end AoniContrib.Go
