/-
# Integers as bytes: `encoding/binary` and the varints of QUIC

`binary.ByteOrder` for 32 bits, and the variable-length integers of RFC 9000 section 16: the two top
bits of the first byte say whether the number takes 1, 2, 4 or 8 bytes in big-endian order.  The
package `quicvarint` is not part of the repository; `Quicvarint` states of it what the RFC says.
-/
import AoniContrib.Go.Io

namespace AoniContrib.Go

open List

/-! ## 1. Fixed width -/

inductive ByteOrder where
  | littleEndian
  | bigEndian
  deriving DecidableEq, Repr

namespace ByteOrder

/-- The bytes of `v`, the lowest one first. -/
def lowFirst (v : UInt32) : Bytes :=
  [UInt8.ofNat v.toNat, UInt8.ofNat (v.toNat / 2 ^ 8), UInt8.ofNat (v.toNat / 2 ^ 16),
    UInt8.ofNat (v.toNat / 2 ^ 24)]

def putUint32 : ByteOrder → UInt32 → Bytes
  | littleEndian, v => lowFirst v
  | bigEndian, v => (lowFirst v).reverse

def uint32 : ByteOrder → Bytes → UInt32
  | littleEndian, [b0, b1, b2, b3] | bigEndian, [b3, b2, b1, b0] =>
    UInt32.ofNat (b0.toNat + b1.toNat * 2 ^ 8 + b2.toNat * 2 ^ 16 + b3.toNat * 2 ^ 24)
  | _, _ => 0

@[simp] theorem length_putUint32 (o : ByteOrder) (v : UInt32) : (o.putUint32 v).length = 4 := by
  cases o <;> simp [putUint32, lowFirst]

@[simp] theorem uint32_putUint32 (o : ByteOrder) (v : UInt32) : o.uint32 (o.putUint32 v) = v := by
  have hv := v.toNat_lt
  have hsum : v.toNat % 2 ^ 8 + v.toNat / 2 ^ 8 % 2 ^ 8 * 2 ^ 8 + v.toNat / 2 ^ 16 % 2 ^ 8 * 2 ^ 16 +
      v.toNat / 2 ^ 24 % 2 ^ 8 * 2 ^ 24 = v.toNat := by omega
  cases o <;> simp only [putUint32, lowFirst, reverse_cons, reverse_nil, nil_append,
    cons_append, uint32, UInt8.toNat_ofNat', hsum, UInt32.ofNat_toNat]

end ByteOrder

/-! ## 2. Big-endian bytes of any width -/

/-- The `k` low bytes of `v`, the highest first. -/
def beBytes : Nat → Nat → Bytes
  | 0, _ => []
  | k + 1, v => UInt8.ofNat (v / 256 ^ k) :: beBytes k v

/-- The number that the bytes are, the highest first. -/
def beValue : Bytes → Nat
  | [] => 0
  | b :: bs => b.toNat * 256 ^ bs.length + beValue bs

@[simp] theorem length_beBytes : ∀ k v, (beBytes k v).length = k
  | 0, _ => rfl
  | k + 1, v => by rw [beBytes, length_cons, length_beBytes k v]

theorem beValue_beBytes : ∀ k v, beValue (beBytes k v) = v % 256 ^ k
  | 0, v => by simp [beBytes, beValue, Nat.mod_one]
  | k + 1, v => by
    have hbyte : (UInt8.ofNat (v / 256 ^ k)).toNat = v / 256 ^ k % 256 := UInt8.toNat_ofNat'
    rw [beBytes, beValue, length_beBytes, beValue_beBytes k v, hbyte, Nat.mod_pow_succ, Nat.mul_comm,
      Nat.add_comm]

theorem beValue_lt : ∀ bs : Bytes, beValue bs < 256 ^ bs.length
  | [] => Nat.one_pos
  | b :: bs => by
    have hb := b.toNat_lt
    have ih := beValue_lt bs
    calc b.toNat * 256 ^ bs.length + beValue bs
        < b.toNat * 256 ^ bs.length + 256 ^ bs.length := Nat.add_lt_add_left ih _
      _ = (b.toNat + 1) * 256 ^ bs.length := (Nat.succ_mul _ _).symm
      _ ≤ 256 * 256 ^ bs.length := Nat.mul_le_mul_right _ hb
      _ = 256 ^ (b :: bs).length := by rw [length_cons, Nat.pow_succ']

/-- The bytes of `big.Int.Bytes`: no more than are needed. -/
def natBytes (v : Nat) : Bytes := (Nat.digits 256 v).reverse.map UInt8.ofNat

theorem beValue_eq_ofDigits : ∀ bs : Bytes, beValue bs = Nat.ofDigits 256 (bs.reverse.map UInt8.toNat)
  | [] => rfl
  | b :: bs => by
    rw [beValue, beValue_eq_ofDigits bs, reverse_cons, map_append, Nat.ofDigits_append,
      length_map, length_reverse, map_singleton, Nat.ofDigits_singleton]
    ring

theorem beValue_natBytes (v : Nat) : beValue (natBytes v) = v := by
  have hdigits : (Nat.digits 256 v).map (UInt8.toNat ∘ UInt8.ofNat) = Nat.digits 256 v := by
    refine (map_congr_left fun d hd => ?_).trans (map_id _)
    exact UInt8.toNat_ofNat_of_lt' (Nat.digits_lt_base (by decide) hd)
  rw [beValue_eq_ofDigits, natBytes, ← map_reverse, reverse_reverse, map_map, hdigits,
    Nat.ofDigits_digits]

theorem beValue_inj : ∀ {as bs : Bytes}, as.length = bs.length → beValue as = beValue bs → as = bs
  | [], [], _, _ => rfl
  | a :: as, b :: bs, hlen, h => by
    have hlen' : as.length = bs.length := Nat.succ.inj hlen
    have ha := beValue_lt as
    have hb := beValue_lt bs
    rw [beValue, beValue, ← hlen'] at h
    rw [← hlen'] at hb
    have hhead : a.toNat = b.toNat := by
      have hdiv := congrArg (· / 256 ^ as.length) h
      have hpos : 0 < 256 ^ as.length := Nat.pow_pos (by decide)
      simpa [Nat.mul_comm _ (256 ^ as.length), Nat.mul_add_div hpos, Nat.div_eq_of_lt ha,
        Nat.div_eq_of_lt hb] using hdiv
    rw [hhead, Nat.add_left_cancel_iff] at h
    rw [UInt8.toNat_inj.mp hhead, beValue_inj hlen' h]

/-! ## 3. Varints -/

/-- The bits for the value of a varint that starts with `tag`. -/
def varintBits (tag : Nat) : Nat := 8 * 2 ^ tag - 2

/-- The encoding of `v` in `2 ^ tag` bytes. -/
def encodeVarint (tag v : Nat) : Bytes := beBytes (2 ^ tag) (tag * 2 ^ varintBits tag + v)

/-- The first two bits of the shortest encoding; none for a value of more than 62 bits. -/
def varintTag (v : Nat) : Option Nat :=
  if v < 2 ^ 6 then some 0
  else if v < 2 ^ 14 then some 1
  else if v < 2 ^ 30 then some 2
  else if v < 2 ^ 62 then some 3
  else none

def varintValue (bs : Bytes) : Nat := beValue bs % 2 ^ (8 * bs.length - 2)

/-- The package `quicvarint`: it writes the shortest encoding, and reads every encoding. -/
class Quicvarint where
  /-- `Append` to an empty slice; none where it panics. -/
  append : Nat → Option Bytes
  /-- `Parse`: the value, and how many bytes it took. -/
  parse : Bytes → Option (Nat × Nat)
  append_eq : ∀ v, append v = (varintTag v).map fun tag => encodeVarint tag v
  parse_eq_some : ∀ {bs v n}, parse bs = some (v, n) ↔ ∃ tag rest, tag < 4 ∧
    v < 2 ^ varintBits tag ∧ bs = encodeVarint tag v ++ rest ∧ n = 2 ^ tag

theorem encodeVarint_cons {tag v : Nat} (htag : tag < 4) (hv : v < 2 ^ varintBits tag) :
    ∃ first rest, encodeVarint tag v = first :: rest ∧ first.toNat / 64 = tag ∧
      rest.length = 2 ^ tag - 1 ∧ varintValue (first :: rest) = v := by
  obtain ⟨k, hk⟩ : ∃ k, 2 ^ tag = k + 1 := ⟨2 ^ tag - 1, by have := Nat.two_pow_pos tag; omega⟩
  refine ⟨_, _, by rw [encodeVarint, hk, beBytes], ?_, by simp [hk], ?_⟩
  · rw [UInt8.toNat_ofNat']
    interval_cases tag
    all_goals
      simp only [varintBits] at hv ⊢
      obtain rfl | rfl | rfl | rfl : k = 0 ∨ k = 1 ∨ k = 3 ∨ k = 7 := by omega
      all_goals omega
  · have hvalue := beValue_beBytes (k + 1) (tag * 2 ^ varintBits tag + v)
    rw [beBytes] at hvalue
    rw [varintValue, hvalue, length_cons, length_beBytes, ← hk]
    interval_cases tag
    all_goals
      simp only [varintBits] at hv ⊢
      omega

theorem varintTag_eq_some {v tag : Nat} (h : varintTag v = some tag) :
    tag < 4 ∧ v < 2 ^ varintBits tag := by
  unfold varintTag at h
  simp only [varintBits]
  grind

theorem encodeVarint_varintValue {first : UInt8} {rest : Bytes}
    (h : (first :: rest).length = 2 ^ (first.toNat / 64)) :
    varintValue (first :: rest) < 2 ^ varintBits (first.toNat / 64) ∧
      first :: rest = encodeVarint (first.toNat / 64) (varintValue (first :: rest)) := by
  have hfirst := first.toNat_lt
  have hrest := beValue_lt rest
  have hlen : rest.length = 2 ^ (first.toNat / 64) - 1 := by rw [← h, length_cons, Nat.add_sub_cancel]
  constructor
  · rw [varintValue, h, varintBits]
    exact Nat.mod_lt _ (Nat.two_pow_pos _)
  · refine beValue_inj (by rw [encodeVarint, length_beBytes, h]) ?_
    rw [encodeVarint, beValue_beBytes, varintValue, h, beValue, hlen]
    rw [hlen] at hrest
    generalize htag : first.toNat / 64 = tag at *
    have htag4 : tag < 4 := by omega
    interval_cases tag
    all_goals
      simp only [varintBits] at hrest ⊢
      omega

/-- A text with as many bytes as its first one announces starts with an encoding. -/
theorem starts_with_encoding {first : UInt8} {bs : Bytes}
    (h : 2 ^ (first.toNat / 64) ≤ (first :: bs).length) :
    let v := varintValue ((first :: bs).take (2 ^ (first.toNat / 64)))
    first.toNat / 64 < 4 ∧ v < 2 ^ varintBits (first.toNat / 64) ∧
      ∃ rest, first :: bs = encodeVarint (first.toNat / 64) v ++ rest := by
  obtain ⟨k, hk⟩ : ∃ k, 2 ^ (first.toNat / 64) = k + 1 :=
    ⟨_, (Nat.sub_add_cancel (Nat.two_pow_pos _)).symm⟩
  have hlen : ((first :: bs).take (2 ^ (first.toNat / 64))).length = 2 ^ (first.toNat / 64) := by
    rw [length_take, Nat.min_eq_left h]
  have hsplit := take_append_drop (2 ^ (first.toNat / 64)) (first :: bs)
  have hfirst := first.toNat_lt
  rw [hk, take_succ_cons] at hlen hsplit ⊢
  obtain ⟨hlt, heq⟩ := encodeVarint_varintValue (hlen.trans hk.symm)
  exact ⟨by omega, hlt, _, by rw [← heq, hsplit]⟩

section
variable [Quicvarint]

/-- `readVarintFromStream`: the first byte, and the bytes that it announces; the error is that of a
read, or none for `ErrInvalidCapsule`. -/
def readVarint (r : Reader) : Except (Option ReadErr) Nat × Reader :=
  match readFull 1 r with
  | (.error err, r) => (.error (some err), r)
  | (.ok first, r) =>
    match readFull (2 ^ (beValue first / 64) - 1) r with
    | (.error err, r) => (.error (some err), r)
    | (.ok rest, r) =>
      match Quicvarint.parse (first ++ rest) with
      | none => (.error none, r)
      | some (v, _) => (.ok v, r)

theorem parse_encodeVarint {tag v : Nat} (htag : tag < 4) (hv : v < 2 ^ varintBits tag) (rest : Bytes) :
    Quicvarint.parse (encodeVarint tag v ++ rest) = some (v, 2 ^ tag) :=
  Quicvarint.parse_eq_some.mpr ⟨tag, rest, htag, hv, rfl, rfl⟩

theorem readVarint_encode {tag v : Nat} {r : Reader} {rest : Bytes} (htag : tag < 4)
    (hv : v < 2 ^ varintBits tag) (h : r.flatten = encodeVarint tag v ++ rest) :
    ∃ r', readVarint r = (.ok v, r') ∧ r'.flatten = rest := by
  obtain ⟨first, others, hcons, hfirst, hlen, -⟩ := encodeVarint_cons htag hv
  have hsplit : r.flatten = [first] ++ (others ++ rest) := by simp [h, hcons]
  obtain ⟨r₁, hread₁, h₁⟩ := readFull_append hsplit
  obtain ⟨r₂, hread₂, h₂⟩ := readFull_append h₁
  refine ⟨r₂, ?_, h₂⟩
  rw [hlen] at hread₂
  have htag' : beValue [first] / 64 = tag := by simpa [beValue] using hfirst
  have hparse := parse_encodeVarint htag hv []
  rw [append_nil, hcons] at hparse
  simp only [length_singleton] at hread₁
  simp only [readVarint, hread₁, htag', hread₂, cons_append, nil_append, hparse]

theorem exists_append {v : Nat} (h : v < 2 ^ 62) : ∃ tag, tag < 4 ∧ v < 2 ^ varintBits tag ∧
    Quicvarint.append v = some (encodeVarint tag v) := by
  obtain ⟨tag, htag⟩ : ∃ tag, varintTag v = some tag := by
    unfold varintTag
    split_ifs <;> simp
  obtain ⟨htag4, hbits⟩ := varintTag_eq_some htag
  exact ⟨tag, htag4, hbits, by rw [Quicvarint.append_eq, htag]; rfl⟩

end

/-! ### The package -/

def parseVarint : Bytes → Option (Nat × Nat)
  | [] => none
  | first :: rest =>
    let n := 2 ^ (first.toNat / 64)
    if (first :: rest).length < n then none else some (varintValue ((first :: rest).take n), n)

theorem parseVarint_eq_some {bs : Bytes} {v n : Nat} : parseVarint bs = some (v, n) ↔
    ∃ tag rest, tag < 4 ∧ v < 2 ^ varintBits tag ∧ bs = encodeVarint tag v ++ rest ∧ n = 2 ^ tag := by
  constructor
  · intro h
    cases bs with
    | nil => cases h
    | cons first bs =>
      rw [parseVarint] at h
      split at h
      · cases h
      rename_i hlong
      obtain ⟨rfl, rfl⟩ := Prod.mk.inj (Option.some.inj h)
      obtain ⟨htag, hlt, rest, heq⟩ := starts_with_encoding (not_lt.mp hlong)
      exact ⟨_, rest, htag, hlt, heq, rfl⟩
  · rintro ⟨tag, rest, htag, hv, rfl, rfl⟩
    obtain ⟨first, others, hcons, hfirst, hothers, hvalue⟩ := encodeVarint_cons htag hv
    have hlen : (first :: others).length = 2 ^ tag := by
      have hpos := Nat.two_pow_pos tag
      rw [length_cons, hothers]
      omega
    have hlong : ¬ (first :: (others ++ rest)).length < 2 ^ tag := by
      rw [← cons_append, length_append, hlen]
      omega
    rw [hcons, cons_append, parseVarint, hfirst, if_neg hlong, ← cons_append, take_left' hlen, hvalue]

instance : Quicvarint where
  append v := (varintTag v).map fun tag => encodeVarint tag v
  parse := parseVarint
  append_eq _ := rfl
  parse_eq_some := parseVarint_eq_some

end AoniContrib.Go
