/-
# Base64: package `encoding/base64`

`EncodeToString` and `DecodeString` of a padded encoding such as `base64.StdEncoding` and of one
without padding such as `base64.RawURLEncoding`, over an arbitrary alphabet of 64 bytes.  The decoder is Go's: it skips `\r` and `\n` anywhere,
wants complete quanta, and does not look at the bits the padding leaves over (Go checks those
only under `Strict`).  The offset that a `CorruptInputError` carries is left out.
-/
import AoniContrib.Go.Bytes

namespace AoniContrib.Go

open List

/-- An alphabet: the byte of each 6-bit value, and the value of each byte. -/
structure Alphabet where
  char : Nat → UInt8
  value : UInt8 → Option Nat
  value_char : ∀ n < 64, value (char n) = some n
  value_pad : value equals = none
  value_newline : value newline = none
  value_carriageReturn : value carriageReturn = none

namespace Alphabet

variable (A : Alphabet)

/-- `EncodeToString`: three bytes become four characters, a last group of one or two bytes
is padded with `=`. -/
def encode : Bytes → Bytes
  | [] => []
  | [a] => [A.char (a.toNat / 4), A.char (a.toNat % 4 * 16), equals, equals]
  | [a, b] =>
    [A.char (a.toNat / 4), A.char (a.toNat % 4 * 16 + b.toNat / 16), A.char (b.toNat % 16 * 4), equals]
  | a :: b :: c :: rest =>
    A.char (a.toNat / 4) :: A.char (a.toNat % 4 * 16 + b.toNat / 16) ::
      A.char (b.toNat % 16 * 4 + c.toNat / 64) :: A.char (c.toNat % 64) :: encode rest

/-- `EncodeToString` of the encoding without padding. -/
def encodeRaw : Bytes → Bytes
  | [] => []
  | [a] => [A.char (a.toNat / 4), A.char (a.toNat % 4 * 16)]
  | [a, b] =>
    [A.char (a.toNat / 4), A.char (a.toNat % 4 * 16 + b.toNat / 16), A.char (b.toNat % 16 * 4)]
  | a :: b :: c :: rest =>
    A.char (a.toNat / 4) :: A.char (a.toNat % 4 * 16 + b.toNat / 16) ::
      A.char (b.toNat % 16 * 4 + c.toNat / 64) :: A.char (c.toNat % 64) :: encodeRaw rest

/-- The quanta of `DecodeString`, line breaks already removed. -/
def decodeQuanta : Bytes → Option Bytes
  | [] => some []
  | a :: b :: c :: d :: rest => do
    let va ← A.value a
    let vb ← A.value b
    let x := (va * 4 + vb / 16).toUInt8
    if c = equals then
      if d = equals ∧ rest = [] then some [x] else none
    else
      let vc ← A.value c
      let y := (vb % 16 * 16 + vc / 4).toUInt8
      if d = equals then
        if rest = [] then some [x, y] else none
      else
        let vd ← A.value d
        let z := (vc % 4 * 64 + vd).toUInt8
        let tail ← decodeQuanta rest
        some (x :: y :: z :: tail)
  | _ => none

/-- `DecodeString`; `none` is the `CorruptInputError`. -/
def decode (s : Bytes) : Option Bytes :=
  A.decodeQuanta (s.filter (fun b => b ≠ newline && b ≠ carriageReturn))

/-- The quanta of the `DecodeString` of an encoding without padding. -/
def decodeRawQuanta : Bytes → Option Bytes
  | [] => some []
  | [a, b] => do
    let va ← A.value a
    let vb ← A.value b
    some [(va * 4 + vb / 16).toUInt8]
  | [a, b, c] => do
    let va ← A.value a
    let vb ← A.value b
    let vc ← A.value c
    some [(va * 4 + vb / 16).toUInt8, (vb % 16 * 16 + vc / 4).toUInt8]
  | a :: b :: c :: d :: rest => do
    let va ← A.value a
    let vb ← A.value b
    let vc ← A.value c
    let vd ← A.value d
    let tail ← decodeRawQuanta rest
    some ((va * 4 + vb / 16).toUInt8 :: (vb % 16 * 16 + vc / 4).toUInt8 ::
      (vc % 4 * 64 + vd).toUInt8 :: tail)
  | _ => none

/-- `DecodeString` of the encoding without padding, such as `base64.RawStdEncoding`. -/
def decodeRaw (s : Bytes) : Option Bytes :=
  A.decodeRawQuanta (s.filter (fun b => b ≠ newline && b ≠ carriageReturn))

end Alphabet

def stdChar (n : Nat) : UInt8 :=
  if n < 26 then (0x41 + n).toUInt8
  else if n < 52 then (0x61 + (n - 26)).toUInt8
  else if n < 62 then (0x30 + (n - 52)).toUInt8
  else if n = 62 then plus else slash

def stdValue (b : UInt8) : Option Nat :=
  if 0x41 ≤ b && b ≤ 0x5a then some (b.toNat - 0x41)
  else if 0x61 ≤ b && b ≤ 0x7a then some (b.toNat - 0x61 + 26)
  else if 0x30 ≤ b && b ≤ 0x39 then some (b.toNat - 0x30 + 52)
  else if b = plus then some 62
  else if b = slash then some 63
  else none

def stdEncoding : Alphabet where
  char := stdChar
  value := stdValue
  value_char := by decide
  value_pad := by decide
  value_newline := by decide
  value_carriageReturn := by decide

def urlChar (n : Nat) : UInt8 :=
  if n = 62 then minus else if n = 63 then underscore else stdChar n

def urlValue (b : UInt8) : Option Nat :=
  if b = minus then some 62
  else if b = underscore then some 63
  else if b = plus ∨ b = slash then none
  else stdValue b

/-- `base64.URLEncoding`; with `encodeRaw` and `decodeRaw` it is `base64.RawURLEncoding`. -/
def urlEncoding : Alphabet where
  char := urlChar
  value := urlValue
  value_char := by decide
  value_pad := by decide
  value_newline := by decide
  value_carriageReturn := by decide

/-! ## Round trip -/

namespace Alphabet

variable (A : Alphabet)

theorem char_not_lineBreak {n : Nat} (h : n < 64) : A.char n ≠ newline ∧ A.char n ≠ carriageReturn := by
  have hv := A.value_char n h
  refine ⟨fun he => ?_, fun he => ?_⟩
  · rw [he, A.value_newline] at hv; cases hv
  · rw [he, A.value_carriageReturn] at hv; cases hv

theorem mem_encodeRaw {b : UInt8} : ∀ s : Bytes, b ∈ A.encodeRaw s → ∃ n < 64, b = A.char n
  | [], h => by simp [encodeRaw] at h
  | [a], h => by
    have ha := a.toNat_lt
    simp only [encodeRaw, mem_cons, not_mem_nil, or_false] at h
    rcases h with h | h
    · exact ⟨_, by omega, h⟩
    · exact ⟨_, by omega, h⟩
  | [a, c], h => by
    have ha := a.toNat_lt
    have hc := c.toNat_lt
    simp only [encodeRaw, mem_cons, not_mem_nil, or_false] at h
    rcases h with h | h | h
    · exact ⟨_, by omega, h⟩
    · exact ⟨_, by omega, h⟩
    · exact ⟨_, by omega, h⟩
  | a :: c :: d :: rest, h => by
    have ha := a.toNat_lt
    have hc := c.toNat_lt
    have hd := d.toNat_lt
    simp only [encodeRaw, mem_cons] at h
    rcases h with h | h | h | h | h
    · exact ⟨_, by omega, h⟩
    · exact ⟨_, by omega, h⟩
    · exact ⟨_, by omega, h⟩
    · exact ⟨_, by omega, h⟩
    · exact mem_encodeRaw rest h

theorem decodeRawQuanta_encodeRaw : ∀ s : Bytes, A.decodeRawQuanta (A.encodeRaw s) = some s
  | [] => rfl
  | [a] => by
    have ha := a.toNat_lt
    have h1 : a.toNat / 4 < 64 := by omega
    have h2 : a.toNat % 4 * 16 < 64 := by omega
    have hx : a.toNat / 4 * 4 + a.toNat % 4 * 16 / 16 = a.toNat := by omega
    simp only [encodeRaw, decodeRawQuanta, A.value_char _ h1, A.value_char _ h2,
      Option.bind_eq_bind, Option.bind_some, hx]
    simp
  | [a, b] => by
    have ha := a.toNat_lt
    have hb := b.toNat_lt
    have h1 : a.toNat / 4 < 64 := by omega
    have h2 : a.toNat % 4 * 16 + b.toNat / 16 < 64 := by omega
    have h3 : b.toNat % 16 * 4 < 64 := by omega
    have hx : a.toNat / 4 * 4 + (a.toNat % 4 * 16 + b.toNat / 16) / 16 = a.toNat := by omega
    have hy : (a.toNat % 4 * 16 + b.toNat / 16) % 16 * 16 + b.toNat % 16 * 4 / 4 = b.toNat := by
      omega
    simp only [encodeRaw, decodeRawQuanta, A.value_char _ h1, A.value_char _ h2,
      A.value_char _ h3, Option.bind_eq_bind, Option.bind_some, hx, hy]
    simp
  | a :: b :: c :: rest => by
    have ha := a.toNat_lt
    have hb := b.toNat_lt
    have hc := c.toNat_lt
    have h1 : a.toNat / 4 < 64 := by omega
    have h2 : a.toNat % 4 * 16 + b.toNat / 16 < 64 := by omega
    have h3 : b.toNat % 16 * 4 + c.toNat / 64 < 64 := by omega
    have h4 : c.toNat % 64 < 64 := by omega
    have hx : a.toNat / 4 * 4 + (a.toNat % 4 * 16 + b.toNat / 16) / 16 = a.toNat := by omega
    have hy : (a.toNat % 4 * 16 + b.toNat / 16) % 16 * 16 +
        (b.toNat % 16 * 4 + c.toNat / 64) / 4 = b.toNat := by omega
    have hz : (b.toNat % 16 * 4 + c.toNat / 64) % 4 * 64 + c.toNat % 64 = c.toNat := by omega
    simp only [encodeRaw, decodeRawQuanta, A.value_char _ h1, A.value_char _ h2,
      A.value_char _ h3, A.value_char _ h4, Option.bind_eq_bind, Option.bind_some,
      decodeRawQuanta_encodeRaw rest, hx, hy, hz]
    simp

theorem decodeRaw_encodeRaw (s : Bytes) : A.decodeRaw (A.encodeRaw s) = some s := by
  have hkeep : ∀ b ∈ A.encodeRaw s, (b ≠ newline && b ≠ carriageReturn) = true := by
    intro b hb
    obtain ⟨n, hn, rfl⟩ := A.mem_encodeRaw s hb
    obtain ⟨h1, h2⟩ := A.char_not_lineBreak hn
    simp [h1, h2]
  rw [decodeRaw, filter_eq_self.mpr hkeep, decodeRawQuanta_encodeRaw]

theorem value_of_mem_decodeRawQuanta {b : UInt8} : ∀ {s bs : Bytes},
    A.decodeRawQuanta s = some bs → b ∈ s → (A.value b).isSome
  | [], _, _, h => absurd h not_mem_nil
  | [_], _, hs, _ => by simp [decodeRawQuanta] at hs
  | [_, _], _, hs, h => by
    simp only [decodeRawQuanta, Option.bind_eq_bind, Option.bind_eq_some_iff] at hs
    obtain ⟨va, ha, vb, hb, -⟩ := hs
    rcases mem_pair.mp h with rfl | rfl
    · rw [ha, Option.isSome_some]
    · rw [hb, Option.isSome_some]
  | [_, _, _], _, hs, h => by
    simp only [decodeRawQuanta, Option.bind_eq_bind, Option.bind_eq_some_iff] at hs
    obtain ⟨va, ha, vb, hb, vc, hc, -⟩ := hs
    simp only [mem_cons, not_mem_nil, or_false] at h
    rcases h with rfl | rfl | rfl
    · rw [ha, Option.isSome_some]
    · rw [hb, Option.isSome_some]
    · rw [hc, Option.isSome_some]
  | _ :: _ :: _ :: _ :: rest, _, hs, h => by
    simp only [decodeRawQuanta, Option.bind_eq_bind, Option.bind_eq_some_iff] at hs
    obtain ⟨va, ha, vb, hb, vc, hc, vd, hd, tail, htail, -⟩ := hs
    simp only [mem_cons] at h
    rcases h with rfl | rfl | rfl | rfl | h
    · rw [ha, Option.isSome_some]
    · rw [hb, Option.isSome_some]
    · rw [hc, Option.isSome_some]
    · rw [hd, Option.isSome_some]
    · exact value_of_mem_decodeRawQuanta htail h

theorem mem_of_decodeRaw {b : UInt8} {s bs : Bytes} (hs : A.decodeRaw s = some bs) (h : b ∈ s) :
    (A.value b).isSome ∨ b = newline ∨ b = carriageReturn := by
  by_cases hbreak : b = newline ∨ b = carriageReturn
  · exact .inr hbreak
  · rw [not_or] at hbreak
    refine .inl (A.value_of_mem_decodeRawQuanta hs (mem_filter.mpr ⟨h, ?_⟩))
    simp [hbreak.1, hbreak.2]

theorem encode_eq_pad : ∀ s : Bytes, A.encode s = if 0 < (A.encodeRaw s).length % 4 then
      A.encodeRaw s ++ List.replicate (4 - (A.encodeRaw s).length % 4) equals
    else A.encodeRaw s
  | [] => rfl
  | [_] => rfl
  | [_, _] => rfl
  | a :: b :: c :: rest => by
    have hmod : (A.encodeRaw (a :: b :: c :: rest)).length % 4 = (A.encodeRaw rest).length % 4 := by
      simp only [encodeRaw, length_cons]
      omega
    rw [hmod, encode, encode_eq_pad rest, encodeRaw]
    split <;> rfl

theorem mem_encode {b : UInt8} (s : Bytes) (h : b ∈ A.encode s) :
    b = equals ∨ ∃ n < 64, b = A.char n := by
  rw [encode_eq_pad] at h
  split at h
  · rcases mem_append.mp h with h | h
    · exact .inr (A.mem_encodeRaw s h)
    · exact .inl (eq_of_mem_replicate h)
  · exact .inr (A.mem_encodeRaw s h)

theorem decodeQuanta_pad : ∀ {s bs : Bytes}, A.decodeRawQuanta s = some bs →
    A.decodeQuanta (if 0 < s.length % 4 then s ++ List.replicate (4 - s.length % 4) equals else s) =
      some bs
  | [], _, h => h
  | [_], _, h => by simp [decodeRawQuanta] at h
  | [a, b], _, h => by
    simp only [decodeRawQuanta, Option.bind_eq_bind, Option.bind_eq_some_iff, Option.some.injEq] at h
    obtain ⟨va, ha, vb, hb, rfl⟩ := h
    simp [decodeQuanta, List.replicate, ha, hb]
  | [a, b, c], _, h => by
    simp only [decodeRawQuanta, Option.bind_eq_bind, Option.bind_eq_some_iff, Option.some.injEq] at h
    obtain ⟨va, ha, vb, hb, vc, hc, rfl⟩ := h
    have hpad : c ≠ equals := by
      rintro rfl
      simp [A.value_pad] at hc
    simp [decodeQuanta, hpad, ha, hb, hc]
  | a :: b :: c :: d :: rest, _, h => by
    simp only [decodeRawQuanta, Option.bind_eq_bind, Option.bind_eq_some_iff, Option.some.injEq] at h
    obtain ⟨va, ha, vb, hb, vc, hc, vd, hd, tail, htail, rfl⟩ := h
    have hpad : c ≠ equals ∧ d ≠ equals := by
      constructor
      · rintro rfl
        simp [A.value_pad] at hc
      · rintro rfl
        simp [A.value_pad] at hd
    have hmod : (a :: b :: c :: d :: rest).length % 4 = rest.length % 4 := by
      simp only [length_cons]
      omega
    have ih := decodeQuanta_pad htail
    rw [hmod]
    split at ih
    all_goals simp [decodeQuanta, *]

theorem decode_encode (s : Bytes) : A.decode (A.encode s) = some s := by
  have hkeep : ∀ b ∈ A.encode s, (b ≠ newline && b ≠ carriageReturn) = true := by
    intro b hb
    rcases A.mem_encode s hb with rfl | ⟨n, hn, rfl⟩
    · decide
    · obtain ⟨h1, h2⟩ := A.char_not_lineBreak hn
      simp [h1, h2]
  rw [decode, filter_eq_self.mpr hkeep, encode_eq_pad]
  exact A.decodeQuanta_pad (A.decodeRawQuanta_encodeRaw s)

end Alphabet

theorem mem_stdEncode {b : UInt8} {s : Bytes} (h : b ∈ stdEncoding.encode s) :
    (stdValue b).isSome ∨ b = equals := by
  rcases stdEncoding.mem_encode s h with rfl | ⟨n, hn, rfl⟩
  · exact .inr rfl
  · have hv := stdEncoding.value_char n hn
    exact .inl (by simp only [stdEncoding] at hv; simp [stdEncoding, hv])

end AoniContrib.Go
