/-
# Flow-control capsules: `webtransport/capsule.go`

The payload of WT_MAX_STREAMS and WT_MAX_DATA is ONE varint.  Both decoders drop the number of bytes
that `DecodeVarint` read, so they accept a varint with anything behind it: they accept what they should
exactly where no byte stands behind those that the first byte announces (`strict_payload_iff`).  The
encoders write a payload that is read back.
-/
import AoniContrib.WebTransport.Capsule

namespace AoniContrib.WebTransport

open Go List

/-! ## 1. The code -/

inductive CapsuleErr where
  | errInvalidCapsule
  | errFlowControl
  deriving DecidableEq, Repr

def maxStreamsLimit : Nat := 2 ^ 60

section
variable [Quicvarint]

/-- `DecodeVarint`: the value, and how many bytes it took. -/
def decodeVarint (b : Bytes) : Except CapsuleErr (Nat × Nat) :=
  match Quicvarint.parse b with
  | none => .error .errInvalidCapsule
  | some (v, n) => .ok (v, n)

def decodeMaxStreamsPayload (payload : Bytes) : Except CapsuleErr Nat := do
  let (v, _) ← decodeVarint payload
  if maxStreamsLimit < v then .error .errFlowControl else .ok v

def decodeMaxDataPayload (payload : Bytes) : Except CapsuleErr Nat := do
  let (v, _) ← decodeVarint payload
  return v

/-- `append(b[i:i], bs...)` seen in `b`, whose capacity is its length: the bytes are written in place if
they fit, and elsewhere if not.  None is the panic of `b[i:i]`. -/
def appendAt (b : Bytes) (i : Nat) (bs : Bytes) : Option Bytes :=
  if b.length < i then none
  else if i + bs.length ≤ b.length then some (b.take i ++ bs ++ b.drop (i + bs.length))
  else some b

/-- `copy(b[i:], bs)`. -/
def copyAt (b : Bytes) (i : Nat) (bs : Bytes) : Option Bytes :=
  if b.length < i then none
  else some (b.take i ++ bs.take (b.length - i) ++ b.drop (i + bs.length))

/-- `EncodeCapsuleHeader`: its result and the buffer behind it; none is a panic. -/
def encodeCapsuleHeader (capsuleType payloadLen : Nat) (b : Bytes) : Option (Nat × Bytes) := do
  let b1 ← Quicvarint.append capsuleType
  let b ← appendAt b 0 b1
  let b2 ← Quicvarint.append payloadLen
  let b ← appendAt b b1.length b2
  return (b1.length + b2.length, b)

def encodeMaxDataCapsule (capsuleType maxData : Nat) (dst : Bytes) : Option (Nat × Bytes) := do
  let valLen ← Quicvarint.append maxData
  let (hdrLen, dst) ← encodeCapsuleHeader capsuleType valLen.length dst
  let dst ← copyAt dst hdrLen valLen
  return (hdrLen + valLen.length, dst)

def encodeMaxStreamsCapsule (capsuleType maxStreams : Nat) (dst : Bytes) :
    Option (Except CapsuleErr (Nat × Bytes)) :=
  if maxStreamsLimit < maxStreams then some (.error .errFlowControl)
  else (encodeMaxDataCapsule capsuleType maxStreams dst).map .ok

/-! ## 2. One varint -/

/-- The bytes are exactly one varint of this value, in any of the four widths. -/
def IsVarint (bs : Bytes) (v : Nat) : Prop :=
  ∃ tag, tag < 4 ∧ v < 2 ^ varintBits tag ∧ bs = encodeVarint tag v

def announced : Bytes → Bytes
  | [] => []
  | first :: rest => (first :: rest).take (2 ^ (first.toNat / 64))

variable {bs b payload : Bytes} {v : Nat}

omit [Quicvarint] in
theorem announced_encode {tag : Nat} (htag : tag < 4) (hv : v < 2 ^ varintBits tag) (rest : Bytes) :
    announced (encodeVarint tag v ++ rest) = encodeVarint tag v := by
  obtain ⟨first, others, hcons, hfirst, hothers, -⟩ := encodeVarint_cons htag hv
  have hlen : (first :: others).length = 2 ^ tag := by
    rw [← hcons, encodeVarint, length_beBytes]
  rw [hcons, cons_append, announced, hfirst, ← cons_append, take_left' hlen]

theorem announced_of_isVarint (h : IsVarint bs v) :
    announced bs = bs ∧ ∃ n, decodeVarint bs = .ok (v, n) := by
  obtain ⟨tag, htag, hv, rfl⟩ := h
  have hannounced := announced_encode htag hv []
  have hparse := parse_encodeVarint htag hv []
  rw [append_nil] at hannounced hparse
  exact ⟨hannounced, _, by rw [decodeVarint, hparse]⟩

/-- **What `DecodeVarint` reads**: a varint with anything behind it; and where it fails there is nothing
behind what the first byte announces. -/
theorem decodeVarint_cases (bs : Bytes) :
    (decodeVarint bs = .error .errInvalidCapsule ∧ announced bs = bs) ∨
      (∃ n, decodeVarint bs = .ok (varintValue (announced bs), n)) ∧
        IsVarint (announced bs) (varintValue (announced bs)) := by
  unfold decodeVarint
  cases hparse : Quicvarint.parse bs with
  | some p =>
    obtain ⟨tag, rest, htag, hv, rfl, -⟩ := Quicvarint.parse_eq_some.mp hparse
    obtain ⟨first, others, hcons, -, -, hvalue⟩ := encodeVarint_cons htag hv
    rw [announced_encode htag hv, hcons, hvalue, ← hcons]
    exact .inr ⟨⟨_, rfl⟩, tag, htag, hv, rfl⟩
  | none =>
    refine .inl ⟨rfl, ?_⟩
    cases bs with
    | nil => rfl
    | cons first rest =>
      -- were there bytes enough, they would be read
      by_contra hcut
      have hlong : 2 ^ (first.toNat / 64) ≤ (first :: rest).length :=
        (not_le.mp (mt take_of_length_le hcut)).le
      obtain ⟨htag, hlt, behind, heq⟩ := starts_with_encoding hlong
      cases hparse.symm.trans (Quicvarint.parse_eq_some.mpr ⟨_, behind, htag, hlt, heq, rfl⟩)

/-! ## 3. The encoders -/

omit [Quicvarint] in
theorem appendAt_append (bs done : Bytes) (h : done.length + bs.length ≤ b.length) :
    appendAt (done ++ b.drop done.length) done.length bs =
      some (done ++ bs ++ b.drop (done ++ bs).length) := by
  have hlen : (done ++ b.drop done.length).length = b.length := by
    rw [length_append, length_drop]
    omega
  rw [appendAt, hlen, if_neg (by omega), if_pos h, take_left, drop_append, drop_drop, length_append,
    drop_eq_nil_of_le (by omega), nil_append]
  congr 3
  omega

omit [Quicvarint] in
theorem copyAt_eq_appendAt {i : Nat} (h : i + bs.length ≤ b.length) :
    copyAt b i bs = appendAt b i bs := by
  rw [copyAt, appendAt, if_neg (by omega), if_neg (by omega), if_pos h,
    take_of_length_le (by omega : bs.length ≤ b.length - i)]

/-- **The capsule of a value**: written in front of every buffer that holds it. -/
theorem exists_maxDataCapsule {capsuleType : Nat} (htype : capsuleType < 2 ^ 62) (hv : v < 2 ^ 62) :
    ∃ c : Capsule, c.capsuleType = capsuleType ∧ IsVarint c.payload v ∧ ∀ dst : Bytes,
      c.bytes.length ≤ dst.length →
      encodeMaxDataCapsule capsuleType v dst =
        some (c.bytes.length, c.bytes ++ dst.drop c.bytes.length) := by
  obtain ⟨typeTag, htypeTag, htypeLt, htypeBytes⟩ := exists_append htype
  obtain ⟨tag, htag, hlt, hbytes⟩ := exists_append hv
  have hpayload : (encodeVarint tag v).length ≤ 8 := by
    rw [encodeVarint, length_beBytes]
    interval_cases tag <;> decide
  obtain ⟨lengthTag, hlengthTag, hlengthLt, hlengthBytes⟩ :=
    exists_append (v := (encodeVarint tag v).length) (by omega)
  let c : Capsule :=
    { typeTag := typeTag
      lengthTag := lengthTag
      capsuleType := capsuleType
      payload := encodeVarint tag v
      typeTag_lt := htypeTag
      lengthTag_lt := hlengthTag
      type_lt := htypeLt
      length_lt := hlengthLt
      length_le := by rw [maxPayload]; omega }
  refine ⟨c, rfl, ⟨tag, htag, hlt, rfl⟩, fun dst hdst => ?_⟩
  simp only [c, Capsule.bytes, length_append] at hdst
  have h1 := appendAt_append (b := dst) (encodeVarint typeTag capsuleType) []
    (by simp only [length_nil]; omega)
  have h2 := appendAt_append (b := dst) (encodeVarint lengthTag (encodeVarint tag v).length)
    (encodeVarint typeTag capsuleType) (by omega)
  have h3 := appendAt_append (b := dst) (encodeVarint tag v)
    (encodeVarint typeTag capsuleType ++ encodeVarint lengthTag (encodeVarint tag v).length)
    (by rw [length_append]; omega)
  rw [← copyAt_eq_appendAt (by simp only [length_append, length_drop]; omega)] at h3
  simp only [nil_append, length_nil, drop_zero] at h1
  simp only [length_append] at h2 h3
  simp only [encodeMaxDataCapsule, encodeCapsuleHeader, hbytes, htypeBytes, hlengthBytes,
    Option.bind_eq_bind, Option.bind_some, Option.pure_def, h1, h2, h3, c, Capsule.bytes, length_append]

/-! ## 4. Strictness -/

/-- A stream limit is accepted if and only if the payload is exactly one varint of at most `2 ^ 60`. -/
def StreamsStrict (payload : Bytes) : Prop :=
  (∃ v, decodeMaxStreamsPayload payload = .ok v) ↔ ∃ v, IsVarint payload v ∧ v ≤ maxStreamsLimit

/-- A data limit is accepted if and only if the payload is exactly one varint. -/
def DataStrict (payload : Bytes) : Prop :=
  (∃ v, decodeMaxDataPayload payload = .ok v) ↔ ∃ v, IsVarint payload v

theorem decodeMaxDataPayload_of_isVarint (h : IsVarint payload v) :
    decodeMaxDataPayload payload = .ok v := by
  obtain ⟨-, n, hok⟩ := announced_of_isVarint h
  rw [decodeMaxDataPayload, hok]
  rfl

theorem decodeMaxStreamsPayload_of_isVarint (h : IsVarint payload v)
    (hle : v ≤ maxStreamsLimit) : decodeMaxStreamsPayload payload = .ok v := by
  obtain ⟨-, n, hok⟩ := announced_of_isVarint h
  rw [decodeMaxStreamsPayload, hok]
  exact if_neg (not_lt.mpr hle)

theorem dataStrict_iff (payload : Bytes) : DataStrict payload ↔ announced payload = payload := by
  rcases decodeVarint_cases payload with ⟨hfail, hall⟩ | ⟨⟨n, hok⟩, hvarint⟩
  · refine iff_of_true ⟨?_, fun ⟨v, hv⟩ => ⟨v, decodeMaxDataPayload_of_isVarint hv⟩⟩ hall
    rintro ⟨v, hv⟩
    rw [decodeMaxDataPayload, hfail] at hv
    cases hv
  · constructor
    · intro hstrict
      obtain ⟨v, hv⟩ := hstrict.mp ⟨_, by rw [decodeMaxDataPayload, hok]; rfl⟩
      exact (announced_of_isVarint hv).1
    · intro hall
      rw [hall] at hvarint
      exact iff_of_true ⟨_, decodeMaxDataPayload_of_isVarint hvarint⟩ ⟨_, hvarint⟩

theorem streamsStrict_iff (payload : Bytes) : StreamsStrict payload ↔
    announced payload = payload ∨ maxStreamsLimit < varintValue (announced payload) := by
  rcases decodeVarint_cases payload with ⟨hfail, hall⟩ | ⟨⟨n, hok⟩, hvarint⟩
  · refine iff_of_true ⟨?_, fun ⟨v, hv, hle⟩ => ⟨v, decodeMaxStreamsPayload_of_isVarint hv hle⟩⟩
      (.inl hall)
    rintro ⟨v, hv⟩
    rw [decodeMaxStreamsPayload, hfail] at hv
    cases hv
  · have hdecode : decodeMaxStreamsPayload payload =
        if maxStreamsLimit < varintValue (announced payload) then .error .errFlowControl
        else .ok (varintValue (announced payload)) := by
      rw [decodeMaxStreamsPayload, hok]
      rfl
    rw [StreamsStrict, hdecode]
    split_ifs with hbig
    · -- too big a value: nothing is accepted, and the payload is no varint of at most the limit
      refine iff_of_true (iff_of_false (by rintro ⟨v, hv⟩; cases hv) ?_) (.inr hbig)
      rintro ⟨v, hv, hle⟩
      have hread := decodeMaxStreamsPayload_of_isVarint hv hle
      rw [hdecode, if_pos hbig] at hread
      cases hread
    · constructor
      · intro hstrict
        obtain ⟨v, hv, -⟩ := hstrict.mp ⟨_, rfl⟩
        exact .inl (announced_of_isVarint hv).1
      · intro hcond
        have hall := hcond.resolve_right hbig
        rw [hall] at hvarint hbig ⊢
        exact iff_of_true ⟨_, rfl⟩ ⟨_, hvarint, not_lt.mp hbig⟩

/-- **When a payload is parsed strictly**: no byte stands behind the varint, or its value is too big for
a stream limit.  What the encoders accept is read back from what they write. -/
theorem strict_payload_iff (payload : Bytes) : ((StreamsStrict payload ↔
        announced payload = payload ∨ maxStreamsLimit < varintValue (announced payload)) ∧
      (DataStrict payload ↔ announced payload = payload)) ∧
    (∀ capsuleType v dst, capsuleType < 2 ^ 62 → v ≤ maxStreamsLimit → ∃ c : Capsule,
      c.capsuleType = capsuleType ∧ decodeMaxStreamsPayload c.payload = .ok v ∧
      (c.bytes.length ≤ dst.length → encodeMaxStreamsCapsule capsuleType v dst =
        some (.ok (c.bytes.length, c.bytes ++ dst.drop c.bytes.length)))) ∧
    ∀ capsuleType v dst, capsuleType < 2 ^ 62 → v < 2 ^ 62 → ∃ c : Capsule,
      c.capsuleType = capsuleType ∧ decodeMaxDataPayload c.payload = .ok v ∧
      (c.bytes.length ≤ dst.length → encodeMaxDataCapsule capsuleType v dst =
        some (c.bytes.length, c.bytes ++ dst.drop c.bytes.length)) := by
  refine ⟨⟨streamsStrict_iff payload, dataStrict_iff payload⟩, ?_, ?_⟩
  · intro capsuleType v dst htype hv
    obtain ⟨c, hc, hpayload, hwrite⟩ :=
      exists_maxDataCapsule htype (hv.trans_lt (by decide : maxStreamsLimit < 2 ^ 62))
    refine ⟨c, hc, decodeMaxStreamsPayload_of_isVarint hpayload hv, fun hdst => ?_⟩
    rw [encodeMaxStreamsCapsule, if_neg (not_lt.mpr hv), hwrite dst hdst]
    rfl
  · intro capsuleType v dst htype hv
    obtain ⟨c, hc, hpayload, hwrite⟩ := exists_maxDataCapsule htype hv
    exact ⟨c, hc, decodeMaxDataPayload_of_isVarint hpayload, hwrite dst⟩

end

/-- A byte behind a limit of five is accepted by both decoders. -/
theorem byte_behind_accepted :
    decodeMaxStreamsPayload [0x05, 0xff] = .ok 5 ∧ ¬ StreamsStrict [0x05, 0xff] ∧
      decodeMaxDataPayload [0x05, 0xff] = .ok 5 ∧ ¬ DataStrict [0x05, 0xff] := by
  refine ⟨rfl, ?_, rfl, ?_⟩
  · rw [streamsStrict_iff]
    decide
  · rw [dataStrict_iff]
    decide

end AoniContrib.WebTransport
