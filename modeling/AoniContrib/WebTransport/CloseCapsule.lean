/-
# The close capsule that `CloseWithError` sends

`CloseWithError` encodes its capsule into a buffer of 512 bytes.  The message is cut at 1024 bytes,
not at what the buffer holds, and only a message that is LONGER is cut at a character: a shorter one is
sent as it is.  So the capsule says what was asked exactly when the cut message has at most 504 bytes
and is valid UTF-8 (`close_capsule_iff`); with 505 bytes the slice `buf[:n]` panics, and an invalid
message is refused by the peer's `DecodeCloseSessionPayloadTo`.  Of a VALID message the cut keeps as many
whole characters as 1024 bytes hold, and a buffer that is long enough carries it (`cut_message`).
-/
import AoniContrib.Go.JsonString
import AoniContrib.WebTransport.Capsule

namespace AoniContrib.WebTransport

open Go List

/-! ## 1. The message -/

theorem length_truncateLoop_le : ∀ (n : Nat) (b : Bytes), (truncateLoop n b).length ≤ b.length
  | 0, b => le_rfl
  | n + 1, b => by
    rw [truncateLoop]
    split_ifs
    · exact le_rfl
    · exact (length_truncateLoop_le n b.dropLast).trans (by rw [length_dropLast]; omega)

theorem length_truncateErrorMessage_le (msg : Bytes) : (truncateErrorMessage msg).length ≤ 1024 := by
  unfold truncateErrorMessage
  split_ifs with h
  · exact h
  · exact (length_truncateLoop_le 1024 _).trans (by rw [length_take]; omega)

theorem truncateLoop_spec : ∀ {n : Nat} {b : Bytes}, b.length ≤ n →
    utf8Valid (truncateLoop n b) = true ∧ truncateLoop n b <+: b ∧
      ∀ p, p <+: b → utf8Valid p = true → p <+: truncateLoop n b
  | 0, b, h => by
    obtain rfl := length_eq_zero_iff.mp (Nat.le_zero.mp h)
    exact ⟨rfl, prefix_rfl, fun p hp _ => hp⟩
  | n + 1, b, h => by
    rw [truncateLoop]
    split_ifs with hvalid
    · exact ⟨hvalid, prefix_rfl, fun p hp _ => hp⟩
    · obtain ⟨hloop, hpre, hmax⟩ := truncateLoop_spec (n := n) (b := b.dropLast)
        (by rw [length_dropLast]; omega)
      have hshort := dropLast_prefix b
      refine ⟨hloop, hpre.trans hshort, fun p hp hpvalid => hmax p ?_ hpvalid⟩
      -- `p` is not all of `b`, which is not valid
      obtain ⟨q, rfl⟩ := hp
      cases q using reverseRecOn with
      | nil => exact absurd ((append_nil p).symm ▸ hpvalid) hvalid
      | append_singleton q x =>
        rw [← append_assoc, dropLast_concat]
        exact prefix_append p q

/-- The initial parts of a message that end between two characters. -/
def OnBoundary (msg p : Bytes) : Prop := ∃ k, p = firstRunes k msg

theorem onBoundary_iff {msg p : Bytes} (h : utf8Valid msg = true) :
    OnBoundary msg p ↔ p <+: msg ∧ utf8Valid p = true := by
  constructor
  · rintro ⟨k, rfl⟩
    exact ⟨firstRunes_isPrefix h k, utf8Valid_firstRunes k msg⟩
  · rintro ⟨⟨q, rfl⟩, hp⟩
    exact exists_firstRunes q hp

/-! ## 2. The capsule -/

section
variable [Quicvarint]

theorem append_small {v : Nat} (h : v < 2 ^ 14) :
    ∃ tag, Quicvarint.append v = some (encodeVarint tag v) ∧ tag < 4 ∧ v < 2 ^ varintBits tag ∧
      (encodeVarint tag v).length = if v < 2 ^ 6 then 1 else 2 := by
  by_cases hsmall : v < 2 ^ 6
  · exact ⟨0, by rw [Quicvarint.append_eq, varintTag, if_pos hsmall]; rfl, by decide, hsmall,
      by rw [if_pos hsmall, encodeVarint, length_beBytes]; rfl⟩
  · exact ⟨1, by rw [Quicvarint.append_eq, varintTag, if_neg hsmall, if_pos h]; rfl, by decide, h,
      by rw [if_neg hsmall, encodeVarint, length_beBytes]; rfl⟩

/-- What the capsule carries: the code, and the message as it is cut. -/
def cutReason (e : SessionError) : SessionError := ⟨e.errorCode, truncateErrorMessage e.message⟩

theorem exists_closeCapsule (e : SessionError) :
    ∃ c : Capsule, c.capsuleType = capsuleCloseWebTransportSession ∧
      c.payload = closePayload (cutReason e) ∧
      (c.bytes.length ≤ 512 ↔ (truncateErrorMessage e.message).length ≤ 504) ∧ ∀ size,
      encodeCloseSessionCapsule e size = if c.bytes.length ≤ size then some c.bytes else none := by
  have hlen := length_truncateErrorMessage_le e.message
  have htype : Quicvarint.append capsuleCloseWebTransportSession =
      some (encodeVarint 1 capsuleCloseWebTransportSession) := by
    rw [Quicvarint.append_eq]
    decide
  obtain ⟨tag, hlength, htag, hbits, hsize⟩ :=
    append_small (v := 4 + (truncateErrorMessage e.message).length) (by omega)
  have hpayload : (closePayload (cutReason e)).length = 4 + (truncateErrorMessage e.message).length := by
    simp [closePayload, cutReason]
  let c : Capsule :=
    { typeTag := 1
      lengthTag := tag
      capsuleType := capsuleCloseWebTransportSession
      payload := closePayload (cutReason e)
      typeTag_lt := by decide
      lengthTag_lt := htag
      type_lt := by decide
      length_lt := by rw [hpayload]; exact hbits
      length_le := by rw [hpayload, maxPayload]; omega }
  have hbytes : c.bytes = encodeVarint 1 capsuleCloseWebTransportSession ++
      encodeVarint tag (4 + (truncateErrorMessage e.message).length) ++
      ByteOrder.bigEndian.putUint32 e.errorCode ++ truncateErrorMessage e.message := by
    simp only [c, Capsule.bytes]
    rw [hpayload, closePayload, cutReason]
    simp only [append_assoc]
  refine ⟨c, rfl, rfl, ?_, ?_⟩
  · have htypeLen : (encodeVarint 1 capsuleCloseWebTransportSession).length = 2 := by decide
    rw [hbytes, length_append, length_append, length_append, htypeLen, hsize,
      ByteOrder.length_putUint32]
    split_ifs <;> omega
  · intro size
    rw [encodeCloseSessionCapsule, htype, hlength]
    simp only [Option.bind_eq_bind, Option.bind_some, hbytes]

/-- `CloseWithError` with this reason on an open session: no slice is out of range, and the bytes
for the control stream are, however they are split into reads, one close capsule that `controlLoop`
decodes to the code and the cut message. -/
def SaysReason (e : SessionError) : Prop :=
  ∃ bytes, encodeCloseSessionCapsule e 512 = some bytes ∧ ∀ r : Reader, r.flatten = bytes →
    ∃ payload r', readCapsule r = some (capsuleCloseWebTransportSession, payload, r') ∧
      r'.flatten = [] ∧ decodeCloseSessionPayload payload = some (cutReason e)

theorem encodeCloseSessionCapsule_eq_none_iff (e : SessionError) :
    encodeCloseSessionCapsule e 512 = none ↔ 504 < (truncateErrorMessage e.message).length := by
  obtain ⟨c, -, -, hfits, hencode⟩ := exists_closeCapsule e
  rw [hencode]
  split_ifs with h
  · simp [hfits.mp h]
  · simp [not_le.mp (mt hfits.mpr h)]

omit [Quicvarint] in
theorem decodeCloseSessionPayload_closePayload (e : SessionError) :
    decodeCloseSessionPayload (closePayload (cutReason e)) = some (cutReason e) ↔
      utf8Valid (truncateErrorMessage e.message) = true := by
  constructor
  · intro h
    have hdrop : (closePayload (cutReason e)).drop 4 = truncateErrorMessage e.message :=
      drop_left' (by simp)
    unfold decodeCloseSessionPayload at h
    rw [hdrop] at h
    split_ifs at h with h1 h2
    simp only [Bool.or_eq_true, Bool.not_eq_true', not_or, Bool.not_eq_false] at h2
    exact h2.2
  · exact fun hvalid => decode_closePayload (length_truncateErrorMessage_le e.message) hvalid

/-- **When the close capsule says what was asked**: the message, cut at 1024 bytes, fits the buffer with
its header and is valid UTF-8. -/
theorem close_capsule_iff (code : UInt32) (msg : Bytes) : SaysReason ⟨code, msg⟩ ↔
      (truncateErrorMessage msg).length ≤ 504 ∧ utf8Valid (truncateErrorMessage msg) = true := by
  obtain ⟨c, htype, hpayload, hfits, hencode⟩ := exists_closeCapsule ⟨code, msg⟩
  rw [SaysReason, hencode]
  constructor
  · rintro ⟨bytes, hbytes, hread⟩
    split_ifs at hbytes with hle
    obtain rfl := Option.some.inj hbytes
    obtain ⟨payload, r', hcapsule, -, hdecode⟩ := hread [c.bytes] (by simp)
    obtain ⟨r₁, hread₁, -⟩ := readCapsule_bytes c (by simp : [c.bytes].flatten = c.bytes ++ [])
    rw [hread₁, htype, hpayload] at hcapsule
    cases hcapsule
    exact ⟨hfits.mp hle, (decodeCloseSessionPayload_closePayload _).mp hdecode⟩
  · rintro ⟨hlen, hvalid⟩
    refine ⟨c.bytes, if_pos (hfits.mpr hlen), fun r hr => ?_⟩
    obtain ⟨r', hread, hrest⟩ := readCapsule_bytes c (by rw [hr, append_nil] : r.flatten = c.bytes ++ [])
    rw [htype, hpayload] at hread
    exact ⟨_, r', hread, hrest, (decodeCloseSessionPayload_closePayload _).mpr hvalid⟩

/-- **The cut of a valid message.**  It is the message if that has at most 1024 bytes, and otherwise the
longest part of at most 1024 bytes that ends between two characters; and every buffer that holds the
capsule holds one that decodes to the code and the cut message. -/
theorem cut_message (code : UInt32) (msg : Bytes) (hvalid : utf8Valid msg = true) :
    utf8Valid (truncateErrorMessage msg) = true ∧ truncateErrorMessage msg <+: msg ∧
      (truncateErrorMessage msg).length ≤ 1024 ∧
      (msg.length ≤ 1024 → truncateErrorMessage msg = msg) ∧
      (1024 < msg.length → OnBoundary msg (truncateErrorMessage msg) ∧
        ∀ p, OnBoundary msg p → p.length ≤ 1024 → p <+: truncateErrorMessage msg) ∧
      ∃ c : Capsule, c.capsuleType = capsuleCloseWebTransportSession ∧
        (∀ size, c.bytes.length ≤ size → encodeCloseSessionCapsule ⟨code, msg⟩ size = some c.bytes) ∧
        decodeCloseSessionPayload c.payload = some ⟨code, truncateErrorMessage msg⟩ := by
  have hcut : utf8Valid (truncateErrorMessage msg) = true ∧ truncateErrorMessage msg <+: msg ∧
      ∀ p, p <+: msg → utf8Valid p = true → p.length ≤ 1024 → p <+: truncateErrorMessage msg := by
    unfold truncateErrorMessage
    split_ifs with hshort
    · exact ⟨hvalid, prefix_rfl, fun p hp _ _ => hp⟩
    · obtain ⟨hloop, hpre, hmax⟩ := truncateLoop_spec (n := 1024) (b := msg.take 1024)
        (by rw [length_take]; omega)
      have htake := take_prefix 1024 msg
      refine ⟨hloop, hpre.trans htake, fun p hp hpvalid hlen => hmax p ?_ hpvalid⟩
      rw [prefix_iff_eq_take.mp hp]
      exact take_prefix_take_left hlen
  obtain ⟨htrunc, hpre, hmax⟩ := hcut
  obtain ⟨c, htype, hpayload, -, hencode⟩ := exists_closeCapsule ⟨code, msg⟩
  refine ⟨htrunc, hpre, length_truncateErrorMessage_le msg, fun h => if_pos h, fun _ => ⟨?_, ?_⟩,
    c, htype, fun size hsize => (hencode size).trans (if_pos hsize), ?_⟩
  · exact (onBoundary_iff hvalid).mpr ⟨hpre, htrunc⟩
  · intro p hp hlen
    obtain ⟨hpre, hpvalid⟩ := (onBoundary_iff hvalid).mp hp
    exact hmax p hpre hpvalid hlen
  · rw [hpayload]
    exact (decodeCloseSessionPayload_closePayload ⟨code, msg⟩).mpr htrunc

end

/-- A message of 1025 bytes whose last character lies across the cut. -/
theorem cut_message_split : utf8Valid (List.replicate 1023 0x61 ++ [0xc3, 0xa9]) = true ∧
      (truncateErrorMessage (List.replicate 1023 0x61 ++ [0xc3, 0xa9])).length ≤ 1024 := by
  have hvalid : utf8Valid (List.replicate 1023 0x61 ++ [0xc3, 0xa9]) = true := by
    rw [utf8Valid_ascii_append (fun x hx => by rw [eq_of_mem_replicate hx]; decide)]
    decide
  exact ⟨hvalid, (cut_message 7 _ hvalid).2.2.1⟩

/-- A message of 505 letters panics, and the message `ff` is refused by the peer. -/
theorem close_capsule_lost : encodeCloseSessionCapsule ⟨7, List.replicate 505 0x61⟩ 512 = none ∧
      ¬ SaysReason ⟨7, List.replicate 505 0x61⟩ ∧
      (∃ bytes, encodeCloseSessionCapsule ⟨7, [0xff]⟩ 512 = some bytes) ∧
      ¬ SaysReason ⟨7, [0xff]⟩ := by
  have hlong : encodeCloseSessionCapsule ⟨7, List.replicate 505 0x61⟩ 512 = none := by
    have hlen : (List.replicate 505 (0x61 : UInt8)).length = 505 := length_replicate
    rw [encodeCloseSessionCapsule_eq_none_iff, truncateErrorMessage, if_pos (by rw [hlen]; decide), hlen]
    decide
  obtain ⟨c, htype, hpayload, hfits, hencode⟩ := exists_closeCapsule ⟨7, [0xff]⟩
  have hfit : c.bytes.length ≤ 512 := hfits.mpr (by decide)
  replace hencode := (hencode 512).trans (if_pos hfit)
  refine ⟨hlong, ?_, ⟨c.bytes, hencode⟩, ?_⟩
  · rintro ⟨bytes, hbytes, -⟩
    rw [hlong] at hbytes
    cases hbytes
  · rintro ⟨bytes, hbytes, hread⟩
    rw [hencode] at hbytes
    obtain rfl := Option.some.inj hbytes
    obtain ⟨payload, r', hcapsule, -, hdecode⟩ := hread [c.bytes] (by simp)
    obtain ⟨r₁, hread₁, -⟩ := readCapsule_bytes c (by simp : [c.bytes].flatten = c.bytes ++ [])
    rw [hread₁, htype, hpayload] at hcapsule
    cases hcapsule
    exact absurd ((decodeCloseSessionPayload_closePayload _).mp hdecode) (by decide)

end AoniContrib.WebTransport
