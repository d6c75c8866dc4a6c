/-
# Capsules: `webtransport/capsule.go` and the reading half of `controlLoop`

A capsule is a type and a length, each a varint of one to eight bytes, and a payload.
`readCapsule` is what one turn of `controlLoop` reads; every failure of it (end of stream, a payload
of more than 16 MiB) is treated alike, so it is `none`.  A capsule in any of its encodings is read
back, however the bytes are split into reads (`readCapsule_bytes`).
-/
import AoniContrib.Go.Binary
import AoniContrib.Go.Utf8

namespace AoniContrib.WebTransport

open Go

/-! ## 1. Reading -/

def capsuleCloseWebTransportSession : Nat := 0x2843
def capsuleDrainWebTransportSession : Nat := 0x78ae

/-- The longest payload that `controlLoop` reads. -/
def maxPayload : Nat := 16 * 1024 * 1024

/-- One turn of the reading in `controlLoop`: the type and the payload. -/
def readCapsule [Quicvarint] (r : Reader) : Option (Nat × Bytes × Reader) :=
  match readVarint r with
  | (.error _, _) => none
  | (.ok capsuleType, r) =>
    match readVarint r with
    | (.error _, _) => none
    | (.ok payloadLen, r) =>
      if maxPayload < payloadLen then none
      else
        match readFull payloadLen r with
        | (.error _, _) => none
        | (.ok payload, r) => some (capsuleType, payload, r)

/-- A capsule that `controlLoop` accepts, with the width of its two varints. -/
structure Capsule where
  typeTag : Nat
  lengthTag : Nat
  capsuleType : Nat
  payload : Bytes
  typeTag_lt : typeTag < 4
  lengthTag_lt : lengthTag < 4
  type_lt : capsuleType < 2 ^ varintBits typeTag
  length_lt : payload.length < 2 ^ varintBits lengthTag
  length_le : payload.length ≤ maxPayload

def Capsule.bytes (c : Capsule) : Bytes :=
  encodeVarint c.typeTag c.capsuleType ++ encodeVarint c.lengthTag c.payload.length ++ c.payload

theorem readCapsule_bytes [Quicvarint] (c : Capsule) {r : Reader} {rest : Bytes}
    (h : r.flatten = c.bytes ++ rest) :
    ∃ r', readCapsule r = some (c.capsuleType, c.payload, r') ∧ r'.flatten = rest := by
  rw [Capsule.bytes, List.append_assoc, List.append_assoc] at h
  obtain ⟨r₁, hread₁, h₁⟩ := readVarint_encode c.typeTag_lt c.type_lt h
  obtain ⟨r₂, hread₂, h₂⟩ := readVarint_encode c.lengthTag_lt c.length_lt h₁
  obtain ⟨r₃, hread₃, h₃⟩ := readFull_append h₂
  refine ⟨r₃, ?_, h₃⟩
  simp only [readCapsule, hread₁, hread₂, if_neg (not_lt.mpr c.length_le), hread₃]

/-! ## 2. The close capsule -/

/-- `SessionError`, and `CloseSessionPayload`, which has the same two members. -/
structure SessionError where
  errorCode : UInt32
  message : Bytes
  deriving DecidableEq, Repr

/-- `DecodeCloseSessionPayloadTo`; none is `ErrInvalidCapsule`. -/
def decodeCloseSessionPayload (payload : Bytes) : Option SessionError :=
  if payload.length < 4 then none
  else if 1024 < (payload.drop 4).length || !utf8Valid (payload.drop 4) then none
  else some ⟨ByteOrder.bigEndian.uint32 (payload.take 4), payload.drop 4⟩

/-- What `EncodeCloseSessionPayload` writes for a message that is not truncated. -/
def closePayload (e : SessionError) : Bytes :=
  ByteOrder.bigEndian.putUint32 e.errorCode ++ e.message

theorem decode_closePayload {e : SessionError} (hlen : e.message.length ≤ 1024)
    (hvalid : utf8Valid e.message = true) :
    decodeCloseSessionPayload (closePayload e) = some e := by
  have hdrop : (closePayload e).drop 4 = e.message := List.drop_left' (by simp)
  have htake : (closePayload e).take 4 = ByteOrder.bigEndian.putUint32 e.errorCode :=
    List.take_left' (by simp)
  have hlong : ¬ (closePayload e).length < 4 := by simp [closePayload]
  rw [decodeCloseSessionPayload, if_neg hlong, hdrop, htake, hvalid, if_neg (by simpa using hlen),
    ByteOrder.uint32_putUint32]

/-- The loop of `TruncateErrorMessage`: bytes are taken off the end until the rest is valid. -/
def truncateLoop : Nat → Bytes → Bytes
  | 0, b => b
  | n + 1, b => if utf8Valid b then b else truncateLoop n b.dropLast

def truncateErrorMessage (msg : Bytes) : Bytes :=
  if msg.length ≤ 1024 then msg else truncateLoop 1024 (msg.take 1024)

/-- `buf[:n]` behind `EncodeCloseSessionCapsule`, for a buffer of `size` bytes: `copy` writes what
fits, and the slice panics if the capsule is longer than the buffer. -/
def encodeCloseSessionCapsule [Quicvarint] (e : SessionError) (size : Nat) : Option Bytes := do
  let msg := truncateErrorMessage e.message
  let type ← Quicvarint.append capsuleCloseWebTransportSession
  let length ← Quicvarint.append (4 + msg.length)
  let capsule := type ++ length ++ ByteOrder.bigEndian.putUint32 e.errorCode ++ msg
  if capsule.length ≤ size then some capsule else none

end AoniContrib.WebTransport
