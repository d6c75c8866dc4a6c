/-
# The record size in the header: `webpush/encrypt.go`

Without a configured size the header says 4096, and every plaintext that `Encrypt` lets through fits
into one record of that size: 3993 bytes, the delimiter, the tag of 16 bytes and the header of 86
make 4096 exactly (`length_encrypt_le`).  A configured `RecordSize` goes into the header unread,
whatever the plaintext is.  So the header is true of its message exactly where the configured size
is zero, or leaves room for the plaintext with 17 bytes more and is none that RFC 8188 forbids
(`honestRecord_iff`).
-/
import AoniContrib.Webpush.Encrypt

namespace AoniContrib.Webpush

open Go List

/-! ## 1. A message of one record -/

def recordSizeOf (payload : Bytes) : UInt32 := ByteOrder.bigEndian.uint32 ((payload.drop 16).take 4)

/-- RFC 8188 section 2 for a message of one record: the size is none of the invalid ones, and what
follows the header fits into it.  A push service takes 4096 bytes. -/
structure HonestRecord (payload : Bytes) : Prop where
  valid : 18 ≤ (recordSizeOf payload).toNat
  fits : (payload.drop headerLength).length ≤ (recordSizeOf payload).toNat
  length_le : payload.length ≤ 4096

/-- The size that is configured holds the plaintext, a delimiter and a tag. -/
def RecordFits {K : Crypto} (plaintext : Bytes) (cfg : Option (EncryptConfig K)) : Prop :=
  ∀ c, cfg = some c → c.recordSize ≠ 0 →
    18 ≤ c.recordSize.toNat ∧ plaintext.length + 17 ≤ c.recordSize.toNat

variable {K : Crypto}

/-! ## 2. What `Encrypt` writes -/

theorem recordSizeOf_header {salt asPubBytes : Bytes} (rs : UInt32) (ciphertext : Bytes)
    (hsalt : salt.length = 16) : recordSizeOf (header salt rs asPubBytes ++ ciphertext) = rs := by
  rw [recordSizeOf, header, append_assoc, drop_left' hsalt, append_assoc,
    take_left' (ByteOrder.length_putUint32 _ _), ByteOrder.uint32_putUint32]

theorem encryptWithKeys_parts {R : Random K} {plaintext authSecret payload : Bytes} {uaPub : K.Pub}
    {cfg : Option (EncryptConfig K)}
    (h : encryptWithKeys R plaintext uaPub authSecret cfg = .ok payload) :
    recordSizeOf payload = EncryptConfig.useRecordSize cfg ∧
      (payload.drop headerLength).length = plaintext.length + 17 ∧
      payload.length = headerLength + (plaintext.length + 17) := by
  unfold encryptWithKeys sealRecord at h
  dsimp only at h
  split at h
  · cases h
  · rename_i secret _
    cases h
    have hsalt := length_useSalt cfg R
    have hkey := K.length_bytes (K.publicKey (EncryptConfig.sender cfg R))
    obtain ⟨-, -, -, hdrop, hlength⟩ := header_parts (EncryptConfig.useRecordSize cfg) (K.sealGCM
        (deriveKeys K authSecret secret (K.bytes uaPub)
          (K.bytes (K.publicKey (EncryptConfig.sender cfg R))) (EncryptConfig.useSalt cfg R)).1
        (deriveKeys K authSecret secret (K.bytes uaPub)
          (K.bytes (K.publicKey (EncryptConfig.sender cfg R))) (EncryptConfig.useSalt cfg R)).2
        (plaintext ++ [0x02])) hsalt hkey
    refine ⟨recordSizeOf_header _ _ hsalt, ?_, ?_⟩
    · rw [hdrop, K.length_sealGCM, length_append, length_singleton]
    · rw [hlength, K.length_sealGCM, length_append, length_singleton]

section
variable {R : Random K} {plaintext payload : Bytes} {sub : Option Keys}
  {cfg : Option (EncryptConfig K)} (h : encrypt R plaintext sub cfg = .ok payload)
include h

theorem encrypt_inv : plaintext.length ≤ maxPayloadSize ∧
      ∃ uaPub authSecret, encryptWithKeys R plaintext uaPub authSecret cfg = .ok payload := by
  cases sub with
  | none => cases h
  | some keys =>
    rw [encrypt] at h
    split_ifs at h with hempty hlarge
    refine ⟨Nat.le_of_not_lt hlarge, ?_⟩
    split at h
    · cases h
    · split_ifs at h
      split at h
      · cases h
      · split_ifs at h
        split at h
        · cases h
        · exact ⟨_, _, h⟩

theorem length_encrypt_le : payload.length ≤ 4096 := by
  obtain ⟨hsize, uaPub, authSecret, hkeys⟩ := encrypt_inv h
  obtain ⟨-, -, hlength⟩ := encryptWithKeys_parts hkeys
  rw [hlength]
  unfold maxPayloadSize at hsize
  unfold headerLength
  omega

end

theorem recordFits_iff {plaintext : Bytes} (cfg : Option (EncryptConfig K))
    (hsize : plaintext.length ≤ maxPayloadSize) :
    RecordFits plaintext cfg ↔ 18 ≤ (EncryptConfig.useRecordSize cfg).toNat ∧
      plaintext.length + 17 ≤ (EncryptConfig.useRecordSize cfg).toNat := by
  have hdefault : 18 ≤ defaultRecordSize.toNat ∧ plaintext.length + 17 ≤ defaultRecordSize.toNat := by
    have : defaultRecordSize.toNat = 4096 := rfl
    unfold maxPayloadSize at hsize
    omega
  cases cfg with
  | none =>
    constructor
    · intro _
      exact hdefault
    · intro _ c hc
      cases hc
  | some c =>
    by_cases hzero : c.recordSize = 0
    · have huse : EncryptConfig.useRecordSize (some c) = defaultRecordSize := by
        rw [EncryptConfig.useRecordSize, hzero]
        rfl
      rw [huse]
      constructor
      · intro _
        exact hdefault
      · intro _ c' hc hne
        cases hc
        exact absurd hzero hne
    · have huse : EncryptConfig.useRecordSize (some c) = c.recordSize := by
        rw [EncryptConfig.useRecordSize, if_pos (UInt32.pos_iff_ne_zero.mpr hzero)]
      rw [huse]
      constructor
      · intro hfits
        exact hfits c rfl hzero
      · intro hfits c' hc _
        cases hc
        exact hfits

/-! ## 3. The declared size -/

/-- **A message declares an honest record size** exactly where the configured one, if there is one,
is valid and holds the plaintext, the delimiter and the tag. -/
theorem honestRecord_iff (R : Random K) (plaintext : Bytes) (sub : Option Keys)
    (cfg : Option (EncryptConfig K)) (payload : Bytes)
    (h : encrypt R plaintext sub cfg = .ok payload) :
    HonestRecord payload ↔ RecordFits plaintext cfg := by
  obtain ⟨hsize, uaPub, authSecret, hkeys⟩ := encrypt_inv h
  obtain ⟨hrs, hrecord, -⟩ := encryptWithKeys_parts hkeys
  rw [recordFits_iff cfg hsize]
  constructor
  · intro hhonest
    have hvalid := hhonest.valid
    have hfits := hhonest.fits
    rw [hrs] at hvalid hfits
    rw [hrecord] at hfits
    exact ⟨hvalid, hfits⟩
  · intro ⟨hvalid, hfits⟩
    refine ⟨?_, ?_, length_encrypt_le h⟩
    · rw [hrs]
      exact hvalid
    · rw [hrs, hrecord]
      exact hfits

theorem encrypt_plainKeys (cfg : Option (EncryptConfig plainCrypto)) :
    ∃ payload, encrypt plainRandom [1, 2] (some plainKeys) cfg = .ok payload := by
  have hpub : decodeBase64URL plainKeys.p256dh =
      some (plainCrypto.bytes (plainCrypto.publicKey ())) := by decide +kernel
  have hsecret : decodeBase64URL plainKeys.auth = some (List.replicate 16 9) := by
    decide +kernel
  have hfits : ([1, 2] : Bytes).length ≤ maxPayloadSize := by decide
  rw [encrypt_eq plainRandom cfg hpub hsecret length_replicate hfits]
  exact ⟨_, rfl⟩

/-- A configured size of 19 bytes, which is just enough for two bytes of plaintext. -/
theorem honestRecord_iff_exact :
    ∃ payload, encrypt plainRandom [1, 2] (some plainKeys) (some { recordSize := 19 }) = .ok payload ∧
      HonestRecord payload := by
  obtain ⟨payload, hpayload⟩ := encrypt_plainKeys (some { recordSize := 19 })
  refine ⟨payload, hpayload, (honestRecord_iff _ _ _ _ _ hpayload).mpr ?_⟩
  intro c hc _
  cases hc
  decide

/-- With a configured size of one byte the header declares one byte, and 19 follow. -/
theorem tiny_record_declared :
    ∃ payload, encrypt plainRandom [1, 2] (some plainKeys) (some { recordSize := 1 }) = .ok payload ∧
      (recordSizeOf payload).toNat = 1 ∧ (payload.drop headerLength).length = 19 ∧
      ¬ HonestRecord payload := by
  obtain ⟨payload, hpayload⟩ := encrypt_plainKeys (some { recordSize := 1 })
  obtain ⟨-, uaPub, authSecret, hkeys⟩ := encrypt_inv hpayload
  obtain ⟨hrs, hrecord, -⟩ := encryptWithKeys_parts hkeys
  have hone : (recordSizeOf payload).toNat = 1 := by
    rw [hrs]
    rfl
  refine ⟨payload, hpayload, hone, hrecord, ?_⟩
  intro hhonest
  have hvalid := hhonest.valid
  omega

end AoniContrib.Webpush
