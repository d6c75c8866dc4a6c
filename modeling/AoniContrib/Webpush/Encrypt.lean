/-
# Message encryption: `webpush/encrypt.go`

`Encrypt` writes a header of 86 bytes and seals the plaintext with the delimiter 0x02 behind it.
`Decrypt` finds salt and sender key at their offsets in the header, derives the same keys from the
other half of the key agreement, and takes the plaintext from before the last byte that is not zero.
The delimiter makes that exact for every plaintext, whatever it ends in, and for any padding
(`unpad_append`); so `Decrypt` inverts `Encrypt` (`decrypt_encrypt`).

The key agreement, HMAC and GCM are PARAMETERS, with the laws that are used as fields.
-/
import AoniContrib.Go.Base64
import AoniContrib.Go.Binary

namespace AoniContrib.Webpush

open Go List

/-! ## 1. Primitives -/

/-- P-256, HMAC-SHA256 and AES-128-GCM. -/
structure Crypto where
  Priv : Type
  Pub : Type
  publicKey : Priv → Pub
  /-- `PublicKey.Bytes`: the uncompressed point. -/
  bytes : Pub → Bytes
  length_bytes : ∀ p, (bytes p).length = 65
  head_bytes : ∀ p, (bytes p).head? = some 0x04
  newPublicKey : Bytes → Option Pub
  newPublicKey_bytes : ∀ p, newPublicKey (bytes p) = some p
  ecdh : Priv → Pub → Option Bytes
  ecdh_isSome : ∀ a p, (ecdh a p).isSome
  ecdh_symm : ∀ a b, ecdh a (publicKey b) = ecdh b (publicKey a)
  hmacSHA256 : Bytes → Bytes → Bytes
  sealGCM : (cek nonce plaintext : Bytes) → Bytes
  length_sealGCM : ∀ cek nonce plaintext, (sealGCM cek nonce plaintext).length = plaintext.length + 16
  openGCM : (cek nonce ciphertext : Bytes) → Option Bytes
  open_seal : ∀ cek nonce plaintext, openGCM cek nonce (sealGCM cek nonce plaintext) = some plaintext

inductive Err where
  | errInvalidSubscription
  | errInvalidP256DHKey
  | errInvalidAuthSecret
  | errPayloadTooLarge
  | errDecryptionFailed
  /-- "aoni/webpush: invalid user agent public key: %w". -/
  | invalidPublicKey
  /-- "aoni/webpush: ECDH calculation failed: %w". -/
  | ecdhFailed
  deriving DecidableEq, Repr

structure Keys where
  p256dh : Bytes
  auth : Bytes

structure EncryptConfig (K : Crypto) where
  salt : Bytes := []
  senderPriv : Option K.Priv := none
  recordSize : UInt32 := 0

/-- What is drawn where the configuration does not say. -/
structure Random (K : Crypto) where
  key : K.Priv
  salt : Bytes
  length_salt : salt.length = 16

def maxPayloadSize : Nat := 3993
def defaultRecordSize : UInt32 := 4096
def headerLength : Nat := 86

variable (K : Crypto)

/-! ## 2. `Encrypt` -/

def decodeBase64URL (s : Bytes) : Option Bytes :=
  let s := trimSpace s
  let m := s.length % 4
  urlEncoding.decode (if m ≠ 0 then s ++ List.replicate (4 - m) equals else s)

/-- The content encryption key and the nonce.  Both sides have the same lines for it. -/
def deriveKeys (authSecret ecdhSecret uaPubBytes asPubBytes salt : Bytes) : Bytes × Bytes :=
  let prkKey := K.hmacSHA256 authSecret ecdhSecret
  let keyInfo := lit "WebPush: info" ++ [0x00] ++ uaPubBytes ++ asPubBytes ++ [0x01]
  let ikm := K.hmacSHA256 prkKey keyInfo
  let prk := K.hmacSHA256 salt ikm
  ((K.hmacSHA256 prk (lit "Content-Encoding: aes128gcm" ++ [0x00, 0x01])).take 16,
    (K.hmacSHA256 prk (lit "Content-Encoding: nonce" ++ [0x00, 0x01])).take 12)

variable {K}

def EncryptConfig.sender (cfg : Option (EncryptConfig K)) (R : Random K) : K.Priv :=
  match cfg with
  | some cfg => cfg.senderPriv.getD R.key
  | none => R.key

def EncryptConfig.useSalt (cfg : Option (EncryptConfig K)) (R : Random K) : Bytes :=
  match cfg with
  | some cfg => if cfg.salt.length = 16 then cfg.salt else R.salt
  | none => R.salt

def EncryptConfig.useRecordSize (cfg : Option (EncryptConfig K)) : UInt32 :=
  match cfg with
  | some cfg => if 0 < cfg.recordSize then cfg.recordSize else defaultRecordSize
  | none => defaultRecordSize

def header (salt : Bytes) (rs : UInt32) (asPubBytes : Bytes) : Bytes :=
  salt ++ (ByteOrder.bigEndian.putUint32 rs ++ (asPubBytes.length.toUInt8 ::
    (asPubBytes ++ List.replicate 65 0).take 65))

/-- `encryptWithKeys`, on what is sealed. -/
def sealRecord (R : Random K) (padded : Bytes) (uaPub : K.Pub) (authSecret : Bytes)
    (cfg : Option (EncryptConfig K)) : Except Err Bytes :=
  let asPriv := EncryptConfig.sender cfg R
  let asPubBytes := K.bytes (K.publicKey asPriv)
  let salt := EncryptConfig.useSalt cfg R
  let rs := EncryptConfig.useRecordSize cfg
  match K.ecdh asPriv uaPub with
  | none => .error .ecdhFailed
  | some ecdhSecret =>
    let keys := deriveKeys K authSecret ecdhSecret (K.bytes uaPub) asPubBytes salt
    .ok (header salt rs asPubBytes ++ K.sealGCM keys.1 keys.2 padded)

/-- `encryptWithKeys`: the plaintext with the delimiter. -/
def encryptWithKeys (R : Random K) (plaintext : Bytes) (uaPub : K.Pub) (authSecret : Bytes)
    (cfg : Option (EncryptConfig K)) : Except Err Bytes :=
  sealRecord R (plaintext ++ [0x02]) uaPub authSecret cfg

def encrypt (R : Random K) (plaintext : Bytes) (sub : Option Keys) (cfg : Option (EncryptConfig K)) :
    Except Err Bytes :=
  match sub with
  | none => .error .errInvalidSubscription
  | some keys =>
    if keys.p256dh = [] ∨ keys.auth = [] then .error .errInvalidSubscription
    else if maxPayloadSize < plaintext.length then .error .errPayloadTooLarge
    else
      match decodeBase64URL keys.p256dh with
      | none => .error .errInvalidP256DHKey
      | some uaPubBytes =>
        if uaPubBytes.length ≠ 65 ∨ uaPubBytes.head? ≠ some 0x04 then .error .errInvalidP256DHKey
        else
          match decodeBase64URL keys.auth with
          | none => .error .errInvalidAuthSecret
          | some authSecret =>
            if authSecret.length ≠ 16 then .error .errInvalidAuthSecret
            else
              match K.newPublicKey uaPubBytes with
              | none => .error .invalidPublicKey
              | some uaPub => encryptWithKeys R plaintext uaPub authSecret cfg

/-! ## 3. `Decrypt` -/

/-- The end of `Decrypt`: zeros are passed over from the back, and the delimiter is before them. -/
def unpad (padded : Bytes) : Option Bytes :=
  match padded.reverse.dropWhile (· == 0x00) with
  | [] => none
  | b :: rest => if b = 0x02 then some rest.reverse else none

def decrypt (payload : Bytes) (uaPriv : Option K.Priv) (authSecret : Bytes) : Except Err Bytes :=
  if payload.length < headerLength + 16 then .error .errDecryptionFailed
  else
    match uaPriv with
    | none => .error .errInvalidSubscription
    | some uaPriv =>
      if authSecret.length ≠ 16 then .error .errInvalidSubscription
      else
        let salt := payload.take 16
        let idLen := ((payload.drop 20).headD 0).toNat
        if idLen ≠ 65 ∨ payload.length < 21 + idLen then .error .errDecryptionFailed
        else
          let asPubBytes := (payload.drop 21).take idLen
          let ciphertext := payload.drop headerLength
          match K.newPublicKey asPubBytes with
          | none => .error .errDecryptionFailed
          | some asPub =>
            match K.ecdh uaPriv asPub with
            | none => .error .errDecryptionFailed
            | some ecdhSecret =>
              let keys := deriveKeys K authSecret ecdhSecret (K.bytes (K.publicKey uaPriv)) asPubBytes
                salt
              match K.openGCM keys.1 keys.2 ciphertext with
              | none => .error .errDecryptionFailed
              | some plaintextPadded =>
                match unpad plaintextPadded with
                | none => .error .errDecryptionFailed
                | some plaintext => .ok plaintext

/-! ## 4. The round trip -/

/-- **The delimiter marks the end of the plaintext**, whatever it ends in and however it is padded. -/
theorem unpad_append (plaintext : Bytes) (n : Nat) :
    unpad (plaintext ++ 0x02 :: List.replicate n 0x00) = some plaintext := by
  have hreverse : (plaintext ++ 0x02 :: List.replicate n 0x00).reverse =
      List.replicate n 0x00 ++ (0x02 :: plaintext.reverse) := by
    rw [reverse_append, reverse_cons, reverse_replicate, append_assoc]
    rfl
  have hdrop : (List.replicate n (0x00 : UInt8) ++ (0x02 :: plaintext.reverse)).dropWhile (· == 0x00) =
      0x02 :: plaintext.reverse := by
    rw [dropWhile_append_of_pos fun b hb => by rw [eq_of_mem_replicate hb]; rfl]
    rfl
  rw [unpad, hreverse, hdrop]
  simp

theorem length_useSalt (cfg : Option (EncryptConfig K)) (R : Random K) :
    (EncryptConfig.useSalt cfg R).length = 16 := by
  unfold EncryptConfig.useSalt
  split
  · split_ifs with h
    · exact h
    · exact R.length_salt
  · exact R.length_salt

theorem header_parts {salt asPubBytes : Bytes} (rs : UInt32) (ciphertext : Bytes)
    (hsalt : salt.length = 16) (hkey : asPubBytes.length = 65) :
    let payload := header salt rs asPubBytes ++ ciphertext
    payload.take 16 = salt ∧ (payload.drop 20).headD 0 = 65 ∧
      (payload.drop 21).take 65 = asPubBytes ∧ payload.drop headerLength = ciphertext ∧
      payload.length = headerLength + ciphertext.length := by
  have hcopy : (asPubBytes ++ List.replicate 65 0).take 65 = asPubBytes := take_left' hkey
  have hput : (ByteOrder.bigEndian.putUint32 rs).length = 4 := ByteOrder.length_putUint32 _ _
  have hpayload : header salt rs asPubBytes ++ ciphertext = salt ++
      (ByteOrder.bigEndian.putUint32 rs ++ ([65] ++ (asPubBytes ++ ciphertext))) := by
    rw [header, hcopy, hkey, append_assoc, append_assoc]
    rfl
  have h16 : (header salt rs asPubBytes ++ ciphertext).drop 16 =
      ByteOrder.bigEndian.putUint32 rs ++ ([65] ++ (asPubBytes ++ ciphertext)) := by
    rw [hpayload, drop_left' hsalt]
  have h20 : (header salt rs asPubBytes ++ ciphertext).drop 20 = [65] ++ (asPubBytes ++ ciphertext) := by
    rw [show 20 = 16 + 4 from rfl, ← drop_drop, h16, drop_left' hput]
  have h21 : (header salt rs asPubBytes ++ ciphertext).drop 21 = asPubBytes ++ ciphertext := by
    rw [show 21 = 20 + 1 from rfl, ← drop_drop, h20]
    rfl
  have h86 : (header salt rs asPubBytes ++ ciphertext).drop headerLength = ciphertext := by
    rw [show headerLength = 21 + 65 from rfl, ← drop_drop, h21, drop_left' hkey]
  refine ⟨by rw [hpayload, take_left' hsalt], by rw [h20]; rfl, by rw [h21, take_left' hkey], h86, ?_⟩
  rw [hpayload]
  simp only [length_append, hsalt, hput, hkey, length_singleton, headerLength]
  omega

theorem decrypt_sealRecord (R : Random K) (cfg : Option (EncryptConfig K)) (uaPriv : K.Priv)
    {authSecret : Bytes} (hauth : authSecret.length = 16) (padded : Bytes) :
    ∃ payload, sealRecord R padded (K.publicKey uaPriv) authSecret cfg = .ok payload ∧
      decrypt payload (some uaPriv) authSecret =
        match unpad padded with
        | none => .error .errDecryptionFailed
        | some plaintext => .ok plaintext := by
  obtain ⟨secret, hsecret⟩ :=
    Option.isSome_iff_exists.mp (K.ecdh_isSome (EncryptConfig.sender cfg R) (K.publicKey uaPriv))
  have hother : K.ecdh uaPriv (K.publicKey (EncryptConfig.sender cfg R)) = some secret := by
    rw [K.ecdh_symm, hsecret]
  have hkey := K.length_bytes (K.publicKey (EncryptConfig.sender cfg R))
  let keys := deriveKeys K authSecret secret (K.bytes (K.publicKey uaPriv))
    (K.bytes (K.publicKey (EncryptConfig.sender cfg R))) (EncryptConfig.useSalt cfg R)
  refine ⟨header (EncryptConfig.useSalt cfg R) (EncryptConfig.useRecordSize cfg)
    (K.bytes (K.publicKey (EncryptConfig.sender cfg R))) ++ K.sealGCM keys.1 keys.2 padded,
    by simp only [sealRecord, hsecret, keys], ?_⟩
  obtain ⟨hsalt, hid, hpub, hcipher, hlen⟩ := header_parts (EncryptConfig.useRecordSize cfg)
    (K.sealGCM keys.1 keys.2 padded) (length_useSalt cfg R) hkey
  have hlong : ¬ headerLength + (K.sealGCM keys.1 keys.2 padded).length < headerLength + 16 := by
    rw [K.length_sealGCM]
    omega
  have hid' : ¬ ((65 : UInt8).toNat ≠ 65 ∨ headerLength + (K.sealGCM keys.1 keys.2 padded).length <
      21 + (65 : UInt8).toNat) := by
    rw [K.length_sealGCM]
    simp only [headerLength, show (65 : UInt8).toNat = 65 from rfl]
    omega
  have hpub' : ((header (EncryptConfig.useSalt cfg R) (EncryptConfig.useRecordSize cfg)
      (K.bytes (K.publicKey (EncryptConfig.sender cfg R))) ++
        K.sealGCM keys.1 keys.2 padded).drop 21).take (65 : UInt8).toNat =
      K.bytes (K.publicKey (EncryptConfig.sender cfg R)) := hpub
  simp only [decrypt, hlen, if_neg hlong, hauth, ne_eq, not_true_eq_false, if_false, hsalt, hid,
    if_neg hid', hpub', hcipher, K.newPublicKey_bytes, hother]
  rw [K.open_seal]

theorem encrypt_eq (R : Random K) (cfg : Option (EncryptConfig K)) {uaPub : K.Pub}
    {keys : Keys} {authSecret plaintext : Bytes}
    (hpub : decodeBase64URL keys.p256dh = some (K.bytes uaPub))
    (hsecret : decodeBase64URL keys.auth = some authSecret) (hauth : authSecret.length = 16)
    (hfits : plaintext.length ≤ maxPayloadSize) :
    encrypt R plaintext (some keys) cfg = encryptWithKeys R plaintext uaPub authSecret cfg := by
  have hne : ¬ (keys.p256dh = [] ∨ keys.auth = []) := by
    rintro (h | h)
    · rw [h] at hpub
      have hlen := K.length_bytes uaPub
      rw [← Option.some.inj hpub] at hlen
      cases hlen
    · rw [h] at hsecret
      rw [← Option.some.inj hsecret] at hauth
      cases hauth
  have hpoint : ¬ ((K.bytes uaPub).length ≠ 65 ∨ (K.bytes uaPub).head? ≠ some 0x04) := by
    rw [K.length_bytes, K.head_bytes]
    simp
  rw [encrypt, if_neg hne, if_neg (Nat.not_lt.mpr hfits), hpub]
  dsimp only
  rw [if_neg hpoint, hsecret]
  dsimp only
  rw [if_neg (not_not.mpr hauth), K.newPublicKey_bytes]

/-- **`Decrypt` inverts `Encrypt`**, for every plaintext that fits, every key pair, secret, sender key,
salt and record size; and it does so however the record is padded. -/
theorem decrypt_encrypt (R : Random K) (cfg : Option (EncryptConfig K)) (uaPriv : K.Priv)
    {keys : Keys} {authSecret plaintext : Bytes}
    (hpub : decodeBase64URL keys.p256dh = some (K.bytes (K.publicKey uaPriv)))
    (hsecret : decodeBase64URL keys.auth = some authSecret) (hauth : authSecret.length = 16)
    (hfits : plaintext.length ≤ maxPayloadSize) :
    (∃ payload, encrypt R plaintext (some keys) cfg = .ok payload ∧
      decrypt payload (some uaPriv) authSecret = .ok plaintext) ∧
    ∀ n, ∃ payload, sealRecord R (plaintext ++ 0x02 :: List.replicate n 0x00) (K.publicKey uaPriv)
        authSecret cfg = .ok payload ∧
      decrypt payload (some uaPriv) authSecret = .ok plaintext := by
  have hpadded : ∀ n, ∃ payload, sealRecord R (plaintext ++ 0x02 :: List.replicate n 0x00)
      (K.publicKey uaPriv) authSecret cfg = .ok payload ∧
      decrypt payload (some uaPriv) authSecret = .ok plaintext := by
    intro n
    obtain ⟨payload, hseal, hdecrypt⟩ := decrypt_sealRecord R cfg uaPriv hauth
      (plaintext ++ 0x02 :: List.replicate n 0x00)
    rw [unpad_append] at hdecrypt
    exact ⟨payload, hseal, hdecrypt⟩
  refine ⟨?_, hpadded⟩
  obtain ⟨payload, hseal, hdecrypt⟩ := hpadded 0
  refine ⟨payload, ?_, hdecrypt⟩
  rw [encrypt_eq R cfg hpub hsecret hauth hfits]
  exact hseal

/-- Primitives that meet the laws and hide nothing: one key pair, and a tag of zeros. -/
def plainCrypto : Crypto where
  Priv := Unit
  Pub := Unit
  publicKey := id
  bytes _ := 0x04 :: List.replicate 64 0
  length_bytes _ := by rw [length_cons, length_replicate]
  head_bytes _ := rfl
  newPublicKey _ := some ()
  newPublicKey_bytes _ := rfl
  ecdh _ _ := some []
  ecdh_isSome _ _ := rfl
  ecdh_symm _ _ := rfl
  hmacSHA256 key data := key ++ data
  sealGCM _ _ plaintext := plaintext ++ List.replicate 16 0
  length_sealGCM _ _ plaintext := by rw [length_append, length_replicate]
  openGCM _ _ ciphertext := some (ciphertext.take (ciphertext.length - 16))
  open_seal _ _ plaintext := by simp

def plainKeys : Keys where
  p256dh := urlEncoding.encodeRaw (0x04 :: List.replicate 64 0)
  auth := urlEncoding.encodeRaw (List.replicate 16 9)

def plainRandom : Random plainCrypto where
  key := ()
  salt := List.replicate 16 7
  length_salt := length_replicate

/-- A plaintext that ends like a delimiter with padding. -/
theorem decrypt_encrypt_delimiter :
    ∃ payload, encrypt plainRandom [1, 2, 0] (some plainKeys) none = .ok payload ∧
      decrypt (K := plainCrypto) payload (some ()) (List.replicate 16 9) = .ok [1, 2, 0] := by
  have hpub : decodeBase64URL plainKeys.p256dh =
      some (plainCrypto.bytes (plainCrypto.publicKey ())) := by decide +kernel
  have hsecret : decodeBase64URL plainKeys.auth = some (List.replicate 16 9) := by
    decide +kernel
  have hfits : ([1, 2, 0] : Bytes).length ≤ maxPayloadSize := by decide
  exact (decrypt_encrypt plainRandom none () hpub hsecret length_replicate hfits).1

end AoniContrib.Webpush
