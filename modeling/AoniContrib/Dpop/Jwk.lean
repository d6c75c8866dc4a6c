/-
# JSON Web Keys and their thumbprints: `auth/dpop/jwk.go`

`PublicKeyToJWK` writes a public key as a JWK and `JWKToPublicKey` reads it back
(`jwkToPublicKey_publicKeyToJWK`).  The members are base 64, and the reader takes more than the
writer writes: line breaks, any bits behind the last byte, zeros before a modulus or an exponent, and
an exponent of any length, of which it keeps 64 bits.

`ComputeThumbprint` hashes the members as they were received.  Equal texts are of equal keys, but one
key has many texts (`thumbprint_respelled`); the canonical spellings are those that agree with each
other (`thumbprint_identifies_iff`).
-/
import AoniContrib.Go.Base64
import AoniContrib.Go.Binary

namespace AoniContrib.Dpop

open Go List

/-! ## 1. Keys -/

structure JWK where
  kty : Bytes
  crv : Bytes := []
  x : Bytes := []
  y : Bytes := []
  n : Bytes := []
  e : Bytes := []
  alg : Bytes := []
  kid : Bytes := []
  deriving DecidableEq, Repr

inductive Curve where
  | p224
  | p256
  | p384
  | p521
  deriving DecidableEq, Repr

inductive PublicKey where
  | ecdsa (curve : Curve) (x y : Nat)
  | ed25519 (key : Bytes)
  | rsa (n : Nat) (e : Int64)
  deriving DecidableEq, Repr

inductive DpopError where
  | invalidDPoPProof
  | invalidHeader
  | invalidClaims
  | invalidSignature
  | proofExpired
  | proofInFuture
  | methodMismatch
  | uriMismatch
  | accessTokenMismatch
  | nonceMismatch
  | unsupportedKey
  | nilRequest
  | sign
  /-- A panic: `FillBytes` of a number that does not fit. -/
  | outOfRange
  deriving DecidableEq, Repr

def algES256 : Bytes := lit "ES256"
def algES384 : Bytes := lit "ES384"
def algEdDSA : Bytes := lit "EdDSA"
def algRS256 : Bytes := lit "RS256"
def algPS256 : Bytes := lit "PS256"

def encodeToString (s : Bytes) : Bytes := urlEncoding.encodeRaw s
def decodeString (s : Bytes) : Option Bytes := urlEncoding.decodeRaw s

/-- `big.Int.FillBytes` of a buffer of length `k`. -/
def fillBytes (k v : Nat) : Except DpopError Bytes :=
  if v < 256 ^ k then .ok (beBytes k v) else .error .outOfRange

/-- A key on a curve whose coordinates have `byteLen` bytes. -/
def ecJWK (crv alg : Bytes) (byteLen x y : Nat) : Except DpopError (JWK × Bytes) := do
  let xBuf ← fillBytes byteLen x
  let yBuf ← fillBytes byteLen y
  .ok ({ kty := lit "EC", crv, x := encodeToString xBuf, y := encodeToString yBuf }, alg)

/-- `PublicKeyToJWK`: the JWK and the algorithm. -/
def publicKeyToJWK : PublicKey → Except DpopError (JWK × Bytes)
  | .ecdsa .p256 x y => ecJWK (lit "P-256") algES256 32 x y
  | .ecdsa .p384 x y => ecJWK (lit "P-384") algES384 48 x y
  | .ecdsa _ _ _ => .error .unsupportedKey
  | .ed25519 key =>
    if key.length ≠ 32 then .error .unsupportedKey
    else .ok ({ kty := lit "OKP", crv := lit "Ed25519", x := encodeToString key }, algEdDSA)
  | .rsa n e =>
    .ok ({ kty := lit "RSA", n := encodeToString (natBytes n)
           e := encodeToString (natBytes e.toInt.natAbs) }, algRS256)

def coordinate (expectedLen : Nat) (member : Bytes) : Except DpopError Nat :=
  match decodeString member with
  | none => .error .invalidHeader
  | some bytes => if bytes.length ≠ expectedLen then .error .invalidHeader else .ok (beValue bytes)

def integer (member : Bytes) : Except DpopError Nat :=
  match decodeString member with
  | none => .error .invalidHeader
  | some bytes => if bytes.length = 0 then .error .invalidHeader else .ok (beValue bytes)

def ecPublicKey (curve : Curve) (expectedLen : Nat) (jwk : JWK) : Except DpopError PublicKey := do
  let x ← coordinate expectedLen jwk.x
  let y ← coordinate expectedLen jwk.y
  .ok (.ecdsa curve x y)

/-- `JWKToPublicKey`; `Int64` of a `big.Int` keeps the low 64 bits. -/
def jwkToPublicKey (jwk : JWK) : Except DpopError PublicKey :=
  if jwk.kty = lit "EC" then
    if jwk.crv = lit "P-256" then ecPublicKey .p256 32 jwk
    else if jwk.crv = lit "P-384" then ecPublicKey .p384 48 jwk
    else .error .unsupportedKey
  else if jwk.kty = lit "OKP" then
    if jwk.crv ≠ lit "Ed25519" then .error .unsupportedKey
    else
      match decodeString jwk.x with
      | none => .error .invalidHeader
      | some pubBytes =>
        if pubBytes.length ≠ 32 then .error .invalidHeader else .ok (.ed25519 pubBytes)
  else if jwk.kty = lit "RSA" then do
    let n ← integer jwk.n
    let e ← integer jwk.e
    .ok (.rsa n (Int64.ofNat e))
  else .error .unsupportedKey

/-- The text that `ComputeThumbprint` hashes. -/
def canonicalJSON (jwk : JWK) : Except DpopError Bytes :=
  if jwk.kty = lit "EC" then
    .ok (lit "\x7b\"crv\":\"" ++ jwk.crv ++ lit "\",\"kty\":\"EC\",\"x\":\"" ++ jwk.x ++
      lit "\",\"y\":\"" ++ jwk.y ++ lit "\"\x7d")
  else if jwk.kty = lit "OKP" then
    .ok (lit "\x7b\"crv\":\"" ++ jwk.crv ++ lit "\",\"kty\":\"OKP\",\"x\":\"" ++ jwk.x ++ lit "\"\x7d")
  else if jwk.kty = lit "RSA" then
    .ok (lit "\x7b\"e\":\"" ++ jwk.e ++ lit "\",\"kty\":\"RSA\",\"n\":\"" ++ jwk.n ++ lit "\"\x7d")
  else .error .unsupportedKey

def computeThumbprint (sha256 : Bytes → Bytes) (jwk : JWK) : Except DpopError Bytes :=
  (canonicalJSON jwk).map fun text => encodeToString (sha256 text)

/-! ## 2. Keys that are written are read back -/

variable {crv s : Bytes} {curve : Curve} {a b jwk : JWK} {k v : Nat} {k' key : PublicKey}

theorem decodeString_encodeToString (s : Bytes) : decodeString (encodeToString s) = some s :=
  urlEncoding.decodeRaw_encodeRaw s

/-- The keys that the package supports: coordinates of the curve's width, and an RSA key with a
positive modulus and exponent. -/
def Supported : PublicKey → Prop
  | .ecdsa .p256 x y => x < 256 ^ 32 ∧ y < 256 ^ 32
  | .ecdsa .p384 x y => x < 256 ^ 48 ∧ y < 256 ^ 48
  | .ecdsa _ _ _ => False
  | .ed25519 key => key.length = 32
  | .rsa n e => 0 < n ∧ 0 < e

theorem coordinate_encode (h : v < 256 ^ k) : coordinate k (encodeToString (beBytes k v)) = .ok v := by
  rw [coordinate, decodeString_encodeToString]
  simp only [length_beBytes, ne_eq, not_true_eq_false, if_false, beValue_beBytes, Nat.mod_eq_of_lt h]

theorem natBytes_ne_nil (h : 0 < v) : natBytes v ≠ [] := by
  intro hnil
  have hvalue := beValue_natBytes v
  rw [hnil] at hvalue
  exact h.ne hvalue

theorem integer_encode (h : 0 < v) : integer (encodeToString (natBytes v)) = .ok v := by
  have hlen : (natBytes v).length ≠ 0 := fun h0 => natBytes_ne_nil h (length_eq_zero_iff.mp h0)
  rw [integer, decodeString_encodeToString]
  simp only [if_neg hlen, beValue_natBytes]

theorem publicKeyToJWK_ec {alg : Bytes} {x y : Nat} (hx : x < 256 ^ k) (hy : y < 256 ^ k) :
    ecJWK crv alg k x y =
      .ok (⟨lit "EC", crv, encodeToString (beBytes k x), encodeToString (beBytes k y),
        [], [], [], []⟩, alg) := by
  simp only [ecJWK, fillBytes, if_pos hx, if_pos hy]
  rfl

theorem ecPublicKey_encode {x y : Nat} (hx : x < 256 ^ k)
    (hy : y < 256 ^ k) :
    ecPublicKey curve k ⟨lit "EC", crv, encodeToString (beBytes k x),
      encodeToString (beBytes k y), [], [], [], []⟩ = .ok (.ecdsa curve x y) := by
  simp only [ecPublicKey, coordinate_encode hx, coordinate_encode hy]
  rfl

theorem int64_ofNat_natAbs {e : Int64} (h : 0 < e) : Int64.ofNat e.toInt.natAbs = e := by
  have hpos : 0 < e.toInt := Int64.lt_iff_toInt_lt.mp h
  rw [← Int64.ofInt_eq_ofNat, Int.natAbs_of_nonneg hpos.le, Int64.ofInt_toInt]

theorem jwkToPublicKey_publicKeyToJWK : ∀ {key : PublicKey}, Supported key →
    ∃ jwk alg, publicKeyToJWK key = .ok (jwk, alg) ∧ jwkToPublicKey jwk = .ok key
  | .ecdsa .p256 _ _, h => ⟨_, _, publicKeyToJWK_ec h.1 h.2, ecPublicKey_encode h.1 h.2⟩
  | .ecdsa .p384 _ _, h => ⟨_, _, publicKeyToJWK_ec h.1 h.2, ecPublicKey_encode h.1 h.2⟩
  | .ecdsa .p224 _ _, h => h.elim
  | .ecdsa .p521 _ _, h => h.elim
  | .ed25519 key, h => by
    have hlen : ¬ key.length ≠ 32 := not_not.mpr h
    refine ⟨_, _, if_neg hlen, ?_⟩
    have hkty : lit "OKP" ≠ lit "EC" := by decide
    simp only [jwkToPublicKey, if_neg hkty, if_true, ne_eq, not_true_eq_false, if_false,
      decodeString_encodeToString, if_neg hlen]
  | .rsa n e, h => by
    have hpos : 0 < e.toInt := Int64.lt_iff_toInt_lt.mp h.2
    have hec : lit "RSA" ≠ lit "EC" := by decide
    have hokp : lit "RSA" ≠ lit "OKP" := by decide
    refine ⟨_, _, rfl, ?_⟩
    simp only [jwkToPublicKey, if_neg hec, if_neg hokp, if_true, integer_encode h.1,
      integer_encode (Int.natAbs_pos.mpr hpos.ne')]
    exact congrArg (fun e => Except.ok (PublicKey.rsa n e)) (int64_ofNat_natAbs h.2)

/-! ## 3. What is accepted -/

/-- The curves, with the names and widths that `JWKToPublicKey` knows them by. -/
def curves : List (Bytes × Curve × Nat) := [(lit "P-256", .p256, 32), (lit "P-384", .p384, 48)]

inductive Reads : JWK → PublicKey → Prop where
  | ec {jwk : JWK} {curve : Curve} {k : Nat} {xs ys : Bytes} : jwk.kty = lit "EC" →
      (jwk.crv, curve, k) ∈ curves →
      decodeString jwk.x = some xs → xs.length = k → decodeString jwk.y = some ys →
      ys.length = k → Reads jwk (.ecdsa curve (beValue xs) (beValue ys))
  | okp {jwk : JWK} {key : Bytes} : jwk.kty = lit "OKP" → jwk.crv = lit "Ed25519" →
      decodeString jwk.x = some key → key.length = 32 → Reads jwk (.ed25519 key)
  | rsa {jwk : JWK} {ns es : Bytes} : jwk.kty = lit "RSA" → decodeString jwk.n = some ns →
      ns.length ≠ 0 →
      decodeString jwk.e = some es → es.length ≠ 0 →
      Reads jwk (.rsa (beValue ns) (Int64.ofNat (beValue es)))

theorem coordinate_eq_ok :
    coordinate k s = .ok v ↔ ∃ bs, decodeString s = some bs ∧ bs.length = k ∧ beValue bs = v := by
  unfold coordinate
  cases decodeString s with
  | none => simp
  | some bs =>
    by_cases hlen : bs.length = k
    · simp [hlen]
    · simp [hlen]

theorem integer_eq_ok :
    integer s = .ok v ↔ ∃ bs, decodeString s = some bs ∧ bs.length ≠ 0 ∧ beValue bs = v := by
  unfold integer
  cases decodeString s with
  | none => simp
  | some bs =>
    by_cases hnil : bs = []
    · simp [hnil]
    · simp [hnil]

theorem ecPublicKey_eq_ok :
    ecPublicKey curve k jwk = .ok key ↔ ∃ xs ys, decodeString jwk.x = some xs ∧ xs.length = k ∧
      decodeString jwk.y = some ys ∧ ys.length = k ∧ key = .ecdsa curve (beValue xs) (beValue ys) := by
  simp only [ecPublicKey, bind_eq_ok, coordinate_eq_ok]
  constructor
  · rintro ⟨_, ⟨xs, hx, hxl, rfl⟩, _, ⟨ys, hy, hyl, rfl⟩, h⟩
    cases h
    exact ⟨xs, ys, hx, hxl, hy, hyl, rfl⟩
  · rintro ⟨xs, ys, hx, hxl, hy, hyl, rfl⟩
    exact ⟨_, ⟨xs, hx, hxl, rfl⟩, _, ⟨ys, hy, hyl, rfl⟩, rfl⟩

theorem reads_of_ok (h : jwkToPublicKey jwk = .ok key) : Reads jwk key := by
  unfold jwkToPublicKey at h
  split_ifs at h with hec h256 h384 hokp hcrv hrsa
  · obtain ⟨xs, ys, hx, hxl, hy, hyl, rfl⟩ := ecPublicKey_eq_ok.mp h
    exact .ec hec (h256 ▸ .head _) hx hxl hy hyl
  · obtain ⟨xs, ys, hx, hxl, hy, hyl, rfl⟩ := ecPublicKey_eq_ok.mp h
    exact .ec hec (h384 ▸ .tail _ (.head _)) hx hxl hy hyl
  · split at h
    · cases h
    · rename_i bytes hx
      split_ifs at h with hlen
      cases h
      exact .okp hokp (not_not.mp hcrv) hx (not_not.mp hlen)
  · simp only [bind_eq_ok, integer_eq_ok] at h
    obtain ⟨_, ⟨ns, hn, hnl, rfl⟩, _, ⟨es, he, hel, rfl⟩, h⟩ := h
    cases h
    exact .rsa hrsa hn hnl he hel

theorem ok_of_reads (h : Reads jwk key) : jwkToPublicKey jwk = .ok key := by
  unfold jwkToPublicKey
  cases h with
  | ec hkty hcurve hx hxl hy hyl =>
    rw [if_pos hkty]
    simp only [curves, mem_cons, Prod.mk.injEq, not_mem_nil, or_false] at hcurve
    rcases hcurve with ⟨hcrv, rfl, rfl⟩ | ⟨hcrv, rfl, rfl⟩
    · rw [if_pos hcrv]
      exact ecPublicKey_eq_ok.mpr ⟨_, _, hx, hxl, hy, hyl, rfl⟩
    · have hne : lit "P-384" ≠ lit "P-256" := by decide
      rw [hcrv, if_neg hne, if_pos rfl]
      exact ecPublicKey_eq_ok.mpr ⟨_, _, hx, hxl, hy, hyl, rfl⟩
  | okp hkty hcrv hx hlen =>
    have hne : lit "OKP" ≠ lit "EC" := by decide
    rw [hkty, if_neg hne, if_pos rfl, if_neg (not_not.mpr hcrv)]
    simp only [hx, hlen, ne_eq, not_true_eq_false, if_false]
  | rsa hkty hn hnl he hel =>
    have hec : lit "RSA" ≠ lit "EC" := by decide
    have hokp : lit "RSA" ≠ lit "OKP" := by decide
    rw [hkty, if_neg hec, if_neg hokp, if_pos rfl, bind_eq_ok]
    refine ⟨_, integer_eq_ok.mpr ⟨_, hn, hnl, rfl⟩, ?_⟩
    rw [bind_eq_ok]
    exact ⟨_, integer_eq_ok.mpr ⟨_, he, hel, rfl⟩, rfl⟩

/-! ## 4. Thumbprints -/

def members (jwk : JWK) : List Bytes :=
  if jwk.kty = lit "EC" then [jwk.kty, jwk.crv, jwk.x, jwk.y]
  else if jwk.kty = lit "OKP" then [jwk.kty, jwk.crv, jwk.x]
  else [jwk.kty, jwk.e, jwk.n]

theorem dquote_not_mem {bs : Bytes} (h : decodeString s = some bs) : dquote ∉ s := by
  intro hmem
  have hnot : ¬ ((urlEncoding.value dquote).isSome ∨ dquote = newline ∨ dquote = carriageReturn) := by
    decide
  exact hnot (urlEncoding.mem_of_decodeRaw h hmem)

theorem dquote_not_mem_crv (h : (crv, curve, k) ∈ curves) : dquote ∉ crv := by
  simp only [curves, mem_cons, Prod.mk.injEq, not_mem_nil, or_false] at h
  rcases h with ⟨rfl, -⟩ | ⟨rfl, -⟩
  · decide
  · decide

/-- A text, cut at its quotes: the type is between two members, and `tail` is behind them. -/
def frame (name₁ member₁ kty name₂ member₂ : Bytes) (tail : List Bytes) : List Bytes :=
  [lit "\x7b", name₁, lit ":", member₁, lit ",", lit "kty", lit ":", kty, lit ",", name₂, lit ":",
    member₂] ++ tail

theorem members_ec (h : jwk.kty = lit "EC") : members jwk = [lit "EC", jwk.crv, jwk.x, jwk.y] := by
  rw [members, if_pos h, h]

theorem members_okp (h : jwk.kty = lit "OKP") : members jwk = [lit "OKP", jwk.crv, jwk.x] := by
  have hne : lit "OKP" ≠ lit "EC" := by decide
  rw [members, h, if_neg hne, if_pos rfl]

theorem members_rsa (h : jwk.kty = lit "RSA") : members jwk = [lit "RSA", jwk.e, jwk.n] := by
  have hec : lit "RSA" ≠ lit "EC" := by decide
  have hokp : lit "RSA" ≠ lit "OKP" := by decide
  rw [members, h, if_neg hec, if_neg hokp]

theorem members_of_frame {name₁ member₁ kty name₂ member₂ : Bytes} {tail : List Bytes}
    (hnames : ∀ p ∈ [name₁, kty, name₂], dquote ∉ p)
    (hno : ∀ p ∈ member₁ :: member₂ :: tail, dquote ∉ p) :
    ([7, 3, 11, 15].filterMap fun i : Nat => (([dquote].intercalate
      (frame name₁ member₁ kty name₂ member₂ tail)).splitOn dquote)[i]?) =
      kty :: member₁ :: member₂ :: tail[3]?.toList := by
  have hlits : ∀ p ∈ [lit "\x7b", lit ":", lit ",", lit "kty"], dquote ∉ p := by decide
  have hall : ∀ p ∈ frame name₁ member₁ kty name₂ member₂ tail, dquote ∉ p := by
    simp only [frame, cons_append, nil_append, forall_mem_cons] at hnames hno hlits ⊢
    tauto
  rw [splitOn_intercalate _ hall (by simp [frame])]
  cases htail : tail[3]? <;> simp [frame, htail]

theorem members_eq_pieces (ha : Reads a key) : ∃ text, canonicalJSON a = .ok text ∧
    members a = [7, 3, 11, 15].filterMap fun i : Nat => (text.splitOn dquote)[i]? := by
  have hend : dquote ∉ lit "\x7d" := by decide
  cases ha with
  | ec hkty hcurve hx _ hy _ =>
    refine ⟨[dquote].intercalate (frame (lit "crv") a.crv (lit "EC") (lit "x") a.x
      [lit ",", lit "y", lit ":", a.y, lit "\x7d"]), (if_pos hkty).trans ?_, ?_⟩
    · simp only [append_assoc]
      rfl
    · rw [members_ec hkty, members_of_frame (by decide)]
      · rfl
      · have hlits : ∀ p ∈ [lit ",", lit "y", lit ":"], dquote ∉ p := by decide
        simp only [forall_mem_cons] at hlits ⊢
        exact ⟨dquote_not_mem_crv hcurve, dquote_not_mem hx, hlits.1, hlits.2.1, hlits.2.2.1,
          dquote_not_mem hy, hend, hlits.2.2.2⟩
  | okp hkty hcrv hx _ =>
    have hne : lit "OKP" ≠ lit "EC" := by decide
    refine ⟨[dquote].intercalate (frame (lit "crv") a.crv (lit "OKP") (lit "x") a.x
      [lit "\x7d"]), ?_, ?_⟩
    · rw [canonicalJSON, hkty, if_neg hne, if_pos rfl]
      simp only [append_assoc]
      rfl
    · rw [members_okp hkty, members_of_frame (by decide)]
      · rfl
      · simp only [forall_mem_cons, hcrv]
        exact ⟨by decide, dquote_not_mem hx, hend, by simp⟩
  | rsa hkty hn _ he _ =>
    have hne : lit "RSA" ≠ lit "EC" ∧ lit "RSA" ≠ lit "OKP" := by decide
    refine ⟨[dquote].intercalate (frame (lit "e") a.e (lit "RSA") (lit "n") a.n [lit "\x7d"]), ?_, ?_⟩
    · rw [canonicalJSON, hkty, if_neg hne.1, if_neg hne.2, if_pos rfl]
      simp only [append_assoc]
      rfl
    · rw [members_rsa hkty, members_of_frame (by decide)]
      · rfl
      · simp only [forall_mem_cons]
        exact ⟨dquote_not_mem he, dquote_not_mem hn, hend, by simp⟩

theorem members_of_canonicalJSON {k : PublicKey} (ha : Reads a k) (hb : Reads b k')
    (h : canonicalJSON a = canonicalJSON b) : members a = members b := by
  obtain ⟨text, htext, ha⟩ := members_eq_pieces ha
  obtain ⟨text', htext', hb⟩ := members_eq_pieces hb
  rw [htext, htext', Except.ok.injEq] at h
  rw [ha, hb, h]

theorem members_inj (h : members a = members b) : a.kty = b.kty ∧
    (a.kty = lit "EC" → a.crv = b.crv ∧ a.x = b.x ∧ a.y = b.y) ∧
    (a.kty = lit "OKP" → a.crv = b.crv ∧ a.x = b.x) ∧
    (a.kty = lit "RSA" → a.e = b.e ∧ a.n = b.n) := by
  have hkty : a.kty = b.kty := by
    have hhead : ∀ jwk : JWK, (members jwk).head? = some jwk.kty := by
      intro jwk
      unfold members
      split_ifs <;> rfl
    have hsome := congrArg List.head? h
    rw [hhead, hhead] at hsome
    exact Option.some.inj hsome
  refine ⟨hkty, fun hk => ?_, fun hk => ?_, fun hk => ?_⟩
  · rw [members_ec hk, members_ec (hkty.symm.trans hk)] at h
    simpa using h
  · rw [members_okp hk, members_okp (hkty.symm.trans hk)] at h
    simpa using h
  · rw [members_rsa hk, members_rsa (hkty.symm.trans hk)] at h
    simpa using h

theorem of_members {k : PublicKey} (ha : Reads a k) (h : members a = members b) :
    canonicalJSON a = canonicalJSON b ∧ Reads b k := by
  obtain ⟨hkty, hec, hokp, hrsa⟩ := members_inj h
  cases ha with
  | ec hk hcurve hx hxl hy hyl =>
    have hk' := hkty.symm.trans hk
    obtain ⟨hcrv, hxx, hyy⟩ := hec hk
    rw [canonicalJSON, canonicalJSON, if_pos hk, if_pos hk', hcrv, hxx, hyy]
    exact ⟨rfl, .ec hk' (hcrv ▸ hcurve) (hxx ▸ hx) hxl (hyy ▸ hy) hyl⟩
  | okp hk hcrv hx hxl =>
    have hk' := hkty.symm.trans hk
    obtain ⟨hcc, hxx⟩ := hokp hk
    have hne : lit "OKP" ≠ lit "EC" := by decide
    rw [canonicalJSON, canonicalJSON, hk, hk', if_neg hne, if_neg hne, hcc, hxx]
    exact ⟨rfl, .okp hk' (hcc ▸ hcrv) (hxx ▸ hx) hxl⟩
  | rsa hk hn hnl he hel =>
    have hk' := hkty.symm.trans hk
    obtain ⟨hee, hnn⟩ := hrsa hk
    have hne : lit "RSA" ≠ lit "EC" ∧ lit "RSA" ≠ lit "OKP" := by decide
    rw [canonicalJSON, canonicalJSON, hk, hk', if_neg hne.1, if_neg hne.1, if_neg hne.2,
      if_neg hne.2, hee, hnn]
    exact ⟨rfl, .rsa hk' (hnn ▸ hn) hnl (hee ▸ he) hel⟩

theorem key_of_canonicalJSON {k : PublicKey} (ha : Reads a k) (hb : Reads b k')
    (h : canonicalJSON a = canonicalJSON b) : k = k' := by
  have hb' := (of_members ha (members_of_canonicalJSON ha hb h)).2
  exact Except.ok.inj ((ok_of_reads hb').symm.trans (ok_of_reads hb))

/-- The bytes of an RFC 7518 integer: no more than are needed, and one for zero. -/
def integerBytes (v : Nat) : Bytes := if v = 0 then [0] else natBytes v

/-- The members are spelled as RFC 7518 says: base 64 as `EncodeToString` writes it, integers without
zeros in front, and an exponent of 64 bits at most. -/
structure Canonical (jwk : JWK) : Prop where
  x : jwk.kty = lit "EC" ∨ jwk.kty = lit "OKP" → ∃ xs, jwk.x = encodeToString xs
  y : jwk.kty = lit "EC" → ∃ ys, jwk.y = encodeToString ys
  n : jwk.kty = lit "RSA" → ∃ n, jwk.n = encodeToString (integerBytes n)
  e : jwk.kty = lit "RSA" → ∃ e < 2 ^ 64, jwk.e = encodeToString (integerBytes e)

theorem beValue_integerBytes (v : Nat) : beValue (integerBytes v) = v := by
  rw [integerBytes]
  split
  · rename_i h
    rw [h]
    rfl
  · exact beValue_natBytes v

theorem integerBytes_length (v : Nat) : (integerBytes v).length ≠ 0 := by
  rw [integerBytes]
  split
  · exact Nat.one_ne_zero
  · rename_i h
    exact fun h0 => natBytes_ne_nil (Nat.pos_of_ne_zero h) (length_eq_zero_iff.mp h0)

theorem eq_of_int64 {w : Nat} (hv : v < 2 ^ 64) (hw : w < 2 ^ 64)
    (h : Int64.ofNat v = Int64.ofNat w) : v = w := by
  have hbits : UInt64.ofNat v = UInt64.ofNat w := congrArg Int64.toUInt64 h
  have hnat := congrArg UInt64.toNat hbits
  rwa [UInt64.toNat_ofNat_of_lt' hv, UInt64.toNat_ofNat_of_lt' hw] at hnat

theorem curve_unique {crv' : Bytes} {k' : Nat}
    (h : (crv, curve, k) ∈ curves) (h' : (crv', curve, k') ∈ curves) : crv = crv' ∧ k = k' := by
  simp only [curves, mem_cons, Prod.mk.injEq, not_mem_nil, or_false] at h h'
  rcases h with ⟨rfl, rfl, rfl⟩ | ⟨rfl, rfl, rfl⟩ <;> rcases h' with ⟨rfl, h, rfl⟩ | ⟨rfl, h, rfl⟩
  · exact ⟨rfl, rfl⟩
  · cases h
  · cases h
  · exact ⟨rfl, rfl⟩

theorem eq_of_decode {bs xs : Bytes} (hs : s = encodeToString xs) (h : decodeString s = some bs) :
    s = encodeToString bs := by
  rw [hs, decodeString_encodeToString] at h
  rw [hs, Option.some.inj h]

theorem members_of_canonical {k : PublicKey} (ha : Reads a k) (hb : Reads b k')
    (hca : Canonical a) (hcb : Canonical b) (h : k = k') : members a = members b := by
  cases ha with
  | ec hkty hcurve hx hxl hy hyl =>
    cases hb with
    | ec hkty' hcurve' hx' hxl' hy' hyl' =>
      obtain ⟨rfl, hvx, hvy⟩ := PublicKey.ecdsa.inj h
      obtain ⟨hcrv, rfl⟩ := curve_unique hcurve hcurve'
      have hxs := beValue_inj (hxl.trans hxl'.symm) hvx
      have hys := beValue_inj (hyl.trans hyl'.symm) hvy
      obtain ⟨_, hxa⟩ := hca.x (.inl hkty)
      obtain ⟨_, hxb⟩ := hcb.x (.inl hkty')
      obtain ⟨_, hya⟩ := hca.y hkty
      obtain ⟨_, hyb⟩ := hcb.y hkty'
      rw [members_ec hkty, members_ec hkty', hcrv, eq_of_decode hxa hx, eq_of_decode hxb hx',
        eq_of_decode hya hy, eq_of_decode hyb hy', hxs, hys]
    | okp => cases h
    | rsa => cases h
  | okp hkty hcrv hx _ =>
    cases hb with
    | ec => cases h
    | okp hkty' hcrv' hx' _ =>
      obtain rfl := PublicKey.ed25519.inj h
      obtain ⟨_, hxa⟩ := hca.x (.inr hkty)
      obtain ⟨_, hxb⟩ := hcb.x (.inr hkty')
      rw [members_okp hkty, members_okp hkty', hcrv, hcrv', eq_of_decode hxa hx, eq_of_decode hxb hx']
    | rsa => cases h
  | rsa hkty hn _ he _ =>
    cases hb with
    | ec => cases h
    | okp => cases h
    | rsa hkty' hn' _ he' _ =>
      obtain ⟨hvn, hve⟩ := PublicKey.rsa.inj h
      obtain ⟨n, hna⟩ := hca.n hkty
      obtain ⟨n', hnb⟩ := hcb.n hkty'
      obtain ⟨e, hlt, hea⟩ := hca.e hkty
      obtain ⟨e', hlt', heb⟩ := hcb.e hkty'
      rw [hna, decodeString_encodeToString] at hn
      rw [hnb, decodeString_encodeToString] at hn'
      rw [hea, decodeString_encodeToString] at he
      rw [heb, decodeString_encodeToString] at he'
      obtain rfl := Option.some.inj hn
      obtain rfl := Option.some.inj hn'
      obtain rfl := Option.some.inj he
      obtain rfl := Option.some.inj he'
      simp only [beValue_integerBytes] at hvn hve
      rw [members_rsa hkty, members_rsa hkty', hna, hnb, hea, heb, hvn, eq_of_int64 hlt hlt' hve]

theorem Canonical.of_members (hb : Canonical b) (h : members a = members b) : Canonical a := by
  obtain ⟨hkty, hec, hokp, hrsa⟩ := members_inj h
  refine ⟨fun hk => ?_, fun hk => ?_, fun hk => ?_, fun hk => ?_⟩
  · have hx : a.x = b.x := hk.elim (fun h => (hec h).2.1) (fun h => (hokp h).2)
    rw [hx]
    exact hb.x (hkty ▸ hk)
  · rw [(hec hk).2.2]
    exact hb.y (hkty ▸ hk)
  · rw [(hrsa hk).2]
    exact hb.n (hkty ▸ hk)
  · rw [(hrsa hk).1]
    exact hb.e (hkty ▸ hk)

theorem exists_canonical {k : PublicKey} (ha : Reads a k) : ∃ b, Reads b k ∧ Canonical b := by
  have hne : lit "EC" ≠ lit "RSA" ∧ lit "OKP" ≠ lit "EC" ∧ lit "OKP" ≠ lit "RSA" := by decide
  cases ha with
  | @ec _ _ xs ys hkty hcurve hx hxl hy hyl =>
    refine ⟨{ a with x := encodeToString xs, y := encodeToString ys },
      .ec hkty hcurve (decodeString_encodeToString xs) hxl (decodeString_encodeToString ys) hyl, ?_⟩
    exact ⟨fun _ => ⟨xs, rfl⟩, fun _ => ⟨ys, rfl⟩, fun h => absurd (hkty.symm.trans h) hne.1,
      fun h => absurd (hkty.symm.trans h) hne.1⟩
  | @okp key hkty hcrv hx hxl =>
    refine ⟨{ a with x := encodeToString key },
      .okp hkty hcrv (decodeString_encodeToString key) hxl, ?_⟩
    exact ⟨fun _ => ⟨key, rfl⟩, fun h => absurd (hkty.symm.trans h) hne.2.1,
      fun h => absurd (hkty.symm.trans h) hne.2.2, fun h => absurd (hkty.symm.trans h) hne.2.2⟩
  | @rsa ns es hkty hn hnl he hel =>
    let n := beValue ns
    let e := beValue es % 2 ^ 64
    have hmod : Int64.ofNat e = Int64.ofNat (beValue es) :=
      congrArg Int64.ofUInt64 UInt64.ofNat_mod_size
    have hread : Reads { a with n := encodeToString (integerBytes n)
                                e := encodeToString (integerBytes e) }
        (.rsa (beValue (integerBytes n)) (Int64.ofNat (beValue (integerBytes e)))) :=
      .rsa hkty (decodeString_encodeToString _) (integerBytes_length n)
        (decodeString_encodeToString _) (integerBytes_length e)
    rw [beValue_integerBytes, beValue_integerBytes, hmod] at hread
    refine ⟨_, hread, ?_⟩
    exact ⟨fun h => absurd hkty (h.elim (fun h => h ▸ hne.1) fun h => h ▸ hne.2.2),
      fun h => absurd (h.symm.trans hkty) hne.1, fun _ => ⟨n, rfl⟩,
      fun _ => ⟨e, Nat.mod_lt _ (by decide), rfl⟩⟩

/-- Thumbprints agree as the texts do that are hashed, if these two do not collide. -/
theorem computeThumbprint_eq_iff {sha256 : Bytes → Bytes} (hsha : ∀ s t, canonicalJSON a = .ok s →
    canonicalJSON b = .ok t → sha256 s = sha256 t → s = t) :
    computeThumbprint sha256 a = computeThumbprint sha256 b ↔ canonicalJSON a = canonicalJSON b := by
  refine ⟨fun h => ?_, congrArg (Except.map _)⟩
  unfold computeThumbprint at h
  cases ha : canonicalJSON a <;> cases hb : canonicalJSON b <;> rw [ha, hb] at h
  case ok.ok s t =>
    have hbytes := congrArg decodeString (Except.ok.inj h)
    rw [decodeString_encodeToString, decodeString_encodeToString] at hbytes
    rw [hsha s t ha hb (Option.some.inj hbytes)]
  all_goals
    cases h
  rfl

/-- **Which thumbprints identify the key.**  Equal texts are of equal keys; and the text of an
accepted JWK agrees with those of the canonically spelled ones, equal texts for equal keys and only
for them, exactly if it is spelled canonically itself. -/
theorem thumbprint_identifies_iff {a : JWK} {k : PublicKey} (ha : jwkToPublicKey a = .ok k) :
    (∀ b k', jwkToPublicKey b = .ok k' → canonicalJSON a = canonicalJSON b → k = k') ∧
    ((∀ b k', jwkToPublicKey b = .ok k' → Canonical b →
        (canonicalJSON a = canonicalJSON b ↔ k = k')) ↔ Canonical a) := by
  have hra := reads_of_ok ha
  refine ⟨fun b k' hb h => key_of_canonicalJSON hra (reads_of_ok hb) h, fun hall => ?_,
    fun hca b k' hb hcb => ?_⟩
  · obtain ⟨b, hb, hcb⟩ := exists_canonical hra
    have htext := (hall b k (ok_of_reads hb) hcb).mpr rfl
    exact hcb.of_members (members_of_canonicalJSON hra hb htext)
  · have hrb := reads_of_ok hb
    refine ⟨key_of_canonicalJSON hra hrb, fun hk => ?_⟩
    exact (of_members hra (members_of_canonical hra hrb hca hcb hk)).1

def smallRSA : JWK := { kty := lit "RSA", n := lit "uw", e := lit "AQAB" }

theorem thumbprint_identifies_iff_small :
    jwkToPublicKey smallRSA = .ok (.rsa 187 65537) ∧
    (∀ b k', jwkToPublicKey b = .ok k' → Canonical b →
      (canonicalJSON smallRSA = canonicalJSON b ↔ .rsa 187 65537 = k')) := by
  have hkey : jwkToPublicKey smallRSA = .ok (.rsa 187 65537) := by decide
  refine ⟨hkey, (thumbprint_identifies_iff hkey).2.mpr ?_⟩
  have hne : smallRSA.kty ≠ lit "EC" ∧ smallRSA.kty ≠ lit "OKP" := by decide
  exact ⟨fun h => (h.elim hne.1 hne.2).elim, fun h => absurd h hne.1,
    fun _ => ⟨187, by decide⟩, fun _ => ⟨65537, by decide, by decide⟩⟩

/-- The same key with a zero before the exponent: both are accepted, the keys are equal, and the texts
are not. -/
theorem thumbprint_respelled :
    jwkToPublicKey smallRSA = .ok (.rsa 187 65537) ∧
    jwkToPublicKey { smallRSA with e := lit "AAEAAQ" } = .ok (.rsa 187 65537) ∧
    canonicalJSON smallRSA ≠ canonicalJSON { smallRSA with e := lit "AAEAAQ" } := by
  decide

end AoniContrib.Dpop
