/-
# The algorithm of an accepted proof

RFC 7518 and RFC 8037 pair each kind of key with its algorithms: ES256 with P-256, ES384 with P-384,
EdDSA with Ed25519, RS256 and PS256 with RSA.  `verifyJWSSignature` decides by the type of the key
first.  For RSA it then insists on one of the two algorithms, but for ECDSA it does not look at the
curve, and for Ed25519 it does not look at the algorithm at all: an Ed25519 proof is accepted under
the name of any algorithm that is not prohibited (`foreign_alg_accepted`).

`alg_paired_iff` says that these are the only ways to pass with a foreign algorithm.
-/
import AoniContrib.Dpop.Verify

namespace AoniContrib.Dpop

open Go

variable {alg input sig : Bytes} {key : PublicKey}

variable {L : Library} {cfg : VerifierConfig} {now : Time}

/-! ## 1. The pairing -/

def Paired (alg : Bytes) : PublicKey → Prop
  | .ecdsa .p256 _ _ => alg = algES256
  | .ecdsa .p384 _ _ => alg = algES384
  | .ecdsa _ _ _ => False
  | .ed25519 _ => alg = algEdDSA
  | .rsa _ _ => alg = algRS256 ∨ alg = algPS256

/-- The signature is valid under the algorithm. -/
inductive ValidUnder (L : Library) (key : PublicKey) (input sig : Bytes) : Bytes → Prop where
  | es256 : sig.length = 64 →
      L.ecdsaVerify key (L.sha256 input) (beValue (sig.take 32)) (beValue (sig.drop 32)) = true →
      ValidUnder L key input sig algES256
  | es384 : sig.length = 96 →
      L.ecdsaVerify key (L.sha384 input) (beValue (sig.take 48)) (beValue (sig.drop 48)) = true →
      ValidUnder L key input sig algES384
  | eddsa : sig.length = 64 → L.ed25519Verify key input sig = true →
      ValidUnder L key input sig algEdDSA
  | rs256 : L.verifyPKCS1v15 key (L.sha256 input) sig = true → ValidUnder L key input sig algRS256
  | ps256 : L.verifyPSS key (L.sha256 input) sig = true → ValidUnder L key input sig algPS256

/-- What a header has to say for its algorithm to be that of its key: an `OKP` key goes with EdDSA,
and a key on one of the curves does not name the algorithm of the other. -/
def Belongs (alg : Bytes) (jwk : JWK) : Prop :=
  (jwk.kty = lit "OKP" → alg = algEdDSA) ∧
    (jwk.kty = lit "EC" → jwk.crv = lit "P-256" → alg ≠ algES384) ∧
    (jwk.kty = lit "EC" → jwk.crv = lit "P-384" → alg ≠ algES256)

/-! ## 2. The check of the signature -/

theorem verifyECDSA_eq_ok {size : Nat} {hash : Bytes} :
    verifyECDSA L size key hash sig = .ok () ↔ sig.length = 2 * size ∧
      L.ecdsaVerify key hash (beValue (sig.take size)) (beValue (sig.drop size)) = true := by
  unfold verifyECDSA
  split_ifs with h
  · refine ⟨fun hok => ?_, fun hc => absurd hc.1 h⟩
    cases hok
  · rw [require_eq_ok]
    exact ⟨fun hv => ⟨not_not.mp h, hv⟩, fun hc => hc.2⟩

theorem verify_ecdsa {curve : Curve} {x y : Nat}
    (h : verifyJWSSignature L (.ecdsa curve x y) alg input sig = .ok ()) :
    (alg = algES256 ∨ alg = algES384) ∧ ValidUnder L (.ecdsa curve x y) input sig alg := by
  unfold verifyJWSSignature at h
  dsimp only at h
  split_ifs at h with h256 h384
  · obtain ⟨hlen, hv⟩ := verifyECDSA_eq_ok.mp h
    subst h256
    exact ⟨.inl rfl, .es256 hlen hv⟩
  · obtain ⟨hlen, hv⟩ := verifyECDSA_eq_ok.mp h
    subst h384
    exact ⟨.inr rfl, .es384 hlen hv⟩

theorem verify_ed25519 {key : Bytes}
    (h : verifyJWSSignature L (.ed25519 key) alg input sig = .ok ()) :
    ValidUnder L (.ed25519 key) input sig algEdDSA := by
  unfold verifyJWSSignature at h
  dsimp only at h
  split_ifs at h with hlen
  exact .eddsa (not_not.mp hlen) (require_eq_ok.mp h)

theorem ok_of_ed25519 {key : Bytes} (hlen : sig.length = 64)
    (hv : L.ed25519Verify (.ed25519 key) input sig = true) :
    verifyJWSSignature L (.ed25519 key) alg input sig = .ok () := by
  unfold verifyJWSSignature
  dsimp only
  rw [if_neg (not_not.mpr hlen)]
  exact require_eq_ok.mpr hv

theorem verify_rsa {n : Nat} {e : Int64}
    (h : verifyJWSSignature L (.rsa n e) alg input sig = .ok ()) :
    (alg = algRS256 ∨ alg = algPS256) ∧ ValidUnder L (.rsa n e) input sig alg := by
  unfold verifyJWSSignature at h
  dsimp only at h
  split_ifs at h with hrs hps
  · subst hrs
    exact ⟨.inl rfl, .rs256 (require_eq_ok.mp h)⟩
  · subst hps
    exact ⟨.inr rfl, .ps256 (require_eq_ok.mp h)⟩

theorem validUnder_of_paired (hp : Paired alg key)
    (h : verifyJWSSignature L key alg input sig = .ok ()) : ValidUnder L key input sig alg := by
  cases key with
  | ecdsa curve x y => exact (verify_ecdsa h).2
  | ed25519 key =>
    obtain rfl : alg = algEdDSA := hp
    exact verify_ed25519 h
  | rsa n e => exact (verify_rsa h).2

theorem paired_iff_belongs {jwk : JWK}
    (hread : Reads jwk key) (h : verifyJWSSignature L key alg input sig = .ok ()) :
    Paired alg key ↔ Belongs alg jwk := by
  have hne : algES256 ≠ algES384 := by decide
  cases hread with
  | ec hkty hcurve =>
    have hokp : lit "EC" ≠ lit "OKP" := by decide
    have hcrv : lit "P-256" ≠ lit "P-384" := by decide
    obtain ⟨halg, -⟩ := verify_ecdsa h
    simp only [curves, List.mem_cons, Prod.mk.injEq, List.not_mem_nil, or_false] at hcurve
    rw [Belongs, hkty]
    rcases hcurve with ⟨hc, rfl, rfl⟩ | ⟨hc, rfl, rfl⟩
    · rw [hc]
      constructor
      · rintro rfl
        exact ⟨fun h => absurd h hokp, fun _ _ => hne, fun _ h => absurd h hcrv⟩
      · rintro ⟨-, h384, -⟩
        exact halg.resolve_right (h384 rfl rfl)
    · rw [hc]
      constructor
      · rintro rfl
        exact ⟨fun h => absurd h hokp, fun _ h => absurd h hcrv.symm, fun _ _ => hne.symm⟩
      · rintro ⟨-, -, h256⟩
        exact halg.resolve_left (h256 rfl rfl)
  | okp hkty =>
    have hec : lit "OKP" ≠ lit "EC" := by decide
    rw [Belongs, hkty]
    exact ⟨fun halg => ⟨fun _ => halg, fun h => absurd h hec, fun h => absurd h hec⟩,
      fun hb => hb.1 rfl⟩
  | rsa hkty =>
    have hec : lit "RSA" ≠ lit "EC" := by decide
    have hokp : lit "RSA" ≠ lit "OKP" := by decide
    rw [Belongs, hkty]
    exact ⟨fun _ => ⟨fun h => absurd h hokp, fun h => absurd h hec, fun h => absurd h hec⟩,
      fun _ => (verify_rsa h).1⟩

/-! ## 3. Accepted proofs -/

/-- **The algorithm of an accepted proof** is one of its key's, with the signature valid under it over
the two segments as they were received, exactly if the header's algorithm belongs to its JWK. -/
theorem alg_paired_iff {proof headerB64 claimsB64 sigB64 : Bytes} {header : ProofHeader}
    {claims : ProofClaims} {jwk : JWK} (hok : verifyProof L cfg now proof = .ok (claims, jwk))
    (hsplit : splitProof proof = .ok (headerB64, claimsB64, sigB64))
    (hheader : readHeader L headerB64 = .ok header) :
    (∃ key sig, jwkToPublicKey jwk = .ok key ∧ decodeString sigB64 = some sig ∧
        Paired header.alg key ∧
        ValidUnder L key (headerB64 ++ dot :: claimsB64) sig header.alg) ↔
      Belongs header.alg jwk := by
  obtain ⟨h64, c64, s64, header', key, sig, hsplit', hs, -, -⟩ := verifyProof_eq_ok.mp hok
  obtain ⟨rfl, rfl, rfl⟩ : h64 = headerB64 ∧ c64 = claimsB64 ∧ s64 = sigB64 := by
    rw [hsplit] at hsplit'
    cases hsplit'
    exact ⟨rfl, rfl, rfl⟩
  obtain rfl : header' = header := by
    have := hs.decoded
    rw [orError_eq_ok.mp hheader] at this
    exact (Option.some.inj this).symm
  have hread := reads_of_ok hs.read
  constructor
  · rintro ⟨key', sig', hkey', -, hp, -⟩
    obtain rfl : key' = key := by
      rw [hs.read] at hkey'
      cases hkey'
      rfl
    exact (paired_iff_belongs hread hs.valid).mp hp
  · intro hb
    have hp := (paired_iff_belongs hread hs.valid).mpr hb
    exact ⟨key, sig, hs.read, hs.sigDecoded, hp, validUnder_of_paired hp hs.valid⟩

/-! ### An Ed25519 proof under the name of an algorithm -/

def sampleJWK : JWK :=
  { kty := lit "OKP", crv := lit "Ed25519", x := encodeToString (List.replicate 32 0) }

def sampleClaims : ProofClaims :=
  { jti := lit "j", htm := lit "GET", htu := lit "http://h/", iat := 1700000000 }

def sampleHeader (alg : Bytes) : ProofHeader := ⟨typeDPoPJWT, alg, some sampleJWK⟩

def sampleProof (alg : Bytes) (claims : ProofClaims) : Bytes :=
  compact (Library.json.marshalHeader (sampleHeader alg)) (Library.json.marshalClaims claims)
    (List.replicate 64 0)

theorem sampleKey_read : jwkToPublicKey sampleJWK = .ok (.ed25519 (List.replicate 32 0)) :=
  ok_of_reads (.okp rfl rfl (decodeString_encodeToString _) List.length_replicate)

theorem alg_paired_iff_eddsa : ∃ headerB64 claimsB64 sigB64,
    verifyProof .json {} (Time.unix 1700000000) (sampleProof algEdDSA sampleClaims) =
      .ok (sampleClaims, sampleJWK) ∧
    splitProof (sampleProof algEdDSA sampleClaims) = .ok (headerB64, claimsB64, sigB64) ∧
    readHeader .json headerB64 = .ok (sampleHeader algEdDSA) ∧
    ((∃ key sig, jwkToPublicKey sampleJWK = .ok key ∧ decodeString sigB64 = some sig ∧
        Paired algEdDSA key ∧
        ValidUnder .json key (headerB64 ++ dot :: claimsB64) sig algEdDSA) ↔
      Belongs algEdDSA sampleJWK) := by
  have hok : verifyProof .json {} (Time.unix 1700000000) (sampleProof algEdDSA sampleClaims) =
      .ok (sampleClaims, sampleJWK) := by decide +kernel
  have hsplit := splitProof_compact (Library.json.marshalHeader (sampleHeader algEdDSA))
    (Library.json.marshalClaims sampleClaims) (List.replicate 64 0)
  have hheader : readHeader .json (encodeToString (Library.json.marshalHeader (sampleHeader algEdDSA))) =
      .ok (sampleHeader algEdDSA) := by decide +kernel
  exact ⟨_, _, _, hok, hsplit, hheader, alg_paired_iff hok hsplit hheader⟩

/-- **An Ed25519 proof that names RS256 is accepted.** -/
theorem foreign_alg_accepted : ∃ headerB64 claimsB64 sigB64,
    verifyProof .json {} (Time.unix 1700000000) (sampleProof algRS256 sampleClaims) =
      .ok (sampleClaims, sampleJWK) ∧
    splitProof (sampleProof algRS256 sampleClaims) = .ok (headerB64, claimsB64, sigB64) ∧
    readHeader .json headerB64 = .ok (sampleHeader algRS256) ∧
    ¬ ∃ key sig, jwkToPublicKey sampleJWK = .ok key ∧ decodeString sigB64 = some sig ∧
      Paired algRS256 key ∧
      ValidUnder .json key (headerB64 ++ dot :: claimsB64) sig algRS256 := by
  refine ⟨_, _, _, by decide +kernel, splitProof_compact _ _ _, by decide +kernel, ?_⟩
  rintro ⟨key, sig, hkey, -, hp, -⟩
  rw [sampleKey_read] at hkey
  cases hkey
  have hne : algRS256 ≠ algEdDSA := by decide
  exact hne hp

end AoniContrib.Dpop
