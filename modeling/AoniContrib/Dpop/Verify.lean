/-
# Verifying DPoP proofs: `auth/dpop/verify.go`

`VerifyProof` reads the header, checks the signature with the key that the header carries, and then
checks the claims against the configuration.  `verifyProof_eq_ok` says once what an accepted proof is;
everything below rests on it.
-/
import AoniContrib.Dpop.Codec

namespace AoniContrib.Dpop

open Go List

/-! ## 1. The verifier -/

structure VerifierConfig where
  expectedMethod : Bytes := []
  expectedURI : Bytes := []
  accessToken : Bytes := []
  expectedNonce : Bytes := []
  maxAge : Duration := 0
  allowedClockSkew : Duration := 0
  deriving DecidableEq, Repr

def require (cond : Prop) [Decidable cond] (e : DpopError) : Except DpopError Unit :=
  if cond then .ok () else .error e

def orError {α : Type} (x : Option α) (e : DpopError) : Except DpopError α :=
  match x with
  | none => .error e
  | some a => .ok a

def splitProof (proofJWT : Bytes) : Except DpopError (Bytes × Bytes × Bytes) :=
  let proofJWT := trimSpace proofJWT
  if proofJWT = [] then .error .invalidDPoPProof
  else
    match proofJWT.splitOn dot with
    | [headerB64, claimsB64, sigB64] => .ok (headerB64, claimsB64, sigB64)
    | _ => .error .invalidDPoPProof

section

variable (L : Library)

/-- The algorithms that RFC 9449 forbids: `none` and the symmetric ones. -/
def prohibited (alg : Bytes) : Bool :=
  equalFold L.unicode alg (lit "none") || (lit "HS").isPrefixOf (toUpper L.upper alg)

def verifyECDSA (size : Nat) (key : PublicKey) (hash sig : Bytes) : Except DpopError Unit :=
  if sig.length ≠ 2 * size then .error .invalidSignature
  else
    require (L.ecdsaVerify key hash (beValue (sig.take size)) (beValue (sig.drop size)) = true)
      .invalidSignature

def verifyJWSSignature (pub : PublicKey) (alg signingInput sig : Bytes) : Except DpopError Unit :=
  match pub with
  | .ecdsa _ _ _ =>
    if alg = algES256 then verifyECDSA L 32 pub (L.sha256 signingInput) sig
    else if alg = algES384 then verifyECDSA L 48 pub (L.sha384 signingInput) sig
    else .error .unsupportedKey
  | .ed25519 _ =>
    -- the algorithm is not looked at
    if sig.length ≠ 64 then .error .invalidSignature
    else require (L.ed25519Verify pub signingInput sig = true) .invalidSignature
  | .rsa _ _ =>
    if alg = algRS256 then
      require (L.verifyPKCS1v15 pub (L.sha256 signingInput) sig = true) .invalidSignature
    else if alg = algPS256 then
      require (L.verifyPSS pub (L.sha256 signingInput) sig = true) .invalidSignature
    else .error .unsupportedKey

def readHeader (headerB64 : Bytes) : Except DpopError ProofHeader :=
  orError ((decodeString headerB64).bind L.unmarshalHeader) .invalidHeader

def readClaims (claimsB64 : Bytes) : Except DpopError ProofClaims :=
  orError ((decodeString claimsB64).bind L.unmarshalClaims) .invalidClaims

variable (cfg : VerifierConfig) (now : Time)

def checkMethod (claims : ProofClaims) : Except DpopError Unit :=
  require (cfg.expectedMethod ≠ [] → equalFold L.unicode claims.htm cfg.expectedMethod = true)
    .methodMismatch

def checkURI (claims : ProofClaims) : Except DpopError Unit :=
  if cfg.expectedURI = [] then .ok ()
  else do
    let expectedNorm ← normalizeTargetURI L cfg.expectedURI
    require (claims.htu = expectedNorm) .uriMismatch

def VerifierConfig.skew : Duration :=
  if cfg.allowedClockSkew ≤ 0 then Time.minute else cfg.allowedClockSkew

def VerifierConfig.age : Duration := if cfg.maxAge ≤ 0 then 5 * Time.minute else cfg.maxAge

def checkTime (iat : Int64) : Except DpopError Unit :=
  let iatTime := Time.unix iat
  if iatTime.after (now.add cfg.skew) then .error .proofInFuture
  else if cfg.age + cfg.skew < now.sub iatTime then .error .proofExpired
  else .ok ()

def checkToken (claims : ProofClaims) : Except DpopError Unit :=
  require (cfg.accessToken ≠ [] → claims.ath = computeAccessTokenHash L cfg.accessToken)
    .accessTokenMismatch

def checkNonce (claims : ProofClaims) : Except DpopError Unit :=
  require (cfg.expectedNonce ≠ [] → claims.nonce = cfg.expectedNonce) .nonceMismatch

def verifyProof (proofJWT : Bytes) : Except DpopError (ProofClaims × JWK) := do
  let (headerB64, claimsB64, sigB64) ← splitProof proofJWT
  let header ← readHeader L headerB64
  require (equalFold L.unicode header.typ typeDPoPJWT = true) .invalidHeader
  let jwk ← orError header.jwk .invalidHeader
  require (prohibited L header.alg = false) .unsupportedKey
  let pubKey ← jwkToPublicKey jwk
  let sigBytes ← orError (decodeString sigB64) .invalidSignature
  verifyJWSSignature L pubKey header.alg (headerB64 ++ dot :: claimsB64) sigBytes
  let claims ← readClaims L claimsB64
  require (claims.jti ≠ []) .invalidClaims
  checkMethod L cfg claims
  checkURI L cfg claims
  checkTime cfg now claims.iat
  checkToken L cfg claims
  checkNonce cfg claims
  .ok (claims, jwk)

/-- The access token that `VerifyProofForRequest` takes from an `Authorization` header. -/
def extractToken (authVal : Bytes) : Bytes :=
  if (schemeDPoP ++ [0x20]).isPrefixOf authVal then trimSpace (authVal.drop (schemeDPoP.length + 1))
  else []

/-- The configuration, with what a request fills in. -/
def VerifierConfig.forRequest (req : HttpRequest) : VerifierConfig :=
  { cfg with
    expectedMethod := if cfg.expectedMethod = [] then req.method else cfg.expectedMethod
    expectedURI := if cfg.expectedURI = [] then
        match req.url with
        | none => []
        | some u => targetURL req u
      else cfg.expectedURI
    accessToken :=
      if cfg.accessToken = [] then extractToken (req.header.get headerAuthorization)
      else cfg.accessToken }

def verifyProofForRequest (req : Option HttpRequest) : Except DpopError (ProofClaims × JWK) :=
  match req with
  | none => .error .nilRequest
  | some req =>
    if req.header.get headerDPoP = [] then .error .invalidDPoPProof
    else verifyProof L (cfg.forRequest req) now (req.header.get headerDPoP)

end

/-! ## 2. What is accepted -/

variable {e : DpopError}

theorem require_eq_ok {cond : Prop} [Decidable cond] {u : Unit} : require cond e = .ok u ↔ cond := by
  unfold require
  split_ifs with h
  · exact ⟨fun _ => h, fun _ => rfl⟩
  · exact ⟨fun hok => (nomatch hok), fun hc => absurd hc h⟩

theorem orError_eq_ok {α : Type} {x : Option α} {a : α} : orError x e = .ok a ↔ x = some a := by
  cases x with
  | none => exact ⟨fun h => (nomatch h), fun h => (nomatch h)⟩
  | some b =>
    refine ⟨fun h => ?_, fun h => ?_⟩
    · cases h
      rfl
    · cases h
      rfl

/-- The header and the signature of an accepted proof. -/
structure Signed (L : Library) (headerB64 claimsB64 sigB64 : Bytes) (header : ProofHeader) (jwk : JWK)
    (key : PublicKey) (sig : Bytes) : Prop where
  decoded : (decodeString headerB64).bind L.unmarshalHeader = some header
  typ : equalFold L.unicode header.typ typeDPoPJWT = true
  carried : header.jwk = some jwk
  permitted : prohibited L header.alg = false
  read : jwkToPublicKey jwk = .ok key
  sigDecoded : decodeString sigB64 = some sig
  valid : verifyJWSSignature L key header.alg (headerB64 ++ dot :: claimsB64) sig = .ok ()

/-- The claims of an accepted proof. -/
structure Admitted (L : Library) (cfg : VerifierConfig) (now : Time) (claims : ProofClaims) : Prop where
  jti : claims.jti ≠ []
  method : cfg.expectedMethod ≠ [] → equalFold L.unicode claims.htm cfg.expectedMethod = true
  uri : cfg.expectedURI ≠ [] → normalizeTargetURI L cfg.expectedURI = .ok claims.htu
  time : checkTime cfg now claims.iat = .ok ()
  token : cfg.accessToken ≠ [] → claims.ath = computeAccessTokenHash L cfg.accessToken
  nonce : cfg.expectedNonce ≠ [] → claims.nonce = cfg.expectedNonce

variable {L : Library} {cfg : VerifierConfig} {now : Time}

variable {claims : ProofClaims}

theorem checkURI_eq_ok {u : Unit} : checkURI L cfg claims = .ok u ↔
    (cfg.expectedURI ≠ [] → normalizeTargetURI L cfg.expectedURI = .ok claims.htu) := by
  unfold checkURI
  split_ifs with h
  · exact ⟨fun _ hne => absurd h hne, fun _ => rfl⟩
  · rw [bind_eq_ok]
    constructor
    · rintro ⟨norm, hnorm, hreq⟩ -
      rw [require_eq_ok.mp hreq, hnorm]
    · exact fun hnorm => ⟨_, hnorm h, require_eq_ok.mpr rfl⟩

/-- **What an accepted proof is**: three parts, a header whose signature checks, and claims that the
configuration admits. -/
theorem verifyProof_eq_ok {proof : Bytes} {jwk : JWK} :
    verifyProof L cfg now proof = .ok (claims, jwk) ↔ ∃ headerB64 claimsB64 sigB64 header key sig,
        splitProof proof = .ok (headerB64, claimsB64, sigB64) ∧
        Signed L headerB64 claimsB64 sigB64 header jwk key sig ∧
        (decodeString claimsB64).bind L.unmarshalClaims = some claims ∧ Admitted L cfg now claims := by
  simp only [verifyProof, bind_eq_ok, readHeader, readClaims, orError_eq_ok, checkMethod, checkToken,
    checkNonce, checkURI_eq_ok]
  constructor
  · rintro ⟨⟨h64, c64, s64⟩, hsplit, header, hheader, _, htyp, jwk', hjwk, _, hper, key, hkey, sig,
      hsig, _, hvalid, claims', hclaims, _, hjti, _, hmethod, _, huri, _, htime, _, htoken, _, hnonce,
      hok⟩
    cases hok
    exact ⟨h64, c64, s64, header, key, sig, hsplit,
      ⟨hheader, require_eq_ok.mp htyp, hjwk, require_eq_ok.mp hper, hkey, hsig, hvalid⟩, hclaims,
      ⟨require_eq_ok.mp hjti, require_eq_ok.mp hmethod, huri, htime, require_eq_ok.mp htoken,
        require_eq_ok.mp hnonce⟩⟩
  · rintro ⟨h64, c64, s64, header, key, sig, hsplit, hs, hclaims, ha⟩
    exact ⟨⟨h64, c64, s64⟩, hsplit, header, hs.decoded, (), require_eq_ok.mpr hs.typ, jwk, hs.carried, (),
      require_eq_ok.mpr hs.permitted, key, hs.read, sig, hs.sigDecoded, (), hs.valid, claims, hclaims, (),
      require_eq_ok.mpr ha.jti, (), require_eq_ok.mpr ha.method, (), ha.uri, (), ha.time, (),
      require_eq_ok.mpr ha.token, (), require_eq_ok.mpr ha.nonce, rfl⟩

/-! ## 3. The compact form -/

/-- A header, claims and a signature in their compact form. -/
def compact (header claims sig : Bytes) : Bytes :=
  (encodeToString header ++ dot :: encodeToString claims) ++ dot :: encodeToString sig

theorem encodeToString_byte {s : Bytes} {b : UInt8} (h : b ∈ encodeToString s) :
    isSolid b = true ∧ b ≠ dot := by
  obtain ⟨n, hn, rfl⟩ := urlEncoding.mem_encodeRaw s h
  have hall : ∀ n < 64, isSolid (urlEncoding.char n) = true ∧ urlEncoding.char n ≠ dot := by decide
  exact hall n hn

theorem compact_solid {header claims sig : Bytes} {b : UInt8} (h : b ∈ compact header claims sig) :
    isSolid b = true := by
  simp only [compact, mem_append, mem_cons] at h
  rcases h with (h | h | h) | h | h
  · exact (encodeToString_byte h).1
  · rw [h]
    rfl
  · exact (encodeToString_byte h).1
  · rw [h]
    rfl
  · exact (encodeToString_byte h).1

theorem splitProof_compact (header claims sig : Bytes) : splitProof (compact header claims sig) =
      .ok (encodeToString header, encodeToString claims, encodeToString sig) := by
  have hdot (s : Bytes) : dot ∉ encodeToString s := fun h => (encodeToString_byte h).2 rfl
  have htrim : trimSpace (compact header claims sig) = compact header claims sig :=
    trimSpace_solid (fun b hb => compact_solid (mem_of_mem_head? hb))
      (fun b hb => compact_solid (mem_of_getLast? hb))
  have hne : compact header claims sig ≠ [] := by
    intro hnil
    have hmem : dot ∈ compact header claims sig := by simp [compact]
    rw [hnil] at hmem
    exact not_mem_nil hmem
  have hsplit : (compact header claims sig).splitOn dot =
      [encodeToString header, encodeToString claims, encodeToString sig] := by
    rw [compact, append_assoc, cons_append,
      splitOn_append_cons_self_of_not_mem (hdot header),
      splitOn_append_cons_self_of_not_mem (hdot claims), splitOn_eq_singleton (hdot sig)]
  simp only [splitProof, htrim, if_neg hne, hsplit]

theorem verifyProof_compact {headerJSON claimsJSON sig : Bytes} {header : ProofHeader} {jwk : JWK} {key : PublicKey}
    (hheader : L.unmarshalHeader headerJSON = some header)
    (htyp : equalFold L.unicode header.typ typeDPoPJWT = true) (hjwk : header.jwk = some jwk)
    (hper : prohibited L header.alg = false) (hkey : jwkToPublicKey jwk = .ok key)
    (hvalid : verifyJWSSignature L key header.alg
      (encodeToString headerJSON ++ dot :: encodeToString claimsJSON) sig = .ok ())
    (hclaims : L.unmarshalClaims claimsJSON = some claims) (hadm : Admitted L cfg now claims) :
    verifyProof L cfg now (compact headerJSON claimsJSON sig) = .ok (claims, jwk) := by
  refine verifyProof_eq_ok.mpr ⟨_, _, _, header, key, sig, splitProof_compact _ _ _,
    ⟨?_, htyp, hjwk, hper, hkey, decodeString_encodeToString sig, hvalid⟩, ?_, hadm⟩
  · rw [decodeString_encodeToString, Option.bind_some, hheader]
  · rw [decodeString_encodeToString, Option.bind_some, hclaims]

end AoniContrib.Dpop
