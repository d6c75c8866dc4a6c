/-
# DPoP proofs: `auth/dpop/proof.go`

`CreateProof` signs a compact JWS whose header carries the public key and whose claims bind the
proof to a method, to a target URI and to an access token.  `CreateProofForRequest` takes the target
from a request: the whole URL if it is absolute, else the scheme, the host and the request URI.

The library under the package is a PARAMETER, `Library`: `encoding/json` on the two records, the hash
functions, and the primitive signature checks.  What a private key does is the parameter `Signing`;
one value of it is one outcome of the random source.
-/
import AoniContrib.Dpop.Jwk
import AoniContrib.Go.Http
import AoniContrib.Go.Strconv
import AoniContrib.Go.Time
import AoniContrib.Go.UrlParse

namespace AoniContrib.Dpop

open Go

/-! ## 1. The records -/

structure ProofHeader where
  typ : Bytes
  alg : Bytes
  jwk : Option JWK
  deriving DecidableEq, Repr

structure ProofClaims where
  jti : Bytes
  htm : Bytes
  htu : Bytes
  iat : Int64
  nonce : Bytes := []
  ath : Bytes := []
  deriving DecidableEq, Repr

structure ProofOptions where
  nonce : Bytes := []
  accessToken : Bytes := []
  customJTI : Bytes := []
  iat : Time := ⟨0, 0⟩
  deriving DecidableEq, Repr

/-- `unicode.ToUpper`. -/
structure UpperTable where
  upper : Nat → Nat
  ascii : ∀ b : UInt8, b < 0x80 → upper b.toNat = if 0x61 ≤ b ∧ b ≤ 0x7a then b.toNat - 32 else b.toNat

/-- The table in which only ASCII letters have an upper case. -/
def UpperTable.asciiOnly : UpperTable where
  upper r := if 0x61 ≤ r ∧ r ≤ 0x7a then r - 32 else r
  ascii := by decide +kernel

def toUpper (T : UpperTable) (s : Bytes) : Bytes := (runes s).flatMap fun r => encodeRune (T.upper r)

/-- What the package calls.  `json.Marshal` of these records does not fail. -/
structure Library where
  unicode : Unicode
  upper : UpperTable
  hosts : HostRules
  marshalHeader : ProofHeader → Bytes
  unmarshalHeader : Bytes → Option ProofHeader
  marshalClaims : ProofClaims → Bytes
  unmarshalClaims : Bytes → Option ProofClaims
  sha256 : Bytes → Bytes
  sha384 : Bytes → Bytes
  /-- `ecdsa.Verify(key, hash, r, s)`. -/
  ecdsaVerify : PublicKey → Bytes → Nat → Nat → Bool
  /-- `ed25519.Verify(key, message, sig)`. -/
  ed25519Verify : PublicKey → Bytes → Bytes → Bool
  /-- `rsa.VerifyPKCS1v15(key, SHA256, hash, sig)`. -/
  verifyPKCS1v15 : PublicKey → Bytes → Bytes → Bool
  /-- `rsa.VerifyPSS(key, SHA256, hash, sig)`, with a salt as long as the hash. -/
  verifyPSS : PublicKey → Bytes → Bytes → Bool

/-- `crypto.PrivateKey`, with the public half where there is one.  A `signer` is any other type with a
method `Public`; what that returns may be of no type the package knows. -/
inductive PrivateKey (K : Type) where
  | ecdsa (k : K) (curve : Curve) (x y : Nat)
  | ed25519 (k : K) (key : Bytes)
  | rsa (k : K) (n : Nat) (e : Int64)
  | signer (pub : Option PublicKey)
  | other

/-- The signatures of the private keys.  Those of ECDSA and RSA can fail. -/
structure Signing (K : Type) where
  ecdsaSign : K → Bytes → Option (Nat × Nat)
  ed25519Sign : K → Bytes → Bytes
  signPKCS1v15 : K → Bytes → Option Bytes
  signPSS : K → Bytes → Option Bytes

/-! ## 2. The parts of a proof -/

def typeDPoPJWT : Bytes := lit "dpop+jwt"
def headerDPoP : Bytes := lit "DPoP"
def headerAuthorization : Bytes := lit "Authorization"
def schemeDPoP : Bytes := lit "DPoP"

section

variable (L : Library)

def computeAccessTokenHash (accessToken : Bytes) : Bytes := encodeToString (L.sha256 accessToken)

/-- What `NormalizeTargetURI` makes of a parsed URL. -/
def normalizeURL (u : URL) : URL :=
  { u with rawQuery := [], fragment := [], scheme := toLower L.unicode u.scheme
           path := if u.path = [] then [slash] else u.path }

def normalizeTargetURI (rawURI : Bytes) : Except DpopError Bytes :=
  if rawURI = [] then .error .invalidClaims
  else
    match parseURL L.hosts L.unicode rawURI with
    | none => .error .invalidClaims
    | some u => .ok (normalizeURL L u).string

end

/-- `GenerateJTI`: 18 random bytes, or the clock where the random source fails. -/
def generateJTI (rand : Option (Vector UInt8 18)) (now : Time) : Bytes :=
  match rand with
  | none => lit "jti-" ++ formatInt now.unixNano
  | some b => encodeToString b.toList

variable {K : Type}

def extractPublicKey : PrivateKey K → Option PublicKey
  | .ecdsa _ curve x y => some (.ecdsa curve x y)
  | .ed25519 _ key => some (.ed25519 key)
  | .rsa _ n e => some (.rsa n e)
  | .signer pub => pub
  | .other => none

/-- An ECDSA signature: the two numbers in `size` bytes each. -/
def ecdsaSignature (S : Signing K) (size : Nat) (k : K) (hash : Bytes) : Except DpopError Bytes :=
  match S.ecdsaSign k hash with
  | none => .error .sign
  | some (r, s) => do
    let r ← fillBytes size r
    let s ← fillBytes size s
    .ok (r ++ s)

def signatureOr (sig : Option Bytes) : Except DpopError Bytes :=
  match sig with
  | none => .error .sign
  | some sig => .ok sig

def signJWS (L : Library) (S : Signing K) (priv : PrivateKey K) (alg signingInput : Bytes) :
    Except DpopError Bytes :=
  match priv with
  | .ecdsa k _ _ _ =>
    if alg = algES256 then ecdsaSignature S 32 k (L.sha256 signingInput)
    else if alg = algES384 then ecdsaSignature S 48 k (L.sha384 signingInput)
    else .error .unsupportedKey
  | .ed25519 k _ => .ok (S.ed25519Sign k signingInput)
  | .rsa k _ _ =>
    if alg = algRS256 then signatureOr (S.signPKCS1v15 k (L.sha256 signingInput))
    else if alg = algPS256 then signatureOr (S.signPSS k (L.sha256 signingInput))
    else .error .unsupportedKey
  | _ => .error .unsupportedKey

/-! ## 3. `CreateProof` -/

@[simp] abbrev dot : UInt8 := 0x2e

def proofClaims (L : Library) (rand : Option (Vector UInt8 18)) (now : Time) (method normURI : Bytes)
    (opt : ProofOptions) : ProofClaims where
  jti := if opt.customJTI = [] then generateJTI rand now else opt.customJTI
  htm := toUpper L.upper (trimSpace method)
  htu := normURI
  iat := (if opt.iat.isZero then now else opt.iat).toUnix
  nonce := opt.nonce
  ath := if opt.accessToken = [] then [] else computeAccessTokenHash L opt.accessToken

/-- `CreateProof`; a nil key is `none`. -/
def createProof (L : Library) (S : Signing K) (rand : Option (Vector UInt8 18)) (now : Time)
    (privKey : Option (PrivateKey K)) (method targetURI : Bytes) (opts : List ProofOptions) :
    Except DpopError Bytes :=
  match privKey with
  | none => .error .unsupportedKey
  | some privKey =>
    match extractPublicKey privKey with
    | none => .error .unsupportedKey
    | some pubKey => do
      let (jwk, defaultAlg) ← publicKeyToJWK pubKey
      let headerB64 := encodeToString (L.marshalHeader ⟨typeDPoPJWT, defaultAlg, some jwk⟩)
      let normURI ← normalizeTargetURI L targetURI
      let claims := proofClaims L rand now method normURI (opts.headD {})
      let claimsB64 := encodeToString (L.marshalClaims claims)
      let signingInput := headerB64 ++ dot :: claimsB64
      let sig ← signJWS L S privKey defaultAlg signingInput
      .ok (signingInput ++ dot :: encodeToString sig)

/-! ## 4. Requests -/

/-- `http.Request`, with whether it came over TLS. -/
structure HttpRequest extends Request where
  tls : Bool := false
  deriving DecidableEq

/-- The target that both ends take from the URL of a request. -/
def targetURL (req : HttpRequest) (u : URL) : Bytes :=
  if u.scheme ≠ [] then u.string
  else if req.host ≠ [] then
    (if req.tls then lit "https" else lit "http") ++ lit "://" ++ req.host ++ u.requestURI
  else u.string

def createProofForRequest (L : Library) (S : Signing K) (rand : Option (Vector UInt8 18)) (now : Time)
    (req : Option HttpRequest) (privKey : Option (PrivateKey K)) (opts : List ProofOptions) :
    Except DpopError Bytes :=
  match req with
  | none => .error .nilRequest
  | some req =>
    let target := match req.url with
      | none => []
      | some u => targetURL req u
    createProof L S rand now privKey req.method target opts

end AoniContrib.Dpop
