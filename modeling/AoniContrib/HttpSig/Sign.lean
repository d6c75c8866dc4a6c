/-
# Signing: `auth/httpsig/sign.go`

`Sign` builds the signature parameters, hands the signature base to the signer and returns the
two header members; `SignRequest` and `SignResponse` run it on a message and append the
members to the message's headers.  `now` is the answer of `time.Now`.
-/
import AoniContrib.HttpSig.Base

namespace AoniContrib.HttpSig

open Go

variable (U : Unicode)

/-- The signature label: the configured one, or `sig1`. -/
def SignConfig.labelOrDefault (cfg : SignConfig) : Bytes :=
  if cfg.label = [] then lit "sig1" else cfg.label

/-- The covered components: the configured ones, or the default for the kind of message. -/
def SignConfig.componentsFor (cfg : SignConfig) (ctx : RequestContext) : List Bytes :=
  if cfg.components = [] then
    if ctx.isResponse then [compStatus] else [compMethod, compAuthority, compPath]
  else cfg.components

def signParams (ctx : RequestContext) (cfg : SignConfig) (signer : Signer) (now : Time) :
    SignatureParams where
  label := cfg.labelOrDefault
  components := cfg.componentsFor ctx
  created := (if cfg.created.isZero then now else cfg.created).toUnix
  expires := if cfg.expires.isZero then 0 else cfg.expires.toUnix
  nonce := cfg.nonce
  alg := signer.algorithm
  keyID := signer.keyID
  tag := cfg.tag

/-- `Sign`: the `Signature-Input` member and the `Signature` member. -/
def sign (ord : Nat → MapOrder) (ctx : RequestContext) (cfg : SignConfig) (now : Time) :
    Except Err (Bytes × Bytes) :=
  match cfg.signer with
  | none => .error (.new "httpsig: signer is required")
  | some signer =>
    let params := signParams ctx cfg signer now
    match buildSignatureBase U ord ctx params with
    | .error err => .error (.cause none "httpsig: failed to build signature base: %w" [] err)
    | .ok baseBytes =>
      match signer.sign baseBytes with
      | .error err => .error (.cause none "httpsig: cryptographic signing failed: %w" [] err)
      | .ok sigBytes =>
        match serializeSignatureParams U params with
        | .error err => .error (.cause none "httpsig: failed to serialize signature params: %w" [] err)
        | .ok serializedParams =>
          .ok (params.label ++ [equals] ++ serializedParams,
            params.label ++ lit "=:" ++ stdEncoding.encode sigBytes ++ [colon])

def appendHeader (header : Header) (key member : Bytes) : Header :=
  let existing := header.get key
  if existing = [] then header.set key member
  else header.set key (existing ++ lit ", " ++ member)

/-- The `RequestContext` that `SignRequest` and `VerifyRequest` make of a request. -/
def requestContext (req : Request) : RequestContext where
  method := req.method
  url := req.url
  header := some req.header
  isResponse := false

/-- `SignRequest`: the request with the two members appended to its headers. -/
def signRequest (ord : Nat → MapOrder) (req : Request) (cfg : SignConfig) (now : Time) :
    Except Err Request := do
  let (inputMember, sigMember) ← sign U ord (requestContext req) cfg now
  .ok { req with
    header := appendHeader (appendHeader req.header headerSignatureInput inputMember)
      headerSignature sigMember }

/-- The fields of `http.Response` that `SignResponse` reads. -/
structure Response where
  statusCode : Int64
  header : Header
  trailer : Option Header := none
  deriving DecidableEq

/-- The `RequestContext` that `SignResponse` makes of a response and of the request behind it. -/
def responseContext (resp : Response) (origReq : Option Request) : RequestContext where
  statusCode := resp.statusCode
  header := some resp.header
  trailers := resp.trailer
  isResponse := true
  reqContext := origReq.map requestContext

def signResponse (ord : Nat → MapOrder) (resp : Response) (origReq : Option Request)
    (cfg : SignConfig) (now : Time) : Except Err Response := do
  let (inputMember, sigMember) ← sign U ord (responseContext resp origReq) cfg now
  .ok { resp with
    header := appendHeader (appendHeader resp.header headerSignatureInput inputMember)
      headerSignature sigMember }

theorem sign_ok {ord : Nat → MapOrder} {ctx : RequestContext} {cfg : SignConfig} {now : Time}
    {inputMember sigMember : Bytes} (h : sign U ord ctx cfg now = .ok (inputMember, sigMember)) :
    ∃ signer base sig text, cfg.signer = some signer ∧
      buildSignatureBase U ord ctx (signParams ctx cfg signer now) = .ok base ∧
      signer.sign base = .ok sig ∧
      serializeSignatureParams U (signParams ctx cfg signer now) = .ok text ∧
      inputMember = cfg.labelOrDefault ++ [equals] ++ text ∧
      sigMember = cfg.labelOrDefault ++ lit "=:" ++ stdEncoding.encode sig ++ [colon] := by
  unfold sign at h
  split at h
  · cases h
  · rename_i signer hs
    simp only at h
    split at h
    · cases h
    · rename_i base hb
      split at h
      · cases h
      · rename_i sig hsig
        split at h
        · cases h
        · rename_i text ht
          simp only [Except.ok.injEq, Prod.mk.injEq] at h
          exact ⟨signer, base, sig, text, hs, hb, hsig, ht, h.1.symm, h.2.symm⟩

end AoniContrib.HttpSig
