/-
# Verification: `auth/httpsig/verify.go`

`Verify` in the order the source works: locate the two members of the wanted label and parse
them (`readSignature`), check the policy (`checkPolicy`), check that the required components
are covered (`checkRequired`), rebuild the signature base and ask the verifier.
-/
import AoniContrib.HttpSig.Sign

namespace AoniContrib.HttpSig

open Go

variable (U : Unicode)

/-! ## 1. Dictionary members -/

structure DictEntry where
  label : Bytes
  value : Bytes
  deriving DecidableEq, Repr

/-- The state of the loop of `splitHeaderComma`. -/
structure CommaState where
  current : Bytes := []
  inQuote : Bool := false
  inParen : Nat := 0
  inColon : Bool := false
  deriving DecidableEq, Repr

/-- The loop of `splitHeaderComma`. -/
def splitHeaderCommaLoop (st : CommaState) : Bytes → List Bytes
  | [] => if st.current ≠ [] then [st.current] else []
  | ch :: rest =>
    let wrote := st.current ++ [ch]
    if ch = dquote ∧ st.inColon = false then
      splitHeaderCommaLoop { st with current := wrote, inQuote := !st.inQuote } rest
    else if ch = lparen ∧ st.inQuote = false then
      splitHeaderCommaLoop { st with current := wrote, inParen := st.inParen + 1 } rest
    else if ch = rparen ∧ st.inQuote = false ∧ 0 < st.inParen then
      splitHeaderCommaLoop { st with current := wrote, inParen := st.inParen - 1 } rest
    else if ch = colon ∧ st.inQuote = false then
      splitHeaderCommaLoop { st with current := wrote, inColon := !st.inColon } rest
    else if ch = comma ∧ st.inQuote = false ∧ st.inParen = 0 ∧ st.inColon = false then
      if st.current ≠ [] then st.current :: splitHeaderCommaLoop { st with current := [] } rest
      else splitHeaderCommaLoop st rest
    else splitHeaderCommaLoop { st with current := wrote } rest

def splitHeaderComma (val : Bytes) : List Bytes := splitHeaderCommaLoop {} val

/-- One item of `parseDictionaryMembers`; an item without `=` is skipped. -/
def readMember (part : Bytes) : Option DictEntry :=
  let item := trimSpace part
  if item = [] then none
  else (cut equals item).map (fun p => { label := trimSpace p.1, value := trimSpace p.2 })

/-- `parseDictionaryMembers`; its error is always nil. -/
def parseDictionaryMembers (headerVal : Bytes) : List DictEntry :=
  (splitHeaderComma headerVal).filterMap readMember

def decodeByteSequence (val : Bytes) : Except Err Bytes :=
  match stdEncoding.decode (stripPair colon (trimSpace val)) with
  | some bytes => .ok bytes
  | none => .error (.foreign (lit "encoding/base64"))

/-! ## 2. Locating the signature -/

/-- The value of the first entry with this label, empty when there is none. -/
def valueOf (entries : List DictEntry) (label : Bytes) : Bytes :=
  ((entries.find? (fun e => e.label == label)).map DictEntry.value).getD []

/-- `ctx.Header.Get`; a nil map has no keys. -/
def RequestContext.headerGet (ctx : RequestContext) (key : Bytes) : Bytes :=
  match ctx.header with
  | none => []
  | some h => h.get key

/-- The label to verify: the configured one, or that of the first `Signature-Input` member. -/
def targetLabel (ctx : RequestContext) (label : Bytes) : Option Bytes :=
  if label ≠ [] then some label
  else (parseDictionaryMembers (ctx.headerGet headerSignatureInput)).head?.map DictEntry.label

/-- The text of the `Signature-Input` member that `Verify` works on. -/
def inputMemberValue (ctx : RequestContext) (label : Bytes) : Bytes :=
  valueOf (parseDictionaryMembers (ctx.headerGet headerSignatureInput)) label

/-- The text of the `Signature` member that `Verify` works on. -/
def signatureMemberValue (ctx : RequestContext) (label : Bytes) : Bytes :=
  valueOf (parseDictionaryMembers (ctx.headerGet headerSignature)) label

/-- The first half of `Verify`: the parsed parameters and the signature bytes under the label
`label`, or under the first label when that is empty. -/
def readSignature (ctx : RequestContext) (label : Bytes) : Except Err (SignatureParams × Bytes) :=
  if ctx.headerGet headerSignatureInput = [] ∨ ctx.headerGet headerSignature = [] then
    .error (.sentinel .errMissingSignature)
  else match targetLabel ctx label with
  | none => .error (.sentinel .errMissingSignature)
  | some target =>
    let rawParams := inputMemberValue ctx target
    let rawSig := signatureMemberValue ctx target
    if rawParams = [] then
      .error (.wrap .errLabelMismatch "label %q not found in %s" [target, headerSignatureInput])
    else if rawSig = [] then
      .error (.wrap .errLabelMismatch "label %q not found in %s" [target, headerSignature])
    else match parseSignatureParams U rawParams with
      | .error err => .error (.cause (some .errInvalidStructuredField)
          "failed to parse signature parameters: %w" [] err)
      | .ok params =>
        match decodeByteSequence rawSig with
        | .error err => .error (.cause (some .errInvalidStructuredField)
            "invalid signature byte sequence %q: %w" [rawSig] err)
        | .ok sigBytes => .ok ({ params with label := target }, sigBytes)

/-! ## 3. Policy -/

/-- The clock skew in force: the configured one, or a minute. -/
def VerifyConfig.skew (cfg : VerifyConfig) : Duration :=
  if cfg.allowedClockSkew ≤ 0 then Time.minute else cfg.allowedClockSkew

/-- The checks of the algorithm, the key id, the tag and the two times. -/
def checkPolicy (cfg : VerifyConfig) (verifier : Verifier) (params : SignatureParams) (now : Time) :
    Except Err Unit :=
  if params.alg ≠ [] ∧ params.alg ≠ verifier.algorithm then
    .error (.wrap .errUnsupportedAlgorithm "signature alg %s != verifier alg %s"
      [params.alg, verifier.algorithm])
  else if params.keyID ≠ [] ∧ verifier.keyID ≠ [] ∧ params.keyID ≠ verifier.keyID then
    .error (.wrap .errKeyMismatch "signature keyid %s != verifier keyid %s"
      [params.keyID, verifier.keyID])
  else if cfg.requiredTag ≠ [] ∧ params.tag ≠ cfg.requiredTag then
    .error (.wrap .errInvalidSignature "signature tag %q does not match required %q"
      [params.tag, cfg.requiredTag])
  else if 0 < params.expires ∧ now.after ((Time.unix params.expires).add cfg.skew) = true then
    .error (.sentinel .errSignatureExpired)
  else if 0 < params.created ∧ (Time.unix params.created).after (now.add cfg.skew) = true then
    .error (.sentinel .errSignatureInFuture)
  else if 0 < params.created ∧ 0 < cfg.maxAge ∧
      cfg.maxAge + cfg.skew < now.sub (Time.unix params.created) then
    .error (.sentinel .errSignatureTooOld)
  else .ok ()

/-- `coveredSet`: the serialized identifiers and the bare names of the covered components
that parse. -/
def coveredSet (components : List Bytes) : List Bytes :=
  components.flatMap (fun c =>
    match parseComponentIdentifier U c with
    | .ok parsed => [parsed.serialized, parsed.name]
    | .error _ => [])

/-- The loop over `cfg.RequiredComponents`. -/
def checkRequired (covered : List Bytes) : List Bytes → Except Err Unit
  | [] => .ok ()
  | reqComp :: rest => do
    let parsedReq ← parseComponentIdentifier U reqComp
    if parsedReq.serialized ∉ covered ∧ parsedReq.name ∉ covered then
      .error (.wrap .errMissingComponent "required component %q not covered by signature" [reqComp])
    else checkRequired covered rest

/-! ## 4. `Verify` -/

def verify (ord : Nat → MapOrder) (ctx : RequestContext) (cfg : VerifyConfig) (now : Time) :
    Except Err SignatureParams :=
  match cfg.verifier with
  | none => .error (.new "httpsig: verifier is required")
  | some verifier => do
    let (params, sigBytes) ← readSignature U ctx cfg.label
    checkPolicy cfg verifier params now
    checkRequired U (coveredSet U params.components) cfg.requiredComponents
    match buildSignatureBase U ord ctx params with
    | .error err => .error (.cause none "httpsig: failed to rebuild signature base: %w" [] err)
    | .ok baseBytes =>
      match verifier.verify baseBytes sigBytes with
      | some err => .error err
      | none => .ok params

def verifyRequest (ord : Nat → MapOrder) (req : Request) (cfg : VerifyConfig) (now : Time) :
    Except Err SignatureParams :=
  verify U ord (requestContext req) cfg now

theorem verify_ok {ord : Nat → MapOrder} {ctx : RequestContext} {cfg : VerifyConfig} {now : Time}
    {params : SignatureParams} (h : verify U ord ctx cfg now = .ok params) :
    ∃ verifier sig base, cfg.verifier = some verifier ∧
      readSignature U ctx cfg.label = .ok (params, sig) ∧
      checkPolicy cfg verifier params now = .ok () ∧
      checkRequired U (coveredSet U params.components) cfg.requiredComponents = .ok () ∧
      buildSignatureBase U ord ctx params = .ok base ∧ verifier.verify base sig = none := by
  unfold verify at h
  split at h
  · cases h
  · rename_i verifier hv
    obtain ⟨⟨params', sig⟩, hr, h⟩ := bind_eq_ok.mp h
    obtain ⟨_, hp, h⟩ := bind_eq_ok.mp h
    obtain ⟨_, hq, h⟩ := bind_eq_ok.mp h
    split at h
    · cases h
    · rename_i base hb
      split at h
      · cases h
      · rename_i hver
        obtain rfl := Except.ok.inj h
        exact ⟨verifier, sig, base, hv, hr, hp, hq, hb, hver⟩

end AoniContrib.HttpSig
