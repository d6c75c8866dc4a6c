/-
# Certificates from OIDC tokens: `ssh/ca/oidc.go`

`IssueFromOIDCToken` reads the payload of a JWT, looks at `exp` and `iss`, takes the user from a
claim and signs a certificate for that user.  `OIDCConfig` names the issuer and the client the token
has to be for, but `validateOIDCClaims` compares the issuer by its beginning only, never reads
`ClientID`, and looks at `exp` only if it is a number (`cert_stranger`).

So an issued certificate is for the configured issuer and audience exactly if the token has nothing
behind the issuer, names the audience and has a numeric `exp` (`cert_intended_iff`).
-/
import AoniContrib.Go.Base64
import AoniContrib.Go.Quote
import AoniContrib.Go.Time

namespace AoniContrib.Ssh

open Go List

/-! ## 1. Tokens -/

/-- A value that `json.Unmarshal` stores in an `any`.  A number is a finite `float64`, which is a
rational. -/
inductive Any where
  | null
  | bool (b : Bool)
  | number (x : Rat)
  | string (s : Bytes)
  | array (items : List Any)
  | object (entries : List (Bytes × Any))

/-- `map[string]any`. -/
abbrev Claims := Bytes → Option Any

/-- The parts of the Go runtime that the code calls.  The language leaves open what `int64(x)` is
for an `x` out of range. -/
structure Runtime where
  /-- `json.Unmarshal` into a `map[string]any`. -/
  unmarshal : Bytes → Option Claims
  /-- `int64(x)` of a `float64`. -/
  int64 : Rat → Int64
  /-- `uint64(d.Seconds())`. -/
  seconds : Duration → UInt64
  int64_toInt : ∀ x : Rat, -2 ^ 63 ≤ x → x < 2 ^ 63 → (int64 x).toInt = x.num.tdiv x.den

inductive CaError where
  | invalidOIDCToken
  | issuerMismatch
  | certExpired
  | missingOIDCClaim (claim : Bytes)
  | invalidPublicKey
  | sign
  deriving DecidableEq, Repr

structure OIDCConfig where
  issuer : Bytes
  clientID : Bytes
  claimName : Bytes := []

section

variable (R : Runtime)

def parseUnverifiedJWT (tokenStr : Bytes) : Except CaError Claims :=
  match tokenStr.splitOn 0x2e with
  | [_, segment, _] =>
    let l := segment.length % 4
    let payloadSegment := if 0 < l then segment ++ List.replicate (4 - l) equals else segment
    match urlEncoding.decode payloadSegment with
    | none => .error .invalidOIDCToken
    | some payloadBytes =>
      match R.unmarshal payloadBytes with
      | none => .error .invalidOIDCToken
      | some claims => .ok claims
  | _ => .error .invalidOIDCToken

/-- The two checks of `validateOIDCClaims`, at the Unix time `now`. -/
def validateExpiry (now : Int64) (claims : Claims) : Except CaError Unit :=
  match claims (lit "exp") with
  | some (.number expVal) => if R.int64 expVal < now then .error .certExpired else .ok ()
  | _ => .ok ()

def validateIssuer (claims : Claims) (cfg : OIDCConfig) : Except CaError Unit :=
  if cfg.issuer = [] then .ok ()
  else
    match claims (lit "iss") with
    | some (.string issVal) => if cfg.issuer <+: issVal then .ok () else .error .issuerMismatch
    | _ => .error .issuerMismatch

def validateOIDCClaims (now : Int64) (claims : Claims) (cfg : OIDCConfig) : Except CaError Unit := do
  validateExpiry R now claims
  validateIssuer claims cfg

def extractUserClaim (claims : Claims) (claimName : Bytes) : Except CaError Bytes :=
  let targetClaim := if claimName = [] then lit "email" else claimName
  let missing : Except CaError Bytes :=
    match claims (lit "sub") with
    | some (.string subVal) =>
      if targetClaim = lit "email" ∧ subVal ≠ [] then .ok subVal
      else .error (.missingOIDCClaim targetClaim)
    | _ => .error (.missingOIDCClaim targetClaim)
  match claims targetClaim with
  | some (.string val) => if val = [] then missing else .ok val
  | _ => missing

/-! ## 2. Certificates -/

structure IssueConfig where
  ttl : Duration := 8 * 3600 * 1000000000
  principals : List Bytes := []
  extensions : List (Bytes × Bytes) :=
    [(lit "permit-agent-forwarding", []), (lit "permit-pty", []), (lit "permit-user-rc", []),
      (lit "permit-X11-forwarding", [])]
  criticalOptions : List (Bytes × Bytes) := []
  keyID : Bytes := []
  serial : UInt64 := 0

structure Certificate (Key : Type) where
  key : Key
  serial : UInt64
  keyId : Bytes
  validPrincipals : List Bytes
  validAfter : UInt64
  validBefore : UInt64
  criticalOptions : List (Bytes × Bytes)
  extensions : List (Bytes × Bytes)

/-- `CA`: the signer, which may fail, and the last serial number. -/
structure CA (Key Signature : Type) where
  sign : Certificate Key → Option Signature
  serial : UInt64

variable {Key Signature : Type}

/-- `IssueUserCert` at the Unix time `now`; with the CA afterwards. -/
def issueUserCert (now : Int64) (ca : CA Key Signature) (userKey : Option Key) (username : Bytes)
    (opts : List (Option (IssueConfig → IssueConfig))) :
    Except CaError (Certificate Key × Signature) × CA Key Signature :=
  match userKey with
  | none => (.error .invalidPublicKey, ca)
  | some key =>
    let start : IssueConfig :=
      if username ≠ [] then { principals := [username] } else {}
    let cfg := opts.foldl (fun cfg opt => match opt with | some f => f cfg | none => cfg) start
    let now := now.toUInt64
    let (serial, ca) :=
      if cfg.serial = 0 then (ca.serial + 1, { ca with serial := ca.serial + 1 })
      else (cfg.serial, ca)
    let keyID :=
      if cfg.keyID = [] then
        lit "aoni-user-cert-" ++ username ++ lit "-" ++ decimal now.toNat
      else cfg.keyID
    let cert : Certificate Key :=
      { key, serial, keyId := keyID, validPrincipals := cfg.principals
        validAfter := now - 60, validBefore := now + R.seconds cfg.ttl
        criticalOptions := cfg.criticalOptions, extensions := cfg.extensions }
    match ca.sign cert with
    | none => (.error .sign, ca)
    | some signature => (.ok (cert, signature), ca)

/-- `IssueFromOIDCToken`; `now` is the time of the validation and `now'` the one of the issue. -/
def issueFromOIDCToken (now now' : Int64) (ca : CA Key Signature) (rawIDToken : Bytes)
    (userKey : Option Key) (cfg : OIDCConfig) (opts : List (Option (IssueConfig → IssueConfig))) :
    Except CaError ((Certificate Key × Signature) × Bytes) × CA Key Signature :=
  if rawIDToken = [] then (.error .invalidOIDCToken, ca)
  else
    match parseUnverifiedJWT R rawIDToken with
    | .error e => (.error e, ca)
    | .ok claims =>
      match validateOIDCClaims R now claims cfg with
      | .error e => (.error e, ca)
      | .ok () =>
        match extractUserClaim claims cfg.claimName with
        | .error e => (.error e, ca)
        | .ok username =>
          match issueUserCert R now' ca userKey username opts with
          | (.error e, ca) => (.error e, ca)
          | (.ok cert, ca) => (.ok (cert, username), ca)

end

/-! ## 3. Whom a certificate is for -/

section

variable {R : Runtime} {Key Signature : Type} {now now' : Int64} {ca ca' : CA Key Signature}
  {token username : Bytes} {userKey : Option Key} {cfg : OIDCConfig}
  {opts : List (Option (IssueConfig → IssueConfig))} {claims : Claims}
  {cert : Certificate Key × Signature}

/-- The token names the client among those it is for. -/
def InAudience (cfg : OIDCConfig) (claims : Claims) : Prop :=
  claims (lit "aud") = some (.string cfg.clientID) ∨
    ∃ items, claims (lit "aud") = some (.array items) ∧ .string cfg.clientID ∈ items

/-- The token is one of the configured issuer for the configured client, and has not expired. -/
structure Intended (now : Int64) (cfg : OIDCConfig) (claims : Claims) : Prop where
  iss : claims (lit "iss") = some (.string cfg.issuer)
  aud : InAudience cfg claims
  exp : ∃ x, claims (lit "exp") = some (.number x) ∧ (now.toInt : Rat) ≤ x

theorem validated_of_issued
    (h : issueFromOIDCToken R now now' ca token userKey cfg opts = (.ok (cert, username), ca')) :
    ∃ claims, parseUnverifiedJWT R token = .ok claims ∧
      validateOIDCClaims R now claims cfg = .ok () := by
  unfold issueFromOIDCToken at h
  split at h
  · cases h
  · split at h
    · cases h
    · rename_i claims hparse
      split at h
      · cases h
      · rename_i hvalid
        exact ⟨claims, hparse, hvalid⟩

theorem validateOIDCClaims_ok (hissuer : cfg.issuer ≠ [])
    (h : validateOIDCClaims R now claims cfg = .ok ()) :
    (∀ x, claims (lit "exp") = some (.number x) → now ≤ R.int64 x) ∧
      ∃ iss, claims (lit "iss") = some (.string iss) ∧ cfg.issuer <+: iss := by
  have hexpiry : validateExpiry R now claims = .ok () := by
    cases he : validateExpiry R now claims with
    | error e =>
      rw [validateOIDCClaims, he] at h
      cases h
    | ok => rfl
  rw [validateOIDCClaims, hexpiry] at h
  change validateIssuer claims cfg = .ok () at h
  rw [validateIssuer, if_neg hissuer] at h
  refine ⟨fun x hx => ?_, ?_⟩
  · by_contra hlt
    have hlate : R.int64 x < now := Int64.not_le.mp hlt
    simp only [validateExpiry, hx, if_pos hlate, reduceCtorEq] at hexpiry
  · split at h
    · rename_i iss hiss
      refine ⟨iss, hiss, ?_⟩
      by_contra hnot
      rw [if_neg hnot] at h
      cases h
    · cases h

theorem int64_le {x : Rat} (h0 : 0 ≤ x) (hlt : x < 2 ^ 63) : ((R.int64 x).toInt : Rat) ≤ x := by
  have hnum : 0 ≤ x.num := Rat.num_nonneg.mpr h0
  have hlow : -2 ^ 63 ≤ x := le_trans (by norm_num) h0
  rw [R.int64_toInt x hlow hlt, Int.tdiv_eq_ediv_of_nonneg hnum, ← Rat.floor_def]
  exact Rat.floor_le x

theorem now_le {x : Rat} (h : now ≤ R.int64 x) (h0 : 0 ≤ x) : (now.toInt : Rat) ≤ x := by
  by_cases hlt : x < 2 ^ 63
  · have hle : (now.toInt : Rat) ≤ ((R.int64 x).toInt : Rat) := by
      exact_mod_cast Int64.le_iff_toInt_le.mp h
    exact hle.trans (int64_le h0 hlt)
  · have hmax := now.toInt_lt
    have hmax' : (now.toInt : Rat) < 2 ^ 63 := by exact_mod_cast hmax
    exact hmax'.le.trans (not_lt.mp hlt)

/-- **Whom a certificate is for.**  It is issued for the configured issuer and audience and an
unexpired token exactly if the issuer of the token is no longer than the configured one, the client
is in the audience, and `exp` is a number, which is not cut off to a later time (it can be only
before 1970). -/
theorem cert_intended_iff (hissuer : cfg.issuer ≠ [])
    (h : issueFromOIDCToken R now now' ca token userKey cfg opts = (.ok (cert, username), ca'))
    (hclaims : parseUnverifiedJWT R token = .ok claims) :
    Intended now cfg claims ↔
      (∀ iss, claims (lit "iss") = some (.string iss) → iss.length ≤ cfg.issuer.length) ∧
      InAudience cfg claims ∧
      ∃ x, claims (lit "exp") = some (.number x) ∧ (x < 0 → (now.toInt : Rat) ≤ x) := by
  obtain ⟨claims', hparse, hvalid⟩ := validated_of_issued h
  obtain rfl := Except.ok.inj (hclaims.symm.trans hparse)
  obtain ⟨hexp, iss, hiss, hstart⟩ := validateOIDCClaims_ok hissuer hvalid
  constructor
  · rintro ⟨hi, ha, x, hx, hle⟩
    refine ⟨fun iss' hiss' => ?_, ha, x, hx, fun _ => hle⟩
    cases hi.symm.trans hiss'
    exact le_rfl
  · rintro ⟨hlen, ha, x, hx, hneg⟩
    have heq := hstart.eq_of_length_le (hlen iss hiss)
    refine ⟨by rw [hiss, heq], ha, x, hx, ?_⟩
    by_cases h0 : x < 0
    · exact hneg h0
    · exact now_le (hexp x hx) (not_lt.mp h0)

end

/-! ## 4. Two tokens -/

mutual

/-- What a document is decoded to; of the numbers, the integers. -/
def Any.ofJson : Json → Any
  | .null => .null
  | .bool b => .bool b
  | .num text => .number (parseInt text).1.toInt
  | .str s => .string s
  | .arr vs => .array (Any.ofItems vs)
  | .obj ms => .object (Any.ofMembers ms)

def Any.ofItems : List Json → List Any
  | [] => []
  | v :: vs => Any.ofJson v :: Any.ofItems vs

def Any.ofMembers : List (Bytes × Json) → List (Bytes × Any)
  | [] => []
  | (k, v) :: ms => (k, Any.ofJson v) :: Any.ofMembers ms

end

/-- The map of an object: a later member replaces an earlier one. -/
def claimsOf (ms : List (Bytes × Any)) : Claims := fun key =>
  (ms.reverse.find? fun m => m.1 = key).map Prod.snd

theorem tdiv_bounds {a b : Int} (hb : 0 < b) (hlow : -2 ^ 63 * b ≤ a) (hhigh : a < 2 ^ 63 * b) :
    -2 ^ 63 ≤ a.tdiv b ∧ a.tdiv b < 2 ^ 63 := by
  rcases Int.le_total 0 a with ha | ha
  · rw [Int.tdiv_eq_ediv_of_nonneg ha]
    have hnonneg := Int.ediv_nonneg ha hb.le
    exact ⟨by omega, Int.ediv_lt_of_lt_mul hb hhigh⟩
  · have hneg : a.tdiv b = -((-a) / b) := by
      rw [← Int.tdiv_eq_ediv_of_nonneg (by omega), Int.neg_tdiv, Int.neg_neg]
    have hnonneg := Int.ediv_nonneg (by omega : 0 ≤ -a) hb.le
    have hle : -a / b ≤ 2 ^ 63 := Int.ediv_le_of_le_mul hb (by omega)
    omega

/-- The JSON of `Data.Json`, and a processor that converts what is out of range to the least
`int64`. -/
def Runtime.json : Runtime where
  unmarshal text :=
    match Json.parse text with
    | some .null => some fun _ => none
    | some (.obj ms) => some (claimsOf (Any.ofMembers ms))
    | _ => none
  int64 x := if -2 ^ 63 ≤ x ∧ x < 2 ^ 63 then Int64.ofInt (x.num.tdiv x.den) else Int64.minValue
  seconds d := (d / 1000000000).toUInt64
  int64_toInt := by
    intro x hlow hhigh
    rw [if_pos ⟨hlow, hhigh⟩]
    have hpos : (0 : Int) < x.den := by exact_mod_cast x.den_pos
    have hx : (x.num : Rat) / (x.den : Rat) = x := Rat.num_div_den x
    have hden : (0 : Rat) < (x.den : Rat) := by exact_mod_cast x.den_pos
    have hnum : -2 ^ 63 * (x.den : Int) ≤ x.num ∧ x.num < 2 ^ 63 * (x.den : Int) := by
      rw [← hx] at hlow hhigh
      exact ⟨by exact_mod_cast (le_div_iff₀ hden).mp hlow, by exact_mod_cast (div_lt_iff₀ hden).mp hhigh⟩
    have hbounds := tdiv_bounds hpos hnum.1 hnum.2
    exact Int64.toInt_ofInt_of_le hbounds.1 hbounds.2

def tokenOf (members : List (Bytes × Json)) : Bytes :=
  lit "e30." ++ urlEncoding.encodeRaw ((Json.obj members).render (quote .asciiOnly)) ++ lit ".x"

theorem parseUnverifiedJWT_tokenOf {members : List (Bytes × Json)} {p : Bytes}
    (hsplit : (tokenOf members).splitOn 0x2e = [lit "e30", p, lit "x"])
    (hdecode : urlEncoding.decode (if 0 < p.length % 4 then
      p ++ replicate (4 - p.length % 4) equals else p) = some ((Json.obj members).render (quote .asciiOnly)))
    (hjson : Json.parse ((Json.obj members).render (quote .asciiOnly)) = some (.obj members)) :
    parseUnverifiedJWT Runtime.json (tokenOf members) = .ok (claimsOf (Any.ofMembers members)) := by
  simp only [parseUnverifiedJWT, hsplit, hdecode, Runtime.json, hjson]

def company : OIDCConfig where
  issuer := lit "https://auth.company.com"
  clientID := lit "ssh"

def signsAll : CA Unit Unit := ⟨fun _ => some (), 0⟩

def employee : List (Bytes × Json) :=
  [(lit "iss", .str (lit "https://auth.company.com")), (lit "aud", .str (lit "ssh")),
    (lit "exp", .num (decimal 2000000000)), (lit "email", .str (lit "alice"))]

theorem employee_claims : parseUnverifiedJWT Runtime.json (tokenOf employee) =
    .ok (claimsOf (Any.ofMembers employee)) :=
  parseUnverifiedJWT_tokenOf (p := urlEncoding.encodeRaw ((Json.obj employee).render (quote .asciiOnly)))
    (by decide +kernel) (by decide +kernel) rfl

theorem cert_intended_iff_employee : ∃ claims,
    parseUnverifiedJWT Runtime.json (tokenOf employee) = .ok claims ∧
    Intended 1700000000 company claims := by
  have hexp : claimsOf (Any.ofMembers employee) (lit "exp") =
      some (.number (parseInt (decimal 2000000000)).1.toInt) := rfl
  have hiss : claimsOf (Any.ofMembers employee) (lit "iss") = some (.string company.issuer) := rfl
  have haud : claimsOf (Any.ofMembers employee) (lit "aud") = some (.string company.clientID) := rfl
  obtain ⟨cert, ca', hissued⟩ : ∃ cert ca', issueFromOIDCToken Runtime.json 1700000000 1700000000
      signsAll (tokenOf employee) (some ()) company [] = (.ok (cert, lit "alice"), ca') := by
    rw [issueFromOIDCToken, employee_claims]
    exact ⟨_, _, rfl⟩
  refine ⟨_, employee_claims, (cert_intended_iff (by decide) hissued employee_claims).mpr ?_⟩
  refine ⟨fun iss h => ?_, .inl haud, _, hexp, fun hneg => ?_⟩
  · cases hiss.symm.trans h
    exact le_rfl
  · exact absurd hneg (by decide)

/-- Another issuer, no audience and no `exp`: this token is good for a certificate of `root`. -/
def stranger : List (Bytes × Json) :=
  [(lit "iss", .str (lit "https://auth.company.com.evil.example")), (lit "email", .str (lit "root"))]

theorem cert_stranger : ∃ claims cert ca',
    issueFromOIDCToken Runtime.json 1700000000 1700000000 signsAll (tokenOf stranger) (some ())
      company [] = (.ok (cert, lit "root"), ca') ∧
    parseUnverifiedJWT Runtime.json (tokenOf stranger) = .ok claims ∧
    claims (lit "iss") = some (.string (lit "https://auth.company.com.evil.example")) ∧
    claims (lit "aud") = none ∧ claims (lit "exp") = none ∧
    ¬ Intended 1700000000 company claims := by
  have hparse : parseUnverifiedJWT Runtime.json (tokenOf stranger) =
      .ok (claimsOf (Any.ofMembers stranger)) :=
    parseUnverifiedJWT_tokenOf (p := urlEncoding.encodeRaw ((Json.obj stranger).render (quote .asciiOnly)))
      (by decide +kernel) (by decide +kernel) rfl
  have hiss : claimsOf (Any.ofMembers stranger) (lit "iss") =
      some (.string (lit "https://auth.company.com.evil.example")) := rfl
  have haud : claimsOf (Any.ofMembers stranger) (lit "aud") = none := rfl
  have hexp : claimsOf (Any.ofMembers stranger) (lit "exp") = none := rfl
  obtain ⟨cert, ca', hissued⟩ : ∃ cert ca', issueFromOIDCToken Runtime.json 1700000000 1700000000
      signsAll (tokenOf stranger) (some ()) company [] = (.ok (cert, lit "root"), ca') := by
    rw [issueFromOIDCToken, hparse]
    exact ⟨_, _, rfl⟩
  refine ⟨_, cert, ca', hissued, hparse, hiss, haud, hexp, fun h => ?_⟩
  obtain ⟨x, hx, -⟩ := h.exp
  cases hexp.symm.trans hx

end AoniContrib.Ssh
