/-
# Proofs and the access tokens they come with

`VerifyProofForRequest` fills its configuration from the request: the method, the target, and the
access token of an `Authorization` header of the scheme DPoP.  The scheme is compared as it is
spelled.  A request that says `dpop` has its token ignored, and is accepted with any other token as well
(`unbound_token_accepted`).

`token_bound_iff` is about the requests that differ in their token only.  Every one of them that is
accepted is bound to its token, its method and its target, exactly if the scheme is spelled `DPoP` and
the configuration expects nothing else than the request's own method and target.
-/
import AoniContrib.Dpop.Algorithm

namespace AoniContrib.Dpop

open Go List

variable {token value : Bytes} {jwk : JWK} {claims : ProofClaims}

variable {L : Library} {cfg : VerifierConfig} {now : Time}

/-! ## 1. Requests with a token -/

/-- The value of an `Authorization` header: the scheme, `k + 1` blanks, and the token. -/
def authorization (scheme : Bytes) (k : Nat) (token : Bytes) : Bytes :=
  scheme ++ List.replicate (k + 1) 0x20 ++ token

def HttpRequest.withAuthorization (req : HttpRequest) (value : Bytes) : HttpRequest :=
  { req with header := req.header.set headerAuthorization value }

/-- A token: not empty, and without white space around it. -/
def IsToken (token : Bytes) : Prop := token ≠ [] ∧ trimSpace token = token

/-- A request as it arrives at a server. -/
structure Incoming (req : HttpRequest) (u : URL) : Prop where
  url : req.url = some u
  method : req.method ≠ []
  target : targetURL req u ≠ []

/-- The claims are bound to the token, to the method and to the target of the request. -/
structure Bound (L : Library) (req : HttpRequest) (u : URL) (token : Bytes) (claims : ProofClaims) :
    Prop where
  ath : claims.ath = computeAccessTokenHash L token
  htm : equalFold L.unicode claims.htm req.method = true
  htu : normalizeTargetURI L (targetURL req u) = .ok claims.htu

/-- The scheme is spelled as the code spells it, and what is expected is the request's own. -/
structure Armed (L : Library) (cfg : VerifierConfig) (req : HttpRequest) (u : URL) (scheme : Bytes) :
    Prop where
  scheme : scheme = schemeDPoP
  method : cfg.expectedMethod = [] ∨ equalFold L.unicode cfg.expectedMethod req.method = true
  uri : cfg.expectedURI = [] ∨
    normalizeTargetURI L cfg.expectedURI = normalizeTargetURI L (targetURL req u)

theorem get_withAuthorization (req : HttpRequest) (value : Bytes) :
    (req.withAuthorization value).header.get headerAuthorization = value :=
  Header.get_set_same _ _ _

theorem get_dpop_withAuthorization (req : HttpRequest) (value : Bytes) :
    (req.withAuthorization value).header.get headerDPoP = req.header.get headerDPoP :=
  Header.get_set_of_ne (by decide) _ _

/-! ## 2. The token that is extracted -/

theorem extractToken_exact (k : Nat) (h : IsToken token) :
    extractToken (authorization schemeDPoP k token) = token := by
  have hblank : ∀ b ∈ List.replicate k (0x20 : UInt8), isSpace b = true := by
    intro b hb
    rw [eq_of_mem_replicate hb]
    rfl
  have htext : authorization schemeDPoP k token =
      (schemeDPoP ++ [0x20]) ++ (List.replicate k 0x20 ++ token) := by
    simp [authorization, replicate_succ]
  have hdrop : (authorization schemeDPoP k token).drop (schemeDPoP.length + 1) =
      List.replicate k 0x20 ++ token := by
    rw [htext]
    exact drop_left' (by simp)
  have hpre : (schemeDPoP ++ [0x20]).isPrefixOf (authorization schemeDPoP k token) = true := by
    rw [htext, isPrefixOf_iff_prefix]
    exact prefix_append _ _
  rw [extractToken, if_pos hpre, hdrop, trimSpace_blanks hblank, h.2]

theorem extractToken_other {scheme : Bytes} (k : Nat) (token : Bytes)
    (hcase : scheme.map asciiLower = schemeDPoP.map asciiLower) (hne : scheme ≠ schemeDPoP) :
    extractToken (authorization scheme k token) = [] := by
  have hlen : scheme.length = schemeDPoP.length := by
    have := congrArg List.length hcase
    rwa [length_map, length_map] at this
  refine if_neg fun hpre => hne ?_
  obtain ⟨rest, hrest⟩ := isPrefixOf_iff_prefix.mp hpre
  rw [authorization, append_assoc, append_assoc] at hrest
  exact (append_inj_left hrest hlen.symm).symm

/-! ## 3. Requests that are accepted -/

variable {req : HttpRequest} {u : URL} {scheme : Bytes} {k : Nat}

theorem admitted_of_ok {proof : Bytes}
    (h : verifyProof L cfg now proof = .ok (claims, jwk)) : Admitted L cfg now claims := by
  obtain ⟨_, _, _, _, _, _, -, -, -, hadm⟩ := verifyProof_eq_ok.mp h
  exact hadm

theorem verifyProofForRequest_eq_ok :
    verifyProofForRequest L cfg now (some (req.withAuthorization value)) = .ok (claims, jwk) ↔
      req.header.get headerDPoP ≠ [] ∧
        verifyProof L (cfg.forRequest (req.withAuthorization value)) now (req.header.get headerDPoP) =
          .ok (claims, jwk) := by
  rw [verifyProofForRequest, get_dpop_withAuthorization]
  split_ifs with h
  · exact ⟨fun hok => (nomatch hok), fun hc => absurd h hc.1⟩
  · exact ⟨fun hok => ⟨h, hok⟩, fun hc => hc.2⟩

section
variable (hin : Incoming req u) (hcfg : cfg.accessToken = [])
include hcfg hin

theorem forRequest_eq (value : Bytes) : cfg.forRequest (req.withAuthorization value) = { cfg with
        expectedMethod := if cfg.expectedMethod = [] then req.method else cfg.expectedMethod
        expectedURI := if cfg.expectedURI = [] then targetURL req u else cfg.expectedURI
        accessToken := extractToken value } := by
  have hurl : (req.withAuthorization value).url = some u := hin.url
  rw [VerifierConfig.forRequest, hurl, get_withAuthorization, if_pos hcfg]
  rfl

theorem checked_of_ok
    (h : verifyProofForRequest L cfg now (some (req.withAuthorization value)) = .ok (claims, jwk)) :
    equalFold L.unicode claims.htm
        (if cfg.expectedMethod = [] then req.method else cfg.expectedMethod) = true ∧
      normalizeTargetURI L (if cfg.expectedURI = [] then targetURL req u else cfg.expectedURI) =
        .ok claims.htu ∧
      (extractToken value ≠ [] → claims.ath = computeAccessTokenHash L (extractToken value)) := by
  have hadm := admitted_of_ok (verifyProofForRequest_eq_ok.mp h).2
  rw [forRequest_eq hin hcfg] at hadm
  refine ⟨hadm.method ?_, hadm.uri ?_, hadm.token⟩
  · dsimp only
    split_ifs with hm
    · exact hin.method
    · exact hm
  · dsimp only
    split_ifs with hu
    · exact hin.target
    · exact hu

theorem ok_of_other_token
    (hcase : scheme.map asciiLower = schemeDPoP.map asciiLower) (hne : scheme ≠ schemeDPoP)
    (h : verifyProofForRequest L cfg now
      (some (req.withAuthorization (authorization scheme k token))) = .ok (claims, jwk))
    (token' : Bytes) :
    verifyProofForRequest L cfg now
      (some (req.withAuthorization (authorization scheme k token'))) = .ok (claims, jwk) := by
  rw [verifyProofForRequest_eq_ok, forRequest_eq hin hcfg, extractToken_other k _ hcase hne] at h ⊢
  exact h

end

theorem equalFold_comm_trans {U : Unicode} {a b c : Bytes} (h : equalFold U a b = true)
    (h' : equalFold U a c = true) : equalFold U b c = true := by
  simp only [equalFold, beq_iff_eq] at h h' ⊢
  rw [← h, h']

theorem bound_of_armed (hin : Incoming req u) (hcfg : cfg.accessToken = [])
    (harmed : Armed L cfg req u scheme) (htoken : IsToken token)
    (h : verifyProofForRequest L cfg now
      (some (req.withAuthorization (authorization scheme k token))) = .ok (claims, jwk)) :
    Bound L req u token claims := by
  obtain ⟨hmethod, huri, hath⟩ := checked_of_ok hin hcfg h
  rw [harmed.scheme, extractToken_exact k htoken] at hath
  refine ⟨hath htoken.1, ?_, ?_⟩
  · rcases harmed.method with hm | hm
    · rwa [if_pos hm] at hmethod
    · split_ifs at hmethod with hnil
      · exact hmethod
      · simp only [equalFold, beq_iff_eq] at hmethod hm ⊢
        rw [hmethod, hm]
  · rcases harmed.uri with hu | hu
    · rwa [if_pos hu] at huri
    · split_ifs at huri with hnil
      · exact huri
      · rw [← hu, huri]

/-- **Requests that differ in their token**: one is accepted, and each that is accepted is bound to
its token, method and target, exactly if the check is armed. -/
theorem token_bound_iff (hin : Incoming req u) (hcfg : cfg.accessToken = [])
    (hcase : scheme.map asciiLower = schemeDPoP.map asciiLower)
    (hhash : ∃ token token', IsToken token ∧ IsToken token' ∧ L.sha256 token ≠ L.sha256 token')
    {token₀ : Bytes} (htoken₀ : IsToken token₀) {claims₀ : ProofClaims} {jwk₀ : JWK}
    (h₀ : verifyProofForRequest L cfg now
      (some (req.withAuthorization (authorization scheme k token₀))) = .ok (claims₀, jwk₀)) :
    (∀ token claims jwk, IsToken token → verifyProofForRequest L cfg now
          (some (req.withAuthorization (authorization scheme k token))) = .ok (claims, jwk) →
        Bound L req u token claims) ↔
      Armed L cfg req u scheme := by
  constructor
  · intro hbound
    have hb₀ := hbound token₀ claims₀ jwk₀ htoken₀ h₀
    obtain ⟨hmethod, huri, -⟩ := checked_of_ok hin hcfg h₀
    refine ⟨?_, ?_, ?_⟩
    · by_contra hne
      -- the claims of the one proof would hold the hash of every token
      obtain ⟨token, token', ht, ht', hdiff⟩ := hhash
      have hath := (hbound token claims₀ jwk₀ ht (ok_of_other_token hin hcfg hcase hne h₀ token)).ath
      have hath' :=
        (hbound token' claims₀ jwk₀ ht' (ok_of_other_token hin hcfg hcase hne h₀ token')).ath
      have hsame : encodeToString (L.sha256 token) = encodeToString (L.sha256 token') :=
        hath.symm.trans hath'
      have hdecoded := congrArg decodeString hsame
      rw [decodeString_encodeToString, decodeString_encodeToString] at hdecoded
      exact hdiff (Option.some.inj hdecoded)
    · by_cases hm : cfg.expectedMethod = []
      · exact .inl hm
      · rw [if_neg hm] at hmethod
        exact .inr (equalFold_comm_trans hmethod hb₀.htm)
    · by_cases hu : cfg.expectedURI = []
      · exact .inl hu
      · rw [if_neg hu] at huri
        exact .inr (huri.trans hb₀.htu.symm)
  · intro harmed token claims jwk htoken h
    exact bound_of_armed hin hcfg harmed htoken h

/-! ### A request with a token -/

def boundClaims : ProofClaims := { sampleClaims with ath := encodeToString (lit "tok") }

def sampleURL : URL := { path := [slash] }

/-- `GET /` at the host `h`, with a proof that is bound to the token `tok`. -/
def sampleRequest : HttpRequest where
  method := lit "GET"
  url := some sampleURL
  header := Header.empty.set headerDPoP (sampleProof algEdDSA boundClaims)
  host := lit "h"

theorem sampleRequest_incoming : Incoming sampleRequest sampleURL where
  url := rfl
  method := by decide
  target := by decide

theorem isToken_tok : IsToken (lit "tok") := by
  refine ⟨by decide, by decide⟩

theorem isToken_other : IsToken (lit "other") := by
  refine ⟨by decide, by decide⟩

theorem token_bound_iff_sample : verifyProofForRequest .json {} (Time.unix 1700000000)
      (some (sampleRequest.withAuthorization (authorization schemeDPoP 0 (lit "tok")))) =
        .ok (boundClaims, sampleJWK) ∧
    ((∀ token claims jwk, IsToken token → verifyProofForRequest .json {} (Time.unix 1700000000)
          (some (sampleRequest.withAuthorization (authorization schemeDPoP 0 token))) =
            .ok (claims, jwk) →
        Bound .json sampleRequest sampleURL token claims) ↔
      Armed .json {} sampleRequest sampleURL schemeDPoP) := by
  have hok : verifyProofForRequest .json {} (Time.unix 1700000000)
      (some (sampleRequest.withAuthorization (authorization schemeDPoP 0 (lit "tok")))) =
        .ok (boundClaims, sampleJWK) := by decide +kernel
  have hhash : Library.json.sha256 (lit "tok") ≠ Library.json.sha256 (lit "other") := by decide
  exact ⟨hok, token_bound_iff sampleRequest_incoming rfl rfl
    ⟨lit "tok", lit "other", isToken_tok, isToken_other, hhash⟩ isToken_tok hok⟩

/-- **With the scheme in lower case another token is accepted.** -/
theorem unbound_token_accepted :
    (lit "dpop").map asciiLower = schemeDPoP.map asciiLower ∧ IsToken (lit "other") ∧
    verifyProofForRequest .json {} (Time.unix 1700000000)
      (some (sampleRequest.withAuthorization (authorization (lit "dpop") 0 (lit "other")))) =
        .ok (boundClaims, sampleJWK) ∧
    ¬ Bound .json sampleRequest sampleURL (lit "other") boundClaims := by
  have hcase : (lit "dpop").map asciiLower = schemeDPoP.map asciiLower := by decide
  refine ⟨hcase, isToken_other, by decide +kernel, ?_⟩
  intro hbound
  have hdiff : boundClaims.ath ≠ computeAccessTokenHash .json (lit "other") := by decide
  exact hdiff hbound.ath

end AoniContrib.Dpop
