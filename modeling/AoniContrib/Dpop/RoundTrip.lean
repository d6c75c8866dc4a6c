/-
# A proof that is created is verified

`CreateProof` and `VerifyProof` with the same method, target, nonce and access token.  What is between
them is base 64, JSON and a signature.  JSON is not an inverse on every string: it writes an invalid
byte as U+FFFD.  All the strings of a proof are valid, except that the target of an opaque URL
(`http:` and anything) is copied as it is; the verifier compares its own copy with what JSON made of
the other, and fails (`invalid_opaque_rejected`).

`roundTrip_iff` says that this is the only way to fail.
-/
import AoniContrib.Dpop.Htu
import AoniContrib.Dpop.Algorithm

namespace AoniContrib.Dpop

open Go
open List hiding Vector

/-! ## 1. What the library promises -/

/-- JSON returns what it was given, with valid strings. -/
structure JsonLaws (L : Library) : Prop where
  header : ∀ h, L.unmarshalHeader (L.marshalHeader h) = some h.coerced
  claims : ∀ c, L.unmarshalClaims (L.marshalClaims c) = some c.coerced

/-- The signatures of a private key are valid under its public key, and the numbers of ECDSA are
below the order of the curve. -/
def Signs {K : Type} (L : Library) (S : Signing K) : PrivateKey K → Prop
  | .ecdsa k curve x y => ∀ hash, ∃ r s, S.ecdsaSign k hash = some (r, s) ∧
      r < 256 ^ (if curve = .p256 then 32 else 48) ∧ s < 256 ^ (if curve = .p256 then 32 else 48) ∧
      L.ecdsaVerify (.ecdsa curve x y) hash r s = true
  | .ed25519 k key => ∀ message, (S.ed25519Sign k message).length = 64 ∧
      L.ed25519Verify (.ed25519 key) message (S.ed25519Sign k message) = true
  | .rsa k n e => ∀ hash, ∃ sig, S.signPKCS1v15 k hash = some sig ∧
      L.verifyPKCS1v15 (.rsa n e) hash sig = true
  | .signer _ => False
  | .other => False

/-! ## 2. Signatures -/

variable {K : Type} {L : Library} {S : Signing K}

theorem ecdsaSignature_verifies {size r s : Nat} {k : K} {key : PublicKey} {hash : Bytes}
    (hsign : S.ecdsaSign k hash = some (r, s)) (hr : r < 256 ^ size) (hs : s < 256 ^ size)
    (hv : L.ecdsaVerify key hash r s = true) :
    ∃ sig, ecdsaSignature S size k hash = .ok sig ∧ verifyECDSA L size key hash sig = .ok () := by
  refine ⟨beBytes size r ++ beBytes size s, ?_, ?_⟩
  · simp only [ecdsaSignature, hsign, fillBytes, if_pos hr, if_pos hs]
    rfl
  · refine verifyECDSA_eq_ok.mpr ⟨?_, ?_⟩
    · rw [length_append, length_beBytes, length_beBytes, two_mul]
    · rw [take_left' (length_beBytes size r), drop_left' (length_beBytes size r),
        beValue_beBytes, beValue_beBytes, Nat.mod_eq_of_lt hr, Nat.mod_eq_of_lt hs]
      exact hv

variable {pub : PublicKey} {alg : Bytes}

theorem signJWS_verifies {priv : PrivateKey K} {jwk : JWK}
    (hsigns : Signs L S priv) (hpub : extractPublicKey priv = some pub)
    (hjwk : publicKeyToJWK pub = .ok (jwk, alg)) (input : Bytes) :
    ∃ sig, signJWS L S priv alg input = .ok sig ∧ verifyJWSSignature L pub alg input sig = .ok () := by
  cases priv with
  | ecdsa k curve x y =>
    cases hpub
    have hne : algES384 ≠ algES256 := by decide
    cases curve with
    | p256 =>
      simp only [publicKeyToJWK, ecJWK, bind_eq_ok] at hjwk
      obtain ⟨_, -, _, -, hjwk⟩ := hjwk
      cases hjwk
      obtain ⟨r, s, hsign, hr, hs, hv⟩ := hsigns (L.sha256 input)
      obtain ⟨sig, hsig, hok⟩ := ecdsaSignature_verifies (L := L) hsign hr hs hv
      exact ⟨sig, hsig, hok⟩
    | p384 =>
      simp only [publicKeyToJWK, ecJWK, bind_eq_ok] at hjwk
      obtain ⟨_, -, _, -, hjwk⟩ := hjwk
      cases hjwk
      obtain ⟨r, s, hsign, hr, hs, hv⟩ := hsigns (L.sha384 input)
      obtain ⟨sig, hsig, hok⟩ := ecdsaSignature_verifies (L := L) hsign hr hs hv
      refine ⟨sig, ?_, ?_⟩
      · rw [signJWS, if_neg hne, if_pos rfl]
        exact hsig
      · rw [verifyJWSSignature, if_neg hne, if_pos rfl]
        exact hok
    | p224 => cases hjwk
    | p521 => cases hjwk
  | ed25519 k key =>
    cases hpub
    obtain ⟨hlen, hv⟩ := hsigns input
    exact ⟨_, rfl, ok_of_ed25519 hlen hv⟩
  | rsa k n e =>
    cases hpub
    cases hjwk
    obtain ⟨sig, hsign, hv⟩ := hsigns (L.sha256 input)
    refine ⟨sig, ?_, ?_⟩
    · rw [signJWS, if_pos rfl, hsign, signatureOr]
    · rw [verifyJWSSignature, if_pos rfl]
      exact require_eq_ok.mpr hv
  | signer pub | other => exact hsigns.elim

theorem publicKeyToJWK_alg {jwk : JWK}
    (h : publicKeyToJWK pub = .ok (jwk, alg)) : alg ∈ [algES256, algES384, algEdDSA, algRS256] := by
  cases pub with
  | ecdsa curve x y =>
    cases curve with
    | p256 | p384 =>
      simp only [publicKeyToJWK, ecJWK, bind_eq_ok] at h
      obtain ⟨_, -, _, -, h⟩ := h
      cases h
      simp
    | p224 => cases h
    | p521 => cases h
  | ed25519 key =>
    unfold publicKeyToJWK at h
    dsimp only at h
    split_ifs at h
    cases h
    simp
  | rsa n e =>
    cases h
    simp

def asciiUpper (b : UInt8) : UInt8 := if 0x61 ≤ b ∧ b ≤ 0x7a then b - 32 else b

theorem toUpper_of_ascii {T : UpperTable} : ∀ {s : Bytes}, Ascii s → toUpper T s = s.map asciiUpper
  | [], _ => rfl
  | b :: s, h => by
    have hbyte : ∀ b : UInt8, b < 0x80 →
        encodeRune (if 0x61 ≤ b ∧ b ≤ 0x7a then b.toNat - 32 else b.toNat) = [asciiUpper b] := by
      decide +kernel
    obtain ⟨hb, hs⟩ := ascii_cons_iff.mp h
    have ih := toUpper_of_ascii (T := T) hs
    rw [toUpper] at ih ⊢
    rw [runes_cons_ascii hb, flatMap_cons, ih, T.ascii b hb, hbyte b hb, map_cons]
    rfl

theorem not_prohibited (h : alg ∈ [algES256, algES384, algEdDSA, algRS256]) :
    prohibited L alg = false := by
  have hall : ∀ alg ∈ [algES256, algES384, algEdDSA, algRS256], Ascii alg ∧ Ascii (lit "none") ∧
      alg.map asciiLower ≠ (lit "none").map asciiLower ∧
      (lit "HS").isPrefixOf (alg.map asciiUpper) = false := by decide +kernel
  obtain ⟨hascii, hasciiNone, hnone, hhs⟩ := hall alg h
  have hfold : equalFold L.unicode alg (lit "none") = false := by
    rw [← Bool.not_eq_true, equalFold_ascii_iff _ hascii hasciiNone]
    exact hnone
  rw [prohibited, hfold, toUpper_of_ascii hascii, hhs]
  rfl

/-! ## 3. The target -/

theorem ascii_escape (mode : Encoding) (s : Bytes) : Ascii (escape mode s) := by
  intro b hb
  by_contra hno
  have hmarks : b ≠ plus ∧ b ≠ percent := by grind
  exact not_mem_escape (shouldEscape_not_ascii hno mode) hmarks.1 hmarks.2 (isAlnum_not_ascii hno) s hb

theorem ascii_escapedPath (u : URL) : Ascii u.escapedPath := by
  intro b hb
  by_contra hno
  have hmarks : b ≠ percent ∧ b ≠ plus := by grind
  exact u.not_mem_escapedPath (shouldEscape_not_ascii hno _) ((ascii_lit (by simp)).not_mem hno)
    ((ascii_lit (by simp)).not_mem hno) hmarks.1 hmarks.2 (isAlnum_not_ascii hno) hb

theorem ascii_stringAuthority (u : URL) : Ascii u.stringAuthority := by
  have hslashes : Ascii (lit "//") := ascii_lit (by simp)
  have huser (ui : Userinfo) : Ascii (ui.string ++ [atSign]) := by
    have hmark : Ascii [atSign] := by simp [Ascii]
    unfold Userinfo.string
    rw [ascii_append_iff, ascii_append_iff]
    refine ⟨⟨ascii_escape _ _, ?_⟩, hmark⟩
    split
    · exact ascii_nil
    · exact ascii_cons_iff.mpr ⟨by decide, ascii_escape _ _⟩
  unfold URL.stringAuthority
  split
  · split
    · exact ascii_nil
    · rw [ascii_append_iff, ascii_append_iff]
      refine ⟨⟨?_, ?_⟩, ascii_escape _ _⟩
      · split
        · exact hslashes
        · exact ascii_nil
      · split
        · exact ascii_nil
        · exact huser _
  · exact ascii_nil

variable {u : URL}

theorem utf8Valid_string (hscheme : Ascii u.scheme) (hquery : u.rawQuery = [])
    (hfragment : u.fragment = []) : utf8Valid u.string = utf8Valid u.opaq := by
  have hcolon : Ascii [colon] := by simp [Ascii]
  have hhead : Ascii (if u.scheme ≠ [] then u.scheme ++ [colon] else []) := by
    split
    · exact ascii_append_iff.mpr ⟨hscheme, hcolon⟩
    · exact ascii_nil
  have htail : Ascii (if u.forceQuery || u.rawQuery ≠ [] then question :: u.rawQuery else []) := by
    split
    · rw [hquery]
      exact ascii_cons_iff.mpr ⟨by decide, ascii_nil⟩
    · exact ascii_nil
  have hno : ¬ u.fragment ≠ [] := not_not.mpr hfragment
  have hslash : ∀ (c : Prop) [Decidable c], Ascii (if c then [slash] else []) := by
    intro c _
    split
    · exact ascii_cons_iff.mpr ⟨by decide, ascii_nil⟩
    · exact ascii_nil
  have hdot : ∀ (c : Prop) [Decidable c], Ascii (if c then lit "./" else []) := by
    intro c _
    split
    · exact ascii_lit (by simp)
    · exact ascii_nil
  unfold URL.string
  simp only [if_neg hno, append_nil]
  rw [utf8Valid_append_ascii htail]
  split
  · exact utf8Valid_ascii_append hhead _
  · rename_i hopaq
    rw [not_not.mp hopaq]
    refine (utf8Valid_of_ascii ?_).trans rfl
    simp only [ascii_append_iff]
    exact ⟨⟨⟨⟨hhead, ascii_stringAuthority u⟩, hslash _⟩, hdot _⟩, ascii_escapedPath u⟩

variable {U : Unicode}

theorem ascii_toLower {s : Bytes} (h : Ascii s) : Ascii (toLower U s) := by
  have hlower : ∀ b : UInt8, b < 0x80 → asciiLower b < 0x80 := by grind [asciiLower]
  rw [toLower_of_ascii U h]
  intro b hb
  obtain ⟨c, hc, rfl⟩ := mem_map.mp hb
  exact hlower c (h c hc)

theorem ascii_scheme {R : HostRules} {raw : Bytes}
    (h : parseURL R U raw = some u) : Ascii u.scheme := fun b hb => (scheme_of_parseURL h b hb).1

theorem utf8Valid_normalizeTargetURI {target norm : Bytes}
    (hu : parseURL L.hosts L.unicode target = some u)
    (h : normalizeTargetURI L target = .ok norm) : utf8Valid norm = utf8Valid u.opaq := by
  unfold normalizeTargetURI at h
  split_ifs at h
  rw [hu] at h
  cases h
  exact utf8Valid_string (ascii_toLower (ascii_scheme hu)) rfl rfl

/-! ## 4. The claims -/

variable {rand : Option (Vector UInt8 18)} {now₀ now : Time} {method target norm : Bytes}
  {opt : ProofOptions}

theorem utf8Valid_encodeToString (s : Bytes) : utf8Valid (encodeToString s) = true :=
  toValidUTF8_eq_self_iff.mp (toValidUTF8_encodeToString s)

theorem generateJTI_spec (rand : Option (Vector UInt8 18)) (now : Time) :
    generateJTI rand now ≠ [] ∧ utf8Valid (generateJTI rand now) = true := by
  cases rand with
  | none =>
    have hlit : Ascii (lit "jti-") := ascii_lit (by simp)
    have hbyte : ∀ b : UInt8, isDigit b = true ∨ b = minus → b < 0x80 := by grind [isDigit]
    refine ⟨cons_ne_nil _ _, utf8Valid_of_ascii (ascii_append_iff.mpr ⟨hlit, fun b hb => ?_⟩)⟩
    exact hbyte b (mem_formatInt hb)
  | some b =>
    refine ⟨fun hnil => ?_, utf8Valid_encodeToString _⟩
    have hdecoded := decodeString_encodeToString b.toList
    have hempty : encodeToString b.toList = [] := hnil
    rw [hempty] at hdecoded
    have hlen := congrArg List.length (Option.some.inj hdecoded)
    rw [Vector.length_toList] at hlen
    exact absurd hlen (by decide)

structure ValidOptions (opt : ProofOptions) : Prop where
  nonce : utf8Valid opt.nonce = true
  accessToken : utf8Valid opt.accessToken = true
  customJTI : utf8Valid opt.customJTI = true

theorem ascii_toUpper {T : UpperTable} {s : Bytes} (h : Ascii s) : Ascii (toUpper T s) := by
  have hupper : ∀ b : UInt8, b < 0x80 → asciiUpper b < 0x80 := by grind [asciiUpper]
  rw [toUpper_of_ascii h]
  intro b hb
  obtain ⟨c, hc, rfl⟩ := mem_map.mp hb
  exact hupper c (h c hc)

theorem proofClaims_coerced_iff (hmethod : Ascii method) (htrim : trimSpace method = method)
    (hopt : ValidOptions opt) :
    (proofClaims L rand now₀ method norm opt).coerced = proofClaims L rand now₀ method norm opt ↔
      utf8Valid norm = true := by
  set c := proofClaims L rand now₀ method norm opt with hc
  have hjti : toValidUTF8 c.jti = c.jti := by
    refine toValidUTF8_of_valid ?_
    rw [hc, proofClaims]
    dsimp only
    split_ifs
    · exact (generateJTI_spec rand now₀).2
    · exact hopt.customJTI
  have hhtm : toValidUTF8 c.htm = c.htm := by
    refine toValidUTF8_of_valid (utf8Valid_of_ascii ?_)
    rw [hc, proofClaims, htrim]
    exact ascii_toUpper hmethod
  have hath : toValidUTF8 c.ath = c.ath := by
    rw [hc, proofClaims]
    dsimp only
    split_ifs
    · rfl
    · exact toValidUTF8_encodeToString _
  have hnonce : toValidUTF8 c.nonce = c.nonce := toValidUTF8_of_valid hopt.nonce
  rw [← toValidUTF8_eq_self_iff]
  constructor
  · intro h
    exact congrArg ProofClaims.htu h
  · intro h
    have hhtu : toValidUTF8 c.htu = c.htu := h
    rw [ProofClaims.coerced, hjti, hhtm, hath, hnonce, hhtu]

/-- The verifier with the same method, target, nonce and access token. -/
def verifierFor (method target : Bytes) (opt : ProofOptions) (maxAge skew : Duration) :
    VerifierConfig where
  expectedMethod := method
  expectedURI := target
  accessToken := opt.accessToken
  expectedNonce := opt.nonce
  maxAge := maxAge
  allowedClockSkew := skew

theorem proofClaims_admitted {maxAge skew : Duration} (hmethod : Ascii method)
    (htrim : trimSpace method = method) (hnorm : normalizeTargetURI L target = .ok norm)
    (htime : checkTime (verifierFor method target opt maxAge skew) now
      (proofClaims L rand now₀ method norm opt).iat = .ok ()) :
    Admitted L (verifierFor method target opt maxAge skew) now
      (proofClaims L rand now₀ method norm opt) where
  jti := by
    rw [proofClaims]
    dsimp only
    split_ifs with h
    · exact (generateJTI_spec rand now₀).1
    · exact h
  method _ := by
    have hlower : ∀ b : UInt8, b < 0x80 → asciiLower (asciiUpper b) = asciiLower b := by
      grind [asciiLower, asciiUpper]
    rw [proofClaims, htrim]
    refine (equalFold_ascii_iff _ (ascii_toUpper hmethod) hmethod).mpr ?_
    rw [toUpper_of_ascii hmethod, map_map]
    exact map_congr_left fun b hb => hlower b (hmethod b hb)
  uri _ := hnorm
  time := htime
  token h := if_neg h
  nonce _ := rfl

/-! ## 5. The round trip -/

variable {priv : PrivateKey K} {pub : PublicKey} {opts : List ProofOptions}

theorem createProof_eq (rand : Option (Vector UInt8 18)) (now₀ : Time) (method : Bytes)
    (opts : List ProofOptions) (hsigns : Signs L S priv) (hpub : extractPublicKey priv = some pub)
    (hsup : Supported pub) (hnorm : normalizeTargetURI L target = .ok norm) :
    ∃ jwk alg sig, publicKeyToJWK pub = .ok (jwk, alg) ∧ jwkToPublicKey jwk = .ok pub ∧
      createProof L S rand now₀ (some priv) method target opts =
        .ok (compact (L.marshalHeader ⟨typeDPoPJWT, alg, some jwk⟩)
          (L.marshalClaims (proofClaims L rand now₀ method norm (opts.headD {}))) sig) ∧
      verifyJWSSignature L pub alg (encodeToString (L.marshalHeader ⟨typeDPoPJWT, alg, some jwk⟩) ++
          dot :: encodeToString (L.marshalClaims (proofClaims L rand now₀ method norm (opts.headD {}))))
        sig = .ok () := by
  obtain ⟨jwk, alg, hjwk, hkey⟩ := jwkToPublicKey_publicKeyToJWK hsup
  obtain ⟨sig, hsig, hvalid⟩ := signJWS_verifies hsigns hpub hjwk
    (encodeToString (L.marshalHeader ⟨typeDPoPJWT, alg, some jwk⟩) ++
      dot :: encodeToString (L.marshalClaims (proofClaims L rand now₀ method norm (opts.headD {}))))
  refine ⟨jwk, alg, sig, hjwk, hkey, ?_, hvalid⟩
  simp only [createProof, hpub, bind_eq_ok]
  exact ⟨(jwk, alg), hjwk, norm, hnorm, sig, hsig, rfl⟩

theorem accepted_claims (hL : JsonLaws L) {cfg : VerifierConfig} {header sig : Bytes}
    {signed claims : ProofClaims} {jwk : JWK}
    (h : verifyProof L cfg now (compact header (L.marshalClaims signed) sig) = .ok (claims, jwk)) :
    claims = signed.coerced ∧ Admitted L cfg now claims := by
  obtain ⟨h64, c64, s64, _, _, _, hsplit, -, hclaims, hadm⟩ := verifyProof_eq_ok.mp h
  rw [splitProof_compact] at hsplit
  cases hsplit
  rw [decodeString_encodeToString, Option.bind_some, hL.claims] at hclaims
  exact ⟨(Option.some.inj hclaims).symm, hadm⟩

theorem target_ne_nil (hnorm : normalizeTargetURI L target = .ok norm) : target ≠ [] := by
  rintro rfl
  cases hnorm

/-- **A proof that is created is verified**, with the claims that were signed and the key that signed
them, exactly if the opaque part of the target is valid UTF-8. -/
theorem roundTrip_iff {maxAge skew : Duration} (hL : JsonLaws L) (hsigns : Signs L S priv)
    (hpub : extractPublicKey priv = some pub) (hsup : Supported pub) (hmethod : Ascii method)
    (htrim : trimSpace method = method) (hnorm : normalizeTargetURI L target = .ok norm)
    (hopt : ValidOptions (opts.headD {}))
    (htime : checkTime (verifierFor method target (opts.headD {}) maxAge skew) now
      (proofClaims L rand now₀ method norm (opts.headD {})).iat = .ok ()) :
    (∃ proof jwk, createProof L S rand now₀ (some priv) method target opts = .ok proof ∧
        verifyProof L (verifierFor method target (opts.headD {}) maxAge skew) now proof =
          .ok (proofClaims L rand now₀ method norm (opts.headD {}), jwk) ∧
        jwkToPublicKey jwk = .ok pub) ↔
      ∃ u, parseURL L.hosts L.unicode target = some u ∧ utf8Valid u.opaq = true := by
  obtain ⟨u, hu⟩ : ∃ u, parseURL L.hosts L.unicode target = some u := by
    unfold normalizeTargetURI at hnorm
    split_ifs at hnorm
    split at hnorm
    · cases hnorm
    · rename_i u hu
      exact ⟨u, hu⟩
  have hvalid := utf8Valid_normalizeTargetURI hu hnorm
  obtain ⟨jwk, alg, sig, hjwk, hkey, hcreate, hsig⟩ :=
    createProof_eq rand now₀ method opts hsigns hpub hsup hnorm
  obtain ⟨hjwkc, halgc⟩ := publicKeyToJWK_coerced hjwk
  constructor
  · rintro ⟨proof, jwk', hc, hok, -⟩
    obtain rfl := Except.ok.inj (hcreate.symm.trans hc)
    obtain ⟨hclaims, -⟩ := accepted_claims hL hok
    refine ⟨u, hu, ?_⟩
    rw [← hvalid]
    exact (proofClaims_coerced_iff hmethod htrim hopt).mp hclaims.symm
  · rintro ⟨u', hu', hopaq⟩
    obtain rfl := Option.some.inj (hu.symm.trans hu')
    have hclaims : (proofClaims L rand now₀ method norm (opts.headD {})).coerced =
        proofClaims L rand now₀ method norm (opts.headD {}) :=
      (proofClaims_coerced_iff hmethod htrim hopt).mpr (hvalid.trans hopaq)
    have htyp : toValidUTF8 typeDPoPJWT = typeDPoPJWT := by decide
    have hheader := hL.header ⟨typeDPoPJWT, alg, some jwk⟩
    rw [ProofHeader.coerced] at hheader
    simp only [htyp, halgc, Option.map_some, hjwkc] at hheader
    refine ⟨_, jwk, hcreate, ?_, hkey⟩
    refine verifyProof_compact hheader ?_ rfl (not_prohibited (publicKeyToJWK_alg hjwk)) hkey hsig
      ((hL.claims _).trans (congrArg some hclaims)) (proofClaims_admitted hmethod htrim hnorm htime)
    exact beq_self_eq_true _

/-! ### A key -/

theorem json_laws : JsonLaws .json := ⟨json_header, json_claims⟩

def zeroSigning : Signing Unit where
  ecdsaSign _ _ := some (0, 0)
  ed25519Sign _ _ := List.replicate 64 0
  signPKCS1v15 _ _ := some []
  signPSS _ _ := some []

def zeroKey : PrivateKey Unit := .ed25519 () (List.replicate 32 0)

theorem zeroKey_signs : Signs .json zeroSigning zeroKey := fun _ => ⟨length_replicate, rfl⟩

theorem zeroKey_supported : Supported (.ed25519 (List.replicate 32 0)) := length_replicate

theorem validOptions_default : ValidOptions {} := ⟨rfl, rfl, rfl⟩

theorem roundTrip_iff_root :
    normalizeTargetURI .json (lit "http://h/") = .ok (lit "http://h/") ∧
    ((∃ proof jwk, createProof .json zeroSigning none (Time.unix 1700000000) (some zeroKey) (lit "GET")
          (lit "http://h/") [] = .ok proof ∧
        verifyProof .json (verifierFor (lit "GET") (lit "http://h/") {} 0 0) (Time.unix 1700000000)
          proof =
            .ok (proofClaims .json none (Time.unix 1700000000) (lit "GET") (lit "http://h/") {}, jwk) ∧
        jwkToPublicKey jwk = .ok (.ed25519 (List.replicate 32 0))) ↔
      ∃ u, parseURL Library.json.hosts Library.json.unicode (lit "http://h/") = some u ∧
        utf8Valid u.opaq = true) := by
  have hnorm : normalizeTargetURI .json (lit "http://h/") = .ok (lit "http://h/") := by
    decide
  have hmethod : Ascii (lit "GET") := ascii_lit (by simp)
  have htrim : trimSpace (lit "GET") = lit "GET" := by decide
  have htime : checkTime (verifierFor (lit "GET") (lit "http://h/") {} 0 0) (Time.unix 1700000000)
      (proofClaims .json none (Time.unix 1700000000) (lit "GET") (lit "http://h/") {}).iat =
        .ok () := by decide
  exact ⟨hnorm, roundTrip_iff json_laws zeroKey_signs rfl zeroKey_supported hmethod htrim hnorm
    validOptions_default htime⟩

def opaqueTarget : Bytes := lit "http:" ++ [0xff]

/-- **The proof for an opaque target with an invalid byte is created and rejected.** -/
theorem invalid_opaque_rejected :
    normalizeTargetURI .json opaqueTarget = .ok opaqueTarget ∧
    checkTime (verifierFor (lit "GET") opaqueTarget {} 0 0) (Time.unix 1700000000)
      (proofClaims .json none (Time.unix 1700000000) (lit "GET") opaqueTarget {}).iat = .ok () ∧
    ∃ proof, createProof .json zeroSigning none (Time.unix 1700000000) (some zeroKey) (lit "GET")
        opaqueTarget [] = .ok proof ∧
      ¬ ∃ claims jwk, verifyProof .json (verifierFor (lit "GET") opaqueTarget {} 0 0)
        (Time.unix 1700000000) proof = .ok (claims, jwk) := by
  have hnorm : normalizeTargetURI .json opaqueTarget = .ok opaqueTarget := by decide
  obtain ⟨jwk, alg, sig, -, -, hcreate, -⟩ := createProof_eq none (Time.unix 1700000000) (lit "GET") []
    zeroKey_signs rfl zeroKey_supported hnorm
  refine ⟨hnorm, by decide, _, hcreate, ?_⟩
  rintro ⟨claims, jwk', hok⟩
  obtain ⟨rfl, hadm⟩ := accepted_claims json_laws hok
  have huri := hadm.uri (target_ne_nil hnorm)
  have hsame : opaqueTarget = toValidUTF8 opaqueTarget := Except.ok.inj (hnorm.symm.trans huri)
  have hdiff : opaqueTarget ≠ toValidUTF8 opaqueTarget := by decide
  exact hdiff hsame

end AoniContrib.Dpop
