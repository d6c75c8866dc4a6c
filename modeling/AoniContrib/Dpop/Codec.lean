/-
# The JSON of the header and the claims of a proof

`encoding/json` on `ProofHeader` and `ProofClaims`, as the tags of their fields say.  Marshalling
replaces the invalid bytes of every string, so what is unmarshalled again is the `coerced` record
(`unmarshalHeader_marshal`, `unmarshalClaims_marshal`).
-/
import AoniContrib.Dpop.Proof
import AoniContrib.Go.JsonString

namespace AoniContrib.Dpop

open Go List

/-! ## 1. Records with valid strings -/

def JWK.coerced (jwk : JWK) : JWK where
  kty := toValidUTF8 jwk.kty
  crv := toValidUTF8 jwk.crv
  x := toValidUTF8 jwk.x
  y := toValidUTF8 jwk.y
  n := toValidUTF8 jwk.n
  e := toValidUTF8 jwk.e
  alg := toValidUTF8 jwk.alg
  kid := toValidUTF8 jwk.kid

def ProofHeader.coerced (header : ProofHeader) : ProofHeader where
  typ := toValidUTF8 header.typ
  alg := toValidUTF8 header.alg
  jwk := header.jwk.map JWK.coerced

def ProofClaims.coerced (claims : ProofClaims) : ProofClaims where
  jti := toValidUTF8 claims.jti
  htm := toValidUTF8 claims.htm
  htu := toValidUTF8 claims.htu
  iat := claims.iat
  nonce := toValidUTF8 claims.nonce
  ath := toValidUTF8 claims.ath

/-! ## 2. Documents -/

def JWK.fields (jwk : JWK) : List (Bytes × Option Json) :=
  [(lit "kty", some (.str jwk.kty)), (lit "crv", omitEmpty jwk.crv), (lit "x", omitEmpty jwk.x),
    (lit "y", omitEmpty jwk.y), (lit "n", omitEmpty jwk.n), (lit "e", omitEmpty jwk.e),
    (lit "alg", omitEmpty jwk.alg), (lit "kid", omitEmpty jwk.kid)]

def JWK.document (jwk : Option JWK) : Json :=
  match jwk with
  | none => .null
  | some jwk => .obj (structMembers jwk.fields)

def ProofHeader.fields (header : ProofHeader) : List (Bytes × Option Json) :=
  [(lit "typ", some (.str header.typ)), (lit "alg", some (.str header.alg)),
    (lit "jwk", some (JWK.document header.jwk))]

def ProofClaims.fields (claims : ProofClaims) : List (Bytes × Option Json) :=
  [(lit "jti", some (.str claims.jti)), (lit "htm", some (.str claims.htm)),
    (lit "htu", some (.str claims.htu)), (lit "iat", some (.num (formatInt claims.iat))),
    (lit "nonce", omitEmpty claims.nonce), (lit "ath", omitEmpty claims.ath)]

def marshal (fields : List (Bytes × Option Json)) : Bytes :=
  (Json.obj (structMembers fields)).render jsonQuote

def asJWK : Option Json → Option (Option JWK)
  | none => some none
  | some .null => some none
  | some (.obj ms) => do
    let kty ← asString (lastMember (lit "kty") ms)
    let crv ← asString (lastMember (lit "crv") ms)
    let x ← asString (lastMember (lit "x") ms)
    let y ← asString (lastMember (lit "y") ms)
    let n ← asString (lastMember (lit "n") ms)
    let e ← asString (lastMember (lit "e") ms)
    let alg ← asString (lastMember (lit "alg") ms)
    let kid ← asString (lastMember (lit "kid") ms)
    some (some ⟨kty, crv, x, y, n, e, alg, kid⟩)
  | some _ => none

def asInt64 : Option Json → Option Int64
  | none => some 0
  | some .null => some 0
  | some (.num text) =>
    match parseInt text with
    | (n, none) => some n
    | (_, some _) => none
  | some _ => none

def unmarshalHeader (text : Bytes) : Option ProofHeader :=
  match Json.parse text with
  | some (.obj ms) => do
    let typ ← asString (lastMember (lit "typ") ms)
    let alg ← asString (lastMember (lit "alg") ms)
    let jwk ← asJWK (lastMember (lit "jwk") ms)
    some ⟨typ, alg, jwk⟩
  | _ => none

def unmarshalClaims (text : Bytes) : Option ProofClaims :=
  match Json.parse text with
  | some (.obj ms) => do
    let jti ← asString (lastMember (lit "jti") ms)
    let htm ← asString (lastMember (lit "htm") ms)
    let htu ← asString (lastMember (lit "htu") ms)
    let iat ← asInt64 (lastMember (lit "iat") ms)
    let nonce ← asString (lastMember (lit "nonce") ms)
    let ath ← asString (lastMember (lit "ath") ms)
    some ⟨jti, htm, htu, iat, nonce, ath⟩
  | _ => none

/-! ## 3. What is marshalled is unmarshalled -/

/-- A field whose value is read back: its name and its strings are valid, its numbers are numbers. -/
def FieldOk (f : Bytes × Option Json) : Prop :=
  utf8Valid f.1 = true ∧ ∀ v ∈ f.2, (v.strings.all utf8Valid = true ∧ ∀ t ∈ v.numbers, Json.IsNumber t)

section
variable {fields : List (Bytes × Option Json)} (h : ∀ f ∈ fields, FieldOk f)
include h

theorem structMembers_ok : (Json.obj (structMembers fields)).strings.all utf8Valid = true ∧
      ∀ t ∈ (Json.obj (structMembers fields)).numbers, Json.IsNumber t := by
  have hmember : ∀ m ∈ structMembers fields, utf8Valid m.1 = true ∧
      m.2.strings.all utf8Valid = true ∧ ∀ t ∈ m.2.numbers, Json.IsNumber t := by
    intro m hm
    obtain ⟨f, hf, hfm⟩ := mem_filterMap.mp hm
    obtain ⟨v, hv, rfl⟩ := Option.map_eq_some_iff.mp hfm
    exact ⟨(h f hf).1, (h f hf).2 v hv⟩
  constructor
  · rw [Json.strings, Json.stringsMembers_eq, all_flatMap, all_eq_true]
    intro m hm
    rw [all_cons, (hmember m hm).1, (hmember m hm).2.1]
    rfl
  · intro t ht
    rw [Json.numbers, Json.numbersMembers_eq, mem_flatMap] at ht
    obtain ⟨m, hm, ht⟩ := ht
    exact (hmember m hm).2.2 t ht

theorem parse_marshal : Json.parse (marshal fields) = some (.obj (structMembers fields)) := by
  obtain ⟨hstrings, hnumbers⟩ := structMembers_ok h
  rw [marshal, Json.parse_render jsonQuote_reads _ hnumbers, if_pos hstrings]

end

theorem fieldOk_str {name s : Bytes} (hname : utf8Valid name = true) (hs : utf8Valid s = true) :
    FieldOk (name, some (.str s)) := by
  refine ⟨hname, fun v hv => ?_⟩
  cases hv
  exact ⟨by rw [Json.strings, all_cons, hs]; rfl, fun t ht => by cases ht⟩

theorem fieldOk_omitEmpty {name s : Bytes} (hname : utf8Valid name = true)
    (hs : utf8Valid s = true) : FieldOk (name, omitEmpty s) := by
  unfold omitEmpty
  split_ifs
  · exact ⟨hname, fun v hv => by cases hv⟩
  · exact fieldOk_str hname hs

theorem jwk_names (jwk : JWK) : (jwk.fields.map Prod.fst).Nodup := by
  have h : ([lit "kty", lit "crv", lit "x", lit "y", lit "n", lit "e", lit "alg", lit "kid"]).Nodup := by
    decide
  exact h

variable (header : ProofHeader)

theorem header_names : (header.fields.map Prod.fst).Nodup := by
  have h : ([lit "typ", lit "alg", lit "jwk"]).Nodup := by decide
  exact h

theorem claims_names (claims : ProofClaims) : (claims.fields.map Prod.fst).Nodup := by
  have h : ([lit "jti", lit "htm", lit "htu", lit "iat", lit "nonce", lit "ath"]).Nodup := by
    decide
  exact h

theorem jwk_fieldOk (jwk : JWK) : ∀ f ∈ jwk.coerced.fields, FieldOk f := by
  have hname : ∀ name ∈ [lit "kty", lit "crv", lit "x", lit "y", lit "n", lit "e", lit "alg",
      lit "kid"], utf8Valid name = true := by decide
  intro f hf
  have hvalid := utf8Valid_toValidUTF8
  simp only [JWK.fields, JWK.coerced, mem_cons, not_mem_nil, or_false] at hf
  rcases hf with rfl | rfl | rfl | rfl | rfl | rfl | rfl | rfl
  · exact fieldOk_str (hname _ (by simp)) (hvalid _)
  all_goals exact fieldOk_omitEmpty (hname _ (by simp)) (hvalid _)

theorem asJWK_document (jwk : Option JWK) : asJWK (some (JWK.document jwk)) = some jwk := by
  cases jwk with
  | none => rfl
  | some jwk =>
    have hn := jwk_names jwk
    have hkty := asString_member hn 0 rfl (rfl : asString (some (.str jwk.kty)) = _)
    have hcrv := asString_member hn 1 rfl (asString_omitEmpty jwk.crv)
    have hx := asString_member hn 2 rfl (asString_omitEmpty jwk.x)
    have hy := asString_member hn 3 rfl (asString_omitEmpty jwk.y)
    have hmod := asString_member hn 4 rfl (asString_omitEmpty jwk.n)
    have he := asString_member hn 5 rfl (asString_omitEmpty jwk.e)
    have halg := asString_member hn 6 rfl (asString_omitEmpty jwk.alg)
    have hkid := asString_member hn 7 rfl (asString_omitEmpty jwk.kid)
    simp only [JWK.document, asJWK, hkty, hcrv, hx, hy, hmod, he, halg, hkid, Option.bind_eq_bind,
      Option.bind_some]

theorem header_fieldOk : ∀ f ∈ header.coerced.fields, FieldOk f := by
  have hname : ∀ name ∈ [lit "typ", lit "alg", lit "jwk"], utf8Valid name = true := by
    decide
  intro f hf
  simp only [ProofHeader.fields, ProofHeader.coerced, mem_cons, not_mem_nil, or_false] at hf
  rcases hf with rfl | rfl | rfl
  · exact fieldOk_str (hname _ (by simp)) (utf8Valid_toValidUTF8 _)
  · exact fieldOk_str (hname _ (by simp)) (utf8Valid_toValidUTF8 _)
  · refine ⟨hname _ (by simp), fun v hv => ?_⟩
    cases hv
    cases header.jwk with
    | none => exact ⟨rfl, fun t ht => by cases ht⟩
    | some jwk => exact structMembers_ok (jwk_fieldOk jwk)

theorem claims_fieldOk (claims : ProofClaims) : ∀ f ∈ claims.coerced.fields, FieldOk f := by
  have hname : ∀ name ∈ [lit "jti", lit "htm", lit "htu", lit "iat", lit "nonce", lit "ath"],
      utf8Valid name = true := by decide
  intro f hf
  have hvalid := utf8Valid_toValidUTF8
  simp only [ProofClaims.fields, ProofClaims.coerced, mem_cons, not_mem_nil, or_false] at hf
  rcases hf with rfl | rfl | rfl | rfl | rfl | rfl
  iterate 3 exact fieldOk_str (hname _ (by simp)) (hvalid _)
  · refine ⟨hname _ (by simp), fun v hv => ?_⟩
    cases hv
    refine ⟨rfl, fun t ht => ?_⟩
    rw [Json.numbers, mem_singleton] at ht
    rw [ht]
    exact Json.isNumber_formatInt claims.iat
  all_goals exact fieldOk_omitEmpty (hname _ (by simp)) (hvalid _)

/-- **A header is read back**, its strings as far as they are valid. -/
theorem unmarshalHeader_marshal :
    unmarshalHeader (marshal header.coerced.fields) = some header.coerced := by
  have hn := header_names header.coerced
  have htyp := asString_member hn 0 rfl (rfl : asString (some (.str header.coerced.typ)) = _)
  have halg := asString_member hn 1 rfl (rfl : asString (some (.str header.coerced.alg)) = _)
  have hjwk := lastMember_structMembers hn (.tail _ (.tail _ (.head _)))
  simp only [unmarshalHeader, parse_marshal (header_fieldOk header), htyp, halg, hjwk,
    asJWK_document, Option.bind_eq_bind, Option.bind_some]

theorem unmarshalClaims_marshal (claims : ProofClaims) :
    unmarshalClaims (marshal claims.coerced.fields) = some claims.coerced := by
  have hn := claims_names claims.coerced
  have hjti := asString_member hn 0 rfl (rfl : asString (some (.str claims.coerced.jti)) = _)
  have hhtm := asString_member hn 1 rfl (rfl : asString (some (.str claims.coerced.htm)) = _)
  have hhtu := asString_member hn 2 rfl (rfl : asString (some (.str claims.coerced.htu)) = _)
  have hiat := lastMember_structMembers hn (.tail _ (.tail _ (.tail _ (.head _))))
  have hnonce := asString_member hn 4 rfl (asString_omitEmpty claims.coerced.nonce)
  have hath := asString_member hn 5 rfl (asString_omitEmpty claims.coerced.ath)
  simp only [unmarshalClaims, parse_marshal (claims_fieldOk claims), hjti, hhtm, hhtu, hiat, hnonce,
    hath, asInt64, parseInt_formatInt, Option.bind_eq_bind, Option.bind_some]

theorem toValidUTF8_encodeToString (s : Bytes) : toValidUTF8 (encodeToString s) = encodeToString s := by
  refine toValidUTF8_of_valid (utf8Valid_of_ascii fun b hb => ?_)
  obtain ⟨n, hn, rfl⟩ := urlEncoding.mem_encodeRaw s hb
  have hall : ∀ n < 64, urlEncoding.char n < 0x80 := by decide
  exact hall n hn

theorem publicKeyToJWK_coerced {key : PublicKey} {jwk : JWK} {alg : Bytes}
    (h : publicKeyToJWK key = .ok (jwk, alg)) : jwk.coerced = jwk ∧ toValidUTF8 alg = alg := by
  have hlit : ∀ s ∈ [lit "EC", lit "P-256", lit "P-384", lit "OKP", lit "Ed25519", lit "RSA",
      algES256, algES384, algEdDSA, algRS256, []], toValidUTF8 s = s := by decide
  have hec : ∀ {crv alg' : Bytes} {k x y : Nat}, toValidUTF8 crv = crv → toValidUTF8 alg' = alg' →
      ecJWK crv alg' k x y = .ok (jwk, alg) → jwk.coerced = jwk ∧ toValidUTF8 alg = alg := by
    intro crv alg' k x y hcrv halg h
    simp only [ecJWK, bind_eq_ok] at h
    obtain ⟨xs, -, ys, -, h⟩ := h
    cases h
    refine ⟨?_, halg⟩
    simp only [JWK.coerced, toValidUTF8_encodeToString, hcrv, hlit [] (by simp),
      hlit (lit "EC") (by simp)]
  cases key with
  | ecdsa curve x y =>
    cases curve with
    | p256 => exact hec (hlit _ (by simp)) (hlit _ (by simp)) h
    | p384 => exact hec (hlit _ (by simp)) (hlit _ (by simp)) h
    | p224 => cases h
    | p521 => cases h
  | ed25519 key =>
    unfold publicKeyToJWK at h
    dsimp only at h
    split_ifs at h
    cases h
    refine ⟨?_, hlit _ (by simp)⟩
    simp only [JWK.coerced, toValidUTF8_encodeToString, hlit [] (by simp),
      hlit (lit "OKP") (by simp), hlit (lit "Ed25519") (by simp)]
  | rsa n e =>
    cases h
    refine ⟨?_, hlit _ (by simp)⟩
    simp only [JWK.coerced, toValidUTF8_encodeToString, hlit [] (by simp), hlit (lit "RSA") (by simp)]

/-- A library with this JSON, in which every text is its own hash and every signature is valid. -/
def Library.json : Library where
  unicode := .ascii
  upper := .asciiOnly
  hosts := ⟨fun _ => true, false⟩
  marshalHeader header := marshal header.coerced.fields
  unmarshalHeader := Dpop.unmarshalHeader
  marshalClaims claims := marshal claims.coerced.fields
  unmarshalClaims := Dpop.unmarshalClaims
  sha256 := id
  sha384 := id
  ecdsaVerify _ _ _ _ := true
  ed25519Verify _ _ _ := true
  verifyPKCS1v15 _ _ _ := true
  verifyPSS _ _ _ := true

theorem json_header :
    Library.json.unmarshalHeader (Library.json.marshalHeader header) = some header.coerced :=
  unmarshalHeader_marshal header

theorem json_claims (claims : ProofClaims) :
    Library.json.unmarshalClaims (Library.json.marshalClaims claims) = some claims.coerced :=
  unmarshalClaims_marshal claims

end AoniContrib.Dpop
