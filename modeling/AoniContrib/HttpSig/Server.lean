/-
# From the client to the server

A client signs a request with an ABSOLUTE URL; a server handler gets the same request with the
URL of the request target only: a path and a query, no host.  What net/http knows of the host
is in `Request.Host`, which neither `SignRequest` nor `VerifyRequest` reads.

So of the components that make sense on both sides, `@method`, `@path`, `@query`,
`@request-target` and the header fields come out the same, and `@authority` (which the default
list covers) is never available to the server: `server_base_iff`.
-/
import AoniContrib.Data.Split
import AoniContrib.HttpSig.Target

namespace AoniContrib.HttpSig

open Go Data List

variable (U : Unicode)

/-! ## 1. The URL a server gets -/

/-- An absolute http or https URL, its path empty or written with a leading slash. -/
structure AbsoluteURL (u : URL) : Prop where
  scheme : u.scheme = lit "http" ∨ u.scheme = lit "https"
  host : u.host ≠ []
  hierarchical : u.opaq = []
  rooted : u.escapedPath = [] ∨ hasPrefix slash u.escapedPath = true

theorem requestURI_eq {u : URL} (h : u.opaq = []) : u.requestURI = wirePath u ++
      (if (u.forceQuery || u.rawQuery ≠ []) = true then question :: u.rawQuery else []) := by
  unfold URL.requestURI wirePath
  simp only [h, if_true]
  split <;> simp

/-- **What the server's URL holds**: the decoded path, the query, and no host. -/
theorem parseOriginForm_requestURI {u v : URL} (ho : u.opaq = [])
    (h : parseOriginForm u.requestURI = some v) :
    v.host = [] ∧ pathOrRoot v = pathOrRoot u ∧ v.rawQuery = u.rawQuery := by
  have hpath := unescape_wirePath u
  have hroot : ∀ {w : URL}, w.path = pathOrRoot u → pathOrRoot w = pathOrRoot u := by
    intro w hw
    unfold pathOrRoot
    split
    · rename_i hnil
      rw [hw] at hnil
      unfold pathOrRoot at hnil
      split at hnil
      · cases hnil
      · contradiction
    · exact hw
  have hno := question_not_mem_wirePath u
  rw [requestURI_eq ho] at h
  by_cases hq : u.rawQuery = []
  · cases hf : u.forceQuery with
    | false =>
      rw [if_neg (by simp [hf, hq]), append_nil] at h
      obtain ⟨h1, h2, h3⟩ := setPath_eq hpath (parseOriginForm_path hno h)
      exact ⟨h2, hroot h1, by rw [h3, hq]⟩
    | true =>
      rw [if_pos (by simp [hf]), hq] at h
      obtain ⟨h1, h2, h3⟩ := setPath_eq hpath (parseOriginForm_forceQuery hno h)
      exact ⟨h2, hroot h1, by rw [h3, hq]⟩
  · rw [if_pos (by simp [hq])] at h
    obtain ⟨h1, h2, h3⟩ := setPath_eq hpath (parseOriginForm_query hno hq h)
    exact ⟨h2, hroot h1, h3⟩

/-! ## 2. The header fields a server gets -/

/-- The value lists under the keys that fold to `name`. -/
def fieldValues (h : Header) (name : Bytes) : List (List Bytes) :=
  (h.entries.filter (fun e => equalFold U e.1 name)).map Prod.snd

/-- The field is in both headers under one key, with the same values. -/
def CarriedUnchanged (h h' : Header) (name : Bytes) : Prop :=
  ∃ vs, fieldValues U h name = [vs] ∧ fieldValues U h' name = [vs]

variable {name : Bytes}

theorem matchValues_eq {h : Header} {vs : List Bytes}
    (hf : fieldValues U h name = [vs]) (ord : MapOrder) : matchValues U ord h name = vs := by
  have hperm : (((ord.visit h).filter (fun e => equalFold U e.1 name)).map Prod.snd).Perm [vs] := by
    rw [← hf]
    exact ((ord.perm h).filter _).map _
  rw [matchValues, flatMap_ite (fun e => equalFold U e.1 name) Prod.snd, flatMap_def,
    perm_singleton.mp hperm, flatten_singleton]

theorem fieldValues_appendHeader {key : Bytes} (h : Header) (member : Bytes)
    (hk : equalFold U (canonicalMIMEHeaderKey key) name = false) :
    fieldValues U (appendHeader h key member) name = fieldValues U h name := by
  have hset : ∀ v, fieldValues U (h.set key v) name = fieldValues U h name := by
    intro v
    rw [fieldValues, fieldValues, Header.filter_set (p := fun k => equalFold U k name) hk]
  unfold appendHeader
  simp only
  split <;> exact hset _

/-- **Signing carries every other field unchanged.** -/
theorem signRequest_fieldValues {ord : Nat → MapOrder} {req signed : Request} {cfg : SignConfig}
    {now : Time} (h : signRequest U ord req cfg now = .ok signed)
    (h1 : equalFold U headerSignatureInput name = false)
    (h2 : equalFold U headerSignature name = false) :
    fieldValues U signed.header name = fieldValues U req.header name := by
  have hk1 : canonicalMIMEHeaderKey headerSignatureInput = headerSignatureInput := by decide
  have hk2 : canonicalMIMEHeaderKey headerSignature = headerSignature := by decide
  obtain ⟨members, -, h⟩ := bind_eq_ok.mp h
  rw [← Except.ok.inj h, fieldValues_appendHeader U _ _ (by rw [hk2]; exact h2),
    fieldValues_appendHeader U _ _ (by rw [hk1]; exact h1)]

/-! ## 3. The base the server rebuilds -/

/-- The request `req` as a server handler gets it, sent to the URL `u`. -/
structure ReceivedAs (u : URL) (req req' : Request) : Prop where
  method : req'.method = req.method
  url : ∃ v, req'.url = some v ∧ parseOriginForm u.requestURI = some v
  host : req'.host = u.host

/-- A component that both sides can read: one of five derived ones, or a header field that
arrives as it was signed. -/
def ReadOnBothSides (signed req' : Request) (p : ParsedComponent) : Prop :=
  p.name ∈ [compMethod, compAuthority, compPath, compQuery, compRequestTarget] ∨
    hasPrefix atSign p.name = false ∧ equalFold U headerSignatureInput p.name = false ∧
      equalFold U headerSignature p.name = false ∧
      CarriedUnchanged U signed.header req'.header p.name

/-- From the request it got, the server rebuilds the base that the client signed. -/
def RebuildsBase (ord ord' : Nat → MapOrder) (req req' : Request) (cfg : SignConfig) (now : Time) :
    Prop :=
  ∃ signer base, cfg.signer = some signer ∧
    buildSignatureBase U ord (requestContext req) (signParams (requestContext req) cfg signer now) =
      .ok base ∧
    buildSignatureBase U ord' (requestContext req') (signParams (requestContext req) cfg signer now) =
      .ok base

/-- Where `VerifyRequest` reads the parameters of the signer, and its key accepts nothing but the base
that was signed, a request that it accepts has that base. -/
theorem rebuildsBase_of_verifyRequest {ord ord' : Nat → MapOrder} {req signed req' : Request}
    {cfg : SignConfig} {vcfg : VerifyConfig} {now later : Time} {params : SignatureParams}
    (hsign : signRequest U ord req cfg now = .ok signed)
    (hverify : verifyRequest U ord' req' vcfg later = .ok params)
    (hparams : ∀ signer, cfg.signer = some signer →
      params = signParams (requestContext req) cfg signer now)
    (hkey : ∀ verifier base base' sig, vcfg.verifier = some verifier →
      buildSignatureBase U ord (requestContext req) params = .ok base →
      verifier.verify base' sig = none → base' = base) : RebuildsBase U ord ord' req req' cfg now := by
  obtain ⟨_, hmembers, -⟩ := bind_eq_ok.mp hsign
  obtain ⟨signer, base, -, -, hsigner, hbase, -⟩ := sign_ok U hmembers
  obtain ⟨verifier, sig, base', hverifier, -, -, -, hbase', hok⟩ := verify_ok U hverify
  obtain rfl := hparams signer hsigner
  obtain rfl := hkey verifier base base' sig hverifier hbase hok
  exact ⟨signer, base', hsigner, hbase, hbase'⟩

theorem targetContext_request {req : Request} {p : ParsedComponent} {target : RequestContext}
    (h : targetContext (requestContext req) p = .ok target) :
    p.req = false ∧ target = requestContext req := by
  unfold targetContext at h
  split at h
  · cases h
  · rename_i hr
    exact ⟨by simpa using hr, (Except.ok.inj h).symm⟩

section
variable {req signed req' : Request} {u : URL}

variable {p : ParsedComponent} {val : Bytes}

theorem derive_received (hu : req.url = some u) (ho : u.opaq = [])
    (hm : signed.method = req.method) (hrecv : ReceivedAs u signed req') (hp : p.name ∈ [compMethod, compPath, compQuery, compRequestTarget])
    (h : deriveDerivedComponent U (requestContext req) p = .ok val) :
    deriveDerivedComponent U (requestContext req') p = .ok val := by
  obtain ⟨v, hv, hparse⟩ := hrecv.url
  obtain ⟨-, hpath, hquery⟩ := parseOriginForm_requestURI ho hparse
  have hu' : (requestContext req).url = some u := hu
  have hv' : (requestContext req').url = some v := hv
  have hsuffix : querySuffix v = querySuffix u := by rw [querySuffix, querySuffix, hquery]
  simp only [mem_cons, not_mem_nil, or_false] at hp
  rcases hp with hn | hn | hn | hn
  · have hmethod : (requestContext req').method = (requestContext req).method := hrecv.method.trans hm
    have hne : (requestContext req).method ≠ [] := by
      intro he
      simp only [deriveDerivedComponent, hn, if_true, if_pos he] at h
      cases h
    rw [derive_method U hn hne] at h
    rw [derive_method U hn (by rw [hmethod]; exact hne), hmethod, h]
  · rw [derive_path U hn hu'] at h
    rw [derive_path U hn hv', hpath, h]
  · rw [derive_query U hn hu'] at h
    rw [derive_query U hn hv', hquery, h]
  · rw [derive_requestTarget U hn hu'] at h
    rw [derive_requestTarget U hn hv', hpath, hsuffix, h]

theorem deriveHTTPField_received {vs : List Bytes} {ord ord' : MapOrder} (h1 : fieldValues U req.header p.name = [vs])
    (h2 : fieldValues U req'.header p.name = [vs])
    (h : deriveHTTPField U ord (requestContext req) p = .ok val) :
    deriveHTTPField U ord' (requestContext req') p = .ok val := by
  unfold deriveHTTPField at h ⊢
  cases ht : p.tr with
  | true => simp [ht, requestContext] at h
  | false =>
    simp only [ht, requestContext, Bool.false_eq_true, if_false] at h ⊢
    rw [matchValues_eq U h1] at h
    rw [matchValues_eq U h2]
    exact h

theorem signRequest_method {ord : Nat → MapOrder} {cfg : SignConfig} {now : Time}
    (h : signRequest U ord req cfg now = .ok signed) : signed.method = req.method := by
  obtain ⟨members, -, h⟩ := bind_eq_ok.mp h
  rw [← Except.ok.inj h]

end

/-- **When the server rebuilds the base that was signed**: exactly when `@authority` is not
covered. -/
theorem server_base_iff {ord ord' : Nat → MapOrder} {req signed req' : Request} {u : URL}
    {cfg : SignConfig} {now : Time} (hsign : signRequest U ord req cfg now = .ok signed)
    (hu : req.url = some u) (habs : AbsoluteURL u) (hrecv : ReceivedAs u signed req')
    (hcomps : ∀ c ∈ cfg.componentsFor (requestContext req), ∀ p,
      parseComponentIdentifier U c = .ok p → ReadOnBothSides U signed req' p) :
    RebuildsBase U ord ord' req req' cfg now ↔
      ∀ c ∈ cfg.componentsFor (requestContext req), nameOf U c ≠ some compAuthority := by
  constructor
  · rintro ⟨signer, base, -, -, hbase⟩ c hc hname
    -- the server reads no host from its URL
    obtain ⟨ls, -, hread, -⟩ := (buildSignatureBase_ok_iff U).mp hbase
    obtain ⟨i, l, hparse, target, htarget, hval⟩ := hread.exists_reads hc
    obtain ⟨-, rfl⟩ := targetContext_request htarget
    obtain ⟨v, hv, hform⟩ := hrecv.url
    have hhost := (parseOriginForm_requestURI habs.hierarchical hform).1
    have hn : l.comp.name = compAuthority := by
      rw [nameOf_ok U hparse] at hname
      exact Option.some.inj hname
    have hat : hasPrefix atSign l.comp.name = true := by rw [hn]; decide
    have hv' : (requestContext req').url = some v := hv
    rw [deriveComponentValue, if_pos hat, derive_authority_empty U hn hv' hhost] at hval
    cases hval
  · intro hno
    obtain ⟨members, hmembers, -⟩ := bind_eq_ok.mp hsign
    obtain ⟨signer, base, sig, text, hsigner, hbase, -⟩ := sign_ok U hmembers
    refine ⟨signer, base, hsigner, hbase, ?_⟩
    obtain ⟨ls, text, hread, hnodup, htext, rfl, hascii⟩ := (buildSignatureBase_ok_iff U).mp hbase
    refine (buildSignatureBase_ok_iff U).mpr ⟨ls, text, ?_, hnodup, htext, rfl, hascii⟩
    -- component by component, the server reads what the client read
    refine hread.congr U fun i c hc l hl => ?_
    obtain ⟨hparse, target, htarget, hval⟩ := hl
    obtain ⟨hreq, rfl⟩ := targetContext_request htarget
    have htarget' : targetContext (requestContext req') l.comp = .ok (requestContext req') := by
      rw [targetContext, hreq]
      rfl
    refine ⟨hparse, requestContext req', htarget', ?_⟩
    unfold deriveComponentValue at hval ⊢
    rcases hcomps c hc l.comp hparse with hderived | ⟨hat, h1, h2, vs, hsent, hgot⟩
    · have hfour : l.comp.name ∈ [compMethod, compPath, compQuery, compRequestTarget] := by
        have hna : l.comp.name ≠ compAuthority := by
          intro he
          exact hno c hc (by rw [nameOf_ok U hparse, he])
        simpa [hna] using hderived
      have hat : hasPrefix atSign l.comp.name = true := by
        simp only [mem_cons, not_mem_nil, or_false] at hfour
        rcases hfour with hn | hn | hn | hn <;> rw [hn] <;> decide
      rw [if_pos hat] at hval ⊢
      exact derive_received U hu habs.hierarchical (signRequest_method U hsign) hrecv hfour hval
    · rw [if_neg (by simp [hat])] at hval ⊢
      rw [signRequest_fieldValues U hsign h1 h2] at hsent
      exact deriveHTTPField_received U hsent hgot hval

/-! ## 4. An order signed by a client -/

namespace Example

def orderURL : URL :=
  { scheme := lit "https", host := lit "shop.example", path := lit "/a/b", rawPath := lit "/a%2Fb",
    rawQuery := lit "x=1" }

def orderRequest : Request :=
  { method := lit "POST", url := some orderURL, header := ⟨[(lit "X-Tag", [lit "v"])], by decide⟩ }

def orderConfig (components : List Bytes) : SignConfig :=
  { signer := some (.transparent (lit "k")), components := components, created := Time.unix 1618884473 }

def receivedOrder (components : List Bytes) : Request :=
  { method := lit "POST", url := parseOriginForm orderURL.requestURI, host := lit "shop.example",
    header := (((signRequest .ascii (fun _ => .listed) orderRequest (orderConfig components)
      (Time.unix 0)).toOption.map Request.header)).getD .empty }

def signedOrder (components : List Bytes) : Request :=
  { receivedOrder components with url := some orderURL, host := [] }

def fields : List Bytes := [compMethod, compPath, compQuery, compRequestTarget, lit "x-tag"]

end Example

open Example in
/-- Signed over the default components, the order is lost on the server. -/
theorem server_base_default :
    signRequest .ascii (fun _ => .listed) orderRequest (orderConfig []) (Time.unix 0) =
        .ok (signedOrder []) ∧
      ReceivedAs orderURL (signedOrder []) (receivedOrder []) ∧
      ¬ RebuildsBase .ascii (fun _ => .listed) (fun _ => .listed) orderRequest (receivedOrder [])
        (orderConfig []) (Time.unix 0) := by
  refine ⟨by decide +kernel, ⟨rfl, ?_, rfl⟩, ?_⟩
  · exact ⟨(parseOriginForm orderURL.requestURI).get (by decide), by decide, by decide⟩
  · rintro ⟨signer, base, hsigner, -, hbase⟩
    obtain rfl := Option.some.inj hsigner
    have hnone : (buildSignatureBase .ascii (fun _ => .listed) (requestContext (receivedOrder []))
        (signParams (requestContext orderRequest) (orderConfig []) (.transparent (lit "k"))
          (Time.unix 0))).toOption = none := by decide
    rw [hbase] at hnone
    cases hnone

open Example in
theorem server_base_fields :
    RebuildsBase .ascii (fun _ => .listed) (fun _ => .listed) orderRequest (receivedOrder fields)
      (orderConfig fields) (Time.unix 0) := by
  have hsign : signRequest .ascii (fun _ => .listed) orderRequest (orderConfig fields)
      (Time.unix 0) = .ok (signedOrder fields) := by decide +kernel
  have habs : AbsoluteURL orderURL := ⟨.inr rfl, by decide, rfl, .inr (by decide)⟩
  have hrecv : ReceivedAs orderURL (signedOrder fields) (receivedOrder fields) :=
    ⟨rfl, ⟨(parseOriginForm orderURL.requestURI).get (by decide), by decide, by decide⟩, rfl⟩
  refine (server_base_iff .ascii hsign rfl habs hrecv ?_).mpr (by decide)
  have hnames : ∀ c ∈ fields, nameOf .ascii c = some c := by decide
  intro c hc p hp
  have hc : c ∈ fields := hc
  have hname := hnames c hc
  rw [nameOf_ok .ascii hp] at hname
  obtain rfl := Option.some.inj hname
  rcases mem_append.mp (show p.name ∈ fields.take 4 ++ [lit "x-tag"] from hc) with hc | hc
  · left
    have hsub : fields.take 4 ⊆
        [compMethod, compAuthority, compPath, compQuery, compRequestTarget] := by decide
    exact hsub hc
  · right
    rw [mem_singleton.mp hc]
    exact ⟨by decide, by decide +kernel, by decide +kernel, [lit "v"], by decide +kernel,
      by decide +kernel⟩

end AoniContrib.HttpSig
