/-
# The target URI at the client and at the server

The client takes the target from the whole URL, the server from the scheme, `Host` and the request
URI.  Both normalise what they have.  For a URL with a host the two texts differ in the authority only:
the client's has the user information and the host escaped, the server's has the host as it is.  So
they agree exactly if there is no user information and no percent sign in the host
(`htu_agrees_iff`).
-/
import AoniContrib.Data.Split
import AoniContrib.Dpop.Verify

namespace AoniContrib.Dpop

open Go List

variable {force : Bool} {p q s sch t : Bytes} {mode : Encoding} {R : HostRules} {v w : URL}
  {U : Unicode}

/-! ## 1. The two requests -/

/-- A request that is about to be sent to `u`. -/
def outgoing (method : Bytes) (header : Header) (u : URL) : HttpRequest where
  method := method
  url := some u
  header := header
  host := u.host

/-- The request as it arrives: its URL `v` is that of the request target. -/
def arriving (method : Bytes) (header : Header) (u v : URL) : HttpRequest where
  method := method
  url := some v
  header := header
  host := u.host
  tls := u.scheme = lit "https"

/-- The normalised target of a request with the URL `u`, which `CreateProofForRequest` signs and
`VerifyProofForRequest` expects. -/
def requestHtu (L : Library) (req : HttpRequest) (u : URL) : Except DpopError Bytes :=
  normalizeTargetURI L (targetURL req u)

/-- `CreateProofForRequest` signs `requestHtu`. -/
theorem createProofForRequest_ok {K : Type} {L : Library} {S : Signing K} {rand now priv opts proof}
    {req : HttpRequest} {u : URL} (hurl : req.url = some u)
    (h : createProofForRequest L S rand now (some req) priv opts = .ok proof) :
    ∃ header htu sig, requestHtu L req u = .ok htu ∧ proof = header ++ dot ::
      encodeToString (L.marshalClaims (proofClaims L rand now req.method htu (opts.headD {}))) ++
        dot :: encodeToString sig := by
  simp only [createProofForRequest, hurl, createProof] at h
  split at h
  · cases h
  · split at h
    · cases h
    · obtain ⟨_, -, h⟩ := bind_eq_ok.mp h
      obtain ⟨htu, hhtu, h⟩ := bind_eq_ok.mp h
      obtain ⟨sig, -, h⟩ := bind_eq_ok.mp h
      exact ⟨_, htu, sig, hhtu, (Except.ok.inj h).symm⟩

def Agree (L : Library) (method : Bytes) (header : Header) (u : URL) : Prop :=
  ∃ v htu, parseOriginForm u.requestURI = some v ∧
    requestHtu L (outgoing method header u) u = .ok htu ∧
    requestHtu L (arriving method header u v) v = .ok htu

/-! ## 2. Paths -/

/-- The path of a request target: `/` for the empty one. -/
def rootOr (p : Bytes) : Bytes := if p = [] then [slash] else p

/-- The text of a path behind an authority, which is written again as it was read. -/
structure PathText (p : Bytes) : Prop where
  isPath : IsPath p
  without : Without [question, hash] p
  read : ∃ path, unescape .encodePath p = some path
  again : ∀ w v : URL, setPath w p = some v → v.escapedPath = p ∧ (v.path = [] ↔ p = []) ∧
    (p = [] → v.rawPath = [])

theorem escaped_byte {b : UInt8} (h : b ∈ [question, hash] ∨ isCTL b = true) :
    shouldEscape b .encodePath = true ∧ b ∉ lit "!$&'()*+,;=:@" ∧ b ∉ lit "[]" ∧ b ≠ percent ∧
      b ≠ plus ∧ isAlnum b = false := by
  have hall : ∀ b : UInt8, b ∈ [question, hash] ∨ isCTL b = true →
      shouldEscape b .encodePath = true ∧ b ∉ lit "!$&'()*+,;=:@" ∧ b ∉ lit "[]" ∧ b ≠ percent ∧
        b ≠ plus ∧ isAlnum b = false := by decide +kernel
  exact hall b h

theorem without_escapedPath (u : URL) : Without [question, hash] u.escapedPath := by
  intro b hb
  have hno : ¬ (b ∈ [question, hash] ∨ isCTL b = true) := by
    intro h
    obtain ⟨h0, h1, h2, h3, h4, h5⟩ := escaped_byte h
    exact u.not_mem_escapedPath h0 h1 h2 h3 h4 h5 hb
  rw [not_or, Bool.not_eq_true] at hno
  exact hno

theorem pathText_nil : PathText [] where
  isPath := .inl rfl
  without b hb := absurd hb not_mem_nil
  read := ⟨[], rfl⟩
  again w v h := by
    obtain ⟨path, hpath, rfl⟩ := setPath_some h
    cases hpath
    exact ⟨escapedPath_nil rfl rfl, ⟨fun _ => rfl, fun _ => rfl⟩, fun _ => rfl⟩

variable {u : URL}

theorem pathText_slash (h : u.escapedPath = slash :: t)
    (hstar : u.path ≠ lit "*") (hne : u.path ≠ []) : PathText u.escapedPath where
  isPath := .inr ⟨t, h⟩
  without := without_escapedPath u
  read := ⟨_, u.unescape_escapedPath⟩
  again w v hv := by
    obtain ⟨hagain, hpath⟩ := setPath_escapedPath hstar hv
    refine ⟨hagain, ?_, fun hnil => ?_⟩
    · rw [hpath, h]
      exact ⟨fun hnil => absurd hnil hne, fun hnil => absurd hnil (cons_ne_nil _ _)⟩
    · rw [h] at hnil
      exact absurd hnil (cons_ne_nil _ _)

theorem pathText_of_parsed (hu : ParsedHost R u) : PathText u.escapedPath := by
  obtain ⟨p, hp, hpath, hraw⟩ := hu.path
  rcases hp with rfl | ⟨t, rfl⟩
  · have hnil : u.path = [] := (Option.some.inj hpath).symm
    rw [hnil] at hraw
    rw [escapedPath_nil hnil hraw]
    exact pathText_nil
  · obtain ⟨⟨t', ht'⟩, hne, hstar⟩ := escapedPath_slash hpath hraw
    exact pathText_slash ht' hstar hne

theorem pathText_root : PathText [slash] := by
  have hroot : ({ path := [slash] } : URL).escapedPath = [slash] := by decide
  rw [← hroot]
  exact pathText_slash hroot (by decide) (by decide)

theorem PathText.rootOr {p : Bytes} (h : PathText p) : PathText (rootOr p) := by
  unfold Dpop.rootOr
  split_ifs
  · exact pathText_root
  · exact h

theorem rootOr_slash (h : PathText p) : ∃ t, rootOr p = slash :: t := by
  unfold rootOr
  split_ifs with hnil
  · exact ⟨[], rfl⟩
  · exact h.isPath.resolve_left hnil

theorem rootOr_rootOr (p : Bytes) : rootOr (rootOr p) = rootOr p := by
  unfold rootOr
  split_ifs <;> rfl

/-! ## 3. The normal form of a text -/

/-- The end of a URL behind its query: nothing, or a fragment. -/
def FragmentText (frag : Bytes) : Prop :=
  frag = [] ∨ ∃ f fragment, frag = hash :: f ∧ unescape .encodeFragment f = some fragment

theorem fragmentText_url (u : URL) : FragmentText u.fragmentText := by
  unfold URL.fragmentText
  split_ifs
  · exact .inr ⟨_, _, rfl, u.unescape_escapedFragment⟩
  · exact .inl rfl

variable {frag auth host : Bytes}

theorem parseURL_fragment {text : Bytes} (htext : hash ∉ text)
    (hfrag : FragmentText frag) :
    (parseUnfragmented R U text = none → parseURL R U (text ++ frag) = none) ∧
      ∀ v, parseUnfragmented R U text = some v → ∃ fragment rawFragment,
        parseURL R U (text ++ frag) = some { v with fragment, rawFragment } := by
  rcases hfrag with rfl | ⟨f, fragment, rfl, hf⟩
  · rw [append_nil, parseURL, cut_eq_none_iff.mpr htext]
    exact ⟨fun h => h, fun v hv => ⟨v.fragment, v.rawFragment, hv⟩⟩
  · rw [parseURL, cut_append htext]
    constructor
    · intro h
      simp only [h, Option.bind_eq_bind, Option.bind_none]
    · intro v hv
      simp only [hv, Option.bind_eq_bind, Option.bind_some, setFragment, hf]
      by_cases hnil : f = []
      · rw [if_pos hnil]
        exact ⟨v.fragment, v.rawFragment, rfl⟩
      · rw [if_neg hnil]
        exact ⟨_, _, rfl⟩

def urlText (sch auth p : Bytes) (force : Bool) (q : Bytes) : Bytes :=
  sch ++ (lit "://" ++ (auth ++ (p ++ queryText force q)))

theorem hash_not_mem_urlText (hsch : sch ∈ httpSchemes)
    (hauth : Without [slash, question, hash] auth) (hp : PathText p) (hq : Without [hash] q) :
    hash ∉ urlText sch auth p force q := by
  have hlit : hash ∉ lit "://" := by decide
  have hquery : hash ∉ queryText force q := by
    unfold queryText
    split_ifs
    · rw [mem_cons, not_or]
      exact ⟨by decide, fun h => (hq _ h).1 (by simp)⟩
    · exact not_mem_nil
  simp only [urlText, mem_append, not_or]
  exact ⟨fun h => ((httpSchemes_spec hsch).1 _ h).2.2.1 rfl, hlit, fun h => (hauth _ h).1 (by simp),
    fun h => (hp.without _ h).1 (by simp), hquery⟩

variable {L : Library}

theorem normalizeURL_escapedPath (hp : PathText p)
    (hv : setPath w p = some v) : (normalizeURL L v).escapedPath = rootOr p ∧
      (normalizeURL L v).path ≠ [] := by
  obtain ⟨hagain, hnil, hraw⟩ := hp.again w v hv
  by_cases hp0 : p = []
  · have hpath : (normalizeURL L v).path = [slash] := if_pos (hnil.mpr hp0)
    have hraw' : (normalizeURL L v).rawPath = [] := hraw hp0
    refine ⟨?_, by rw [hpath]; exact cons_ne_nil _ _⟩
    rw [rootOr, if_pos hp0, URL.escapedPath_eq, URL.usesRawPath, hraw', hpath]
    decide
  · have hne : v.path ≠ [] := fun h => hp0 (hnil.mp h)
    have hpath : (normalizeURL L v).path = v.path := if_neg hne
    have hraw' : (normalizeURL L v).rawPath = v.rawPath := rfl
    refine ⟨?_, by rw [hpath]; exact hne⟩
    rw [rootOr, if_neg hp0, ← hagain, URL.escapedPath_eq, URL.escapedPath_eq, URL.usesRawPath,
      URL.usesRawPath, hraw', hpath]

theorem normalizeTargetURI_text
    (hsch : sch ∈ httpSchemes) (hauth : Without [slash, question, hash] auth) (hp : PathText p)
    (hq : Without [hash] q) (hforce : force = true → q = []) (hfrag : FragmentText frag) :
    normalizeTargetURI L (urlText sch auth p force q ++ frag) =
      match parseAuthority L.hosts auth with
      | none => .error .invalidClaims
      | some (user, host) => .ok (urlText sch (authorityText user host) (rootOr p) force []) := by
  have hread := parseUnfragmented_text (R := L.hosts) (U := L.unicode) hsch
    (hauth.mono (by simp)) hp.isPath (hp.without.mono (by simp)) (hq.mono (by simp)) hforce
  obtain ⟨hfail, hsome⟩ := parseURL_fragment (R := L.hosts) (U := L.unicode)
    (hash_not_mem_urlText hsch hauth hp hq) hfrag
  have hne : urlText sch auth p force q ++ frag ≠ [] := by
    simp [urlText, (httpSchemes_spec hsch).2.2.2]
  rw [normalizeTargetURI, if_neg hne]
  cases ha : parseAuthority L.hosts auth with
  | none =>
    rw [ha] at hread
    rw [hfail hread]
  | some a =>
    obtain ⟨user, host⟩ := a
    rw [ha] at hread
    obtain ⟨path, hpath⟩ := hp.read
    let w : URL := { scheme := sch, user := user, host := host, forceQuery := force, rawQuery := q }
    obtain ⟨v, hv⟩ : ∃ v, setPath w p = some v := by
      simp only [setPath, hpath, Option.bind_eq_bind, Option.bind_some]
      exact ⟨_, rfl⟩
    obtain ⟨fragment, rawFragment, hw⟩ := hsome v (hread.trans hv)
    obtain ⟨hescaped, hpath'⟩ := normalizeURL_escapedPath (L := L) hp hv
    obtain ⟨t, ht⟩ := rootOr_slash hp
    obtain ⟨path', -, hv'⟩ := setPath_some hv
    subst hv'
    rw [hw]
    refine congrArg Except.ok ?_
    have hscheme : toLower L.unicode sch = sch := toLower_http hsch
    let n : URL := normalizeURL L { w with
      path := path', rawPath := if p = escape .encodePath path' then [] else p
      fragment, rawFragment }
    have hn : n.scheme = sch := hscheme
    have hfragment : n.fragmentText = [] := if_neg (not_not.mpr rfl)
    have hpathText : n.escapedPath = rootOr p := hescaped
    have hstring := string_authority (u := n) (hn ▸ (httpSchemes_spec hsch).2.2.2) rfl rfl
      (.inr ⟨t, hpathText.trans ht⟩) (.inr hpath')
    rw [hn, hfragment, hpathText, append_nil] at hstring
    exact hstring

/-! ## 4. The request target -/

variable {sep : List UInt8}

theorem any_isCTL_eq_false (h : Without sep s) : s.any isCTL = false :=
  any_eq_false.mpr fun b hb => by simp [(h b hb).2]

theorem parseOriginForm_cutQuery {target : Bytes} (hctl : target.any isCTL = false)
    (hslash : hasPrefix slash target = true) :
    parseOriginForm target =
      setPath { forceQuery := (cutQuery target).2.1, rawQuery := (cutQuery target).2.2 }
        (cutQuery target).1 := by
  have hctl' : ¬ (target.any fun b => b < 0x20 || b == 0x7f) = true := by
    rw [Bool.not_eq_true]
    exact hctl
  rw [parseOriginForm, if_neg hctl', hslash, if_neg (by simp)]
  by_cases hsuffix : (hasSuffix question target && target.count question == 1) = true
  · rw [if_pos hsuffix, cutQuery, if_pos hsuffix]
  · rw [if_neg hsuffix, cutQuery, if_neg hsuffix]
    cases cut question target <;> rfl

theorem parseOriginForm_text (hp : Without [question, hash] (slash :: t)) (hq : Without [hash] q)
    (hforce : force = true → q = []) :
    parseOriginForm (slash :: t ++ queryText force q) =
      setPath { forceQuery := force, rawQuery := q } (slash :: t) := by
  have hquestion : question ∉ slash :: t := fun h => (hp _ h).1 (by simp)
  have hquery : (queryText force q).any isCTL = false := by
    unfold queryText
    split_ifs
    · rw [any_cons, any_isCTL_eq_false hq]
      rfl
    · rfl
  have hctl : (slash :: t ++ queryText force q).any isCTL = false := by
    rw [any_append, any_isCTL_eq_false hp, hquery]
    rfl
  rw [parseOriginForm_cutQuery hctl (by simp [hasPrefix]), cutQuery_queryText hquestion hforce]

theorem requestURI_text (h : u.opaq = []) :
    u.requestURI = rootOr u.escapedPath ++ queryText u.forceQuery u.rawQuery := by
  unfold URL.requestURI rootOr queryText
  simp only [h, if_true]
  split_ifs <;> simp

/-! ## 5. The authority -/

theorem escaped_authority {b : UInt8} (hmode : mode = .encodeHost ∨ mode = .encodeUserPassword)
    (h : b ∈ [slash, question, hash, atSign] ∨ isCTL b = true) :
    shouldEscape b mode = true ∧ b ≠ plus ∧ b ≠ percent ∧ isAlnum b = false := by
  have hall : ∀ b : UInt8, b ∈ [slash, question, hash, atSign] ∨ isCTL b = true →
      ∀ mode ∈ [Encoding.encodeHost, .encodeUserPassword],
      shouldEscape b mode = true ∧ b ≠ plus ∧ b ≠ percent ∧ isAlnum b = false := by decide +kernel
  exact hall b h mode (by simpa using hmode)

theorem without_escape (hmode : mode = .encodeHost ∨ mode = .encodeUserPassword)
    (s : Bytes) : Without [slash, question, hash, atSign] (escape mode s) := by
  intro b hb
  have hno : ¬ (b ∈ [slash, question, hash, atSign] ∨ isCTL b = true) := by
    intro h
    obtain ⟨h0, h1, h2, h3⟩ := escaped_authority hmode h
    exact not_mem_escape h0 h1 h2 h3 s hb
  rw [not_or, Bool.not_eq_true] at hno
  exact hno

theorem without_append (hs : Without sep s) (ht : Without sep t) : Without sep (s ++ t) :=
  fun b hb => (mem_append.mp hb).elim (hs b) (ht b)

theorem without_userinfo (ui : Userinfo) : Without [slash, question, hash, atSign] ui.string := by
  have hcolon : Without [slash, question, hash, atSign] [colon] := by
    intro b hb
    rw [mem_singleton.mp hb]
    decide
  unfold Userinfo.string
  refine without_append (without_escape (.inr rfl) _) ?_
  split
  · exact fun b hb => absurd hb not_mem_nil
  · exact without_append hcolon (without_escape (.inr rfl) _)

theorem without_authorityText (user : Option Userinfo) (host : Bytes) :
    Without [slash, question, hash] (authorityText user host) := by
  have hat : Without [slash, question, hash] [atSign] := by
    intro b hb
    rw [mem_singleton.mp hb]
    decide
  have hhost := (without_escape (.inl rfl) host).mono (by simp : [slash, question, hash] ⊆ _)
  unfold authorityText
  refine without_append ?_ hhost
  split
  · exact fun b hb => absurd hb not_mem_nil
  · rename_i ui
    exact without_append ((without_userinfo ui).mono (by simp)) hat

theorem parseAuthority_host (h : atSign ∉ host) :
    parseAuthority R host = (parseHost R host).map fun host => (none, host) := by
  rw [parseAuthority, cutLast_eq_none_iff.mpr h]

theorem parseAuthority_user {ui : Userinfo} {host' : Bytes}
    {user : Option Userinfo}
    (h : parseAuthority R (authorityText (some ui) host) = some (user, host')) : user ≠ none := by
  have hat : atSign ∉ escape .encodeHost host := fun hm =>
    (without_escape (.inl rfl) host _ hm).1 (by simp)
  have htext : authorityText (some ui) host = ui.string ++ atSign :: escape .encodeHost host := by
    simp [authorityText]
  rw [htext, parseAuthority, cutLast_append hat] at h
  simp only [Option.bind_eq_bind, Option.bind_eq_some_iff, Option.some.injEq, Prod.mk.injEq] at h
  obtain ⟨_, -, ui', -, rfl, -⟩ := h
  exact Option.some_ne_none ui'

/-! ## 6. URLs with a host -/

section

variable {L : Library} {u : URL} (method : Bytes) (header : Header)

/-- The target that has been read from an authority. -/
def htuOf (u : URL) (authority : Option (Option Userinfo × Bytes)) : Except DpopError Bytes :=
  match authority with
  | none => .error .invalidClaims
  | some (user, host) =>
    .ok (urlText u.scheme (authorityText user host) (rootOr u.escapedPath) u.forceQuery [])

theorem requestHtu_outgoing (hsch : u.scheme ∈ httpSchemes) (hu : ParsedHost L.hosts u)
    (hhost : u.host ≠ []) (hq : Without [hash] u.rawQuery) :
    requestHtu L (outgoing method header u) u =
      htuOf u (parseAuthority L.hosts (authorityText u.user u.host)) := by
  have hne := (httpSchemes_spec hsch).2.2.2
  have hp := pathText_of_parsed hu
  have htarget : targetURL (outgoing method header u) u = u.string := if_pos hne
  rw [requestHtu, htarget, string_authority hne hu.opaq hu.omitHost hp.isPath (.inl hhost)]
  exact normalizeTargetURI_text hsch (without_authorityText _ _) hp hq hu.force (fragmentText_url u)

theorem parseHost_of_parsed (hu : ParsedHost R u) : ∃ text, parseHost R text = some u.host := by
  obtain ⟨auth, hauth⟩ := hu.authority
  unfold parseAuthority at hauth
  split at hauth
  · obtain ⟨host, hhost, hpair⟩ := Option.map_eq_some_iff.mp hauth
    exact ⟨_, (Prod.mk.inj hpair).2 ▸ hhost⟩
  · simp only [Option.bind_eq_bind, Option.bind_eq_some_iff, Option.some.injEq, Prod.mk.injEq] at hauth
    obtain ⟨host, hhost, _, -, -, rfl⟩ := hauth
    exact ⟨_, hhost⟩

theorem hostByte_of_parsed (hu : ParsedHost R u) : ∀ b ∈ u.host, HostByte b := by
  obtain ⟨text, htext⟩ := parseHost_of_parsed hu
  exact hostByte_of_parseHost htext

section
variable (hsch : u.scheme ∈ httpSchemes) (hu : ParsedHost L.hosts u) (hhost : u.host ≠ [])
  (hq : Without [hash] u.rawQuery)
include hhost hq hsch hu

theorem requestHtu_arriving : ∃ v, parseOriginForm u.requestURI = some v ∧
      requestHtu L (arriving method header u v) v = htuOf u (parseAuthority L.hosts u.host) := by
  have hp := pathText_of_parsed hu
  obtain ⟨t, ht⟩ := rootOr_slash hp
  obtain ⟨path, hpath⟩ := hp.rootOr.read
  have hwithout := hp.rootOr.without
  rw [ht] at hwithout
  obtain ⟨v, hv⟩ : ∃ v, setPath { forceQuery := u.forceQuery, rawQuery := u.rawQuery }
      (rootOr u.escapedPath) = some v := by
    simp only [setPath, hpath, Option.bind_eq_bind, Option.bind_some]
    exact ⟨_, rfl⟩
  have hescaped := (hp.rootOr.again _ v hv).1
  refine ⟨v, ?_, ?_⟩
  · rw [requestURI_text hu.opaq, ht, parseOriginForm_text hwithout hq hu.force, ← ht, hv]
  · obtain ⟨path', -, hv'⟩ := setPath_some hv
    have hscheme : ¬ v.scheme ≠ [] := by
      rw [hv']
      exact not_not.mpr rfl
    have hopaq : v.opaq = [] := by rw [hv']
    have hforce : v.forceQuery = u.forceQuery := by rw [hv']
    have hquery : v.rawQuery = u.rawQuery := by rw [hv']
    have htls : (if (arriving method header u v).tls then lit "https" else lit "http") = u.scheme := by
      simp only [httpSchemes, mem_cons, not_mem_nil, or_false] at hsch
      rcases hsch with h | h
      · have hne : ¬ decide (u.scheme = lit "https") = true := by
          rw [h]
          decide
        rw [h]
        exact if_neg hne
      · rw [h]
        exact if_pos (decide_eq_true h)
    have htarget : targetURL (arriving method header u v) v =
        urlText u.scheme u.host (rootOr u.escapedPath) u.forceQuery u.rawQuery ++ [] := by
      have hhost' : (arriving method header u v).host ≠ [] := hhost
      rw [targetURL, if_neg hscheme, if_pos hhost', htls, requestURI_text hopaq, hescaped,
        rootOr_rootOr, hforce, hquery, urlText]
      simp only [append_assoc, append_nil]
      rfl
    have hauth : Without [slash, question, hash] u.host := fun b hb =>
      ⟨fun hm => (hostByte_of_parsed hu b hb).delimiters.1 (by
        simp only [mem_cons] at hm ⊢
        tauto), (hostByte_of_parsed hu b hb).delimiters.2⟩
    rw [requestHtu, htarget, normalizeTargetURI_text hsch hauth hp.rootOr hq hu.force (.inl rfl),
      rootOr_rootOr]
    rfl

theorem agree_iff_authority : Agree L method header u ↔ ∃ user host host',
      parseAuthority L.hosts (authorityText u.user u.host) = some (user, host) ∧
      parseHost L.hosts u.host = some host' ∧ authorityText user host = authorityText none host' := by
  obtain ⟨v, hv, hserver⟩ := requestHtu_arriving method header hsch hu hhost hq
  have hclient := requestHtu_outgoing method header hsch hu hhost hq
  have hat : atSign ∉ u.host := fun hm => (hostByte_of_parsed hu _ hm).delimiters.1 (by simp)
  rw [parseAuthority_host hat] at hserver
  constructor
  · rintro ⟨v', htu, hv', hc, hs⟩
    obtain rfl := Option.some.inj (hv.symm.trans hv')
    rw [hclient] at hc
    rw [hserver] at hs
    cases ha : parseAuthority L.hosts (authorityText u.user u.host) with
    | none =>
      rw [ha] at hc
      cases hc
    | some a =>
      cases hb : parseHost L.hosts u.host with
      | none =>
        rw [hb] at hs
        cases hs
      | some host' =>
        rw [ha] at hc
        rw [hb] at hs
        obtain rfl := Except.ok.inj hc
        have htext := Except.ok.inj hs
        refine ⟨a.1, a.2, host', rfl, rfl, ?_⟩
        have hcancel := append_cancel_left (append_cancel_left htext)
        exact (append_cancel_right hcancel).symm
  · rintro ⟨user, host, host', ha, hb, heq⟩
    rw [ha] at hclient
    rw [hb] at hserver
    refine ⟨v, _, hv, hclient, hserver.trans ?_⟩
    rw [Option.map_some, htuOf, ← heq]

end

theorem escape_inj (h : escape mode s = escape mode t) : s = t := by
  have := congrArg (unescape mode) h
  rw [unescape_escape, unescape_escape] at this
  exact Option.some.inj this

theorem agree_iff_of_host (hsch : u.scheme ∈ httpSchemes) (hu : ParsedHost L.hosts u)
    (hhost : u.host ≠ []) (hq : Without [hash] u.rawQuery) :
    Agree L method header u ↔ u.user = none ∧ percent ∉ u.host := by
  rw [agree_iff_authority method header hsch hu hhost hq]
  have hat : atSign ∉ escape .encodeHost u.host := fun hm =>
    (without_escape (.inl rfl) u.host _ hm).1 (by simp)
  constructor
  · rintro ⟨user, host, host', ha, hb, heq⟩
    cases huser : u.user with
    | some ui =>
      rw [huser] at ha
      obtain ⟨ui', rfl⟩ := Option.ne_none_iff_exists'.mp (parseAuthority_user ha)
      -- the client's authority has an at sign, the server's has none
      have hmem : atSign ∈ authorityText (some ui') host := by simp [authorityText]
      rw [heq] at hmem
      exact absurd (by simp) (without_escape (.inl rfl) host' _ hmem).1
    | none =>
      have htext : authorityText none u.host = escape .encodeHost u.host := rfl
      rw [huser, htext, parseAuthority_host hat] at ha
      obtain ⟨h₁, hh₁, hpair⟩ := Option.map_eq_some_iff.mp ha
      obtain ⟨rfl, rfl⟩ := Prod.mk.inj hpair
      obtain rfl := parseHost_escape hh₁
      obtain rfl := escape_inj heq
      exact ⟨rfl, fun hp => parseHost_percent hp hb rfl⟩
  · rintro ⟨huser, hpercent⟩
    obtain ⟨text, htext⟩ := parseHost_of_parsed hu
    obtain ⟨hplain, hescaped⟩ := parseHost_again htext hpercent
    refine ⟨none, u.host, u.host, ?_, hplain, rfl⟩
    have htext : authorityText none u.host = escape .encodeHost u.host := rfl
    rw [huser, htext, parseAuthority_host hat, hescaped]
    rfl

/-! ## 7. URLs without a host -/

variable {rest : Bytes}

theorem parseUnfragmented_scheme
    (hsch : sch ∈ httpSchemes) (h : parseUnfragmented R U (sch ++ colon :: rest) = some v) :
    v.scheme = sch := by
  have hstar : sch ++ colon :: rest ≠ lit "*" := by
    intro heq
    have hhead := congrArg List.head? heq
    rw [head?_append, (httpSchemes_spec hsch).2.1, Option.some_or] at hhead
    exact absurd hhead (by decide)
  rcases parseUnfragmented_cases h with ⟨heq, -⟩ | ⟨-, scheme, rest', hscheme, h⟩
  · exact absurd heq hstar
  · obtain ⟨rfl, rfl⟩ := Prod.mk.inj (Option.some.inj ((getScheme_http hsch rest).symm.trans hscheme))
    rw [parseRest_scheme h]
    exact toLower_http hsch

theorem parseURL_scheme
    (hsch : sch ∈ httpSchemes) (h : parseURL R U (sch ++ colon :: rest) = some v) :
    v.scheme = sch := by
  have hnot : hash ∉ sch ++ [colon] := by
    rw [mem_append, not_or]
    exact ⟨fun hm => ((httpSchemes_spec hsch).1 _ hm).2.2.1 rfl, by decide⟩
  obtain ⟨url, w, hw, -, hraw, fragment, rawFragment, rfl⟩ := parseURL_cases h
  change w.scheme = sch
  rcases hraw with rfl | ⟨frag, hraw⟩
  · exact parseUnfragmented_scheme hsch hw
  · rw [append_cons] at hraw
    obtain ⟨z, rfl, -⟩ := Data.append_eq_cut_of_not_mem hnot hraw
    rw [← append_cons] at hw
    exact parseUnfragmented_scheme hsch hw

theorem string_scheme (h : w.scheme ≠ []) : ∃ t, w.string = w.scheme ++ colon :: t := by
  unfold URL.string
  simp only [if_pos h]
  split_ifs <;> simp only [append_assoc, singleton_append] <;> exact ⟨_, rfl⟩

/-- A URL as it is read from a text that starts with a slash. -/
structure Rooted (w : URL) : Prop where
  scheme : w.scheme = []
  opaq : w.opaq = []
  path : w.path = [] ∧ w.rawPath = [] ∨ w.path ≠ [] ∧ ∃ t, w.escapedPath = slash :: t

theorem rooted_setPath (hscheme : w.scheme = []) (hopaq : w.opaq = [])
    (hp : IsPath p) (h : setPath w p = some v) : Rooted v := by
  obtain ⟨path, hpath, rfl⟩ := setPath_some h
  refine ⟨hscheme, hopaq, ?_⟩
  rcases hp with rfl | ⟨t, rfl⟩
  · cases hpath
    exact .inl ⟨rfl, rfl⟩
  · obtain ⟨hslash, hne, -⟩ := escapedPath_slash (u := { w with
      path, rawPath := if slash :: t = escape .encodePath path then [] else slash :: t }) hpath rfl
    exact .inr ⟨hne, hslash⟩

theorem cutQuery_slash : ∃ t', (cutQuery (slash :: t)).1 = slash :: t' := by
  unfold cutQuery
  split_ifs with h
  · cases t with
    | nil => simp [hasSuffix] at h
    | cons c t => exact ⟨_, rfl⟩
  · split
    · exact ⟨t, rfl⟩
    · rename_i rest query hcut
      obtain ⟨heq, -⟩ := cut_eq_some hcut
      cases rest with
      | nil => exact absurd (List.cons.inj heq).1 (by decide)
      | cons c rest =>
        obtain ⟨rfl, -⟩ := List.cons.inj heq
        exact ⟨rest, rfl⟩

theorem rooted_parseUnfragmented (h : parseUnfragmented R U (slash :: t) = some w) : Rooted w := by
  have hstar : slash :: t ≠ lit "*" := fun heq => absurd (List.cons.inj heq).1 (by decide)
  have hbyte : isSchemeByte slash = false := by decide
  have hget : getScheme (slash :: t) = some ([], slash :: t) := by
    rw [getScheme, dropWhile_cons_of_neg (by simp [hbyte])]
    simp
  rcases parseUnfragmented_cases h with ⟨heq, -⟩ | ⟨-, scheme, rest, hscheme, h⟩
  · exact absurd heq hstar
  obtain ⟨rfl, rfl⟩ := Prod.mk.inj (Option.some.inj (hget.symm.trans hscheme))
  obtain ⟨t', ht'⟩ := cutQuery_slash (t := t)
  rw [ht'] at h
  unfold parseRest at h
  split_ifs at h with h1 h2
  · simp [hasPrefix] at h1
  · rw [Option.bind_eq_bind, Option.bind_eq_some_iff] at h
    obtain ⟨⟨user, host⟩, -, h⟩ := h
    exact rooted_setPath rfl rfl (isPath_dropWhile _) h
  · exact rooted_setPath rfl rfl (.inr ⟨t', rfl⟩) h

theorem rooted_parseURL (h : parseURL R U (slash :: t) = some w) : Rooted w := by
  obtain ⟨url, v, hv, -, hraw, fragment, rawFragment, rfl⟩ := parseURL_cases h
  obtain ⟨t', rfl⟩ : ∃ t', url = slash :: t' := by
    rcases hraw with rfl | ⟨frag, hraw⟩
    · exact ⟨t, rfl⟩
    · cases url with
      | nil => exact absurd (List.cons.inj hraw).1 (by decide)
      | cons c url =>
        obtain ⟨rfl, -⟩ := List.cons.inj hraw
        exact ⟨url, rfl⟩
  have hroot := rooted_parseUnfragmented hv
  exact ⟨hroot.scheme, hroot.opaq, hroot.path⟩

theorem stringAuthority_slash (hscheme : w.scheme = []) :
    w.stringAuthority = [] ∨ ∃ t, w.stringAuthority = slash :: t := by
  unfold URL.stringAuthority
  simp only [hscheme, ne_eq, not_true_eq_false, decide_false, Bool.false_or]
  by_cases hauth : (decide (¬ w.host = []) || w.user.isSome) = true
  · rw [if_pos hauth]
    split_ifs with homit hpath
    · exact .inl rfl
    · exact .inr ⟨_, rfl⟩
    · exact absurd (by
        rw [Bool.or_eq_true] at hauth
        rcases hauth with h | h <;> simp_all) hpath
  · rw [if_neg hauth]
    exact .inl rfl

theorem string_slash (hscheme : w.scheme = []) (hopaq : w.opaq = [])
    (hpath : ∃ t, w.escapedPath = slash :: t) : ∃ t, w.string = slash :: t := by
  obtain ⟨t, ht⟩ := hpath
  unfold URL.string
  simp only [hscheme, hopaq, ht, ne_eq, not_true_eq_false, if_false, nil_append, hasPrefix,
    head?_cons, beq_self_eq_true, Bool.not_true, Bool.and_false, Bool.false_and,
    Bool.false_eq_true, append_nil]
  rcases stringAuthority_slash hscheme with h | ⟨a, h⟩
  · rw [h]
    simp
  · rw [h]
    simp

theorem normalizeURL_rooted (h : Rooted w) : ∃ t, (normalizeURL L w).string = slash :: t := by
  have hscheme : (normalizeURL L w).scheme = [] := by
    rw [normalizeURL, h.scheme]
    rfl
  refine string_slash hscheme h.opaq ?_
  rcases h.path with ⟨hnil, hraw⟩ | ⟨hne, t, ht⟩
  · have hpath : (normalizeURL L w).path = [slash] := if_pos hnil
    have hraw' : (normalizeURL L w).rawPath = [] := hraw
    refine ⟨[], ?_⟩
    rw [URL.escapedPath_eq, URL.usesRawPath, hraw', hpath]
    decide
  · have hpath : (normalizeURL L w).path = w.path := if_neg hne
    have hraw : (normalizeURL L w).rawPath = w.rawPath := rfl
    refine ⟨t, ?_⟩
    rw [← ht, URL.escapedPath_eq, URL.escapedPath_eq, URL.usesRawPath, URL.usesRawPath, hraw, hpath]

theorem rooted_parseOriginForm {target : Bytes} (h : parseOriginForm target = some v) :
    v.scheme = [] ∧ v.opaq = [] ∧ ∃ t, v.escapedPath = slash :: t := by
  have hctl : target.any isCTL = false := by
    by_contra hno
    rw [Bool.not_eq_false] at hno
    have : (target.any fun b => b < 0x20 || b == 0x7f) = true := hno
    rw [parseOriginForm, if_pos this] at h
    cases h
  have hslash : hasPrefix slash target = true := by
    by_contra hno
    rw [parseOriginForm, if_neg (by rw [Bool.not_eq_true]; exact hctl), if_pos (by simpa using hno)] at h
    cases h
  obtain ⟨t, rfl⟩ : ∃ t, target = slash :: t := by
    cases target with
    | nil => simp [hasPrefix] at hslash
    | cons c t =>
      have hc : c = slash := by simpa [hasPrefix] using hslash
      exact ⟨t, by rw [hc]⟩
  rw [parseOriginForm_cutQuery hctl hslash] at h
  obtain ⟨t', ht'⟩ := cutQuery_slash (t := t)
  rw [ht'] at h
  obtain ⟨path, hpath, rfl⟩ := setPath_some h
  exact ⟨rfl, rfl, (escapedPath_slash hpath rfl).1⟩

theorem not_agree_of_no_host (hsch : u.scheme ∈ httpSchemes) (hhost : u.host = []) :
    ¬ Agree L method header u := by
  rintro ⟨v, htu, hv, hc, hs⟩
  obtain ⟨hscheme, hopaq, hpath⟩ := rooted_parseOriginForm hv
  have hne := (httpSchemes_spec hsch).2.2.2
  -- the server's text starts with a slash
  have htarget : targetURL (arriving method header u v) v = v.string := by
    rw [targetURL, if_neg (not_not.mpr hscheme)]
    exact if_neg (not_not.mpr hhost)
  obtain ⟨t, ht⟩ := string_slash hscheme hopaq hpath
  rw [requestHtu, htarget, ht, normalizeTargetURI, if_neg (cons_ne_nil _ _)] at hs
  -- the client's with the scheme
  have htarget' : targetURL (outgoing method header u) u = u.string := if_pos hne
  obtain ⟨t', ht'⟩ := string_scheme hne
  have hne' : u.scheme ++ colon :: t' ≠ [] := by simp
  rw [requestHtu, htarget', ht', normalizeTargetURI, if_neg hne'] at hc
  split at hs
  · cases hs
  · rename_i w hw
    split at hc
    · cases hc
    · rename_i w' hw'
      obtain ⟨a, ha⟩ := normalizeURL_rooted (L := L) (rooted_parseURL hw)
      have hw'scheme : (normalizeURL L w').scheme = u.scheme := by
        rw [normalizeURL, parseURL_scheme hsch hw']
        exact toLower_http hsch
      obtain ⟨b, hb⟩ := string_scheme (w := normalizeURL L w') (hw'scheme ▸ hne)
      have heq : (normalizeURL L w).string = (normalizeURL L w').string :=
        (Except.ok.inj hs).trans (Except.ok.inj hc).symm
      rw [ha, hb, hw'scheme] at heq
      have hhead := congrArg List.head? heq
      rw [head?_append, (httpSchemes_spec hsch).2.1, Option.some_or, head?_cons] at hhead
      exact absurd hhead (by decide)

/-- **The target URI at both ends**: for every absolute URL of HTTP that is accepted, the client and the
server agree exactly if the URL has a host, no user information, and no percent sign in the host. -/
theorem htu_agrees_iff {raw : Bytes} (hraw : parseURL L.hosts L.unicode raw = some u)
    (hsch : u.scheme ∈ httpSchemes) :
    Agree L method header u ↔ u.host ≠ [] ∧ u.user = none ∧ percent ∉ u.host := by
  by_cases hhost : u.host = []
  · exact ⟨fun h => absurd h (not_agree_of_no_host method header hsch hhost), fun h => absurd hhost h.1⟩
  · obtain ⟨hu, hq⟩ := parseURL_host hraw hhost
    rw [agree_iff_of_host method header hsch hu hhost hq]
    exact ⟨fun h => ⟨hhost, h⟩, fun h => h.2⟩

end

def plainURL : URL :=
  { scheme := lit "https", host := lit "h:8443", path := lit "/a b", rawQuery := lit "q", fragment := lit "f" }

def userURL : URL :=
  { scheme := lit "http", user := some ⟨lit "user", none⟩, host := lit "h", path := [slash] }

theorem htu_agrees_iff_plain :
    parseURL Library.json.hosts Library.json.unicode (lit "https://h:8443/a%20b?q#f") = some plainURL ∧
    (Agree .json (lit "GET") .empty plainURL ↔
      plainURL.host ≠ [] ∧ plainURL.user = none ∧ percent ∉ plainURL.host) := by
  have hraw : parseURL Library.json.hosts Library.json.unicode (lit "https://h:8443/a%20b?q#f") =
      some plainURL := by decide
  exact ⟨hraw, htu_agrees_iff (lit "GET") .empty hraw (by decide)⟩

/-- **The user information is signed and not expected.** -/
theorem htu_user :
    parseURL Library.json.hosts Library.json.unicode (lit "http://user@h/") = some userURL ∧
    parseOriginForm userURL.requestURI = some { path := [slash] } ∧
    requestHtu .json (outgoing (lit "GET") .empty userURL) userURL = .ok (lit "http://user@h/") ∧
    requestHtu .json (arriving (lit "GET") .empty userURL { path := [slash] }) { path := [slash] } =
      .ok (lit "http://h/") ∧
    ¬ Agree .json (lit "GET") .empty userURL := by
  have hv : parseOriginForm userURL.requestURI = some { path := [slash] } := by decide
  have hc : requestHtu .json (outgoing (lit "GET") .empty userURL) userURL =
      .ok (lit "http://user@h/") := by decide
  have hs : requestHtu .json (arriving (lit "GET") .empty userURL { path := [slash] })
      { path := [slash] } = .ok (lit "http://h/") := by decide
  refine ⟨by decide, hv, hc, hs, ?_⟩
  rintro ⟨v, htu, hv', hc', hs'⟩
  obtain rfl := Option.some.inj (hv.symm.trans hv')
  have heq := Except.ok.inj ((hc.symm.trans hc').trans (hs'.symm.trans hs))
  exact absurd heq (by decide)

end AoniContrib.Dpop
