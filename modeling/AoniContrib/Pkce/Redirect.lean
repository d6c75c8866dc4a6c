/-
# Redirect URIs: `MatchRedirectURI` of `auth/pkce/pkce.go`

Two redirect URIs match if they are the same string, or if both have a loopback host and agree in four
fields of the parsed URL: scheme, `Path`, `RawQuery` and `Fragment`.  The comment in the source says that
"only the port may vary".  What else may vary is what these fields do not show: the user information, the
loopback host itself, the spelling of path and fragment (which are DECODED there), and a question mark
with nothing behind it.  `Unshown` says that none of it does, and `only_port_varies_iff` that this is the
exact condition.
-/
import AoniContrib.Go.UrlParse

namespace AoniContrib.Pkce

open Go

/-! ## 1. The code -/

variable (R : HostRules) (U : Unicode)

def isLoopbackHost (host : Bytes) : Bool :=
  let host := toLower U (trimSpace host)
  host == lit "localhost" || host == lit "127.0.0.1" || host == lit "::1" || host == lit "[::1]"

/-- What is compared of two URIs that are not the same string. -/
def loopbackMatch (regURL reqURL : URL) : Bool :=
  isLoopbackHost U regURL.hostname && isLoopbackHost U reqURL.hostname &&
    (equalFold U regURL.scheme reqURL.scheme && regURL.path == reqURL.path &&
      regURL.rawQuery == reqURL.rawQuery && regURL.fragment == reqURL.fragment)

def matchRedirectURI (registeredURI requestURI : Bytes) : Bool :=
  if registeredURI = [] ∨ requestURI = [] then false
  else if registeredURI = requestURI then true
  else
    match parseURL R U registeredURI, parseURL R U requestURI with
    | some regURL, some reqURL => loopbackMatch U regURL reqURL
    | _, _ => false

/-! ## 2. What may vary -/

def loopbackHosts : List Bytes := [lit "localhost", lit "127.0.0.1", lit "::1"]

/-- Both URLs have the same loopback host, up to letter case. -/
def SameLoopback (u v : URL) : Prop :=
  ∃ h ∈ loopbackHosts, u.hostname.map asciiLower = h ∧ v.hostname.map asciiLower = h

/-- Two URLs that differ at most in the port, and in the letter case of the host. -/
structure OnlyPort (u v : URL) : Prop where
  host : SameLoopback u v
  scheme : u.scheme = v.scheme
  user : u.user = v.user
  path : u.escapedPath = v.escapedPath
  query : u.rawQuery = v.rawQuery ∧ u.forceQuery = v.forceQuery
  fragment : u.escapedFragment = v.escapedFragment

/-- What the compared fields do not show is the same. -/
structure Unshown (u v : URL) : Prop where
  host : SameLoopback u v
  user : u.user = v.user
  path : u.path = v.path → u.escapedPath = v.escapedPath
  query : u.rawQuery = v.rawQuery → u.forceQuery = v.forceQuery
  fragment : u.fragment = v.fragment → u.escapedFragment = v.escapedFragment

variable {R U}

def LowerScheme (u : URL) : Prop := ∀ b ∈ u.scheme, b < 0x80 ∧ asciiLower b = b

theorem scheme_eq_of_equalFold {u v : URL} (hu : LowerScheme u) (hv : LowerScheme v)
    (h : equalFold U u.scheme v.scheme = true) : u.scheme = v.scheme := by
  have hid : ∀ {s : Bytes}, (∀ b ∈ s, b < 0x80 ∧ asciiLower b = b) → s.map asciiLower = s :=
    fun hs => (List.map_congr_left fun b hb => (hs b hb).2).trans (List.map_id _)
  have hfold := (equalFold_ascii_iff U (fun b hb => (hu b hb).1) (fun b hb => (hv b hb).1)).mp h
  rwa [hid hu, hid hv] at hfold

/-- **What a match of two different strings is.** -/
theorem matchRedirectURI_iff {registered requested : Bytes} (hne : registered ≠ requested) :
    matchRedirectURI R U registered requested = true ↔ registered ≠ [] ∧ requested ≠ [] ∧
      ∃ u v, parseURL R U registered = some u ∧ parseURL R U requested = some v ∧
        isLoopbackHost U u.hostname = true ∧ isLoopbackHost U v.hostname = true ∧
        u.scheme = v.scheme ∧ u.path = v.path ∧ u.rawQuery = v.rawQuery ∧ u.fragment = v.fragment := by
  unfold matchRedirectURI
  by_cases hempty : registered = [] ∨ requested = []
  · rw [if_pos hempty]
    constructor
    · intro h
      cases h
    · rintro ⟨h1, h2, -⟩
      exact absurd hempty (not_or.mpr ⟨h1, h2⟩)
  · rw [if_neg hempty, if_neg hne]
    obtain ⟨h1, h2⟩ := not_or.mp hempty
    constructor
    · intro h
      split at h
      · rename_i u v hu hv
        simp only [loopbackMatch, Bool.and_eq_true, beq_iff_eq] at h
        obtain ⟨⟨hlu, hlv⟩, ⟨⟨hscheme, hpath⟩, hquery⟩, hfragment⟩ := h
        exact ⟨h1, h2, u, v, hu, hv, hlu, hlv, scheme_eq_of_equalFold (scheme_of_parseURL hu)
          (scheme_of_parseURL hv) hscheme, hpath, hquery, hfragment⟩
      · cases h
    · rintro ⟨-, -, u, v, hu, hv, hlu, hlv, hscheme, hpath, hquery, hfragment⟩
      rw [hu, hv]
      simp only [loopbackMatch, Bool.and_eq_true, beq_iff_eq]
      refine ⟨⟨hlu, hlv⟩, ⟨⟨?_, hpath⟩, hquery⟩, hfragment⟩
      rw [hscheme]
      exact beq_self_eq_true _

/-- Two loopback URLs that the code does not tell apart. -/
def Undecided (U : Unicode) (u v : URL) : Prop :=
  isLoopbackHost U u.hostname = true ∧ isLoopbackHost U v.hostname = true ∧ u.scheme = v.scheme ∧
    u.path = v.path ∧ u.rawQuery = v.rawQuery ∧ u.fragment = v.fragment

/-- **Only the port of a loopback URI varies** between two URIs that match, exactly if all the rest that
the compared fields do not show is the same. -/
theorem only_port_varies_iff (R : HostRules) (U : Unicode) (registered requested : Bytes) :
    (matchRedirectURI R U registered requested = true → registered = requested ∨
        ∃ u v, parseURL R U registered = some u ∧ parseURL R U requested = some v ∧ OnlyPort u v) ↔
      (registered ≠ requested → registered ≠ [] → requested ≠ [] →
        ∀ u v, parseURL R U registered = some u → parseURL R U requested = some v →
          Undecided U u v → Unshown u v) := by
  constructor
  · intro h hne h1 h2 u v hu hv hundecided
    obtain ⟨hlu, hlv, hscheme, hpath, hquery, hfragment⟩ := hundecided
    have hmatch := (matchRedirectURI_iff hne).mpr
      ⟨h1, h2, u, v, hu, hv, hlu, hlv, hscheme, hpath, hquery, hfragment⟩
    rcases h hmatch with heq | ⟨u', v', hu', hv', honly⟩
    · exact absurd heq hne
    · obtain rfl := Option.some.inj (hu.symm.trans hu')
      obtain rfl := Option.some.inj (hv.symm.trans hv')
      exact ⟨honly.host, honly.user, fun _ => honly.path, fun _ => honly.query.2,
        fun _ => honly.fragment⟩
  · intro h hmatch
    by_cases hne : registered = requested
    · exact .inl hne
    · obtain ⟨h1, h2, u, v, hu, hv, hlu, hlv, hscheme, hpath, hquery, hfragment⟩ :=
        (matchRedirectURI_iff hne).mp hmatch
      have hsame := h hne h1 h2 u v hu hv ⟨hlu, hlv, hscheme, hpath, hquery, hfragment⟩
      exact .inr ⟨u, v, hu, hv, hsame.host, hscheme, hsame.user, hsame.path hpath,
        ⟨hquery, hsame.query hquery⟩, hsame.fragment hfragment⟩

def callbackURL (host : Bytes) : URL := { scheme := lit "http", host, path := lit "/a/b" }

/-- **Much else may vary**: the user information, the host, the spelling of the path, and an empty
query. -/
theorem more_than_port_varies :
    (∀ requested ∈ [lit "http://user@localhost/a/b", lit "http://127.0.0.1/a/b",
        lit "http://localhost/a%2Fb", lit "http://localhost/a/b?"],
      matchRedirectURI ⟨fun _ => true, true⟩ .ascii (lit "http://localhost/a/b") requested = true) ∧
    parseURL ⟨fun _ => true, true⟩ .ascii (lit "http://localhost/a/b") =
      some (callbackURL (lit "localhost")) ∧
    parseURL ⟨fun _ => true, true⟩ .ascii (lit "http://user@localhost/a/b") =
      some { callbackURL (lit "localhost") with user := some ⟨lit "user", none⟩ } ∧
    ¬ OnlyPort (callbackURL (lit "localhost"))
      { callbackURL (lit "localhost") with user := some ⟨lit "user", none⟩ } := by
  refine ⟨by decide, by decide, by decide, ?_⟩
  intro h
  cases h.user

end AoniContrib.Pkce
