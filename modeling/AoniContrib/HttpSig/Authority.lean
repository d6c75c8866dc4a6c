/-
# Authorities: which hosts are signed alike

`normalizeAuthority` takes the host name without its brackets, in lower case, and puts the port behind
a colon unless it is the default of the scheme.  The brackets of an IPv6 literal are not put back, so
`[::1]:8080` and `[::1:8080]` have the same `@authority`; and `ToLower` replaces bytes that are not
UTF-8.  Two URLs with the same `@authority` have the same host and port exactly if both are bracketed
or none, both name a port of their own or none, and their host names have the same stray bytes
(`authority_injective_iff`).
-/
import AoniContrib.HttpSig.Target
import AoniContrib.Go.Letters
import AoniContrib.Go.NetIP
import AoniContrib.Go.UrlParse

namespace AoniContrib.HttpSig

open Go

/-! ## 1. Hosts and ports -/

def bracketed (u : URL) : Bool :=
  hasPrefix lsquare (URL.splitPort u.host).1 && hasSuffix rsquare (URL.splitPort u.host).1

def defaultPort (scheme : Bytes) : Bytes := if scheme = lit "http" then lit "80" else lit "443"

/-- The port of a URL, where a missing one is the default. -/
def effectivePort (u : URL) : Bytes := if u.port = [] then defaultPort u.scheme else u.port

/-- The URL names a port other than the default. -/
def NamesPort (u : URL) : Prop := effectivePort u ≠ defaultPort u.scheme

variable (U : Unicode)

/-- The same host up to letter case, and the same port. -/
structure SameAuthority (u v : URL) : Prop where
  brackets : bracketed u = bracketed v
  host : SameLetters U u.hostname v.hostname
  port : effectivePort u = effectivePort v

/-! ## 2. What is signed -/

section
variable {U}

theorem equalFold_http {scheme name : Bytes} (hs : scheme ∈ httpSchemes) (hn : name ∈ httpSchemes) :
    equalFold U scheme name = decide (scheme = name) := by
  have hall : ∀ s ∈ httpSchemes, Ascii s ∧ s.map asciiLower = s := by
    intro s hs
    rcases List.mem_cons.mp hs with rfl | hs
    · exact ⟨ascii_lit (by simp), by decide⟩
    · rw [List.mem_singleton.mp hs]
      exact ⟨ascii_lit (by simp), by decide⟩
  obtain ⟨hs1, hs2⟩ := hall scheme hs
  obtain ⟨hn1, hn2⟩ := hall name hn
  rw [Bool.eq_iff_iff, equalFold_ascii_iff U hs1 hn1, hs2, hn2, decide_eq_true_eq]

section
variable {u : URL} (h : u.scheme ∈ httpSchemes)
include h

theorem isDefault_iff (hport : u.port ≠ []) :
    ((equalFold U u.scheme (lit "http") && u.port = lit "80") ||
      (equalFold U u.scheme (lit "https") && u.port = lit "443")) = true ↔ ¬ NamesPort u := by
  have hne : lit "http" ≠ lit "https" := by decide
  rw [equalFold_http h (by decide), equalFold_http h (by decide), NamesPort, effectivePort,
    if_neg hport, not_not]
  rcases List.mem_cons.mp h with hs | hs
  · rw [hs]
    simp [hne, defaultPort]
  · rw [List.mem_singleton.mp hs]
    simp [hne.symm, defaultPort]

theorem normalizeAuthority_of_namesPort (hn : NamesPort u) :
    normalizeAuthority U u = toLower U u.hostname ++ colon :: effectivePort u := by
  have hport : u.port ≠ [] := by
    intro hport
    rw [NamesPort, effectivePort, if_pos hport] at hn
    exact hn rfl
  rw [normalizeAuthority, if_neg hport, if_neg (fun hd => (isDefault_iff h hport).mp hd hn),
    effectivePort, if_neg hport]

theorem normalizeAuthority_of_default (hn : ¬ NamesPort u) :
    normalizeAuthority U u = toLower U u.hostname := by
  rw [normalizeAuthority]
  split_ifs with hport hdefault
  · rfl
  · rfl
  · exact absurd ((isDefault_iff h hport).mpr hn) hdefault

end

theorem signedValue_authority {u : URL} {val : Bytes} (h : signedValue U compAuthority u = .ok val) :
    val = normalizeAuthority U u := by
  rw [signedValue, deriveDerivedComponent, if_neg (by decide), if_neg (by decide), if_pos rfl] at h
  simp only at h
  split_ifs at h
  exact (Except.ok.inj h).symm

theorem colon_not_mem_effectivePort {u : URL} (h : NamesPort u) : colon ∉ effectivePort u := by
  unfold NamesPort at h
  unfold effectivePort at h ⊢
  split_ifs at h ⊢ with hport
  · exact absurd rfl h
  · intro hmem
    have hdigit := u.digit_of_mem_port hmem
    exact absurd hdigit.2 (by decide)

end

/-! ## 3. Results -/

/-- **Authorities that are signed alike.**  Two URLs with the same scheme and the same `@authority`
have the same host, up to letter case, and the same port exactly if both hosts are bracketed or none,
both URLs name a port other than the default or none does, and nowhere in the host names a byte that
is not UTF-8 stands against something else. -/
theorem authority_injective_iff {u v : URL} (hscheme : u.scheme ∈ httpSchemes)
    (hsame : v.scheme = u.scheme) {a : Bytes} (hu : signedValue U compAuthority u = .ok a)
    (hv : signedValue U compAuthority v = .ok a) :
    SameAuthority U u v ↔ bracketed u = bracketed v ∧ (NamesPort u ↔ NamesPort v) ∧
        ¬ StrayDiffer u.hostname v.hostname := by
  have heq : normalizeAuthority U u = normalizeAuthority U v :=
    (signedValue_authority hu).symm.trans (signedValue_authority hv)
  constructor
  · rintro ⟨hbrackets, hhost, hport⟩
    refine ⟨hbrackets, ?_, hhost.not_strayDiffer⟩
    rw [NamesPort, NamesPort, hport, hsame]
  · rintro ⟨hbrackets, hnames, hstray⟩
    have hscheme' : v.scheme ∈ httpSchemes := hsame ▸ hscheme
    by_cases hport : NamesPort u
    · have hport' := hnames.mp hport
      rw [normalizeAuthority_of_namesPort hscheme hport,
        normalizeAuthority_of_namesPort hscheme' hport'] at heq
      -- the last colon is the one before the port
      obtain ⟨hlower, heffective⟩ : toLower U u.hostname = toLower U v.hostname ∧
          effectivePort u = effectivePort v := by
        have hcut := congrArg (cutLast colon) heq
        rw [cutLast_append (colon_not_mem_effectivePort hport),
          cutLast_append (colon_not_mem_effectivePort hport')] at hcut
        exact Prod.mk.inj (Option.some.inj hcut)
      exact ⟨hbrackets, sameLetters_of_toLower_eq hlower hstray, heffective⟩
    · have hport' := fun h => hport (hnames.mpr h)
      rw [normalizeAuthority_of_default hscheme hport,
        normalizeAuthority_of_default hscheme' hport'] at heq
      refine ⟨hbrackets, sameLetters_of_toLower_eq heq hstray, ?_⟩
      unfold NamesPort at hport hport'
      rw [not_not] at hport
      rw [hport, not_not.mp hport', hsame]

def readerRules : HostRules := { ipLiteral := fun s => (read6 s).isSome, strictColons := true }

def rootURL (host : Bytes) : URL := { scheme := lit "http", host, path := lit "/" }

theorem authority_injective_iff_case : parseURL readerRules .ascii (lit "http://Example.com:80/") =
        some (rootURL (lit "Example.com:80")) ∧
      parseURL readerRules .ascii (lit "http://example.com/") = some (rootURL (lit "example.com")) ∧
      (SameAuthority .ascii (rootURL (lit "Example.com:80")) (rootURL (lit "example.com")) ↔
        bracketed (rootURL (lit "Example.com:80")) = bracketed (rootURL (lit "example.com")) ∧
          (NamesPort (rootURL (lit "Example.com:80")) ↔ NamesPort (rootURL (lit "example.com"))) ∧
          ¬ StrayDiffer (rootURL (lit "Example.com:80")).hostname (rootURL (lit "example.com")).hostname) :=
  ⟨by decide, by decide,
    authority_injective_iff .ascii List.mem_cons_self rfl (a := lit "example.com") (by decide)
      (by decide)⟩

/-- **Brackets are lost**: a port of `::1` is signed as the last group of another address; and hosts
that differ in a byte that is not UTF-8 are signed alike. -/
theorem authorities_signed_alike :
    let address := rootURL (lit "[::1]:8080")
    let longer := rootURL (lit "[::1:8080]")
    (parseURL readerRules .ascii (lit "http://[::1]:8080/") = some address ∧
      parseURL readerRules .ascii (lit "http://[::1:8080]/") = some longer ∧
      signedValue .ascii compAuthority address = .ok (lit "::1:8080") ∧
      signedValue .ascii compAuthority longer = .ok (lit "::1:8080") ∧
      ¬ SameAuthority .ascii address longer) ∧
    (parseURL readerRules .ascii (lit "http://%FF/") = some (rootURL [0xFF]) ∧
      parseURL readerRules .ascii (lit "http://%FE/") = some (rootURL [0xFE]) ∧
      signedValue .ascii compAuthority (rootURL [0xFF]) =
        signedValue .ascii compAuthority (rootURL [0xFE]) ∧
      ¬ SameAuthority .ascii (rootURL [0xFF]) (rootURL [0xFE])) := by
  intro address longer
  refine ⟨⟨by decide, by decide, by decide, by decide, ?_⟩, by decide, by decide, by decide, ?_⟩
  · intro h
    exact absurd h.port (by decide)
  · intro h
    exact h.host.not_strayDiffer ⟨(.stray 0xFF, .stray 0xFE), by decide, by decide⟩

end AoniContrib.HttpSig
