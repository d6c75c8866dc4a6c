/-
# Request targets: which URLs are signed alike

`@path` and `@request-target` are derived from `URL.Path`, which net/url has DECODED; what goes
on the wire is `EscapedPath`.  So two requests with different targets can be signed alike in
two ways, and in no other (`distinctTargets_iff`):

* the paths decode to the same bytes but are spelled differently (`/a%2Fb` and `/a/b`), or
* one decoded path holds a `?` (from `%3F`) where the other URL's query begins.
-/
import AoniContrib.HttpSig.Identifier

namespace AoniContrib.HttpSig

open Go

variable (U : Unicode)

/-! ## 1. What is sent and what is signed -/

def wirePath (u : URL) : Bytes := if u.escapedPath = [] then [slash] else u.escapedPath

def wireTarget (u : URL) : Bytes := wirePath u ++ querySuffix u

def signedValue (name : Bytes) (u : URL) : Except Err Bytes :=
  deriveDerivedComponent U { url := some u } { name := name }

theorem signedValue_requestTarget (u : URL) :
    signedValue U compRequestTarget u = .ok (pathOrRoot u ++ querySuffix u) :=
  derive_requestTarget U rfl rfl

theorem signedValue_path (u : URL) : signedValue U compPath u = .ok (pathOrRoot u) :=
  derive_path U rfl rfl

/-- Two URLs that are sent differently are signed differently. -/
def DistinctTargets (u₁ u₂ : URL) : Prop :=
  (wireTarget u₁ ≠ wireTarget u₂ →
      signedValue U compRequestTarget u₁ ≠ signedValue U compRequestTarget u₂) ∧
    (wirePath u₁ ≠ wirePath u₂ → signedValue U compPath u₁ ≠ signedValue U compPath u₂)

/-! ## 2. The two ways to collide -/

/-- The spelling of the path that is not the default one, if the URL carries one. -/
def rawSpelling (u : URL) : Option Bytes :=
  if u.usesRawPath ∧ u.rawPath ≠ URL.defaultPath u.path then some u.rawPath else none

def SameSpelling (u₁ u₂ : URL) : Prop :=
  pathOrRoot u₁ = pathOrRoot u₂ → rawSpelling u₁ = rawSpelling u₂

/-- The decoded path of `u₁` is that of `u₂`, a `?`, and a part of the query of `u₂` whose
rest is the query of `u₁`. -/
def QueryInPath (u₁ u₂ : URL) : Prop :=
  ∃ x, pathOrRoot u₁ = pathOrRoot u₂ ++ question :: x ∧ u₂.rawQuery ≠ [] ∧
    u₂.rawQuery = x ++ querySuffix u₁

theorem escapedPath_eq_nil_iff (u : URL) : u.escapedPath = [] ↔ u.path = [] := by
  have h := u.unescape_escapedPath
  constructor
  · intro he
    rw [he] at h
    exact (Option.some.inj h).symm
  · intro hp
    by_contra hne
    rw [hp] at h
    -- unescaping never loses the first byte
    cases hs : u.escapedPath with
    | nil => exact hne hs
    | cons c s =>
      rw [hs] at h
      by_cases hc : c = percent
      · subst hc
        match s, h with
        | [], h => cases h
        | [_], h => cases h
        | d :: e :: s, h =>
          rw [unescape, if_pos rfl] at h
          simp only [Option.bind_eq_bind, Option.bind_eq_some_iff] at h
          obtain ⟨_, -, _, -, _, -, h⟩ := h
          cases h
      · rw [unescape_cons hc, Option.map_eq_some_iff] at h
        obtain ⟨_, -, h⟩ := h
        cases h

variable {u u₁ u₂ : URL}

theorem usesRawPath_path_ne_nil (h : u.usesRawPath = true) : u.path ≠ [] := by
  intro hp
  have he := (escapedPath_eq_nil_iff u).mpr hp
  rw [URL.escapedPath_eq, if_pos h] at he
  simp [URL.usesRawPath, he] at h

theorem wirePath_eq (u : URL) : wirePath u = (rawSpelling u).getD (URL.defaultPath (pathOrRoot u)) := by
  have hroot : URL.defaultPath [slash] = [slash] := by decide
  unfold wirePath rawSpelling pathOrRoot
  by_cases hp : u.path = []
  · have hu : ¬ u.usesRawPath = true := fun h => usesRawPath_path_ne_nil h hp
    rw [if_pos ((escapedPath_eq_nil_iff u).mpr hp), if_neg (fun h => hu h.1), if_pos hp]
    exact hroot.symm
  · rw [if_neg (fun h => hp ((escapedPath_eq_nil_iff u).mp h)), if_neg hp, URL.escapedPath_eq]
    by_cases hu : u.usesRawPath = true
    · rw [if_pos hu]
      by_cases hd : u.rawPath = URL.defaultPath u.path
      · rw [if_neg (fun h => h.2 hd), hd]; rfl
      · rw [if_pos ⟨hu, hd⟩]; rfl
    · rw [if_neg hu, if_neg (fun h => hu h.1)]; rfl

theorem rawSpelling_ne_default {r : Bytes} (h : rawSpelling u = some r) :
    r ≠ URL.defaultPath (pathOrRoot u) := by
  unfold rawSpelling at h
  split at h
  · rename_i hr
    obtain rfl := Option.some.inj h
    rw [pathOrRoot, if_neg (usesRawPath_path_ne_nil hr.1)]
    exact hr.2
  · cases h

theorem wirePath_eq_iff (hp : pathOrRoot u₁ = pathOrRoot u₂) :
    wirePath u₁ = wirePath u₂ ↔ rawSpelling u₁ = rawSpelling u₂ := by
  rw [wirePath_eq, wirePath_eq, hp]
  cases h₁ : rawSpelling u₁ with
  | none =>
    cases h₂ : rawSpelling u₂ with
    | none => simp
    | some r₂ => simp [(rawSpelling_ne_default h₂).symm]
  | some r₁ =>
    have hne := rawSpelling_ne_default h₁
    rw [hp] at hne
    cases h₂ : rawSpelling u₂ with
    | none => simp [hne]
    | some r₂ => simp

theorem unescape_wirePath (u : URL) : unescape .encodePath (wirePath u) = some (pathOrRoot u) := by
  unfold wirePath pathOrRoot
  by_cases hp : u.path = []
  · rw [if_pos ((escapedPath_eq_nil_iff u).mpr hp), if_pos hp]
    decide
  · rw [if_neg (fun h => hp ((escapedPath_eq_nil_iff u).mp h)), if_neg hp]
    exact u.unescape_escapedPath

theorem pathOrRoot_eq_of_wirePath_eq (h : wirePath u₁ = wirePath u₂) :
    pathOrRoot u₁ = pathOrRoot u₂ := by
  have h₁ := unescape_wirePath u₁
  rw [h, unescape_wirePath u₂] at h₁
  exact (Option.some.inj h₁).symm

theorem question_not_mem_wirePath (u : URL) : question ∉ wirePath u := by
  unfold wirePath
  split
  · decide
  · exact u.question_not_mem_escapedPath

theorem wirePath_eq_of_wireTarget_eq (h : wireTarget u₁ = wireTarget u₂) :
    wirePath u₁ = wirePath u₂ := by
  have hcut : ∀ u : URL, (wireTarget u).takeWhile (· ≠ question) = wirePath u := by
    intro u
    have hq := question_not_mem_wirePath u
    have hall : ∀ b ∈ wirePath u, (decide (b ≠ question)) = true := by
      intro b hb
      simpa using fun e : b = question => hq (e ▸ hb)
    rw [wireTarget, List.takeWhile_append_of_pos hall]
    unfold querySuffix
    split <;> simp
  rw [← hcut u₁, ← hcut u₂, h]

/-! ## 3. The exact condition -/

/-- **When URLs that are sent differently are signed differently.** -/
theorem distinctTargets_iff (u₁ u₂ : URL) : DistinctTargets U u₁ u₂ ↔
      SameSpelling u₁ u₂ ∧ ¬ QueryInPath u₁ u₂ ∧ ¬ QueryInPath u₂ u₁ := by
  -- a `?` in the path makes the signed targets equal although the sent ones differ
  have hcollide : ∀ {v w : URL}, QueryInPath v w →
      wireTarget v ≠ wireTarget w ∧ pathOrRoot v ++ querySuffix v = pathOrRoot w ++ querySuffix w := by
    rintro v w ⟨x, hp, hq, hx⟩
    refine ⟨fun he => ?_, ?_⟩
    · have := pathOrRoot_eq_of_wirePath_eq (wirePath_eq_of_wireTarget_eq he)
      rw [hp] at this
      simpa using congrArg List.length this
    · have hs : querySuffix w = question :: (x ++ querySuffix v) := by
        conv_lhs => rw [querySuffix, if_pos hq, hx]
      rw [hs, hp]
      simp
  rw [DistinctTargets, signedValue_requestTarget, signedValue_requestTarget, signedValue_path,
    signedValue_path]
  simp only [ne_eq, Except.ok.injEq]
  constructor
  · rintro ⟨htarget, hpath⟩
    refine ⟨fun hp => ?_, fun hq => ?_, fun hq => ?_⟩
    · rw [← wirePath_eq_iff hp]
      by_contra hne
      exact hpath hne hp
    · obtain ⟨hw, hs⟩ := hcollide hq
      exact htarget hw hs
    · obtain ⟨hw, hs⟩ := hcollide hq
      exact htarget (fun e => hw e.symm) hs.symm
  · rintro ⟨hsame, hq₁, hq₂⟩
    refine ⟨fun hw hs => ?_, fun hw hp => hw ((wirePath_eq_iff hp).mpr (hsame hp))⟩
    -- the longer path continues the shorter one with a piece of the other query
    have hlonger : ∀ {v w : URL} {a : Bytes}, a ≠ [] → pathOrRoot v = pathOrRoot w ++ a →
        querySuffix w = a ++ querySuffix v → QueryInPath v w := by
      intro v w a ha hp hsuf
      cases a with
      | nil => exact absurd rfl ha
      | cons c x =>
        unfold querySuffix at hsuf
        split at hsuf
        · rename_i hne
          simp only [List.cons_append, List.cons.injEq] at hsuf
          exact ⟨x, by rw [hp, ← hsuf.1], hne, hsuf.2⟩
        · cases hsuf
    rcases List.append_eq_append_iff.mp hs with ⟨a, hp, hsuf⟩ | ⟨a, hp, hsuf⟩
    · by_cases ha : a = []
      · subst ha
        rw [List.append_nil] at hp
        refine hw ?_
        rw [wireTarget, wireTarget, (wirePath_eq_iff hp.symm).mpr (hsame hp.symm)]
        simpa using hsuf
      · exact hq₂ (hlonger ha hp hsuf)
    · by_cases ha : a = []
      · subst ha
        rw [List.append_nil] at hp
        refine hw ?_
        rw [wireTarget, wireTarget, (wirePath_eq_iff hp).mpr (hsame hp)]
        simpa using hsuf.symm
      · exact hq₁ (hlonger ha hp hsuf)

def encodedSlashURL : URL :=
  { scheme := lit "https", host := lit "h", path := lit "/a/b", rawPath := lit "/a%2Fb" }
def plainSlashURL : URL := { scheme := lit "https", host := lit "h", path := lit "/a/b" }

/-- The two are sent as different targets and signed as the same one. -/
theorem encodedSlash_signed_alike :
    encodedSlashURL.scheme = plainSlashURL.scheme ∧ encodedSlashURL.host = plainSlashURL.host ∧
      wireTarget encodedSlashURL ≠ wireTarget plainSlashURL ∧
      signedValue .ascii compRequestTarget encodedSlashURL =
        signedValue .ascii compRequestTarget plainSlashURL ∧
      wirePath encodedSlashURL ≠ wirePath plainSlashURL ∧
      signedValue .ascii compPath encodedSlashURL = signedValue .ascii compPath plainSlashURL := by
  decide

end AoniContrib.HttpSig
