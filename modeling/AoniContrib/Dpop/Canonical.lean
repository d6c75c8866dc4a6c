/-
# The normal form of a target URI

`NormalizeTargetURI` parses, clears `RawQuery` and `Fragment`, and prints.  It is documented to strip the
query and to put scheme and host in lower case.  `url.Parse` has lowered the scheme already, the HOST is
never lowered, and a question mark with nothing behind it is not in `RawQuery` but in `ForceQuery`, which
stays.  What is printed is read again as the same target, except for two kinds of zones in a host
(`Rereadable`) and a path without a host that is printed with two slashes (`PrintedAgain`).

`htu_canonical_iff` is the exact condition for all three laws.
-/
import AoniContrib.Go.Reread
import AoniContrib.Dpop.Htu

namespace AoniContrib.Dpop

open Go List

variable {force : Bool} {p raw rest scheme : Bytes} {R : HostRules} {w : URL} {U : Unicode}

/-! ## 1. The forms of a URL with a scheme -/

/-- A path that was read behind `scheme:`, without an authority. -/
def RootedPath (u : URL) : Prop :=
  ∃ t, unescape .encodePath (slash :: t) = some u.path ∧ ¬ lit "//" <+: slash :: t ∧
    u.rawPath = if slash :: t = escape .encodePath u.path then [] else slash :: t

/-- A URL with a scheme, as `parse` makes it. -/
inductive Shape (R : HostRules) (u : URL) : Prop where
  | opaq : u.user = none → u.host = [] → u.path = [] → u.rawPath = [] → u.omitHost = false →
      hasPrefix slash u.opaq = false → Without [question, hash] u.opaq → Shape R u
  | authority : ParsedHost R u → Shape R u
  | rooted : u.user = none → u.host = [] → u.opaq = [] → u.omitHost = true → RootedPath u → Shape R u

theorem question_not_mem_cutQuery {q : Bytes} (h : cutQuery rest = (p, force, q)) : question ∉ p := by
  unfold cutQuery at h
  split at h
  · rename_i hsuffix
    simp only [Bool.and_eq_true, beq_iff_eq] at hsuffix
    obtain ⟨hlast, hcount⟩ := hsuffix
    cases h
    rcases eq_nil_or_concat rest with rfl | ⟨r, b, rfl⟩
    · exact not_mem_nil
    · rw [concat_eq_append] at hlast hcount ⊢
      rw [hasSuffix, getLast?_concat, beq_iff_eq, Option.some.injEq] at hlast
      rw [hlast, count_append, count_singleton_self] at hcount
      rw [dropLast_concat]
      exact count_eq_zero.mp (by omega)
  · split at h
    · rename_i hcut
      cases h
      exact cut_eq_none_iff.mp hcut
    · rename_i hcut
      cases h
      exact (cut_eq_some hcut).2

theorem shape_of_parseRest {rawQuery : Bytes} {forceQuery : Bool} {v : URL}
    (h : parseRest R { scheme, forceQuery, rawQuery } rest = some v) (hsch : scheme ≠ [])
    (hforce : forceQuery = true → rawQuery = []) (hrest : Without [question, hash] rest) :
    Shape R v ∧ v.scheme = scheme ∧ v.forceQuery = forceQuery := by
  unfold parseRest at h
  split_ifs at h with h1 h2 h3
  · cases h
    have hfirst : hasPrefix slash rest = false := by simpa using h1.1
    exact ⟨.opaq rfl rfl rfl rfl rfl hfirst hrest, rfl, rfl⟩
  · rw [Option.bind_eq_bind, Option.bind_eq_some_iff] at h
    obtain ⟨⟨user, host⟩, hauth, h⟩ := h
    obtain ⟨path, hpath, rfl⟩ := setPath_some h
    exact ⟨.authority ⟨⟨_, hauth⟩, ⟨_, isPath_dropWhile _, hpath, rfl⟩, rfl, rfl, hforce⟩, rfl, rfl⟩
  · obtain ⟨path, hpath, rfl⟩ := setPath_some h
    have hfirst : hasPrefix slash rest = true := by
      by_contra hno
      exact h1 ⟨by simpa using hno, hsch⟩
    obtain ⟨t, rfl⟩ : ∃ t, rest = slash :: t := by
      cases rest with
      | nil => cases hfirst
      | cons c t =>
        have hc : c = slash := by simpa [hasPrefix] using hfirst
        exact ⟨t, by rw [hc]⟩
    refine ⟨.rooted rfl rfl rfl ?_ ⟨t, hpath, fun hpre => h3 ⟨.inl hsch, hpre⟩, rfl⟩, rfl, rfl⟩
    simp [hsch, hasPrefix]

theorem shape_of_parseUnfragmented {u : URL}
    (h : parseUnfragmented R U raw = some u) (hhash : hash ∉ raw) (hsch : u.scheme ≠ []) :
    Shape R u := by
  rcases parseUnfragmented_cases h with ⟨-, rfl⟩ | ⟨hctl, scheme, rest, hscheme, h⟩
  · exact absurd rfl hsch
  · obtain ⟨hforce, hsub, -⟩ := cutQuery_spec (rfl : cutQuery rest = _)
    have hquestion := question_not_mem_cutQuery (rfl : cutQuery rest = _)
    have hrest : Without [question, hash] (cutQuery rest).1 := by
      intro b hb
      have hmem := getScheme_subset hscheme b (hsub b hb)
      refine ⟨fun hm => ?_, hctl b hmem⟩
      simp only [mem_cons, not_mem_nil, or_false] at hm
      rcases hm with rfl | rfl
      · exact hquestion hb
      · exact hhash hmem
    have hne : toLower U scheme ≠ [] := fun hnil => hsch ((parseRest_scheme h).trans hnil)
    exact (shape_of_parseRest h hne hforce hrest).1

theorem Shape.setFragment {v : URL} (h : Shape R v) (fragment rawFragment : Bytes) :
    Shape R { v with fragment, rawFragment } := by
  cases h with
  | opaq h1 h2 h3 h4 h5 h6 h7 => exact .opaq h1 h2 h3 h4 h5 h6 h7
  | authority hu => exact .authority ⟨hu.authority, hu.path, hu.opaq, hu.omitHost, hu.force⟩
  | rooted h1 h2 h3 h4 h5 => exact .rooted h1 h2 h3 h4 h5

theorem shape_of_parseURL {u : URL}
    (h : parseURL R U raw = some u) (hsch : u.scheme ≠ []) : Shape R u := by
  obtain ⟨url, v, hv, hnot, -, fragment, rawFragment, rfl⟩ := parseURL_cases h
  exact (shape_of_parseUnfragmented hv hnot hsch).setFragment fragment rawFragment

/-! ## 2. What is printed -/

/-- What is printed between the colon of the scheme and the question mark. -/
def targetBody (u : URL) : Bytes :=
  if u.opaq ≠ [] then u.opaq
  else if u.omitHost then u.escapedPath
  else lit "//" ++ (authorityText u.user u.host ++ rootOr u.escapedPath)

def printed (scheme body : Bytes) (force : Bool) : Bytes :=
  scheme ++ colon :: (body ++ queryText force [])

section

variable {L : Library} {u v : URL}

theorem rootedPath_slash (h : RootedPath u) :
    ∃ t, u.escapedPath = slash :: t ∧ u.path ≠ [] ∧ u.path ≠ lit "*" := by
  obtain ⟨t, hpath, -, hraw⟩ := h
  obtain ⟨⟨t', ht'⟩, hne, hstar⟩ := escapedPath_slash hpath hraw
  exact ⟨t', ht', hne, hstar⟩

theorem normalizeURL_path (h : u.path ≠ []) : (normalizeURL L u).escapedPath = u.escapedPath := by
  have hpath : (normalizeURL L u).path = u.path := if_neg h
  have hraw : (normalizeURL L u).rawPath = u.rawPath := rfl
  rw [URL.escapedPath_eq, URL.escapedPath_eq, URL.usesRawPath, URL.usesRawPath, hraw, hpath]

theorem normalizeURL_rootOr (h : u.path = [] → u.rawPath = []) :
    (normalizeURL L u).escapedPath = rootOr u.escapedPath ∧ (normalizeURL L u).path ≠ [] := by
  by_cases hnil : u.path = []
  · have hpath : (normalizeURL L u).path = [slash] := if_pos hnil
    have hraw : (normalizeURL L u).rawPath = [] := h hnil
    refine ⟨?_, by rw [hpath]; exact cons_ne_nil _ _⟩
    rw [escapedPath_nil hnil (h hnil), rootOr, if_pos rfl, URL.escapedPath_eq, URL.usesRawPath, hraw,
      hpath]
    decide
  · have hpath : (normalizeURL L u).path = u.path := if_neg hnil
    have hescaped : u.escapedPath ≠ [] := by
      intro h
      have hun := u.unescape_escapedPath
      rw [h] at hun
      exact hnil (Option.some.inj hun).symm
    refine ⟨?_, by rw [hpath]; exact hnil⟩
    rw [normalizeURL_path hnil, rootOr, if_neg hescaped]

theorem parsedHost_rawPath (hu : ParsedHost R u) (h : u.path = []) : u.rawPath = [] := by
  obtain ⟨p, hp, hpath, hraw⟩ := hu.path
  rcases hp with rfl | ⟨t, rfl⟩
  · rw [h] at hraw
    rw [hraw]
    rfl
  · exact absurd h (escapedPath_slash hpath hraw).2.1

theorem string_of_authority (hsch : u.scheme ∈ httpSchemes) (hopaq : u.opaq = [])
    (homit : u.omitHost = false) (hpath : IsPath u.escapedPath) (hraw : u.path = [] → u.rawPath = []) :
    (normalizeURL L u).string = printed u.scheme (targetBody u) u.forceQuery := by
  obtain ⟨hescaped, hne⟩ := normalizeURL_rootOr (L := L) hraw
  have hscheme : (normalizeURL L u).scheme = u.scheme := toLower_http hsch
  have hfragment : (normalizeURL L u).fragmentText = [] := if_neg (not_not.mpr rfl)
  have hroot : IsPath (rootOr u.escapedPath) := by
    unfold rootOr
    split_ifs
    · exact .inr ⟨[], rfl⟩
    · exact hpath
  have hstring := string_authority (u := normalizeURL L u)
    (hscheme ▸ (httpSchemes_spec hsch).2.2.2) hopaq homit (hescaped ▸ hroot) (.inr hne)
  have hlit : lit "://" = colon :: lit "//" := rfl
  rw [hstring, hscheme, hfragment, hescaped, append_nil, printed, targetBody,
    if_neg (not_not.mpr hopaq), homit, hlit]
  simp only [Bool.false_eq_true, if_false, cons_append, append_assoc]
  rfl

theorem normalizeURL_string (hu : Shape R u) (hsch : u.scheme ∈ httpSchemes) :
    (normalizeURL L u).string = printed u.scheme (targetBody u) u.forceQuery := by
  have hscheme : (normalizeURL L u).scheme = u.scheme := toLower_http hsch
  have hne := (httpSchemes_spec hsch).2.2.2
  cases hu with
  | opaq _ hhost hpath hraw homit hfirst _ =>
    by_cases hopaq : u.opaq = []
    · refine string_of_authority hsch hopaq homit ?_ fun _ => hraw
      rw [escapedPath_nil hpath hraw]
      exact .inl rfl
    · have hopaq' : (normalizeURL L u).opaq ≠ [] := hopaq
      rw [URL.string, printed, targetBody, if_pos hopaq]
      simp only [hscheme, if_pos hne, if_pos hopaq', append_assoc, singleton_append]
      exact congrArg (u.scheme ++ colon :: ·) (congrArg (u.opaq ++ ·) (append_nil _))
  | authority hu =>
    exact string_of_authority hsch hu.opaq hu.omitHost (pathText_of_parsed hu).isPath
      (parsedHost_rawPath hu)
  | rooted huser hhost hopaq homit hpath =>
    obtain ⟨t, ht, hpath', -⟩ := rootedPath_slash hpath
    have hescaped := normalizeURL_path (L := L) hpath'
    have hopaq' : ¬ (normalizeURL L u).opaq ≠ [] := not_not.mpr hopaq
    have hauth : (normalizeURL L u).stringAuthority = [] := by
      have homit' : (normalizeURL L u).omitHost = true := homit
      have hhost' : (normalizeURL L u).host = [] := hhost
      have huser' : (normalizeURL L u).user = none := huser
      rw [URL.stringAuthority, homit', hhost', huser']
      simp
    have hbuf : u.scheme ++ [colon] ≠ [] := by simp
    rw [URL.string]
    simp only [hscheme, hescaped, hauth, ht, if_neg hopaq', if_pos hne, append_nil, hasPrefix,
      head?_cons, beq_self_eq_true, Bool.not_true, Bool.and_false, Bool.false_and,
      Bool.false_eq_true, if_false, hbuf, decide_false]
    rw [printed, targetBody, if_neg (not_not.mpr hopaq), if_pos homit, ht]
    simp only [append_assoc, singleton_append]
    exact congrArg (u.scheme ++ colon :: ·) (congrArg ((slash :: t) ++ ·) (append_nil _))

theorem without_targetBody (hu : Shape R u) : Without [question, hash] (targetBody u) := by
  have hslashes : Without [question, hash] (lit "//") := by
    intro b hb
    have hb' : b ∈ [slash, slash] := hb
    obtain rfl : b = slash := by simpa using hb'
    decide
  have hroot : Without [question, hash] (rootOr u.escapedPath) := by
    unfold rootOr
    split_ifs
    · exact pathText_root.without
    · exact without_escapedPath u
  unfold targetBody
  split_ifs with hopaq homit
  · cases hu with
    | opaq _ _ _ _ _ _ hwithout => exact hwithout
    | authority hu => exact absurd hu.opaq hopaq
    | rooted _ _ hnil => exact absurd hnil hopaq
  · exact without_escapedPath u
  · exact without_append hslashes
      (without_append ((without_authorityText u.user u.host).mono (by simp)) hroot)

/-! ## 3. The query, and targets that differ in case -/

theorem queryText_force (force : Bool) : queryText force [] = if force then [question] else [] := by
  cases force <;> rfl

theorem printed_marks (hu : Shape R u) (hsch : u.scheme ∈ httpSchemes) :
    hash ∉ printed u.scheme (targetBody u) u.forceQuery ∧
      (question ∉ printed u.scheme (targetBody u) u.forceQuery ↔ u.forceQuery = false) := by
  have hbody := without_targetBody hu
  have hscheme : hash ∉ u.scheme ∧ question ∉ u.scheme := by
    have hall : ∀ sch ∈ httpSchemes, hash ∉ sch ∧ question ∉ sch := by decide
    exact hall _ hsch
  have hhash : hash ∉ targetBody u := fun hm => (hbody _ hm).1 (by simp)
  have hquestion : question ∉ targetBody u := fun hm => (hbody _ hm).1 (by simp)
  rw [printed, queryText_force]
  cases u.forceQuery
  · simp [hscheme, hhash, hquestion]
  · simp [hscheme, hhash]

/-- Two URLs that differ at most in the query, the fragment, and the letter case of the host.  The
letter case of the scheme is gone when it has been read. -/
structure SameTarget (U : Unicode) (u v : URL) : Prop where
  scheme : u.scheme = v.scheme
  opaq : u.opaq = v.opaq
  user : u.user = v.user
  host : equalFold U u.host v.host = true
  path : u.path = v.path
  rawPath : u.rawPath = v.rawPath
  omitHost : u.omitHost = v.omitHost

theorem Shape.host_of_opaq (hu : Shape R u) (h : u.opaq ≠ []) : u.host = [] := by
  cases hu with
  | opaq _ hhost => exact hhost
  | authority hu => exact absurd hu.opaq h
  | rooted _ hhost => exact hhost

theorem Shape.host_of_omitHost (hu : Shape R u) (h : u.omitHost = true) : u.host = [] := by
  cases hu with
  | opaq _ hhost => exact hhost
  | authority hu =>
    rw [hu.omitHost] at h
    cases h
  | rooted _ hhost => exact hhost

theorem targetBody_eq_iff (h : SameTarget U u v) (hu : Shape R u)
    (hv : Shape R v) : targetBody u = targetBody v ↔ u.host = v.host := by
  have hpath : u.escapedPath = v.escapedPath := by
    rw [URL.escapedPath_eq, URL.escapedPath_eq, URL.usesRawPath, URL.usesRawPath, h.path, h.rawPath]
  unfold targetBody
  rw [← h.opaq, ← h.omitHost, ← hpath, ← h.user]
  by_cases hopaq : u.opaq = []
  · cases homit : u.omitHost with
    | true =>
      simp only [hopaq, ne_eq, not_true_eq_false, if_false, if_true, true_iff]
      rw [hu.host_of_omitHost homit, hv.host_of_omitHost (h.omitHost ▸ homit)]
    | false =>
      simp only [hopaq, ne_eq, not_true_eq_false, Bool.false_eq_true, if_false,
        append_cancel_left_eq, append_cancel_right_eq, authorityText]
      exact ⟨escape_inj, fun heq => by rw [heq]⟩
  · simp only [hopaq, ne_eq, not_false_eq_true, if_true, true_iff]
    rw [hu.host_of_opaq hopaq, hv.host_of_opaq (h.opaq ▸ hopaq)]

/-- **Two such targets are printed alike exactly if the hosts are the same as they stand** and both or
neither has an empty query. -/
theorem printed_eq_iff (h : SameTarget U u v) (hu : Shape R u)
    (hv : Shape R v) :
    printed u.scheme (targetBody u) u.forceQuery = printed v.scheme (targetBody v) v.forceQuery ↔
      u.host = v.host ∧ u.forceQuery = v.forceQuery := by
  have hqu : question ∉ targetBody u := fun hm => (without_targetBody hu _ hm).1 (by simp)
  have hqv : question ∉ targetBody v := fun hm => (without_targetBody hv _ hm).1 (by simp)
  rw [← targetBody_eq_iff h hu hv]
  unfold printed
  rw [h.scheme, append_cancel_left_eq, List.cons.injEq, queryText_force, queryText_force]
  constructor
  · intro ⟨_, heq⟩
    have hforce : u.forceQuery = v.forceQuery := by
      have hm : question ∈ targetBody u ++ (if u.forceQuery then [question] else []) ↔
          question ∈ targetBody v ++ (if v.forceQuery then [question] else []) := by rw [heq]
      cases hfu : u.forceQuery <;> cases hfv : v.forceQuery <;> simp [hfu, hfv, hqu, hqv] at hm ⊢
    rw [hforce] at heq
    exact ⟨append_cancel_right heq, hforce⟩
  · intro ⟨hbody, hforce⟩
    rw [hbody, hforce]
    exact ⟨rfl, rfl⟩

/-! ## 4. What is printed is read again -/

section
variable {body : Bytes} (hsch : scheme ∈ httpSchemes) (hbody : Without [question, hash] body)
include hbody hsch

theorem parseURL_printed : parseURL R U (printed scheme body force) =
      parseRest R { scheme := scheme, forceQuery := force } body := by
  obtain ⟨hbytes, hhead, -, -⟩ := httpSchemes_spec hsch
  have hquestion : question ∉ body := fun hm => (hbody _ hm).1 (by simp)
  have hhash : hash ∉ printed scheme body force := by
    have hlast : hash ∉ queryText force [] := by cases force <;> decide
    rw [printed, mem_append, mem_cons, mem_append, not_or, not_or, not_or]
    exact ⟨fun hm => (hbytes _ hm).2.2.1 rfl, by decide, fun hm => (hbody _ hm).1 (by simp), hlast⟩
  have hctl : ¬ (printed scheme body force).any isCTL = true := by
    have hlast : (queryText force []).any isCTL = false := by cases force <;> decide
    have hcolon : isCTL colon = false := by decide
    rw [printed, any_append, any_cons, any_append, hlast, hcolon,
      any_eq_false.mpr fun b hb => by simp [(hbytes b hb).2.1],
      any_eq_false.mpr fun b hb => by simp [(hbody b hb).2]]
    decide
  have hstar : printed scheme body force ≠ lit "*" := by
    intro heq
    have hhead' := congrArg List.head? heq
    rw [printed, head?_append, hhead, Option.some_or] at hhead'
    exact absurd hhead' (by decide)
  rw [parseURL, cut_eq_none_iff.mpr hhash]
  dsimp only
  rw [parseUnfragmented, if_neg hctl, if_neg hstar, printed, getScheme_http hsch]
  simp only [Option.bind_eq_bind, Option.bind_some, toLower_http hsch,
    cutQuery_queryText hquestion (fun _ => rfl : force = true → _)]

theorem normalize_printed_iff :
    normalizeTargetURI L (printed scheme body force) = .ok (printed scheme body force) ↔
      ∃ v, parseRest L.hosts { scheme := scheme, forceQuery := force } body = some v ∧
        targetBody v = body := by
  have hne : printed scheme body force ≠ [] := by
    simp [printed]
  rw [normalizeTargetURI, if_neg hne, parseURL_printed hsch hbody]
  cases hread : parseRest L.hosts { scheme := scheme, forceQuery := force } body with
  | none =>
    constructor
    · intro h
      cases h
    · rintro ⟨v, hv, -⟩
      cases hv
  | some v =>
    obtain ⟨hshape, hscheme, hforce⟩ :=
      shape_of_parseRest hread (httpSchemes_spec hsch).2.2.2 (fun _ => rfl) hbody
    dsimp only
    rw [normalizeURL_string hshape (hscheme ▸ hsch), hscheme, hforce]
    constructor
    · intro h
      have heq := append_cancel_left (Except.ok.inj h)
      exact ⟨v, rfl, append_cancel_right (List.cons.inj heq).2⟩
    · rintro ⟨v', hv', hbody'⟩
      obtain rfl := Option.some.inj hv'
      rw [hbody']

end

/-- A text behind `//` that is printed again as it is read. -/
def PrintedAgain (R : HostRules) (rest : Bytes) : Prop :=
  ∃ auth t user host, rest = auth ++ slash :: t ∧ slash ∉ auth ∧
    parseAuthority R auth = some (user, host) ∧ authorityText user host = auth

/-- The URLs whose printed form is read as it was printed.  The second condition is about a path
without a host whose second slash was escaped. -/
structure Stable (R : HostRules) (u : URL) : Prop where
  host : Rereadable u.host
  path : u.omitHost = true → ∀ rest, u.escapedPath = lit "//" ++ rest → PrintedAgain R rest

theorem parseRest_authority {auth : Bytes} (hsch : w.scheme ≠ [])
    (hauth : slash ∉ auth) (hp : IsPath p) :
    parseRest R w (lit "//" ++ (auth ++ p)) =
      (parseAuthority R auth).bind fun a => setPath { w with user := a.1, host := a.2 } p := by
  have hlit : lit "//" = [slash, slash] := rfl
  have hdrop : ([slash, slash] ++ (auth ++ p)).drop 2 = auth ++ p := rfl
  rw [hlit, parseRest, if_neg (by simp [hasPrefix]), if_neg (by simp [hasPrefix]),
    if_pos ⟨.inl hsch, by exact prefix_append _ _⟩, hdrop, cutAuthority_append hauth hp]
  rfl

theorem targetBody_setPath {x : URL} {user : Option Userinfo} {host : Bytes} (hp : PathText p)
    (hopaq : w.opaq = []) (homit : w.omitHost = false) (h : setPath { w with user, host } p = some x) :
    targetBody x = lit "//" ++ (authorityText user host ++ rootOr p) := by
  have hescaped := (hp.again _ x h).1
  obtain ⟨path, -, rfl⟩ := setPath_some h
  rw [targetBody, hescaped]
  simp [hopaq, homit]

theorem again_authority_iff {auth : Bytes} (hsch : w.scheme ≠ [])
    (hopaq : w.opaq = []) (homit : w.omitHost = false) (hauth : slash ∉ auth) (hp : PathText p)
    (hne : p ≠ []) :
    (∃ x, parseRest R w (lit "//" ++ (auth ++ p)) = some x ∧ targetBody x = lit "//" ++ (auth ++ p)) ↔
      ∃ user host, parseAuthority R auth = some (user, host) ∧ authorityText user host = auth := by
  have hroot : rootOr p = p := if_neg hne
  rw [parseRest_authority hsch hauth hp.isPath]
  constructor
  · rintro ⟨x, hx, hbody⟩
    obtain ⟨⟨user, host⟩, ha, hx⟩ := Option.bind_eq_some_iff.mp hx
    rw [targetBody_setPath hp hopaq homit hx, hroot] at hbody
    exact ⟨user, host, ha, append_cancel_right (append_cancel_left hbody)⟩
  · rintro ⟨user, host, ha, heq⟩
    obtain ⟨path, hpath⟩ := hp.read
    have hx : setPath { w with user, host } p = some { w with
        user, host, path, rawPath := if p = escape .encodePath path then [] else p } := by
      simp only [setPath, hpath, Option.bind_eq_bind, Option.bind_some]
    rw [ha, Option.bind_some]
    exact ⟨_, hx, by rw [targetBody_setPath hp hopaq homit hx, hroot, heq]⟩

theorem parseAuthority_authorityText (user : Option Userinfo) (host : Bytes) :
    parseAuthority R (authorityText user host) =
      (parseHost R (escape .encodeHost host)).map fun h => (user, h) := by
  have hat : atSign ∉ escape .encodeHost host := fun hm =>
    (without_escape (.inl rfl) host _ hm).1 (by simp)
  cases user with
  | none =>
    change parseAuthority R (escape .encodeHost host) = _
    exact parseAuthority_host hat
  | some ui =>
    have htext : authorityText (some ui) host = ui.string ++ atSign :: escape .encodeHost host := by
      simp [authorityText]
    rw [htext, parseAuthority, cutLast_append hat]
    dsimp only
    rw [parseUserinfo_string]
    cases parseHost R (escape .encodeHost host) <;> rfl

theorem again_host_iff {s : Bytes} (hsch : w.scheme ≠ [])
    (hopaq : w.opaq = []) (homit : w.omitHost = false) (hs : parseHost R s = some u.host)
    (hp : PathText u.escapedPath) :
    (∃ x, parseRest R w (lit "//" ++ (authorityText u.user u.host ++ rootOr u.escapedPath)) = some x ∧
        targetBody x = lit "//" ++ (authorityText u.user u.host ++ rootOr u.escapedPath)) ↔
      Rereadable u.host := by
  obtain ⟨t, ht⟩ := rootOr_slash hp
  have hslash : slash ∉ authorityText u.user u.host := fun hm =>
    (without_authorityText u.user u.host _ hm).1 (by simp)
  rw [again_authority_iff hsch hopaq homit hslash hp.rootOr (by rw [ht]; exact cons_ne_nil _ _),
    ← parseHost_escape_iff hs, parseAuthority_authorityText]
  constructor
  · rintro ⟨user, host, ha, -⟩
    obtain ⟨h, hh, -⟩ := Option.map_eq_some_iff.mp ha
    rw [hh, parseHost_escape hh]
  · intro hh
    rw [hh]
    exact ⟨u.user, u.host, rfl, rfl⟩

/-! ## 5. A path without a host -/

theorem escape_slash {path a t : Bytes} (h : escape .encodePath path = a ++ slash :: t) :
    ∃ x y, path = x ++ slash :: y ∧ a = escape .encodePath x ∧ t = escape .encodePath y := by
  induction path generalizing a t with
  | nil =>
    rw [escape, flatMap_nil] at h
    exact absurd h.symm (by simp)
  | cons c path ih =>
    have hstep : escape .encodePath (c :: path) = escapeByte .encodePath c ++ escape .encodePath path :=
      flatMap_cons
    rw [hstep] at h
    by_cases hc : c = slash
    · have hbyte : escapeByte .encodePath c = [slash] := by
        rw [hc]
        decide
      rw [hbyte, singleton_append] at h
      cases a with
      | nil => exact ⟨[], path, by rw [hc]; rfl, rfl, (List.cons.inj h).2.symm⟩
      | cons b a =>
        obtain ⟨rfl, htail⟩ := List.cons.inj h
        obtain ⟨x, y, rfl, rfl, rfl⟩ := ih htail
        refine ⟨c :: x, y, rfl, ?_, rfl⟩
        change slash :: escape .encodePath x = escapeByte .encodePath c ++ escape .encodePath x
        rw [hbyte]
        rfl
    · have hnot : slash ∉ escapeByte .encodePath c := by
        have hall : ∀ c : UInt8, c ≠ slash → slash ∉ escapeByte .encodePath c := by decide +kernel
        exact hall c hc
      obtain ⟨a', rfl, htail⟩ : ∃ a', a = escapeByte .encodePath c ++ a' ∧
          escape .encodePath path = a' ++ slash :: t := Data.append_eq_cut_of_not_mem hnot h
      obtain ⟨x, y, rfl, rfl, rfl⟩ := ih htail
      exact ⟨c :: x, y, rfl, rfl, rfl⟩

theorem pathText_escape (y : Bytes) : PathText (slash :: escape .encodePath y) := by
  have hstar : slash :: y ≠ lit "*" := fun h => absurd (List.cons.inj h).1 (by decide)
  have hescaped : ({ path := slash :: y } : URL).escapedPath = slash :: escape .encodePath y := by
    rw [URL.escapedPath_eq, URL.defaultPath, if_neg hstar]
    rfl
  rw [← hescaped]
  exact pathText_slash hescaped hstar (cons_ne_nil _ _)

theorem escapedPath_slashes (h : RootedPath u) (hrest : u.escapedPath = lit "//" ++ rest) :
    u.escapedPath = escape .encodePath u.path := by
  obtain ⟨t, ht, hne, hstar⟩ := rootedPath_slash h
  obtain ⟨t', hpath, hnot, hraw⟩ := h
  by_cases huses : u.usesRawPath = true
  · have heq : u.escapedPath = u.rawPath := by rw [URL.escapedPath_eq, if_pos huses]
    rw [hraw] at heq
    split_ifs at heq with hdefault
    · rw [ht] at heq
      cases heq
    · rw [heq] at hrest
      exact absurd ⟨rest, hrest.symm⟩ hnot
  · rw [URL.escapedPath_eq, if_neg huses, URL.defaultPath, if_neg hstar]

theorem again_rooted_iff (hsch : w.scheme ≠ []) (hwopaq : w.opaq = [])
    (hwomit : w.omitHost = false) (hu : RootedPath u) :
    (∃ x, parseRest R w u.escapedPath = some x ∧ targetBody x = u.escapedPath) ↔
      ∀ rest, u.escapedPath = lit "//" ++ rest → PrintedAgain R rest := by
  obtain ⟨t, ht, hne, hstar⟩ := rootedPath_slash hu
  by_cases hslashes : ∃ rest, u.escapedPath = lit "//" ++ rest
  · obtain ⟨rest, hrest⟩ := hslashes
    have hescape := (escapedPath_slashes hu hrest).symm.trans hrest
    have honly : (∀ rest', u.escapedPath = lit "//" ++ rest' → PrintedAgain R rest') ↔
        PrintedAgain R rest := by
      constructor
      · intro h
        exact h rest hrest
      · intro h rest' hrest'
        rwa [append_cancel_left (hrest'.symm.trans hrest)]
    rw [honly, hrest]
    by_cases hslash : slash ∈ rest
    · obtain ⟨auth, p, rfl, hauth⟩ := eq_append_cons_of_mem hslash
      have hcut : escape .encodePath u.path = (lit "//" ++ auth) ++ slash :: p := by
        rw [hescape, append_assoc]
      obtain ⟨x, y, -, -, rfl⟩ := escape_slash hcut
      rw [again_authority_iff hsch hwopaq hwomit hauth (pathText_escape y) (cons_ne_nil _ _)]
      constructor
      · rintro ⟨user, host, ha, heq⟩
        exact ⟨auth, _, user, host, rfl, hauth, ha, heq⟩
      · rintro ⟨auth', t', user, host, hsplit, hauth', ha, heq⟩
        -- both are the text before the first slash
        have hcut := (cut_append hauth (escape .encodePath y)).symm.trans
          (hsplit ▸ cut_append hauth' t')
        obtain ⟨rfl, -⟩ := Prod.mk.inj (Option.some.inj hcut)
        exact ⟨user, host, ha, heq⟩
    · constructor
      · -- a slash would be printed behind the authority
        rintro ⟨x, hx, hbody⟩
        have hpath : IsPath ([] : Bytes) := .inl rfl
        have hread := parseRest_authority (R := R) (w := w) hsch hslash hpath
        rw [append_nil] at hread
        rw [hread] at hx
        obtain ⟨⟨user, host⟩, ha, hx⟩ := Option.bind_eq_some_iff.mp hx
        rw [targetBody_setPath pathText_nil hwopaq hwomit hx] at hbody
        have heq := append_cancel_left hbody
        exact absurd (heq ▸ mem_append_right _ (by simp [rootOr])) hslash
      · rintro ⟨auth, t', -, -, rfl, -⟩
        exact absurd (by simp) hslash
  · refine ⟨fun _ rest hrest => absurd ⟨rest, hrest⟩ hslashes, fun _ => ?_⟩
    have hnot : ¬ lit "//" <+: u.escapedPath := by
      rintro ⟨rest, hrest⟩
      exact hslashes ⟨rest, hrest.symm⟩
    have hfirst : hasPrefix slash u.escapedPath = true := by
      rw [ht]
      rfl
    have hread : parseRest R w u.escapedPath = setPath { w with omitHost := true } u.escapedPath := by
      rw [parseRest, if_neg (by simp [hfirst]), if_neg (by simp [hfirst]), if_neg fun h => hnot h.2]
      simp [hsch, hfirst]
    obtain ⟨x, hx⟩ : ∃ x, setPath { w with omitHost := true } u.escapedPath = some x := by
      simp only [setPath, u.unescape_escapedPath, Option.bind_eq_bind, Option.bind_some]
      exact ⟨_, rfl⟩
    refine ⟨x, hread.trans hx, ?_⟩
    have hagain := (setPath_escapedPath hstar hx).1
    obtain ⟨path, -, rfl⟩ := setPath_some hx
    rw [targetBody, hagain]
    simp [hwopaq]

/-! ## 6. The three laws -/

/-- **A printed target is its own normal form exactly if the URL is stable.** -/
theorem normalize_again_iff (hu : Shape L.hosts u) (hsch : u.scheme ∈ httpSchemes) :
    normalizeTargetURI L (printed u.scheme (targetBody u) u.forceQuery) =
        .ok (printed u.scheme (targetBody u) u.forceQuery) ↔ Stable L.hosts u := by
  have hne := (httpSchemes_spec hsch).2.2.2
  have hnil : Rereadable [] := fun h => by cases h
  rw [normalize_printed_iff hsch (without_targetBody hu)]
  cases hu with
  | opaq huser hhost hpath hraw homit hfirst _ =>
    have hstable : Stable L.hosts u := by
      refine ⟨hhost ▸ hnil, fun h => ?_⟩
      rw [homit] at h
      cases h
    refine ⟨fun _ => hstable, fun _ => ?_⟩
    by_cases hopaq : u.opaq = []
    · have hempty : parseHost L.hosts [] = some u.host := by
        rw [hhost]
        rfl
      have hpathText : PathText u.escapedPath := by
        rw [escapedPath_nil hpath hraw]
        exact pathText_nil
      have hbody : targetBody u =
          lit "//" ++ (authorityText u.user u.host ++ rootOr u.escapedPath) := by
        rw [targetBody, if_neg (not_not.mpr hopaq), homit]
        rfl
      rw [hbody]
      exact (again_host_iff (w := { scheme := u.scheme, forceQuery := u.forceQuery }) hne rfl rfl hempty
        hpathText).mpr hstable.host
    · have hbody : targetBody u = u.opaq := if_pos hopaq
      rw [hbody, parseRest, if_pos ⟨by simp [hfirst], hne⟩]
      exact ⟨_, rfl, if_pos hopaq⟩
  | authority hu =>
    have hbody : targetBody u = lit "//" ++ (authorityText u.user u.host ++ rootOr u.escapedPath) := by
      rw [targetBody, if_neg (not_not.mpr hu.opaq), hu.omitHost]
      rfl
    obtain ⟨s, hs⟩ := parseHost_of_parsed hu
    rw [hbody, again_host_iff (w := { scheme := u.scheme, forceQuery := u.forceQuery }) hne rfl rfl hs
      (pathText_of_parsed hu)]
    refine ⟨fun h => ⟨h, fun homit => ?_⟩, fun h => h.host⟩
    rw [hu.omitHost] at homit
    cases homit
  | rooted huser hhost hopaq homit hpath =>
    have hbody : targetBody u = u.escapedPath := by
      rw [targetBody, if_neg (not_not.mpr hopaq), if_pos homit]
    rw [hbody, again_rooted_iff (w := { scheme := u.scheme, forceQuery := u.forceQuery }) hne rfl rfl
      hpath]
    exact ⟨fun h => ⟨hhost ▸ hnil, fun _ => h⟩, fun h => h.path homit⟩

/-- What a normal form should do: no query and no fragment is left, the normal form of another URI of
the same target is the same text, and that of the text is the text itself. -/
structure CanonicalHtu (L : Library) (a b : Bytes) (u v : URL) (n : Bytes) : Prop where
  normalized : normalizeTargetURI L a = .ok n
  query : question ∉ n
  fragment : hash ∉ n
  same : SameTarget L.unicode u v → normalizeTargetURI L b = .ok n
  again : normalizeTargetURI L n = .ok n

theorem normalizeTargetURI_eq (h : parseURL L.hosts L.unicode raw = some u)
    (hsch : u.scheme ∈ httpSchemes) :
    normalizeTargetURI L raw = .ok (printed u.scheme (targetBody u) u.forceQuery) := by
  have hne := (httpSchemes_spec hsch).2.2.2
  have hraw : raw ≠ [] := by
    rintro rfl
    have hnil : parseURL L.hosts L.unicode [] = some {} := rfl
    obtain rfl := Option.some.inj (hnil.symm.trans h)
    exact hne rfl
  rw [normalizeTargetURI, if_neg hraw, h]
  exact congrArg Except.ok (normalizeURL_string (shape_of_parseURL h hne) hsch)

/-- **The normal form of a target is canonical** exactly if no URI has an empty query, hosts that are the
same but for letter case are the same as they stand, and the URL is stable. -/
theorem htu_canonical_iff (L : Library) (a b : Bytes) (u v : URL)
    (ha : parseURL L.hosts L.unicode a = some u) (hb : parseURL L.hosts L.unicode b = some v)
    (hu : u.scheme ∈ httpSchemes) (hv : v.scheme ∈ httpSchemes) :
    (∃ n, CanonicalHtu L a b u v n) ↔ u.forceQuery = false ∧ Stable L.hosts u ∧
        (SameTarget L.unicode u v → u.host = v.host ∧ v.forceQuery = false) := by
  have hshapeU := shape_of_parseURL ha (httpSchemes_spec hu).2.2.2
  have hshapeV := shape_of_parseURL hb (httpSchemes_spec hv).2.2.2
  have hna := normalizeTargetURI_eq ha hu
  have hnb := normalizeTargetURI_eq hb hv
  obtain ⟨hhash, hquestion⟩ := printed_marks hshapeU hu
  constructor
  · rintro ⟨n, hn⟩
    obtain rfl : printed u.scheme (targetBody u) u.forceQuery = n :=
      Except.ok.inj (hna.symm.trans hn.normalized)
    have hforce := hquestion.mp hn.query
    refine ⟨hforce, (normalize_again_iff hshapeU hu).mp hn.again, fun hsame => ?_⟩
    have heq := Except.ok.inj ((hn.same hsame).symm.trans hnb)
    obtain ⟨hhost, hforce'⟩ := (printed_eq_iff hsame hshapeU hshapeV).mp heq
    exact ⟨hhost, hforce'.symm.trans hforce⟩
  · rintro ⟨hforce, hstable, hsame⟩
    refine ⟨_, hna, hquestion.mpr hforce, hhash, fun hst => ?_,
      (normalize_again_iff hshapeU hu).mpr hstable⟩
    obtain ⟨hhost, hforce'⟩ := hsame hst
    rw [hnb, (printed_eq_iff hst hshapeU hshapeV).mpr ⟨hhost, hforce.trans hforce'.symm⟩]

end

def pathURL (host : Bytes) : URL := { scheme := lit "http", host, path := lit "/a" }

theorem htu_canonical_iff_query :
    ∃ n, CanonicalHtu .json (lit "http://h:80/a?q#f") (lit "HTTP://h:80/a")
      { pathURL (lit "h:80") with rawQuery := lit "q", fragment := lit "f" } (pathURL (lit "h:80")) n := by
  refine (htu_canonical_iff .json _ _ _ _ (by decide) (by decide) (by decide) (by decide)).mpr
    ⟨rfl, ⟨?_, ?_⟩, fun _ => ⟨rfl, rfl⟩⟩
  · intro h
    cases h
  · intro h
    cases h

/-- **All three laws fail.**  A host in capitals stays so, an empty query stays, and a zone with a bracket
is printed as a text that is not read. -/
theorem htu_not_canonical :
    (parseURL Library.json.hosts .ascii (lit "http://H/a") = some (pathURL (lit "H")) ∧
      parseURL Library.json.hosts .ascii (lit "http://h/a") = some (pathURL (lit "h")) ∧
      equalFold .ascii (lit "H") (lit "h") = true ∧
      normalizeTargetURI .json (lit "http://H/a") = .ok (lit "http://H/a") ∧
      normalizeTargetURI .json (lit "http://h/a") = .ok (lit "http://h/a")) ∧
    normalizeTargetURI .json (lit "http://h/a?") = .ok (lit "http://h/a?") ∧
    (normalizeTargetURI .json (lit "http://[::1%25%5B]/a") = .ok (lit "http://[::1%25[]/a") ∧
      normalizeTargetURI .json (lit "http://[::1%25[]/a") = .error .invalidClaims) := by
  refine ⟨⟨by decide, by decide, by decide, by decide, by decide⟩, by decide, by decide, by decide⟩

end AoniContrib.Dpop
