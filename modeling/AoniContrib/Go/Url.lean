/-
# URLs: the part of package `net/url` the repository calls

A `*url.URL` is a record of decoded and raw parts.  `Path` is DECODED (so it may hold any
byte), `RawPath` is an optional spelling of it, and `EscapedPath` is what goes on the wire:
`RawPath` when that is a valid encoding of `Path`, else the default encoding.  The default
encoding is inverted by `unescape` (`unescape_escape`), and whatever `EscapedPath` yields
decodes to `Path` again (`unescape_escapedPath`).
-/
import AoniContrib.Go.Bytes

namespace AoniContrib.Go

open List

structure Userinfo where
  username : Bytes
  password : Option Bytes
  deriving DecidableEq, Repr

structure URL where
  scheme : Bytes := []
  opaq : Bytes := []
  user : Option Userinfo := none
  host : Bytes := []
  path : Bytes := []
  rawPath : Bytes := []
  omitHost : Bool := false
  forceQuery : Bool := false
  rawQuery : Bytes := []
  fragment : Bytes := []
  rawFragment : Bytes := []
  deriving DecidableEq, Repr

/-! ## 1. Escaping -/

/-- The encoding modes of `net/url`, as far as they are used here. -/
inductive Encoding where
  | encodePath
  | encodeHost
  | encodeUserPassword
  | encodeQueryComponent
  | encodeFragment
  deriving DecidableEq, Repr

def isAlnum (c : UInt8) : Bool :=
  (0x61 ≤ c && c ≤ 0x7a) || (0x41 ≤ c && c ≤ 0x5a) || (0x30 ≤ c && c ≤ 0x39)

def shouldEscape (c : UInt8) (mode : Encoding) : Bool :=
  if isAlnum c then false
  else if mode = .encodeHost ∧ c ∈ lit "!$&'()*+,;=:[]<>\"" then false
  else if c ∈ lit "-_.~" then false
  else if c ∈ lit "$&+,/:;=?@" then
    match mode with
    | .encodePath => c == question
    | .encodeUserPassword => c == atSign || c == slash || c == question || c == colon
    | .encodeQueryComponent => true
    | .encodeFragment => false
    | .encodeHost => true
  else if mode = .encodeFragment ∧ c ∈ lit "!()*" then false
  else true

def upperHex (n : Nat) : UInt8 := if n < 10 then (0x30 + n).toUInt8 else (0x41 + (n - 10)).toUInt8

/-- `unhex`, with `ishex` as the domain. -/
def unhex (c : UInt8) : Option Nat :=
  if 0x30 ≤ c && c ≤ 0x39 then some (c.toNat - 0x30)
  else if 0x61 ≤ c && c ≤ 0x66 then some (c.toNat - 0x61 + 10)
  else if 0x41 ≤ c && c ≤ 0x46 then some (c.toNat - 0x41 + 10)
  else none

def escapeByte (mode : Encoding) (c : UInt8) : Bytes :=
  if c = space ∧ mode = .encodeQueryComponent then [plus]
  else if shouldEscape c mode then [percent, upperHex (c.toNat / 16), upperHex (c.toNat % 16)]
  else [c]

def escape (mode : Encoding) (s : Bytes) : Bytes := s.flatMap (escapeByte mode)

/-- `unescape` outside the host modes: `none` is the `EscapeError` of a `%` without two hex
digits behind it. -/
def unescape (mode : Encoding) : Bytes → Option Bytes
  | [] => some []
  | [c] =>
    if c = percent then none
    else if c = plus ∧ mode = .encodeQueryComponent then some [space] else some [c]
  | [c, d] =>
    if c = percent then none
    else (unescape mode [d]).map
      (fun t => (if c = plus ∧ mode = .encodeQueryComponent then space else c) :: t)
  | c :: d :: e :: s =>
    if c = percent then do
      let hi ← unhex d
      let lo ← unhex e
      let t ← unescape mode s
      some ((hi * 16 + lo).toUInt8 :: t)
    else (unescape mode (d :: e :: s)).map
      (fun t => (if c = plus ∧ mode = .encodeQueryComponent then space else c) :: t)

def validEncoded (s : Bytes) (mode : Encoding) : Bool :=
  s.all (fun c => c ∈ lit "!$&'()*+,;=:@" || c ∈ lit "[]" || c == percent || !shouldEscape c mode)

/-! ## 2. The accessors -/

namespace URL

variable (u : URL)

/-- Whether `EscapedPath` answers `RawPath`: it is set, a valid encoding, and decodes to
`Path`. -/
def usesRawPath : Bool :=
  u.rawPath ≠ [] && validEncoded u.rawPath .encodePath && unescape .encodePath u.rawPath == some u.path

def escapedPath : Bytes :=
  if u.usesRawPath then u.rawPath
  else if u.path = lit "*" then lit "*"
  else escape .encodePath u.path

def escapedFragment : Bytes :=
  if u.rawFragment ≠ [] && validEncoded u.rawFragment .encodeFragment &&
      unescape .encodeFragment u.rawFragment == some u.fragment then u.rawFragment
  else escape .encodeFragment u.fragment

/-- `validOptionalPort` on the text from the last colon on. -/
def validPort (port : Bytes) : Bool := port.all (fun b => 0x30 ≤ b && b ≤ 0x39)

/-- The host text before its last colon and the text after it, when that text is a port. -/
def splitPort (hostPort : Bytes) : Bytes × Bytes :=
  match cut colon hostPort.reverse with
  | none => (hostPort, [])
  | some (portRev, hostRev) =>
    if validPort portRev then (hostRev.reverse, portRev.reverse) else (hostPort, [])

/-- `splitHostPort` of `net/url`. -/
def splitHostPort (hostPort : Bytes) : Bytes × Bytes :=
  let (host, port) := splitPort hostPort
  if hasPrefix 0x5b host && hasSuffix 0x5d host then (host.tail.dropLast, port) else (host, port)

/-- `URL.Hostname` and `URL.Port`. -/
def hostname : Bytes := (splitHostPort u.host).1
def port : Bytes := (splitHostPort u.host).2

end URL

def Userinfo.string (ui : Userinfo) : Bytes :=
  escape .encodeUserPassword ui.username ++
    match ui.password with
    | none => []
    | some p => colon :: escape .encodeUserPassword p

namespace URL

variable (u : URL)

/-- `scheme:` and `//user@host`, the part of `URL.String` before the path. -/
def stringAuthority : Bytes :=
  if u.scheme ≠ [] || u.host ≠ [] || u.user.isSome then
    if u.omitHost && u.host = [] && u.user.isNone then []
    else
      (if u.host ≠ [] || u.path ≠ [] || u.user.isSome then lit "//" else []) ++
      (match u.user with
        | none => []
        | some ui => ui.string ++ [atSign]) ++
      escape .encodeHost u.host
  else []

def string : Bytes :=
  let head := if u.scheme ≠ [] then u.scheme ++ [colon] else []
  let body :=
    if u.opaq ≠ [] then head ++ u.opaq
    else
      let path := u.escapedPath
      let buf := head ++ u.stringAuthority ++
        (if path ≠ [] && !hasPrefix slash path && u.host ≠ [] then [slash] else [])
      -- RFC 3986, 4.2: a first segment with a colon would read as a scheme
      let dot := if buf = [] && colon ∈ path.takeWhile (· ≠ slash) then lit "./" else []
      buf ++ dot ++ path
  body ++ (if u.forceQuery || u.rawQuery ≠ [] then question :: u.rawQuery else []) ++
    (if u.fragment ≠ [] then 0x23 :: u.escapedFragment else [])

/-- `URL.RequestURI`, the request target a client writes on the wire. -/
def requestURI : Bytes :=
  let result :=
    if u.opaq = [] then
      if u.escapedPath = [] then [slash] else u.escapedPath
    else if (lit "//").isPrefixOf u.opaq then u.scheme ++ [colon] ++ u.opaq
    else u.opaq
  if u.forceQuery || u.rawQuery ≠ [] then result ++ question :: u.rawQuery else result

end URL

/-- `setPath`: `none` is an `EscapeError`. -/
def setPath (u : URL) (p : Bytes) : Option URL := do
  let path ← unescape .encodePath p
  -- RawPath is only a hint when the default encoding of Path is not what was written
  some { u with path := path, rawPath := if p = escape .encodePath path then [] else p }

/-- `url.ParseRequestURI` on an origin-form request target (one that starts with `/`), as
`http.ReadRequest` calls it. -/
def parseOriginForm (target : Bytes) : Option URL :=
  if target.any (fun b => b < 0x20 || b == 0x7f) then none
  else if !hasPrefix slash target then none
  else if hasSuffix question target && target.count question == 1 then
    setPath { forceQuery := true } target.dropLast
  else match cut question target with
    | none => setPath {} target
    | some (rest, query) => setPath { rawQuery := query } rest

/-! ## 3. Queries -/

/-- One `key=value` segment of `url.ParseQuery`. -/
def parseQueryPair (segment : Bytes) : Option (Bytes × Bytes) := do
  let (key, value) := match cut equals segment with
    | some (k, v) => (k, v)
    | none => (segment, [])
  let k ← unescape .encodeQueryComponent key
  let v ← unescape .encodeQueryComponent value
  some (k, v)

/-- `url.ParseQuery`, the pairs in order; `none` when it reports an error (a `;` or a bad
escape in some segment). -/
def parseQuery (query : Bytes) : Option (List (Bytes × Bytes)) :=
  ((query.splitOn 0x26).filter (fun seg => seg ≠ [])).mapM
    (fun seg => if semicolon ∈ seg then none else parseQueryPair seg)

def queryEscape (s : Bytes) : Bytes := escape .encodeQueryComponent s

def queryUnescape (s : Bytes) : Option Bytes := unescape .encodeQueryComponent s

/-! ## 4. What is escaped is unescaped again -/

variable {mode : Encoding} {c b x : UInt8}

theorem unescape_cons (h : c ≠ percent) (s : Bytes) : unescape mode (c :: s) = (unescape mode s).map
      (fun t => (if c = plus ∧ mode = .encodeQueryComponent then space else c) :: t) := by
  match s with
  | [] =>
    simp only [unescape, if_neg h, Option.map_some]
    split <;> rfl
  | [d] => conv_lhs => rw [unescape, if_neg h]
  | d :: e :: s => conv_lhs => rw [unescape, if_neg h]

theorem unhex_upperHex {n : Nat} (h : n < 16) : unhex (upperHex n) = some n := by
  revert n; decide

theorem unescape_percent (mode : Encoding) (c : UInt8) (s : Bytes) :
    unescape mode (percent :: upperHex (c.toNat / 16) :: upperHex (c.toNat % 16) :: s) =
      (unescape mode s).map (c :: ·) := by
  have hc := c.toNat_lt
  have h1 : c.toNat / 16 < 16 := by omega
  have h2 : c.toNat % 16 < 16 := by omega
  have h3 : c.toNat / 16 * 16 + c.toNat % 16 = c.toNat := by omega
  rw [unescape, if_pos rfl, unhex_upperHex h1, unhex_upperHex h2]
  cases unescape mode s with
  | none => rfl
  | some t =>
    simp only [Option.bind_eq_bind, Option.bind_some, Option.map_some, h3]
    simp

theorem unhex_lt {n : Nat} (h : unhex c = some n) : n < 16 := by
  simp only [unhex, Bool.and_eq_true, decide_eq_true_eq, UInt8.le_iff_toNat_le, UInt8.reduceToNat] at h
  split_ifs at h <;> simp only [Option.some.injEq] at h <;> omega

theorem toNat_hexByte {d e : UInt8} {hi lo : Nat} (hd : unhex d = some hi) (he : unhex e = some lo) :
    (hi * 16 + lo).toUInt8.toNat = hi * 16 + lo := by
  have hhi := unhex_lt hd
  have hlo := unhex_lt he
  exact UInt8.toNat_ofNat_of_lt' (by change _ < 256; omega)

theorem isAlnum_not_ascii (h : ¬ b < 0x80) : isAlnum b = false := by
  grind [isAlnum]

theorem shouldEscape_not_ascii (h : ¬ b < 0x80) (mode : Encoding) : shouldEscape b mode = true := by
  have hal := isAlnum_not_ascii h
  have hhost := (ascii_lit (by simp) : Ascii (lit "!$&'()*+,;=:[]<>\"")).not_mem h
  have hfree := (ascii_lit (by simp) : Ascii (lit "-_.~")).not_mem h
  have hreserved := (ascii_lit (by simp) : Ascii (lit "$&+,/:;=?@")).not_mem h
  have hfragment := (ascii_lit (by simp) : Ascii (lit "!()*")).not_mem h
  simp [shouldEscape, hal, hhost, hfree, hreserved, hfragment]

theorem shouldEscape_percent (mode : Encoding) : shouldEscape percent mode = true := by
  cases mode <;> decide

theorem unescape_escapeByte (mode : Encoding) (c : UInt8) (s : Bytes) :
    unescape mode (escapeByte mode c ++ s) = (unescape mode s).map (c :: ·) := by
  unfold escapeByte
  split
  · rename_i h
    obtain ⟨rfl, rfl⟩ := h
    simp only [cons_append, nil_append]
    rw [unescape_cons (by decide)]
    simp
  · rename_i hsp
    split
    · exact unescape_percent mode c s
    · rename_i hno
      have hp : c ≠ percent := by
        rintro rfl
        exact hno (shouldEscape_percent mode)
      have hplus : ¬ (c = plus ∧ mode = .encodeQueryComponent) := by
        rintro ⟨rfl, rfl⟩
        exact hno (by decide)
      simp only [cons_append, nil_append]
      rw [unescape_cons hp, if_neg hplus]

theorem unescape_escape (mode : Encoding) : ∀ s : Bytes, unescape mode (escape mode s) = some s
  | [] => rfl
  | c :: s => by
    have ih := unescape_escape mode s
    rw [escape] at ih ⊢
    rw [flatMap_cons, unescape_escapeByte, ih]
    rfl

theorem not_mem_escape (hx : shouldEscape x mode = true)
    (hp : x ≠ plus) (hpc : x ≠ percent) (hh : isAlnum x = false) (s : Bytes) :
    x ∉ escape mode s := by
  have hhex : ∀ n < 16, isAlnum (upperHex n) = true := by decide
  intro hm
  obtain ⟨c, -, hc⟩ := mem_flatMap.mp hm
  have hclt := c.toNat_lt
  unfold escapeByte at hc
  split at hc
  · exact hp (mem_singleton.mp hc)
  · split at hc
    · simp only [mem_cons, not_mem_nil, or_false] at hc
      rcases hc with rfl | rfl | rfl
      · exact hpc rfl
      · rw [hhex _ (by omega)] at hh; cases hh
      · rw [hhex _ (by omega)] at hh; cases hh
    · rename_i hno
      obtain rfl := mem_singleton.mp hc
      exact hno hx

theorem not_mem_validEncoded (hx : shouldEscape x mode = true)
    (h1 : x ∉ lit "!$&'()*+,;=:@") (h2 : x ∉ lit "[]") (h3 : x ≠ percent) {s : Bytes}
    (hs : validEncoded s mode = true) : x ∉ s := by
  intro hm
  have := all_eq_true.mp hs x hm
  simp [h1, h2, h3, hx] at this

namespace URL

variable (u : URL)

def defaultPath (path : Bytes) : Bytes := if path = lit "*" then lit "*" else escape .encodePath path

theorem escapedPath_eq : u.escapedPath = if u.usesRawPath then u.rawPath else defaultPath u.path := by
  unfold escapedPath defaultPath
  split <;> rfl

theorem unescape_defaultPath (path : Bytes) : unescape .encodePath (defaultPath path) = some path := by
  unfold defaultPath
  split
  · rename_i h
    rw [h]
    decide
  · exact unescape_escape _ _

theorem unescape_escapedPath : unescape .encodePath u.escapedPath = some u.path := by
  rw [escapedPath_eq]
  split
  · rename_i h
    simp only [usesRawPath, Bool.and_eq_true, beq_iff_eq] at h
    exact h.2
  · exact unescape_defaultPath u.path

variable {x : UInt8}

theorem not_mem_escapedPath (hx : shouldEscape x .encodePath = true)
    (h1 : x ∉ lit "!$&'()*+,;=:@") (h2 : x ∉ lit "[]") (h3 : x ≠ percent) (h4 : x ≠ plus)
    (h5 : isAlnum x = false) : x ∉ u.escapedPath := by
  rw [escapedPath_eq]
  split
  · rename_i h
    simp only [usesRawPath, Bool.and_eq_true] at h
    exact not_mem_validEncoded hx h1 h2 h3 h.1.2
  · unfold defaultPath
    split
    · intro hm
      obtain rfl := mem_singleton.mp hm
      exact h1 (by decide)
    · exact not_mem_escape hx h4 h3 h5 _

theorem question_not_mem_escapedPath : question ∉ u.escapedPath :=
  u.not_mem_escapedPath (by decide) (by decide) (by decide) (by decide) (by decide) (by decide)

theorem newline_not_mem_escapedPath : newline ∉ u.escapedPath :=
  u.not_mem_escapedPath (by decide) (by decide) (by decide) (by decide) (by decide) (by decide)

/-! ## 5. What a URL text may hold -/

theorem splitPort_spec (hostPort : Bytes) : (∀ b ∈ (splitPort hostPort).2, 0x30 ≤ b ∧ b ≤ 0x39) ∧
      (hostPort = (splitPort hostPort).1 ∨
        hostPort = (splitPort hostPort).1 ++ colon :: (splitPort hostPort).2) := by
  unfold splitPort
  split
  · exact ⟨by simp, .inl rfl⟩
  · rename_i portRev hostRev hc
    split
    · rename_i hv
      refine ⟨fun b hb => ?_, .inr ?_⟩
      · have := all_eq_true.mp hv b (mem_reverse.mp hb)
        simpa using this
      · have := congrArg List.reverse (cut_eq_some hc).1
        simpa using this
    · exact ⟨by simp, .inl rfl⟩

theorem mem_hostname_iff (hd : ¬ (0x30 ≤ x ∧ x ≤ 0x39)) (hc : x ≠ colon)
    (ho : x ≠ 0x5b) (hcl : x ≠ 0x5d) : x ∈ u.hostname ↔ x ∈ u.host := by
  obtain ⟨hport, hsplit⟩ := splitPort_spec u.host
  have hhost : x ∈ u.host ↔ x ∈ (splitPort u.host).1 := by
    rcases hsplit with h | h
    · conv_lhs => rw [h]
    · have hp : x ∉ (splitPort u.host).2 := fun hm => hd (hport x hm)
      conv_lhs => rw [h]
      simp only [mem_append, mem_cons, hc, hp, or_self, or_false]
  rw [hhost, hostname, splitHostPort]
  simp only
  split
  · rename_i hb
    simp only [hasPrefix, hasSuffix, Bool.and_eq_true, beq_iff_eq] at hb
    obtain ⟨hhead, hlast⟩ := hb
    -- a bracketed host is more than its opening bracket, which is not the closing one
    cases he : (splitPort u.host).1 with
    | nil => simp [he] at hhead
    | cons b t =>
      rw [he] at hhead hlast
      obtain rfl := Option.some.inj hhead
      rcases eq_nil_or_concat t with rfl | ⟨mid, c, rfl⟩
      · simp at hlast
      · have hcc : c = 0x5d := by
          rw [concat_eq_append, ← cons_append, getLast?_concat] at hlast
          exact Option.some.inj hlast
        subst hcc
        simp [ho, hcl]
  · rfl

theorem digit_of_mem_port (h : x ∈ u.port) : 0x30 ≤ x ∧ x ≤ 0x39 := by
  unfold port splitHostPort at h
  simp only at h
  split at h <;> exact (splitPort_spec u.host).1 x h

theorem newline_not_mem_escape (mode : Encoding) (s : Bytes) : newline ∉ escape mode s := by
  refine not_mem_escape ?_ (by decide) (by decide) (by decide) s
  cases mode <;> decide

theorem newline_not_mem_escapedFragment : newline ∉ u.escapedFragment := by
  unfold escapedFragment
  split
  · rename_i h
    simp only [Bool.and_eq_true] at h
    exact not_mem_validEncoded (by decide) (by decide) (by decide) (by decide) h.1.2
  · exact newline_not_mem_escape _ _

theorem newline_not_mem_stringAuthority : newline ∉ u.stringAuthority := by
  have huser : ∀ ui : Userinfo, newline ∉ ui.string := by
    intro ui
    unfold Userinfo.string
    cases ui.password with
    | none => simpa using newline_not_mem_escape _ _
    | some p => simp [newline_not_mem_escape]
  unfold stringAuthority
  split
  · split
    · simp
    · simp only [mem_append, not_or]
      refine ⟨⟨?_, ?_⟩, newline_not_mem_escape _ _⟩
      · split <;> decide
      · cases u.user with
        | none => simp
        | some ui => simp [huser ui]
  · simp

theorem newline_mem_string_iff :
    newline ∈ u.string ↔ newline ∈ u.scheme ∨ newline ∈ u.opaq ∨ newline ∈ u.rawQuery := by
  have hhead : newline ∈ (if u.scheme ≠ [] then u.scheme ++ [colon] else []) ↔ newline ∈ u.scheme := by
    split
    · simp
    · rename_i h
      simp [not_not.mp h]
  have hquery : newline ∈ (if (u.forceQuery || u.rawQuery ≠ []) = true then
      question :: u.rawQuery else []) ↔ newline ∈ u.rawQuery := by
    split
    · simp
    · rename_i h
      have : u.rawQuery = [] := by
        by_contra hne
        exact h (by simp [hne])
      simp [this]
  have hfragment : newline ∉ (if u.fragment ≠ [] then 0x23 :: u.escapedFragment else []) := by
    split
    · simp [newline_not_mem_escapedFragment]
    · simp
  unfold string
  simp only [mem_append, hquery, hfragment, or_false]
  by_cases hq : u.opaq = []
  · have hslash : newline ∉ (if (u.escapedPath ≠ [] && !hasPrefix slash u.escapedPath &&
        u.host ≠ []) = true then [slash] else []) := by
      split <;> decide
    have hdot : ∀ c : Prop, [Decidable c] → newline ∉ (if c then lit "./" else []) := by
      intro c _
      split <;> decide
    rw [if_neg (not_not.mpr hq)]
    simp only [mem_append, hhead, hslash, hdot, newline_not_mem_stringAuthority,
      newline_not_mem_escapedPath, or_false, hq, not_mem_nil, false_or]
  · rw [if_pos hq, mem_append, hhead, or_assoc]

end URL

/-! ## 6. Reading a request target -/

theorem setPath_eq {u v : URL} {p path : Bytes} (hp : unescape .encodePath p = some path)
    (h : setPath u p = some v) :
    v.path = path ∧ v.host = u.host ∧ v.rawQuery = u.rawQuery := by
  simp only [setPath, hp, Option.bind_eq_bind, Option.bind_some, Option.some.injEq] at h
  obtain rfl := h
  exact ⟨rfl, rfl, rfl⟩

theorem parseOriginForm_some {target : Bytes} {v : URL} (h : parseOriginForm target = some v) :
    (if hasSuffix question target && target.count question == 1 then
      setPath { forceQuery := true } target.dropLast
    else match cut question target with
      | none => setPath {} target
      | some (rest, query) => setPath { rawQuery := query } rest) = some v := by
  unfold parseOriginForm at h
  split at h
  · cases h
  · split at h
    · cases h
    · exact h

section
variable {p q : Bytes} {v : URL}

theorem parseOriginForm_path (hp : question ∉ p) (h : parseOriginForm p = some v) :
    setPath {} p = some v := by
  have hs : ¬ (hasSuffix question p && p.count question == 1) = true := by
    rw [count_eq_zero.mpr hp]
    simp
  have h := parseOriginForm_some h
  rwa [if_neg hs, cut_eq_none_iff.mpr hp] at h

theorem parseOriginForm_forceQuery (hp : question ∉ p)
    (h : parseOriginForm (p ++ [question]) = some v) :
    setPath { forceQuery := true } p = some v := by
  have hc : (p ++ [question]).count question = 1 := by
    rw [count_append, count_eq_zero.mpr hp, count_singleton_self]
  have hs : hasSuffix question (p ++ [question]) = true := by
    rw [hasSuffix, getLast?_concat, beq_self_eq_true]
  have h := parseOriginForm_some h
  rwa [if_pos (by rw [hs, hc]; rfl), dropLast_concat] at h

theorem parseOriginForm_query (hp : question ∉ p) (hq : q ≠ [])
    (h : parseOriginForm (p ++ question :: q) = some v) :
    setPath { rawQuery := q } p = some v := by
  have hs : ¬ (hasSuffix question (p ++ question :: q) &&
      (p ++ question :: q).count question == 1) = true := by
    rw [Bool.and_eq_true]
    rintro ⟨hs, hc⟩
    -- a trailing `?` is a second one, in the query
    rcases eq_nil_or_concat q with rfl | ⟨r, b, rfl⟩
    · exact hq rfl
    · rw [concat_eq_append, ← cons_append, ← append_assoc, hasSuffix, getLast?_concat] at hs
      obtain rfl := Option.some.inj (beq_iff_eq.mp hs)
      rw [beq_iff_eq, concat_eq_append, count_append, count_cons_self,
        count_append, count_singleton_self] at hc
      omega
  have h := parseOriginForm_some h
  rwa [if_neg hs, cut_append hp] at h

end

end AoniContrib.Go
