/-
# `url.Parse`

The whole of `url.Parse`: scheme, user information, host and port, path, query and fragment, with the
errors of each (`none`).  Two things are left to the caller (`HostRules`): which texts in brackets are
IPv6 addresses, which is `net/netip`, and whether a host may have more than one colon, which depends
on the version of Go.

A host is unescaped when it is read.  If the result has no percent sign, it is read as the same host
from every spelling that unescapes to it, itself included (`parseHost_of_spelled`).
-/
import AoniContrib.Go.Url

namespace AoniContrib.Go

open List

variable {force : Bool} {a h p port q raw rest sch scheme : Bytes} {hi lo : Nat} {b c d e x : UInt8}
  {u v : URL}

/-! ## 1. Hosts -/

structure HostRules where
  /-- An IPv6 address, with or without a zone. -/
  ipLiteral : Bytes → Bool
  strictColons : Bool

@[simp] abbrev lsquare : UInt8 := 0x5b
@[simp] abbrev rsquare : UInt8 := 0x5d
@[simp] abbrev hash : UInt8 := 0x23

/-- A byte that may stand for itself in a host. -/
def plainHostByte (c : UInt8) : Bool := 0x80 ≤ c || !shouldEscape c .encodeHost

/-- An escape that is allowed in a host: of a byte that is not ASCII, or `%25`; in a zone: of a byte
that need not be escaped, of a blank, or `%25`. -/
def hostEscape (zone : Bool) (d e : UInt8) : Bool :=
  match unhex d, unhex e with
  | some hi, some lo =>
    if zone then
      (hi == 2 && lo == 5) || (hi == 2 && lo == 0) || !shouldEscape (hi * 16 + lo).toUInt8 .encodeHost
    else 8 ≤ hi || (hi == 2 && lo == 5)
  | _, _ => false

/-- What `unescape` checks in the host modes. -/
def hostBytesOk (zone : Bool) : Bytes → Bool
  | [] => true
  | [c] => c ≠ percent && plainHostByte c
  | [c, d] => c ≠ percent && plainHostByte c && hostBytesOk zone [d]
  | c :: d :: e :: s =>
    if c = percent then hostEscape zone d e && hostBytesOk zone s
    else plainHostByte c && hostBytesOk zone (d :: e :: s)

/-- `unescape` in the modes `encodeHost` and `encodeZone`. -/
def unescapeHost (zone : Bool) (s : Bytes) : Option Bytes :=
  if hostBytesOk zone s then unescape .encodeHost s else none

/-- `i := strings.LastIndex(s, b)` with the slices `s[:i]` and `s[i+1:]`. -/
def cutLast (b : UInt8) (s : Bytes) : Option (Bytes × Bytes) :=
  (cut b s.reverse).map fun p => (p.2.reverse, p.1.reverse)

/-- `i := strings.Index(s, "%25")` with the slices `s[:i]` and `s[i:]`. -/
def cutZone : Bytes → Option (Bytes × Bytes)
  | [] => none
  | c :: s =>
    if (lit "%25").isPrefixOf (c :: s) then some ([], c :: s)
    else (cutZone s).map fun p => (c :: p.1, p.2)

def validOptionalPort : Bytes → Bool
  | [] => true
  | c :: port => c == colon && URL.validPort port

/-- The text in brackets, without and with a zone. -/
def unescapeLiteral (hostname : Bytes) : Option Bytes :=
  match cutZone hostname with
  | none => unescapeHost false hostname
  | some (address, zone) => do
    let address ← unescapeHost false address
    let zone ← unescapeHost true zone
    some (address ++ zone)

variable (R : HostRules)

/-- `parseHost` of a host that starts with a bracket, which is cut off. -/
def parseLiteral (rest : Bytes) : Option Bytes :=
  match cutLast rsquare rest with
  | none => none
  | some (hostname, colonPort) =>
    if !validOptionalPort colonPort then none
    else
      match unescapeLiteral hostname with
      | none => none
      | some address =>
        if R.ipLiteral address then some (lsquare :: address ++ rsquare :: colonPort) else none

def parseHost (host : Bytes) : Option Bytes :=
  match cutLast lsquare host with
  | some ([], rest) => parseLiteral R rest
  | some (_ :: _, _) => none
  | none =>
    match cutLast colon host with
    | none => unescapeHost false host
    | some (name, port) =>
      if !URL.validPort port || (R.strictColons && colon ∈ name) then none
      else unescapeHost false host

/-! ## 2. Authorities -/

def validUserinfo (s : Bytes) : Bool :=
  s.all fun c => isAlnum c || c ∈ lit "-._:~!$&'()*+,;=%@"

def parseUserinfo (userinfo : Bytes) : Option Userinfo :=
  if !validUserinfo userinfo then none
  else
    match cut colon userinfo with
    | none => (unescape .encodeUserPassword userinfo).map fun name => ⟨name, none⟩
    | some (username, password) => do
      let username ← unescape .encodeUserPassword username
      let password ← unescape .encodeUserPassword password
      some ⟨username, some password⟩

def parseAuthority (authority : Bytes) : Option (Option Userinfo × Bytes) :=
  match cutLast atSign authority with
  | none => (parseHost R authority).map fun host => (none, host)
  | some (userinfo, host) => do
    let host ← parseHost R host
    let user ← parseUserinfo userinfo
    some (some user, host)

/-! ## 3. URLs -/

def isCTL (b : UInt8) : Bool := b < 0x20 || b == 0x7f

def isSchemeByte (c : UInt8) : Bool := isAlnum c || c == plus || c == minus || c == 0x2e

/-- `getScheme`: the scheme, empty if there is none, and the rest. -/
def getScheme (rawURL : Bytes) : Option (Bytes × Bytes) :=
  let scheme := rawURL.takeWhile isSchemeByte
  match rawURL.dropWhile isSchemeByte with
  | c :: rest =>
    if c ≠ colon then some ([], rawURL)
    else
      match scheme with
      | [] => none
      | b :: _ => if isAlpha b then some (scheme, rest) else some ([], rawURL)
  | [] => some ([], rawURL)

/-- The query of `parse`: the rest, `ForceQuery` and `RawQuery`. -/
def cutQuery (rest : Bytes) : Bytes × Bool × Bytes :=
  if hasSuffix question rest && rest.count question == 1 then (rest.dropLast, true, [])
  else
    match cut question rest with
    | none => (rest, false, [])
    | some (rest, query) => (rest, false, query)

/-- The authority and the path of a rest that starts with `//`, which is cut off. -/
def cutAuthority (rest : Bytes) : Bytes × Bytes :=
  (rest.takeWhile (· ≠ slash), rest.dropWhile (· ≠ slash))

variable (U : Unicode)

/-- `parse` behind the scheme and the query. -/
def parseRest (u : URL) (rest : Bytes) : Option URL :=
  if !hasPrefix slash rest ∧ u.scheme ≠ [] then some { u with opaq := rest }
  else if !hasPrefix slash rest ∧ colon ∈ rest.takeWhile (· ≠ slash) then none
  else if (u.scheme ≠ [] ∨ ¬ lit "///" <+: rest) ∧ lit "//" <+: rest then do
    let (authority, path) := cutAuthority (rest.drop 2)
    let (user, host) ← parseAuthority R authority
    setPath { u with user, host } path
  else setPath { u with omitHost := u.scheme ≠ [] && hasPrefix slash rest } rest

/-- `parse` with `viaRequest` false. -/
def parseUnfragmented (rawURL : Bytes) : Option URL :=
  if rawURL.any isCTL then none
  else if rawURL = lit "*" then some { path := lit "*" }
  else do
    let (scheme, rest) ← getScheme rawURL
    let (rest, forceQuery, rawQuery) := cutQuery rest
    parseRest R { scheme := toLower U scheme, forceQuery, rawQuery } rest

def setFragment (u : URL) (f : Bytes) : Option URL := do
  let fragment ← unescape .encodeFragment f
  some { u with fragment, rawFragment := if f = escape .encodeFragment fragment then [] else f }

/-- `url.Parse`. -/
def parseURL (rawURL : Bytes) : Option URL :=
  match cut hash rawURL with
  | none => parseUnfragmented R U rawURL
  | some (url, frag) => do
    let u ← parseUnfragmented R U url
    if frag = [] then some u else setFragment u frag

/-! ## 4. Spellings of a host -/

variable {R U}

theorem hexByte_not_ascii (hd : unhex d = some hi)
    (he : unhex e = some lo) (hhi : 8 ≤ hi) : ¬ (hi * 16 + lo).toUInt8 < 0x80 := by
  intro h
  have hlt : hi * 16 + lo < 128 := toNat_hexByte hd he ▸ UInt8.lt_iff_toNat_lt.mp h
  omega

theorem hostBytesOk_cons {zone : Bool} (hc : c ≠ percent) (s : Bytes) :
    hostBytesOk zone (c :: s) = (plainHostByte c && hostBytesOk zone s) := by
  match s with
  | [] => simp [hostBytesOk, hc]
  | [d] =>
    conv_lhs => rw [hostBytesOk, decide_eq_true hc, Bool.true_and]
  | d :: e :: s => rw [hostBytesOk, if_neg hc]

theorem unescape_host_cons (hc : c ≠ percent) (s : Bytes) :
    unescape .encodeHost (c :: s) = (unescape .encodeHost s).map (c :: ·) := by
  rw [unescape_cons hc]
  simp

theorem unescapeHost_cons {zone : Bool} (hc : c ≠ percent) (s : Bytes) : unescapeHost zone (c :: s) =
      if plainHostByte c then (unescapeHost zone s).map (c :: ·) else none := by
  rw [unescapeHost, hostBytesOk_cons hc, unescape_host_cons hc, unescapeHost]
  cases plainHostByte c <;> cases hostBytesOk zone s <;> rfl

theorem unescapeHost_percent {zone : Bool} (hd : unhex d = some hi)
    (he : unhex e = some lo) (s : Bytes) : unescapeHost zone (percent :: d :: e :: s) =
      if hostEscape zone d e then (unescapeHost zone s).map ((hi * 16 + lo).toUInt8 :: ·)
      else none := by
  rw [unescapeHost, hostBytesOk, if_pos rfl, unescape, if_pos rfl, hd, he, unescapeHost]
  cases hostEscape zone d e
  · rfl
  · cases hostBytesOk zone s
    · rfl
    · cases unescape .encodeHost s <;> rfl

/-- The bytes of a host that was read: a blank and a percent sign can only come from an escape. -/
def HostByte (b : UInt8) : Prop := b = percent ∨ b = 0x20 ∨ plainHostByte b = true

theorem ne_percent_of_unhex (h : unhex d = some hi) : d ≠ percent := by
  rintro rfl
  cases (by decide : unhex percent = none).symm.trans h

theorem exists_unhex_of_hostEscape {zone : Bool} (h : hostEscape zone d e = true) :
    ∃ hi lo, unhex d = some hi ∧ unhex e = some lo := by
  unfold hostEscape at h
  split at h
  · rename_i hi lo hd he
    exact ⟨hi, lo, hd, he⟩
  · cases h

theorem hostEscape_false (hd : unhex d = some hi) (he : unhex e = some lo)
    (h : hostEscape false d e = true) : 8 ≤ hi ∨ hi = 2 ∧ lo = 5 := by
  simpa [hostEscape, hd, he] using h

theorem hostEscape_byte (hd : unhex d = some hi) (he : unhex e = some lo)
    (h : hostEscape false d e = true) :
    (hi * 16 + lo).toUInt8 = percent ∨ ¬ (hi * 16 + lo).toUInt8 < 0x80 := by
  rcases hostEscape_false hd he h with hhi | ⟨rfl, rfl⟩
  · exact .inr (hexByte_not_ascii hd he hhi)
  · exact .inl rfl

theorem plainHostByte_of_not_ascii (h : ¬ b < 0x80) : plainHostByte b = true := by
  rw [plainHostByte, decide_eq_true (UInt8.not_lt.mp h), Bool.true_or]

theorem hostByte_of_hostEscape {zone : Bool} (hd : unhex d = some hi) (he : unhex e = some lo)
    (h : hostEscape zone d e = true) : HostByte (hi * 16 + lo).toUInt8 := by
  cases zone with
  | false =>
    rcases hostEscape_byte hd he h with h | h
    · exact .inl h
    · exact .inr (.inr (plainHostByte_of_not_ascii h))
  | true =>
    simp only [hostEscape, hd, he, if_true, Bool.or_eq_true, Bool.and_eq_true, beq_iff_eq] at h
    rcases h with (⟨rfl, rfl⟩ | ⟨rfl, rfl⟩) | hplain
    · exact .inl rfl
    · exact .inr (.inl rfl)
    · exact .inr (.inr (by rw [plainHostByte, hplain, Bool.or_true]))

/-- `s` is unescaped to `t` in a host, or in its zone. -/
inductive Reads (zone : Bool) : Bytes → Bytes → Prop where
  | nil : Reads zone [] []
  | plain {c s t} : c ≠ percent → plainHostByte c = true → Reads zone s t → Reads zone (c :: s) (c :: t)
  | escaped {d e hi lo s t} : unhex d = some hi → unhex e = some lo → hostEscape zone d e = true →
      Reads zone s t → Reads zone (percent :: d :: e :: s) ((hi * 16 + lo).toUInt8 :: t)

theorem Reads.unescapeHost {zone : Bool} {s t : Bytes} (h : Reads zone s t) :
    unescapeHost zone s = some t := by
  induction h with
  | nil => rfl
  | plain hc hplain _ ih => rw [unescapeHost_cons hc, if_pos hplain, ih, Option.map_some]
  | escaped hd he hesc _ ih => rw [unescapeHost_percent hd he, if_pos hesc, ih, Option.map_some]

theorem reads_of_unescapeHost {zone : Bool} : ∀ {s t : Bytes}, unescapeHost zone s = some t →
    Reads zone s t
  | [], t, h => by
    cases h
    exact .nil
  | c :: s, t, h => by
    by_cases hc : c = percent
    · subst hc
      match s with
      | [] => cases h
      | [_] => cases h
      | d :: e :: s =>
        have hok : hostEscape zone d e = true := by
          by_contra hno
          rw [Go.unescapeHost, hostBytesOk, if_pos rfl, Bool.eq_false_of_not_eq_true hno] at h
          cases h
        obtain ⟨hi, lo, hd, he⟩ := exists_unhex_of_hostEscape hok
        rw [unescapeHost_percent hd he, if_pos hok] at h
        obtain ⟨t', ht', rfl⟩ := Option.map_eq_some_iff.mp h
        exact .escaped hd he hok (reads_of_unescapeHost ht')
    · rw [unescapeHost_cons hc] at h
      split_ifs at h with hplain
      obtain ⟨t', ht', rfl⟩ := Option.map_eq_some_iff.mp h
      exact .plain hc hplain (reads_of_unescapeHost ht')

theorem hostByte_of_unescapeHost {zone : Bool} {s t : Bytes} (h : unescapeHost zone s = some t) :
    ∀ b ∈ t, HostByte b := by
  induction reads_of_unescapeHost h with
  | nil => exact fun b hb => absurd hb not_mem_nil
  | plain _ hplain hs ih => exact forall_mem_cons.mpr ⟨.inr (.inr hplain), ih hs.unescapeHost⟩
  | escaped hd he hesc hs ih =>
    exact forall_mem_cons.mpr ⟨hostByte_of_hostEscape hd he hesc, ih hs.unescapeHost⟩

section

variable {zone : Bool} {s t : Bytes}

theorem Reads.mem_iff (h : Reads false s t) (hx : x < 0x80) (hp : x ≠ percent)
    (hhex : unhex x = none) : x ∈ s ↔ x ∈ t := by
  induction h with
  | nil => exact Iff.rfl
  | plain _ _ _ ih => rw [mem_cons, mem_cons, ih]
  | @escaped d e hi lo s t hd he hesc _ ih =>
    have hxd : x ≠ d := by
      rintro rfl
      cases hhex.symm.trans hd
    have hxe : x ≠ e := by
      rintro rfl
      cases hhex.symm.trans he
    have hbyte : x ≠ (hi * 16 + lo).toUInt8 := by
      rintro rfl
      rcases hostEscape_byte hd he hesc with h | h
      · exact hp h
      · exact h hx
    simp only [mem_cons, hp, hxd, hxe, hbyte, false_or, ih]

theorem Reads.exists_of_text {b : Bytes} (h : Reads zone (a ++ x :: b) t)
    (hp : x ≠ percent) (hhex : unhex x = none) :
    ∃ a' b', t = a' ++ x :: b' ∧ Reads zone a a' ∧ Reads zone b b' := by
  generalize hs : a ++ x :: b = s at h
  induction h generalizing a with
  | nil => simp at hs
  | @plain c s t hc hplain hst ih =>
    match a with
    | [] =>
      obtain ⟨rfl, rfl⟩ := List.cons.inj hs
      exact ⟨[], t, rfl, .nil, hst⟩
    | y :: a =>
      obtain ⟨rfl, htail⟩ := List.cons.inj hs
      obtain ⟨a', b', rfl, ha, hb⟩ := ih htail
      exact ⟨y :: a', b', rfl, .plain hc hplain ha, hb⟩
  | @escaped d e hi lo s t hd he hesc hst ih =>
    match a with
    | [] => exact absurd (List.cons.inj hs).1 hp
    | [_] =>
      obtain ⟨-, rfl, -⟩ := by simpa using hs
      cases hhex.symm.trans hd
    | [_, _] =>
      obtain ⟨-, -, rfl, -⟩ := by simpa using hs
      cases hhex.symm.trans he
    | _ :: _ :: _ :: a =>
      obtain ⟨rfl, rfl, rfl, htail⟩ := by simpa using hs
      obtain ⟨a', b', rfl, ha, hb⟩ := ih htail
      exact ⟨_ :: a', b', rfl, .escaped hd he hesc ha, hb⟩

end

/-- `s` is unescaped to `t`, which has no percent sign: every byte stands for itself or, if it is not
ASCII, is escaped. -/
inductive Spelled : Bytes → Bytes → Prop where
  | nil : Spelled [] []
  | plain {c s t} : c ≠ percent → plainHostByte c = true → Spelled s t → Spelled (c :: s) (c :: t)
  | escaped {d e hi lo s t} : unhex d = some hi → unhex e = some lo → 8 ≤ hi → Spelled s t →
      Spelled (percent :: d :: e :: s) ((hi * 16 + lo).toUInt8 :: t)

theorem Spelled.reads {s t : Bytes} (h : Spelled s t) : Reads false s t ∧ percent ∉ t := by
  induction h with
  | nil => exact ⟨.nil, not_mem_nil⟩
  | plain hc hplain _ ih =>
    exact ⟨.plain hc hplain ih.1, fun hm => (mem_cons.mp hm).elim (fun h => hc h.symm) ih.2⟩
  | @escaped d e hi lo s t hd he hhi _ ih =>
    refine ⟨.escaped hd he (by simp [hostEscape, hd, he, hhi]) ih.1, fun hm => ?_⟩
    rcases mem_cons.mp hm with h | hm
    · have hn : 37 = hi * 16 + lo := (congrArg UInt8.toNat h).trans (toNat_hexByte hd he)
      omega
    · exact ih.2 hm

theorem Reads.spelled {s t : Bytes} (h : Reads false s t) (hp : percent ∉ t) : Spelled s t := by
  induction h with
  | nil => exact .nil
  | plain hc hplain _ ih => exact .plain hc hplain (ih fun hm => hp (mem_cons_of_mem _ hm))
  | escaped hd he hesc _ ih =>
    rcases hostEscape_false hd he hesc with hhi | ⟨rfl, rfl⟩
    · exact .escaped hd he hhi (ih fun hm => hp (mem_cons_of_mem _ hm))
    · exact absurd mem_cons_self hp

theorem spelled_of_unescape {s t : Bytes} (h : unescapeHost false s = some t) (hp : percent ∉ t) :
    Spelled s t := (reads_of_unescapeHost h).spelled hp

theorem Spelled.unescape {s t : Bytes} (h : Spelled s t) :
    unescapeHost false s = some t ∧ percent ∉ t := ⟨h.reads.1.unescapeHost, h.reads.2⟩

section

variable {s t : Bytes}

theorem Spelled.mem_iff (h : Spelled s t) {x : UInt8} (hx : x < 0x80) (hp : x ≠ percent)
    (hhex : unhex x = none) : x ∈ s ↔ x ∈ t := h.reads.1.mem_iff hx hp hhex

theorem Spelled.exists_of_append {b : Bytes} (h : Spelled s (a ++ x :: b))
    (hx : x < 0x80) : ∃ a' b', s = a' ++ x :: b' ∧ Spelled a' a ∧ Spelled b' b := by
  generalize ht : a ++ x :: b = t at h
  induction h generalizing a with
  | nil => simp at ht
  | @plain c s t hc hplain hst ih =>
    match a with
    | [] =>
      obtain ⟨rfl, rfl⟩ := List.cons.inj ht
      exact ⟨[], s, rfl, .nil, hst⟩
    | y :: a =>
      obtain ⟨rfl, htail⟩ := List.cons.inj ht
      obtain ⟨a', b', rfl, ha, hb⟩ := ih htail
      exact ⟨y :: a', b', rfl, .plain hc hplain ha, hb⟩
  | @escaped d e hi lo s t hd he hhi hst ih =>
    match a with
    | [] =>
      obtain ⟨rfl, -⟩ := List.cons.inj ht
      exact absurd hx (hexByte_not_ascii hd he hhi)
    | y :: a =>
      obtain ⟨rfl, htail⟩ := List.cons.inj ht
      obtain ⟨a', b', rfl, ha, hb⟩ := ih htail
      exact ⟨percent :: d :: e :: a', b', rfl, .escaped hd he hhi ha, hb⟩

theorem Spelled.exists_of_spelling {b : Bytes} (h : Spelled (a ++ x :: b) t)
    (hp : x ≠ percent) (hhex : unhex x = none) :
    ∃ a' b', t = a' ++ x :: b' ∧ Spelled a a' ∧ Spelled b b' := by
  obtain ⟨hreads, hno⟩ := h.reads
  obtain ⟨a', b', rfl, ha, hb⟩ := hreads.exists_of_text hp hhex
  exact ⟨a', b', rfl, ha.spelled fun hm => hno (mem_append_left _ hm),
    hb.spelled fun hm => hno (mem_append_right _ (mem_cons_of_mem _ hm))⟩

theorem Spelled.eq_of_ascii (h : Spelled s t) (ht : ∀ b ∈ t, b < 0x80) : s = t := by
  induction h with
  | nil => rfl
  | plain _ _ _ ih => rw [ih (forall_mem_cons.mp ht).2]
  | escaped hd he hhi _ _ =>
    exact absurd (ht _ mem_cons_self) (hexByte_not_ascii hd he hhi)

theorem Spelled.append {s' t' : Bytes} (h : Spelled s t) (h' : Spelled s' t') :
    Spelled (s ++ s') (t ++ t') := by
  induction h with
  | nil => exact h'
  | plain hc hplain _ ih => exact .plain hc hplain ih
  | escaped hd he hhi _ ih => exact .escaped hd he hhi ih

theorem unhex_digits (h : ¬ c < 0x80) :
    unhex (upperHex (c.toNat / 16)) = some (c.toNat / 16) ∧
    unhex (upperHex (c.toNat % 16)) = some (c.toNat % 16) ∧ 8 ≤ c.toNat / 16 ∧
    (c.toNat / 16 * 16 + c.toNat % 16).toUInt8 = c := by
  have hc := c.toNat_lt
  have hge : 128 ≤ c.toNat := not_lt.mp fun hlt => h (UInt8.lt_iff_toNat_lt.mpr hlt)
  have hsum : c.toNat / 16 * 16 + c.toNat % 16 = c.toNat := by omega
  refine ⟨unhex_upperHex (by omega), unhex_upperHex (by omega), by omega, ?_⟩
  rw [hsum]
  exact UInt8.ofNat_toNat

def PlainHost (t : Bytes) : Prop := ∀ b ∈ t, b ≠ percent ∧ plainHostByte b = true

theorem Spelled.plainHost (h : Spelled s t) : PlainHost t := by
  induction h with
  | nil => exact fun b hb => absurd hb not_mem_nil
  | plain hc hplain _ ih => exact forall_mem_cons.mpr ⟨⟨hc, hplain⟩, ih⟩
  | escaped hd he hhi _ ih =>
    have hnot := hexByte_not_ascii hd he hhi
    exact forall_mem_cons.mpr ⟨⟨fun hp => hnot (hp ▸ (by decide : percent < 0x80)),
      plainHostByte_of_not_ascii hnot⟩, ih⟩

theorem spelled_self : ∀ {t : Bytes}, PlainHost t → Spelled t t
  | [], _ => .nil
  | c :: _, h =>
    have hc := h c mem_cons_self
    .plain hc.1 hc.2 (spelled_self (forall_mem_cons.mp h).2)

theorem spelled_escape : ∀ {t : Bytes}, PlainHost t → Spelled (escape .encodeHost t) t
  | [], _ => .nil
  | c :: t, h => by
    obtain ⟨hc, hplain⟩ := h c mem_cons_self
    have ih := spelled_escape (forall_mem_cons.mp h).2
    have hstep : escape .encodeHost (c :: t) = escapeByte .encodeHost c ++ escape .encodeHost t :=
      flatMap_cons
    rw [hstep]
    by_cases hascii : c < 0x80
    · have hno : shouldEscape c .encodeHost = false := by
        simpa [plainHostByte, UInt8.not_le.mpr hascii] using hplain
      have hbyte : escapeByte .encodeHost c = [c] := by simp [escapeByte, hno]
      rw [hbyte]
      exact .plain hc hplain ih
    · obtain ⟨hhi, hlo, hge, hvalue⟩ := unhex_digits hascii
      have hbyte : escapeByte .encodeHost c =
          [percent, upperHex (c.toNat / 16), upperHex (c.toNat % 16)] := by
        simp [escapeByte, shouldEscape_not_ascii hascii _]
      have hcons := Spelled.escaped hhi hlo hge ih
      rw [hvalue] at hcons
      rw [hbyte]
      exact hcons

end

/-! ## 5. The forms of a host -/

theorem cutLast_eq_none_iff {s : Bytes} : cutLast b s = none ↔ b ∉ s := by
  rw [cutLast, Option.map_eq_none_iff, cut_eq_none_iff, mem_reverse]

theorem cutLast_append {y : Bytes} (h : b ∉ y) (x : Bytes) : cutLast b (x ++ b :: y) = some (x, y) := by
  have hrev : (x ++ b :: y).reverse = y.reverse ++ b :: x.reverse := by simp
  rw [cutLast, hrev, cut_append (by rwa [mem_reverse])]
  simp

theorem cutLast_eq_some {s x y : Bytes} (h : cutLast b s = some (x, y)) : s = x ++ b :: y ∧ b ∉ y := by
  obtain ⟨⟨yr, xr⟩, hcut, hp⟩ := Option.map_eq_some_iff.mp h
  obtain ⟨hs, hnot⟩ := cut_eq_some hcut
  simp only [Prod.mk.injEq] at hp
  obtain ⟨rfl, rfl⟩ := hp
  refine ⟨?_, by rwa [mem_reverse]⟩
  rw [← reverse_reverse s, hs]
  simp

theorem cutZone_eq_some : ∀ {s a z : Bytes}, cutZone s = some (a, z) → s = a ++ z ∧ lit "%25" <+: z
  | [], _, _, h => by cases h
  | c :: s, a, z, h => by
    rw [cutZone] at h
    split at h
    · rename_i hz
      cases h
      exact ⟨rfl, isPrefixOf_iff_prefix.mp hz⟩
    · obtain ⟨⟨a', z'⟩, hcut, hp⟩ := Option.map_eq_some_iff.mp h
      obtain ⟨rfl, hz⟩ := cutZone_eq_some hcut
      cases hp
      exact ⟨rfl, hz⟩

theorem cutZone_cons (hc : c ≠ percent) (s : Bytes) :
    cutZone (c :: s) = (cutZone s).map fun p => (c :: p.1, p.2) := by
  have hno : ¬ (lit "%25").isPrefixOf (c :: s) = true := by
    intro h
    have hpre := isPrefixOf_iff_prefix.mp h
    exact hc (cons_prefix_cons.mp hpre).1.symm
  rw [cutZone, if_neg hno]

theorem Spelled.cutZone_eq_none {s t : Bytes} (h : Spelled s t) : cutZone s = none := by
  induction h with
  | nil => rfl
  | plain hc _ _ ih => rw [cutZone_cons hc, ih, Option.map_none]
  | @escaped d e hi lo s t hd he hhi _ ih =>
    have hno : ¬ (lit "%25").isPrefixOf (percent :: d :: e :: s) = true := by
      intro h
      have hpre := isPrefixOf_iff_prefix.mp h
      obtain ⟨rfl, -⟩ := cons_prefix_cons.mp (cons_prefix_cons.mp hpre).2
      have htwo : unhex 0x32 = some 2 := by decide
      obtain rfl := Option.some.inj (htwo.symm.trans hd)
      omega
    rw [cutZone, if_neg hno, cutZone_cons (ne_percent_of_unhex hd),
      cutZone_cons (ne_percent_of_unhex he), ih]
    rfl

/-- A host without a percent sign, by its form. -/
inductive HostText (R : HostRules) : Bytes → Prop where
  | name {h : Bytes} : lsquare ∉ h → colon ∉ h → HostText R h
  | port {name port : Bytes} : lsquare ∉ name → URL.validPort port = true →
      ¬ (R.strictColons = true ∧ colon ∈ name) → HostText R (name ++ colon :: port)
  | literal {address colonPort} : lsquare ∉ address → validOptionalPort colonPort = true →
      R.ipLiteral address = true → HostText R (lsquare :: address ++ rsquare :: colonPort)

theorem digits_of_validPort (h : URL.validPort port = true) (hb : b ∈ port) :
    b < 0x80 ∧ b ≠ percent ∧ b ≠ lsquare ∧ b ≠ rsquare ∧ b ≠ colon ∧ plainHostByte b = true := by
  have hall : ∀ b : UInt8, (0x30 ≤ b && b ≤ 0x39) = true → b < 0x80 ∧ b ≠ percent ∧ b ≠ lsquare ∧
      b ≠ rsquare ∧ b ≠ colon ∧ plainHostByte b = true := by grind [plainHostByte, shouldEscape, isAlnum]
  exact hall b (all_eq_true.mp h b hb)

theorem spelled_port (h : URL.validPort port = true) : Spelled port port := spelled_self fun _ hb =>
    let ⟨_, hp, _, _, _, hplain⟩ := digits_of_validPort h hb
    ⟨hp, hplain⟩

theorem spelled_optionalPort (h : validOptionalPort p = true) :
    Spelled p p ∧ (∀ b ∈ p, b < 0x80) ∧ lsquare ∉ p ∧ rsquare ∉ p := by
  match p with
  | [] => exact ⟨.nil, by simp, not_mem_nil, not_mem_nil⟩
  | c :: port =>
    rw [validOptionalPort, Bool.and_eq_true, beq_iff_eq] at h
    obtain ⟨rfl, hport⟩ := h
    have hne : colon ≠ percent ∧ plainHostByte colon = true ∧ colon < 0x80 := by decide
    have hd := fun b hb => digits_of_validPort (b := b) hport hb
    refine ⟨.plain hne.1 hne.2.1 (spelled_port hport),
      forall_mem_cons.mpr ⟨hne.2.2, fun b hb => (hd b hb).1⟩, ?_, ?_⟩
    · rw [mem_cons, not_or]
      exact ⟨by decide, fun hm => (hd _ hm).2.2.1 rfl⟩
    · rw [mem_cons, not_or]
      exact ⟨by decide, fun hm => (hd _ hm).2.2.2.1 rfl⟩

theorem marks (h : x = lsquare ∨ x = rsquare ∨ x = colon) :
    x < 0x80 ∧ x ≠ percent ∧ unhex x = none ∧ plainHostByte x = true := by
  have hall : ∀ x ∈ [lsquare, rsquare, colon],
      x < 0x80 ∧ x ≠ percent ∧ unhex x = none ∧ plainHostByte x = true := by decide +kernel
  exact hall x (by simpa using h)

theorem parseHost_of_spelled {s : Bytes} (ht : HostText R h) (hs : Spelled s h) :
    parseHost R s = some h := by
  obtain ⟨ho1, ho2, ho3, -⟩ := marks (.inl rfl)
  obtain ⟨hr1, -, -, -⟩ := marks (.inr (.inl rfl))
  obtain ⟨hc1, hc2, hc3, -⟩ := marks (.inr (.inr rfl))
  cases ht with
  | name hopen hcolon =>
    have h1 : cutLast lsquare s = none :=
      cutLast_eq_none_iff.mpr fun hm => hopen ((hs.mem_iff ho1 ho2 ho3).mp hm)
    have h2 : cutLast colon s = none :=
      cutLast_eq_none_iff.mpr fun hm => hcolon ((hs.mem_iff hc1 hc2 hc3).mp hm)
    simp only [parseHost, h1, h2, hs.unescape.1]
  | @port name port hopen hport hstrict =>
    obtain ⟨a, b, rfl, ha, hb⟩ := hs.exists_of_append hc1
    obtain rfl := hb.eq_of_ascii fun x hx => (digits_of_validPort hport hx).1
    have h1 : cutLast lsquare (a ++ colon :: b) = none := by
      refine cutLast_eq_none_iff.mpr fun hm => ?_
      rcases mem_append.mp hm with hm | hm
      · exact hopen ((ha.mem_iff ho1 ho2 ho3).mp hm)
      · rcases mem_cons.mp hm with hm | hm
        · exact absurd hm (by decide)
        · exact (digits_of_validPort hport hm).2.2.1 rfl
    have h2 : cutLast colon (a ++ colon :: b) = some (a, b) :=
      cutLast_append (fun hm => (digits_of_validPort hport hm).2.2.2.2.1 rfl) a
    have h3 : (!URL.validPort b || (R.strictColons && decide (colon ∈ a))) = false := by
      rw [hport, Bool.not_true, Bool.false_or, Bool.and_eq_false_iff]
      by_cases hstrict' : R.strictColons = true
      · exact .inr (decide_eq_false fun hm => hstrict ⟨hstrict', (ha.mem_iff hc1 hc2 hc3).mp hm⟩)
      · exact .inl (Bool.eq_false_of_not_eq_true hstrict')
    simp only [parseHost, h1, h2, h3, hs.unescape.1, Bool.false_eq_true, if_false]
  | @literal address colonPort hopen hport hip =>
    obtain ⟨-, hascii, hopen', hclose⟩ := spelled_optionalPort hport
    obtain ⟨a, b, rfl, ha, hb⟩ := hs.exists_of_append hr1
    obtain rfl := hb.eq_of_ascii hascii
    obtain ⟨a1, a2, rfl, ha1, ha2⟩ := Spelled.exists_of_append (a := []) ha ho1
    cases ha1
    have hnot : lsquare ∉ a2 ++ rsquare :: b := by
      intro hm
      rcases mem_append.mp hm with hm | hm
      · exact hopen ((ha2.mem_iff ho1 ho2 ho3).mp hm)
      · rcases mem_cons.mp hm with hm | hm
        · exact absurd hm (by decide)
        · exact hopen' hm
    have h1 : cutLast lsquare ([] ++ lsquare :: a2 ++ rsquare :: b) =
        some ([], a2 ++ rsquare :: b) := cutLast_append hnot []
    simp only [parseHost, h1, parseLiteral, cutLast_append hclose, hport, Bool.not_true,
      Bool.false_eq_true, if_false, unescapeLiteral, ha2.cutZone_eq_none, ha2.unescape.1, hip,
      if_true]

theorem spelled_of_unescapeLiteral {s t : Bytes} (h : unescapeLiteral s = some t)
    (hp : percent ∉ t) : Spelled s t := by
  unfold unescapeLiteral at h
  split at h
  · exact spelled_of_unescape h hp
  · rename_i address zone hcut
    obtain ⟨-, z, rfl⟩ := cutZone_eq_some hcut
    simp only [Option.bind_eq_bind, Option.bind_eq_some_iff, Option.some.injEq] at h
    obtain ⟨address', -, zone', hzone, rfl⟩ := h
    have htwo : unhex 0x32 = some 2 := by decide
    have hfive : unhex 0x35 = some 5 := by decide
    have hesc : hostEscape true 0x32 0x35 = true := by decide
    have hlit : lit "%25" ++ z = percent :: 0x32 :: 0x35 :: z := rfl
    rw [hlit, unescapeHost_percent htwo hfive, if_pos hesc] at hzone
    obtain ⟨z', -, rfl⟩ := Option.map_eq_some_iff.mp hzone
    exact absurd (mem_append_right _ mem_cons_self) hp

theorem hostText_of_port {name : Bytes}
    (hs : unescapeHost false (name ++ colon :: port) = some h) (hp : percent ∉ h)
    (hopen : lsquare ∉ name) (hport : URL.validPort port = true)
    (hstrict : ¬ (R.strictColons = true ∧ colon ∈ name)) :
    HostText R h ∧ Spelled (name ++ colon :: port) h := by
  obtain ⟨ho1, ho2, ho3, -⟩ := marks (.inl rfl)
  obtain ⟨hc1, hc2, hc3, -⟩ := marks (.inr (.inr rfl))
  have hspelled := spelled_of_unescape hs hp
  obtain ⟨a, b, rfl, ha, hb⟩ := hspelled.exists_of_spelling hc2 hc3
  have hport' : port = b := by
    have hself := (spelled_port hport).unescape.1
    exact Option.some.inj (hself.symm.trans hb.unescape.1)
  subst hport'
  refine ⟨.port (fun hm => hopen ((ha.mem_iff ho1 ho2 ho3).mpr hm)) hport ?_, hspelled⟩
  exact fun h => hstrict ⟨h.1, (ha.mem_iff hc1 hc2 hc3).mpr h.2⟩

/-- What `parseHost` checks of the port of a host without brackets. -/
def PortRule (R : HostRules) (s : Bytes) : Prop :=
  ∀ name port, s = name ++ colon :: port → colon ∉ port →
    URL.validPort port = true ∧ ¬ (R.strictColons = true ∧ colon ∈ name)

/-- **What `parseHost` has read**: a name, with a port perhaps, or a literal in brackets. -/
theorem parseHost_cases {s : Bytes} (hs : parseHost R s = some h) :
    (lsquare ∉ s ∧ unescapeHost false s = some h ∧ PortRule R s) ∨
    ∃ hostname address port, s = lsquare :: hostname ++ rsquare :: port ∧ lsquare ∉ hostname ∧
      unescapeLiteral hostname = some address ∧ R.ipLiteral address = true ∧
      validOptionalPort port = true ∧ h = lsquare :: address ++ rsquare :: port := by
  unfold parseHost at hs
  split at hs
  · rename_i rest hcut
    obtain ⟨rfl, hopen⟩ := cutLast_eq_some hcut
    unfold parseLiteral at hs
    split at hs
    · cases hs
    · rename_i hostname port hcut'
      obtain ⟨rfl, -⟩ := cutLast_eq_some hcut'
      split_ifs at hs with hport
      split at hs
      · cases hs
      · rename_i address haddress
        split_ifs at hs with hip
        cases hs
        exact .inr ⟨hostname, address, port, rfl, fun hm => hopen (mem_append_left _ hm),
          haddress, hip, by simpa using hport, rfl⟩
  · cases hs
  · rename_i hcut
    refine .inl ⟨cutLast_eq_none_iff.mp hcut, ?_⟩
    split at hs
    · rename_i hcolon
      refine ⟨hs, ?_⟩
      rintro name port rfl -
      exact absurd (by simp) (cutLast_eq_none_iff.mp hcolon)
    · rename_i name port hcut'
      split_ifs at hs with hcond
      refine ⟨hs, ?_⟩
      rintro name' port' rfl hnot
      rw [cutLast_append hnot, Option.some.injEq, Prod.mk.injEq] at hcut'
      obtain ⟨rfl, rfl⟩ := hcut'
      simpa only [Bool.or_eq_true, Bool.not_eq_true', Bool.and_eq_true, decide_eq_true_eq,
        not_or, Bool.not_eq_false] using hcond

theorem hostText_of_parseHost {s : Bytes} (hs : parseHost R s = some h)
    (hp : percent ∉ h) : HostText R h ∧ Spelled s h := by
  obtain ⟨ho1, ho2, ho3, ho4⟩ := marks (.inl rfl)
  obtain ⟨-, hr2, -, hr4⟩ := marks (.inr (.inl rfl))
  obtain ⟨hc1, hc2, hc3, -⟩ := marks (.inr (.inr rfl))
  rcases parseHost_cases hs with ⟨hopen, hs, hrule⟩ |
    ⟨hostname, address, port, rfl, hopen, haddress, hip, hport, rfl⟩
  · cases hcut : cutLast colon s with
    | none =>
      have hspelled := spelled_of_unescape hs hp
      refine ⟨.name (fun hm => hopen ((hspelled.mem_iff ho1 ho2 ho3).mpr hm)) fun hm => ?_, hspelled⟩
      exact cutLast_eq_none_iff.mp hcut ((hspelled.mem_iff hc1 hc2 hc3).mpr hm)
    | some p =>
      obtain ⟨rfl, hnot⟩ := cutLast_eq_some hcut
      obtain ⟨hport, hstrict⟩ := hrule p.1 p.2 rfl hnot
      exact hostText_of_port hs hp (fun hm => hopen (mem_append_left _ hm)) hport hstrict
  · have hspelled : Spelled hostname address :=
      spelled_of_unescapeLiteral haddress fun hm => hp (by simp [hm])
    have hopen' : lsquare ∉ address := fun hm => hopen ((hspelled.mem_iff ho1 ho2 ho3).mpr hm)
    exact ⟨.literal hopen' hport hip, .plain ho2 ho4
      (hspelled.append (.plain hr2 hr4 (spelled_optionalPort hport).1))⟩

/-- **A host that was read without a percent sign is read again**, as it is and escaped. -/
theorem parseHost_again {s : Bytes} (hs : parseHost R s = some h)
    (hp : percent ∉ h) :
    parseHost R h = some h ∧ parseHost R (escape .encodeHost h) = some h := by
  obtain ⟨ht, hspelled⟩ := hostText_of_parseHost hs hp
  exact ⟨parseHost_of_spelled ht (spelled_self hspelled.plainHost),
    parseHost_of_spelled ht (spelled_escape hspelled.plainHost)⟩

/-! ### Hosts with a percent sign -/

theorem unescape_append {s s' : Bytes} : ∀ {a a' : Bytes}, unescape .encodeHost a = some a' →
    unescape .encodeHost s = some s' → unescape .encodeHost (a ++ s) = some (a' ++ s')
  | [], a', ha, hs => by
    cases ha
    exact hs
  | c :: a, a', ha, hs => by
    by_cases hc : c = percent
    · subst hc
      match a with
      | [] => cases ha
      | [_] => cases ha
      | d :: e :: a =>
        simp only [unescape, if_true, Option.bind_eq_bind, Option.bind_eq_some_iff,
          Option.some.injEq] at ha
        obtain ⟨hi, hd, lo, he, t, ht, rfl⟩ := ha
        simp only [cons_append, unescape, if_true, hd, he, unescape_append ht hs,
          Option.bind_eq_bind, Option.bind_some]
    · rw [unescape_host_cons hc] at ha
      obtain ⟨t, ht, rfl⟩ := Option.map_eq_some_iff.mp ha
      rw [cons_append, unescape_host_cons hc, unescape_append ht hs]
      rfl

theorem length_unescape : ∀ {s t : Bytes}, unescape .encodeHost s = some t →
    t.length + 2 * s.count percent ≤ s.length
  | [], t, h => by
    cases h
    exact le_rfl
  | c :: s, t, h => by
    by_cases hc : c = percent
    · subst hc
      match s with
      | [] => cases h
      | [_] => cases h
      | d :: e :: s =>
        simp only [unescape, if_true, Option.bind_eq_bind, Option.bind_eq_some_iff,
          Option.some.injEq] at h
        obtain ⟨hi, hd, lo, he, t, ht, rfl⟩ := h
        have ih := length_unescape ht
        rw [count_cons_self, count_cons_of_ne (ne_percent_of_unhex hd),
          count_cons_of_ne (ne_percent_of_unhex he)]
        simp only [length_cons]
        omega
    · rw [unescape_host_cons hc] at h
      obtain ⟨t, ht, rfl⟩ := Option.map_eq_some_iff.mp h
      have ih := length_unescape ht
      rw [count_cons_of_ne hc]
      simp only [length_cons]
      omega

theorem unescape_of_unescapeHost {zone : Bool} {s t : Bytes} (h : unescapeHost zone s = some t) :
    unescape .encodeHost s = some t := by
  unfold unescapeHost at h
  split_ifs at h
  exact h

theorem unescape_of_unescapeLiteral {s t : Bytes} (h : unescapeLiteral s = some t) :
    unescape .encodeHost s = some t := by
  unfold unescapeLiteral at h
  split at h
  · exact unescape_of_unescapeHost h
  · rename_i address zone hcut
    obtain ⟨rfl, -⟩ := cutZone_eq_some hcut
    simp only [Option.bind_eq_bind, Option.bind_eq_some_iff, Option.some.injEq] at h
    obtain ⟨address', haddress, zone', hzone, rfl⟩ := h
    exact unescape_append (unescape_of_unescapeHost haddress) (unescape_of_unescapeHost hzone)

theorem unescape_of_parseHost {s : Bytes} (hs : parseHost R s = some h) :
    unescape .encodeHost s = some h := by
  rcases parseHost_cases hs with ⟨-, hs, -⟩ | ⟨hostname, address, port, rfl, -, haddress, -, hport, rfl⟩
  · exact unescape_of_unescapeHost hs
  · have hend : unescape .encodeHost (rsquare :: port) = some (rsquare :: port) := by
      rw [unescape_host_cons (by decide),
        unescape_of_unescapeHost (spelled_optionalPort hport).1.unescape.1, Option.map_some]
    rw [cons_append, unescape_host_cons (by decide),
      unescape_append (unescape_of_unescapeLiteral haddress) hend]
    rfl

/-- **A host with a percent sign is read as another one**, if it is read at all. -/
theorem parseHost_percent {h' : Bytes} (hp : percent ∈ h) (hs : parseHost R h = some h') : h' ≠ h := by
  rintro rfl
  have hlen := length_unescape (unescape_of_parseHost hs)
  have hpos := count_pos_iff.mpr hp
  omega

theorem parseHost_escape {h' : Bytes} (hs : parseHost R (escape .encodeHost h) = some h') : h' = h :=
  Option.some.inj ((unescape_of_parseHost hs).symm.trans (unescape_escape .encodeHost h))

theorem hostByte_of_unescapeLiteral {s t : Bytes} (h : unescapeLiteral s = some t) :
    ∀ b ∈ t, HostByte b := by
  unfold unescapeLiteral at h
  split at h
  · exact hostByte_of_unescapeHost h
  · simp only [Option.bind_eq_bind, Option.bind_eq_some_iff, Option.some.injEq] at h
    obtain ⟨address, haddress, zone, hzone, rfl⟩ := h
    exact forall_mem_append.mpr ⟨hostByte_of_unescapeHost haddress, hostByte_of_unescapeHost hzone⟩

theorem hostByte_of_parseHost {s : Bytes} (hs : parseHost R s = some h) : ∀ b ∈ h, HostByte b := by
  rcases parseHost_cases hs with ⟨-, hs, -⟩ | ⟨hostname, address, port, -, -, haddress, -, hport, rfl⟩
  · exact hostByte_of_unescapeHost hs
  · have hl : HostByte lsquare := .inr (.inr (by decide))
    have hr : HostByte rsquare := .inr (.inr (by decide))
    have hp := (spelled_optionalPort hport).1.plainHost
    exact forall_mem_append.mpr ⟨forall_mem_cons.mpr ⟨hl, hostByte_of_unescapeLiteral haddress⟩,
        forall_mem_cons.mpr ⟨hr, fun b hb => .inr (.inr (hp b hb).2)⟩⟩

theorem HostByte.delimiters (h : HostByte b) :
    b ∉ [slash, question, hash, atSign] ∧ isCTL b = false := by
  have hall : ∀ b : UInt8, (b = percent ∨ b = 0x20 ∨ plainHostByte b = true) →
      b ∉ [slash, question, hash, atSign] ∧ isCTL b = false := by decide +kernel
  exact hall b h

/-! ## 6. The text of a URL with an authority -/

def queryText (forceQuery : Bool) (rawQuery : Bytes) : Bytes :=
  if forceQuery || rawQuery ≠ [] then question :: rawQuery else []

theorem cutQuery_queryText (hp : question ∉ p)
    (hforce : force = true → q = []) : cutQuery (p ++ queryText force q) = (p, force, q) := by
  cases force with
  | true =>
    obtain rfl := hforce rfl
    have hc : (p ++ [question]).count question = 1 := by
      rw [count_append, count_eq_zero.mpr hp, count_singleton_self]
    have hs : hasSuffix question (p ++ [question]) = true := by
      rw [hasSuffix, getLast?_concat, beq_self_eq_true]
    change cutQuery (p ++ [question]) = _
    rw [cutQuery, hs, hc, beq_self_eq_true, Bool.true_and, if_pos rfl, dropLast_concat]
  | false =>
    by_cases hq : q = []
    · subst hq
      change cutQuery (p ++ []) = _
      have hs : (hasSuffix question p && p.count question == 1) = false := by
        rw [count_eq_zero.mpr hp]
        simp
      rw [append_nil, cutQuery, hs, cut_eq_none_iff.mpr hp]
      rfl
    · have htext : queryText false q = question :: q := by simp [queryText, hq]
      have hs : (hasSuffix question (p ++ question :: q) &&
          (p ++ question :: q).count question == 1) = false := by
        rw [Bool.and_eq_false_iff]
        -- a trailing question mark is a second one, in the query
        rcases eq_nil_or_concat q with rfl | ⟨r, b, rfl⟩
        · exact absurd rfl hq
        · by_cases hb : b = question
          · right
            subst hb
            rw [concat_eq_append, count_append, count_cons_self, count_append,
              count_singleton_self, beq_eq_false_iff_ne]
            omega
          · left
            rw [concat_eq_append, ← cons_append, ← append_assoc, hasSuffix,
              getLast?_concat, beq_eq_false_iff_ne]
            exact fun h => hb (Option.some.inj h)
      rw [htext, cutQuery, hs, cut_append hp]
      rfl

def httpSchemes : List Bytes := [lit "http", lit "https"]

theorem httpSchemes_spec (h : sch ∈ httpSchemes) :
    (∀ b ∈ sch, isSchemeByte b = true ∧ isCTL b = false ∧ b ≠ hash ∧ b < 0x80 ∧ asciiLower b = b) ∧
      sch.head? = some 0x68 ∧ sch.head?.any isAlpha = true ∧ sch ≠ [] := by
  have hall : ∀ sch ∈ httpSchemes,
      (∀ b ∈ sch, isSchemeByte b = true ∧ isCTL b = false ∧ b ≠ hash ∧ b < 0x80 ∧ asciiLower b = b) ∧
      sch.head? = some 0x68 ∧ sch.head?.any isAlpha = true ∧ sch ≠ [] := by decide +kernel
  exact hall sch h

theorem getScheme_http (h : sch ∈ httpSchemes) (rest : Bytes) :
    getScheme (sch ++ colon :: rest) = some (sch, rest) := by
  obtain ⟨hbytes, -, halpha, -⟩ := httpSchemes_spec h
  have hall : ∀ b ∈ sch, isSchemeByte b = true := fun b hb => (hbytes b hb).1
  have hstop : isSchemeByte colon = false := by decide
  have htake : (sch ++ colon :: rest).takeWhile isSchemeByte = sch := by
    rw [takeWhile_append_of_pos hall, takeWhile_cons_of_neg (by simp [hstop]), append_nil]
  have hdrop : (sch ++ colon :: rest).dropWhile isSchemeByte = colon :: rest := by
    rw [dropWhile_append_of_pos hall, dropWhile_cons_of_neg (by simp [hstop])]
  rw [getScheme, htake, hdrop]
  match sch, halpha with
  | b :: t, halpha =>
    have hb : isAlpha b = true := by simpa using halpha
    simp [hb]

theorem toLower_http (h : sch ∈ httpSchemes) : toLower U sch = sch := by
  obtain ⟨hbytes, -⟩ := httpSchemes_spec h
  rw [toLower_of_ascii U fun b hb => (hbytes b hb).2.2.2.1]
  exact (map_congr_left fun b hb => (hbytes b hb).2.2.2.2).trans (map_id _)

/-- A part of a URL that has none of the delimiters `sep` and no control characters. -/
def Without (sep : List UInt8) (s : Bytes) : Prop := ∀ b ∈ s, b ∉ sep ∧ isCTL b = false

theorem Without.mono {sep sep' : List UInt8} {s : Bytes} (h : Without sep s) (hsub : sep' ⊆ sep) :
    Without sep' s :=
  fun b hb => ⟨fun hm => (h b hb).1 (hsub hm), (h b hb).2⟩

def IsPath (p : Bytes) : Prop := p = [] ∨ ∃ t, p = slash :: t

theorem cutAuthority_append {auth : Bytes} (hauth : slash ∉ auth) (hp : IsPath p) :
    cutAuthority (auth ++ p) = (auth, p) := by
  have hall : ∀ b ∈ auth, decide (b ≠ slash) = true := fun b hb =>
    decide_eq_true fun h => hauth (h ▸ hb)
  rcases hp with rfl | ⟨t, rfl⟩
  · rw [append_nil, cutAuthority, takeWhile_eq_self_iff.mpr hall, dropWhile_eq_nil_iff.mpr hall]
  · rw [cutAuthority, takeWhile_append_of_pos hall, dropWhile_append_of_pos hall]
    simp

/-- **The text of a URL with an authority is read part by part.** -/
theorem parseUnfragmented_text {auth : Bytes}
    (hsch : sch ∈ httpSchemes) (hauth : Without [slash, question] auth) (hp : IsPath p)
    (hp' : Without [question] p) (hq : Without [] q) (hforce : force = true → q = []) :
    parseUnfragmented R U (sch ++ (lit "://" ++ (auth ++ (p ++ queryText force q)))) =
      (parseAuthority R auth).bind fun a =>
        setPath { scheme := sch, user := a.1, host := a.2, forceQuery := force, rawQuery := q } p := by
  obtain ⟨hbytes, hhead, -, hne⟩ := httpSchemes_spec hsch
  have hctl : (sch ++ (lit "://" ++ (auth ++ (p ++ queryText force q)))).any isCTL = false := by
    have hlit : (lit "://").any isCTL = false := by decide
    have hquery : (queryText force q).any isCTL = false := by
      rw [queryText]
      split
      · rw [any_cons, any_eq_false.mpr fun b hb => by simp [(hq b hb).2]]
        rfl
      · rfl
    rw [any_append, any_append, any_append, any_append, hlit, hquery,
      any_eq_false.mpr fun b hb => by simp [(hbytes b hb).2.1],
      any_eq_false.mpr fun b hb => by simp [(hauth b hb).2],
      any_eq_false.mpr fun b hb => by simp [(hp' b hb).2]]
    rfl
  have hstar : sch ++ (lit "://" ++ (auth ++ (p ++ queryText force q))) ≠ lit "*" := by
    intro h
    have hhead' := congrArg List.head? h
    rw [head?_append, hhead, Option.some_or] at hhead'
    exact absurd hhead' (by decide)
  have hslashes : lit "://" = colon :: [slash, slash] := rfl
  have hquestion : question ∉ [slash, slash] ++ (auth ++ p) := by
    simp only [mem_append, not_or]
    exact ⟨by decide, fun h => (hauth _ h).1 (by decide), fun h => (hp' _ h).1 (by decide)⟩
  have hcut : cutQuery ([slash, slash] ++ (auth ++ (p ++ queryText force q))) =
      ([slash, slash] ++ (auth ++ p), force, q) := by
    have := cutQuery_queryText hquestion hforce
    rwa [append_assoc, append_assoc] at this
  rw [parseUnfragmented, if_neg (by rw [hctl]; exact Bool.false_ne_true), if_neg hstar, hslashes,
    cons_append, getScheme_http hsch]
  simp only [Option.bind_eq_bind, Option.bind_some, hcut, toLower_http hsch]
  rw [parseRest, if_neg (by simp [hasPrefix]), if_neg (by simp [hasPrefix]),
    if_pos ⟨.inl hne, by exact prefix_append _ _⟩]
  have hdrop : ([slash, slash] ++ (auth ++ p)).drop 2 = auth ++ p := rfl
  rw [hdrop, cutAuthority_append (fun h => (hauth _ h).1 (by decide)) hp]
  rfl

/-! ## 7. URLs that were read -/

theorem setPath_some (h : setPath u p = some v) : ∃ path, unescape .encodePath p = some path ∧
      v = { u with path, rawPath := if p = escape .encodePath path then [] else p } := by
  simp only [setPath, Option.bind_eq_bind, Option.bind_eq_some_iff, Option.some.injEq] at h
  obtain ⟨path, hpath, rfl⟩ := h
  exact ⟨path, hpath, rfl⟩

/-- A URL with a host, as `parse` makes it. -/
structure ParsedHost (R : HostRules) (u : URL) : Prop where
  authority : ∃ auth, parseAuthority R auth = some (u.user, u.host)
  path : ∃ p, IsPath p ∧ unescape .encodePath p = some u.path ∧
    u.rawPath = if p = escape .encodePath u.path then [] else p
  opaq : u.opaq = []
  omitHost : u.omitHost = false
  force : u.forceQuery = true → u.rawQuery = []

theorem cutQuery_spec (h : cutQuery rest = (p, force, q)) :
    (force = true → q = []) ∧ (∀ b ∈ p, b ∈ rest) ∧ ∀ b ∈ q, b ∈ rest := by
  unfold cutQuery at h
  split at h
  · cases h
    exact ⟨fun _ => rfl, fun b hb => dropLast_subset _ hb, fun b hb => absurd hb not_mem_nil⟩
  · split at h
    · cases h
      exact ⟨fun _ => rfl, fun b hb => hb, fun b hb => absurd hb not_mem_nil⟩
    · rename_i rest' query hcut
      cases h
      obtain ⟨rfl, -⟩ := cut_eq_some hcut
      exact ⟨fun h => (by cases h), fun b hb => mem_append_left _ hb,
        fun b hb => mem_append_right _ (mem_cons_of_mem _ hb)⟩

theorem isPath_dropWhile : ∀ s : Bytes, IsPath (s.dropWhile (· ≠ slash))
  | [] => .inl rfl
  | c :: s => by
    by_cases hc : c = slash
    · subst hc
      exact .inr ⟨s, by simp⟩
    · have hdrop : (c :: s).dropWhile (· ≠ slash) = s.dropWhile (· ≠ slash) :=
        dropWhile_cons_of_pos (decide_eq_true hc)
      rw [hdrop]
      exact isPath_dropWhile s

theorem parseRest_host (h : parseRest R u rest = some v)
    (hu : u.host = [] ∧ u.opaq = [] ∧ u.omitHost = false) (hv : v.host ≠ [])
    (hforce : u.forceQuery = true → u.rawQuery = []) :
    ParsedHost R v ∧ v.scheme = u.scheme ∧ v.rawQuery = u.rawQuery := by
  obtain ⟨hhost, hopaq, homit⟩ := hu
  unfold parseRest at h
  split_ifs at h
  · cases h
    exact absurd hhost hv
  · rw [Option.bind_eq_bind, Option.bind_eq_some_iff] at h
    obtain ⟨⟨user, host⟩, hauth, h⟩ := h
    obtain ⟨path, hpath, rfl⟩ := setPath_some h
    refine ⟨⟨⟨_, hauth⟩, ⟨_, ?_, hpath, rfl⟩, hopaq, homit, hforce⟩, rfl, rfl⟩
    exact isPath_dropWhile _
  · obtain ⟨path, hpath, rfl⟩ := setPath_some h
    exact absurd hhost hv

theorem parseRest_scheme {w : URL} (h : parseRest R w rest = some v) : v.scheme = w.scheme := by
  unfold parseRest at h
  split_ifs at h
  · cases h
    rfl
  · rw [Option.bind_eq_bind, Option.bind_eq_some_iff] at h
    obtain ⟨⟨user, host⟩, -, h⟩ := h
    obtain ⟨path, -, rfl⟩ := setPath_some h
    rfl
  · obtain ⟨path, -, rfl⟩ := setPath_some h
    rfl

theorem getScheme_cases (h : getScheme raw = some (scheme, rest)) : scheme = [] ∧ rest = raw ∨
      scheme = raw.takeWhile isSchemeByte ∧ raw.dropWhile isSchemeByte = colon :: rest := by
  unfold getScheme at h
  simp only at h
  split at h
  · rename_i c tail hdrop
    split_ifs at h with hc
    · cases h
      exact .inl ⟨rfl, rfl⟩
    · split at h
      · cases h
      · split_ifs at h
        · cases h
          exact .inr ⟨rfl, by rw [hdrop, not_not.mp hc]⟩
        · cases h
          exact .inl ⟨rfl, rfl⟩
  · cases h
    exact .inl ⟨rfl, rfl⟩

theorem getScheme_subset (h : getScheme raw = some (scheme, rest)) : ∀ b ∈ rest, b ∈ raw := by
  intro b hb
  rcases getScheme_cases h with ⟨-, rfl⟩ | ⟨-, hdrop⟩
  · exact hb
  · exact dropWhile_subset _ (hdrop ▸ mem_cons_of_mem _ hb)

theorem getScheme_ascii (h : getScheme raw = some (scheme, rest)) : Ascii scheme := by
  have hbyte : ∀ b : UInt8, isSchemeByte b = true → b < 0x80 := by grind [isSchemeByte, isAlnum]
  rcases getScheme_cases h with ⟨rfl, -⟩ | ⟨rfl, -⟩
  · exact ascii_nil
  · exact fun b hb => hbyte b (mem_takeWhile_imp hb)

theorem parseUnfragmented_cases (h : parseUnfragmented R U raw = some u) :
    raw = lit "*" ∧ u = { path := lit "*" } ∨
      (∀ b ∈ raw, isCTL b = false) ∧ ∃ scheme rest, getScheme raw = some (scheme, rest) ∧ parseRest R
          { scheme := toLower U scheme, forceQuery := (cutQuery rest).2.1, rawQuery := (cutQuery rest).2.2 }
          (cutQuery rest).1 = some u := by
  unfold parseUnfragmented at h
  split_ifs at h with hctl hstar
  · exact .inl ⟨hstar, (Option.some.inj h).symm⟩
  · simp only [Option.bind_eq_bind, Option.bind_eq_some_iff] at h
    obtain ⟨⟨scheme, rest⟩, hscheme, h⟩ := h
    refine .inr ⟨fun b hb => ?_, scheme, rest, hscheme, h⟩
    by_contra hb'
    exact hctl (any_eq_true.mpr ⟨b, hb, by simpa using hb'⟩)

theorem parseUnfragmented_host (h : parseUnfragmented R U raw = some u) (hhost : u.host ≠ []) :
    ParsedHost R u ∧ ∀ b ∈ u.rawQuery, b ∈ raw ∧ isCTL b = false := by
  rcases parseUnfragmented_cases h with ⟨-, rfl⟩ | ⟨hctl, scheme, rest, hscheme, h⟩
  · exact absurd rfl hhost
  · obtain ⟨hforce, -, hquery⟩ := cutQuery_spec (rfl : cutQuery rest = _)
    obtain ⟨hparsed, -, hraw⟩ := parseRest_host h ⟨rfl, rfl, rfl⟩ hhost hforce
    refine ⟨hparsed, fun b hb => ?_⟩
    rw [hraw] at hb
    have hmem := getScheme_subset hscheme b (hquery b hb)
    exact ⟨hmem, hctl b hmem⟩

theorem setFragment_some {f : Bytes} (h : setFragment u f = some v) :
    ∃ fragment rawFragment, v = { u with fragment, rawFragment } := by
  simp only [setFragment, Option.bind_eq_bind, Option.bind_eq_some_iff, Option.some.injEq] at h
  obtain ⟨fragment, -, rfl⟩ := h
  exact ⟨fragment, _, rfl⟩

theorem parseURL_cases (h : parseURL R U raw = some u) : ∃ url v, parseUnfragmented R U url = some v ∧ hash ∉ url ∧
      (raw = url ∨ ∃ frag, raw = url ++ hash :: frag) ∧
      ∃ fragment rawFragment, u = { v with fragment, rawFragment } := by
  unfold parseURL at h
  split at h
  · rename_i hcut
    exact ⟨raw, u, h, cut_eq_none_iff.mp hcut, .inl rfl, u.fragment, u.rawFragment, rfl⟩
  · rename_i url frag hcut
    obtain ⟨hraw, hnot⟩ := cut_eq_some hcut
    rw [Option.bind_eq_bind, Option.bind_eq_some_iff] at h
    obtain ⟨v, hv, h⟩ := h
    refine ⟨url, v, hv, hnot, .inr ⟨frag, hraw⟩, ?_⟩
    split_ifs at h
    · exact ⟨v.fragment, v.rawFragment, (Option.some.inj h).symm⟩
    · exact setFragment_some h

theorem scheme_of_parseURL (h : parseURL R U raw = some u) : ∀ b ∈ u.scheme, b < 0x80 ∧ asciiLower b = b := by
  have hlower : ∀ b : UInt8, b < 0x80 →
      asciiLower b < 0x80 ∧ asciiLower (asciiLower b) = asciiLower b := by grind [asciiLower]
  obtain ⟨url, v, hv, -, -, fragment, rawFragment, rfl⟩ := parseURL_cases h
  intro b hb
  change b ∈ v.scheme at hb
  rcases parseUnfragmented_cases hv with ⟨-, rfl⟩ | ⟨-, scheme, rest, hscheme, h⟩
  · cases hb
  · have hascii := getScheme_ascii hscheme
    rw [parseRest_scheme h, toLower_of_ascii U hascii] at hb
    obtain ⟨c, hc, rfl⟩ := mem_map.mp hb
    exact hlower c (hascii c hc)

theorem parseURL_host (h : parseURL R U raw = some u) (hhost : u.host ≠ []) :
    ParsedHost R u ∧ Without [hash] u.rawQuery := by
  obtain ⟨url, v, hv, hnot, -, fragment, rawFragment, rfl⟩ := parseURL_cases h
  obtain ⟨hparsed, hquery⟩ := parseUnfragmented_host hv hhost
  refine ⟨⟨hparsed.authority, hparsed.path, hparsed.opaq, hparsed.omitHost, hparsed.force⟩,
    fun b hb => ⟨fun hm => ?_, (hquery b hb).2⟩⟩
  exact hnot (mem_singleton.mp hm ▸ (hquery b hb).1)

theorem URL.unescape_escapedFragment (u : URL) :
    unescape .encodeFragment u.escapedFragment = some u.fragment := by
  unfold URL.escapedFragment
  split
  · rename_i h
    simp only [Bool.and_eq_true, beq_iff_eq] at h
    exact h.2
  · exact unescape_escape _ _

theorem setPath_escapedPath {w : URL} (hstar : u.path ≠ lit "*")
    (h : setPath w u.escapedPath = some v) : v.escapedPath = u.escapedPath ∧ v.path = u.path := by
  obtain ⟨path, hpath, rfl⟩ := setPath_some h
  obtain rfl := Option.some.inj ((URL.unescape_escapedPath u).symm.trans hpath)
  refine ⟨?_, rfl⟩
  by_cases hdefault : u.escapedPath = escape .encodePath u.path
  · rw [if_pos hdefault, hdefault, URL.escapedPath_eq]
    simp [URL.usesRawPath, URL.defaultPath, hstar]
  · have huses : u.usesRawPath = true := by
      by_contra hno
      rw [URL.escapedPath_eq, if_neg hno, URL.defaultPath, if_neg hstar] at hdefault
      exact hdefault rfl
    have hraw : u.escapedPath = u.rawPath := by rw [URL.escapedPath_eq, if_pos huses]
    rw [if_neg hdefault, hraw, URL.escapedPath_eq, if_pos]
    exact huses

theorem escapedPath_slash {t : Bytes} (hpath : unescape .encodePath (slash :: t) = some u.path)
    (hraw : u.rawPath = if slash :: t = escape .encodePath u.path then [] else slash :: t) :
    (∃ t', u.escapedPath = slash :: t') ∧ u.path ≠ [] ∧ u.path ≠ lit "*" := by
  rw [unescape_cons (by decide)] at hpath
  obtain ⟨path, -, hpath⟩ := Option.map_eq_some_iff.mp hpath
  have hpath : u.path = slash :: path := by simpa using hpath.symm
  have hstar : slash :: path ≠ lit "*" := fun h => absurd (List.cons.inj h).1 (by decide)
  refine ⟨?_, by rw [hpath]; exact cons_ne_nil _ _, hpath ▸ hstar⟩
  rw [URL.escapedPath_eq]
  split
  · rename_i huses
    rw [hraw]
    split
    · rename_i heq
      rw [URL.usesRawPath, hraw, if_pos heq] at huses
      simp at huses
    · exact ⟨t, rfl⟩
  · refine ⟨escape .encodePath path, ?_⟩
    rw [URL.defaultPath, hpath, if_neg hstar]
    rfl

theorem escapedPath_nil (hpath : u.path = []) (hraw : u.rawPath = []) : u.escapedPath = [] := by
  rw [URL.escapedPath_eq, URL.usesRawPath, hraw, hpath]
  rfl

def authorityText (user : Option Userinfo) (host : Bytes) : Bytes :=
  (match user with
    | none => []
    | some ui => ui.string ++ [atSign]) ++ escape .encodeHost host

def URL.fragmentText (u : URL) : Bytes :=
  if u.fragment ≠ [] then hash :: u.escapedFragment else []

theorem string_authority (hscheme : u.scheme ≠ []) (hopaq : u.opaq = [])
    (homit : u.omitHost = false) (hpath : IsPath u.escapedPath) (hne : u.host ≠ [] ∨ u.path ≠ []) :
    u.string = u.scheme ++ (lit "://" ++ (authorityText u.user u.host ++
      (u.escapedPath ++ queryText u.forceQuery u.rawQuery))) ++ u.fragmentText := by
  have hauth : u.stringAuthority = lit "//" ++ authorityText u.user u.host := by
    rw [URL.stringAuthority, homit]
    simp only [hscheme, ne_eq, not_false_eq_true, decide_true, Bool.true_or, Bool.false_and, if_true,
      Bool.false_eq_true, if_false]
    rw [if_pos (by rcases hne with h | h <;> simp [h]), append_assoc]
    rfl
  have hslash : (if u.escapedPath ≠ [] && !hasPrefix slash u.escapedPath && u.host ≠ [] then [slash]
      else []) = ([] : Bytes) := by
    rcases hpath with h | ⟨t, h⟩
    · rw [h]
      rfl
    · rw [h]
      simp [hasPrefix]
  have hbuf : u.scheme ++ [colon] ++ (lit "//" ++ authorityText u.user u.host) ++ [] ≠ [] := by
    simp [hscheme]
  have hquery : (if u.forceQuery || u.rawQuery ≠ [] then question :: u.rawQuery else []) =
      queryText u.forceQuery u.rawQuery := rfl
  have hcolon : lit "://" = [colon] ++ lit "//" := rfl
  have hopaq' : ¬ u.opaq ≠ [] := not_not.mpr hopaq
  unfold URL.string
  simp only [if_neg hopaq', if_pos hscheme, hauth, hslash, decide_eq_false hbuf, Bool.false_and,
    Bool.false_eq_true, if_false, hquery]
  rw [hcolon, URL.fragmentText]
  simp only [append_assoc, nil_append, hash]

end AoniContrib.Go
