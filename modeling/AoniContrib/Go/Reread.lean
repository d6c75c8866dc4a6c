/-
# Reading a written authority again

`URL.String` escapes the host and the user information that `url.Parse` has unescaped.  User information
is always read back (`parseUserinfo_string`), and so is a host without brackets.  In brackets there may
be a ZONE, and there the two halves disagree: a bracket in a zone is read escaped and written plain, and
a byte that is not ASCII is read plain and written escaped.  `Rereadable` excludes just these two
(`parseHost_escape_iff`).
-/
import AoniContrib.Go.UrlParse

namespace AoniContrib.Go

open List

/-! ## 1. A host, byte by byte -/

theorem unhex_decimal {c : UInt8} {n : Nat} (h : unhex c = some n) (hn : n < 10) :
    c.toNat = 48 + n := by
  simp only [unhex, Bool.and_eq_true, decide_eq_true_eq, UInt8.le_iff_toNat_le, UInt8.reduceToNat] at h
  split_ifs at h <;> simp only [Option.some.injEq] at h <;> omega

section

variable {zone : Bool} {s t : Bytes}

theorem Reads.bytes (h : Reads false s t) : ∀ b ∈ t, b = percent ∨ plainHostByte b = true := by
  induction h with
  | nil => exact fun b hb => absurd hb not_mem_nil
  | plain _ hplain _ ih => exact forall_mem_cons.mpr ⟨.inr hplain, ih⟩
  | escaped hd he hesc _ ih =>
    refine forall_mem_cons.mpr ⟨?_, ih⟩
    rcases hostEscape_byte hd he hesc with h | h
    · exact .inl h
    · exact .inr (plainHostByte_of_not_ascii h)

theorem Reads.percent_not_mem (h : Reads false s t) (hzone : cutZone s = none) : percent ∉ t := by
  induction h with
  | nil => exact not_mem_nil
  | plain hc _ _ ih =>
    rw [cutZone_cons hc, Option.map_eq_none_iff] at hzone
    rw [mem_cons, not_or]
    exact ⟨fun heq => hc heq.symm, ih hzone⟩
  | @escaped d e hi lo s t hd he hesc _ ih =>
    rw [cutZone] at hzone
    split_ifs at hzone with hpre
    rw [Option.map_eq_none_iff, cutZone_cons (ne_percent_of_unhex hd), Option.map_eq_none_iff,
      cutZone_cons (ne_percent_of_unhex he), Option.map_eq_none_iff] at hzone
    rw [mem_cons, not_or]
    refine ⟨fun heq => hpre ?_, ih hzone⟩
    -- the digits of a percent sign are those that begin a zone
    have hvalue : 37 = hi * 16 + lo := (congrArg UInt8.toNat heq).trans (toNat_hexByte hd he)
    have hhi := unhex_lt hd
    have hlo := unhex_lt he
    obtain rfl : hi = 2 := by omega
    obtain rfl : lo = 5 := by omega
    have h2 : d = 0x32 := UInt8.toNat_inj.mp (unhex_decimal hd (by omega))
    have h5 : e = 0x35 := UInt8.toNat_inj.mp (unhex_decimal he (by omega))
    rw [h2, h5]
    rfl

end

/-! ## 2. What is written is read again -/

/-- A byte that is read again from what `escape` writes for it. -/
def byteAgain (zone : Bool) (c : UInt8) : Bool :=
  c == percent || (if zone then c == space || !shouldEscape c .encodeHost else plainHostByte c)

theorem hostEscape_upperHex (zone : Bool) {c : UInt8} (hesc : shouldEscape c .encodeHost = true) :
    hostEscape zone (upperHex (c.toNat / 16)) (upperHex (c.toNat % 16)) = byteAgain zone c := by
  have hc := c.toNat_lt
  have hsum : (c.toNat / 16 * 16 + c.toNat % 16).toUInt8 = c := by
    rw [show c.toNat / 16 * 16 + c.toNat % 16 = c.toNat by omega]
    exact UInt8.ofNat_toNat
  have hdigits : ∀ b : UInt8, c = b ↔ c.toNat / 16 = b.toNat / 16 ∧ c.toNat % 16 = b.toNat % 16 := by
    intro b
    rw [← UInt8.toNat_inj]
    omega
  rw [Bool.eq_iff_iff, hostEscape, unhex_upperHex (by omega), unhex_upperHex (by omega)]
  cases zone with
  | true =>
    simp only [if_true, byteAgain, hsum, hesc, Bool.or_eq_true, Bool.and_eq_true, beq_iff_eq,
      Bool.not_true, Bool.false_eq_true, or_false, hdigits]
    rfl
  | false =>
    have hhigh : 0x80 ≤ c ↔ 8 ≤ c.toNat / 16 := by
      rw [UInt8.le_iff_toNat_le]
      change 128 ≤ c.toNat ↔ _
      omega
    simp only [Bool.false_eq_true, if_false, byteAgain, plainHostByte, hesc, Bool.or_eq_true,
      Bool.and_eq_true, beq_iff_eq, decide_eq_true_eq, Bool.not_true, or_false, hdigits, hhigh]
    exact Or.comm

theorem unescapeHost_escapeByte (zone : Bool) (c : UInt8) (s : Bytes) :
    unescapeHost zone (escapeByte .encodeHost c ++ s) =
      if byteAgain zone c then (unescapeHost zone s).map (c :: ·) else none := by
  by_cases hesc : shouldEscape c .encodeHost = true
  · have hc := c.toNat_lt
    have hsum : c.toNat / 16 * 16 + c.toNat % 16 = c.toNat := by omega
    have hbyte : escapeByte .encodeHost c =
        [percent, upperHex (c.toNat / 16), upperHex (c.toNat % 16)] := by
      simp [escapeByte, hesc]
    rw [hbyte, cons_append, cons_append, cons_append, nil_append,
      unescapeHost_percent (unhex_upperHex (by omega)) (unhex_upperHex (by omega)),
      hostEscape_upperHex zone hesc, hsum]
    simp
  · have hne : c ≠ percent := by
      rintro rfl
      exact hesc (shouldEscape_percent _)
    have hbyte : escapeByte .encodeHost c = [c] := by simp [escapeByte, hesc]
    have hplain : plainHostByte c = true := by simp [plainHostByte, hesc]
    have hagain : byteAgain zone c = true := by
      cases zone <;> simp [byteAgain, hesc, hplain]
    rw [hbyte, singleton_append, unescapeHost_cons hne, if_pos hplain, if_pos hagain]

theorem unescapeHost_escape (zone : Bool) : ∀ h : Bytes, unescapeHost zone (escape .encodeHost h) =
    if h.all (byteAgain zone) then some h else none
  | [] => rfl
  | c :: h => by
    have ih := unescapeHost_escape zone h
    rw [escape] at ih ⊢
    rw [flatMap_cons, unescapeHost_escapeByte, ih, all_cons]
    cases byteAgain zone c <;> cases h.all (byteAgain zone) <;> rfl

theorem escape_append (mode : Encoding) (s t : Bytes) :
    escape mode (s ++ t) = escape mode s ++ escape mode t := flatMap_append

section
variable {x : UInt8} (hx : x ∈ [lsquare, rsquare, colon])
include hx

theorem mark_plain : escapeByte .encodeHost x = [x] ∧ x ≠ percent ∧ ∀ n < 16, x ≠ upperHex n := by
  have hall : ∀ x ∈ [lsquare, rsquare, colon],
      escapeByte .encodeHost x = [x] ∧ x ≠ percent ∧ ∀ n < 16, x ≠ upperHex n := by decide +kernel
  exact hall x hx

theorem mem_escape_iff (h : Bytes) : x ∈ escape .encodeHost h ↔ x ∈ h := by
  obtain ⟨hplain, hp, hhex⟩ := mark_plain hx
  rw [escape, mem_flatMap]
  constructor
  · rintro ⟨c, hc, hm⟩
    have hlt := c.toNat_lt
    rw [escapeByte, if_neg (by simp)] at hm
    split at hm
    · simp only [mem_cons, not_mem_nil, or_false] at hm
      rcases hm with hm | hm | hm
      · exact absurd hm hp
      · exact absurd hm (hhex _ (by omega))
      · exact absurd hm (hhex _ (by omega))
    · rw [mem_singleton.mp hm]
      exact hc
  · intro hm
    refine ⟨x, hm, ?_⟩
    rw [hplain]
    exact mem_cons_self

theorem escape_cons_mark (h : Bytes) : escape .encodeHost (x :: h) = x :: escape .encodeHost h := by
  rw [escape, flatMap_cons, (mark_plain hx).1]
  rfl

end

theorem escape_port {port : Bytes} (h : URL.validPort port = true) :
    escape .encodeHost port = port := by
  have hplain := (spelled_port h).plainHost
  have hascii : ∀ b ∈ port, b < 0x80 := fun b hb => (digits_of_validPort h hb).1
  exact (spelled_escape hplain).eq_of_ascii hascii

theorem escape_optionalPort {port : Bytes} (h : validOptionalPort port = true) :
    escape .encodeHost port = port :=
  (spelled_escape (spelled_optionalPort h).1.plainHost).eq_of_ascii (spelled_optionalPort h).2.1

theorem cutZone_escape {a : Bytes} (ha : percent ∉ a) (t : Bytes) :
    cutZone (escape .encodeHost a ++ t) =
      (cutZone t).map fun p => (escape .encodeHost a ++ p.1, p.2) := by
  induction a with
  | nil =>
    change cutZone t = _
    cases cutZone t <;> rfl
  | cons c a ih =>
    rw [mem_cons, not_or] at ha
    have hstep : escape .encodeHost (c :: a) = escapeByte .encodeHost c ++ escape .encodeHost a :=
      flatMap_cons
    rw [hstep, append_assoc]
    by_cases hesc : shouldEscape c .encodeHost = true
    · have hall : ∀ c : UInt8, percent ≠ c →
          upperHex (c.toNat / 16) ≠ percent ∧ upperHex (c.toNat % 16) ≠ percent ∧
          ¬ (upperHex (c.toNat / 16) = 0x32 ∧ upperHex (c.toNat % 16) = 0x35) := by decide +kernel
      obtain ⟨hhi, hlo, hdigits⟩ := hall c ha.1
      have hbyte : escapeByte .encodeHost c =
          [percent, upperHex (c.toNat / 16), upperHex (c.toNat % 16)] := by
        simp [escapeByte, hesc]
      have hno : ¬ (lit "%25").isPrefixOf (percent :: upperHex (c.toNat / 16) ::
          upperHex (c.toNat % 16) :: (escape .encodeHost a ++ t)) = true := by
        intro h
        have hpre := isPrefixOf_iff_prefix.mp h
        obtain ⟨h2, hpre⟩ := cons_prefix_cons.mp (cons_prefix_cons.mp hpre).2
        exact hdigits ⟨h2.symm, (cons_prefix_cons.mp hpre).1.symm⟩
      rw [hbyte, cons_append, cons_append, cons_append, nil_append, cutZone,
        if_neg hno, cutZone_cons hhi, cutZone_cons hlo, ih ha.2]
      cases cutZone t <;> rfl
    · have hbyte : escapeByte .encodeHost c = [c] := by simp [escapeByte, hesc]
      rw [hbyte, singleton_append, cutZone_cons (fun h => ha.1 h.symm), ih ha.2]
      cases cutZone t <;> rfl

/-! ## 3. The forms of a host -/

theorem cutZone_first : ∀ {s a z : Bytes}, cutZone s = some (a, z) → cutZone a = none
  | [], _, _, h => by cases h
  | c :: s, a, z, h => by
    rw [cutZone] at h
    split_ifs at h with hpre
    · cases h
      rfl
    · obtain ⟨⟨a', z'⟩, hcut, hp⟩ := Option.map_eq_some_iff.mp h
      obtain ⟨rfl, rfl⟩ := Prod.mk.inj hp
      obtain ⟨rfl, -⟩ := cutZone_eq_some hcut
      have hno : ¬ (lit "%25").isPrefixOf (c :: a') = true := by
        intro h
        have hshort := isPrefixOf_iff_prefix.mp h
        exact hpre <| isPrefixOf_iff_prefix.mpr <| hshort.trans (prefix_append (c :: a') z')
      rw [cutZone, if_neg hno, cutZone_first hcut, Option.map_none]

/-- What is read in brackets: an address without a percent sign, and behind it a zone that begins with
one. -/
structure LiteralText (address zone : Bytes) : Prop where
  plain : ∀ b ∈ address, b ≠ percent ∧ plainHostByte b = true
  start : zone = [] ∨ ∃ z, zone = percent :: z
  bytes : ∀ b ∈ zone, HostByte b

theorem literalText_of_unescapeLiteral {s t : Bytes} (h : unescapeLiteral s = some t) :
    ∃ address zone, t = address ++ zone ∧ LiteralText address zone := by
  unfold unescapeLiteral at h
  split at h
  · rename_i hcut
    have hreads := reads_of_unescapeHost h
    have hp := hreads.percent_not_mem hcut
    refine ⟨t, [], (append_nil t).symm, ?_, .inl rfl, fun b hb => absurd hb not_mem_nil⟩
    intro b hb
    have hne : b ≠ percent := fun heq => hp (heq ▸ hb)
    exact ⟨hne, (hreads.bytes b hb).resolve_left hne⟩
  · rename_i address zone hcut
    simp only [Option.bind_eq_bind, Option.bind_eq_some_iff, Option.some.injEq] at h
    obtain ⟨address', haddress, zone', hzone, rfl⟩ := h
    have hreads := reads_of_unescapeHost haddress
    have hp := hreads.percent_not_mem (cutZone_first hcut)
    obtain ⟨-, z, rfl⟩ := cutZone_eq_some hcut
    have htwo : unhex 0x32 = some 2 := by decide
    have hfive : unhex 0x35 = some 5 := by decide
    have hesc : hostEscape true 0x32 0x35 = true := by decide
    have hlit : lit "%25" ++ z = percent :: 0x32 :: 0x35 :: z := rfl
    refine ⟨address', zone', rfl, ?_, ?_, hostByte_of_unescapeHost hzone⟩
    · intro b hb
      have hne : b ≠ percent := fun heq => hp (heq ▸ hb)
      exact ⟨hne, (hreads.bytes b hb).resolve_left hne⟩
    · rw [hlit, unescapeHost_percent htwo hfive, if_pos hesc] at hzone
      obtain ⟨z', -, rfl⟩ := Option.map_eq_some_iff.mp hzone
      exact .inr ⟨z', rfl⟩

/-- A host that was read, by its form. -/
inductive HostForm (R : HostRules) : Bytes → Bytes → Prop where
  | name {s h} : lsquare ∉ s → Reads false s h → PortRule R s → HostForm R s h
  | literal {s address zone port} : LiteralText address zone → R.ipLiteral (address ++ zone) = true →
      validOptionalPort port = true →
      HostForm R s (lsquare :: (address ++ zone) ++ rsquare :: port)

theorem hostForm_of_parseHost {R : HostRules} {s h : Bytes} (hs : parseHost R s = some h) :
    HostForm R s h := by
  rcases parseHost_cases hs with ⟨hopen, hs, hrule⟩ |
    ⟨hostname, address, port, -, -, haddress, hip, hport, rfl⟩
  · exact .name hopen (reads_of_unescapeHost hs) hrule
  · obtain ⟨a, z, rfl, htext⟩ := literalText_of_unescapeLiteral haddress
    exact .literal htext hip hport

/-! ## 4. A host is read again -/

/-- The hosts that are read again from what is written for them: in brackets there is no second opening
bracket, and a zone is ASCII. -/
def Rereadable (host : Bytes) : Prop :=
  hasPrefix lsquare host = true → lsquare ∉ host.tail ∧ ∀ b ∈ host.dropWhile (· ≠ percent), b < 0x80

theorem all_byteAgain {h : Bytes} (hbytes : ∀ b ∈ h, b = percent ∨ plainHostByte b = true) :
    unescapeHost false (escape .encodeHost h) = some h := by
  have hall : h.all (byteAgain false) = true := by
    rw [all_eq_true]
    intro b hb
    rcases hbytes b hb with hp | hplain
    · simp [byteAgain, hp]
    · simp [byteAgain, hplain]
  rw [unescapeHost_escape, if_pos hall]

theorem parseHost_escape_name {R : HostRules} {s h : Bytes} (hopen : lsquare ∉ s)
    (hreads : Reads false s h) (hport : PortRule R s) :
    parseHost R (escape .encodeHost h) = some h := by
  obtain ⟨ho1, ho2, ho3, -⟩ := marks (.inl rfl)
  obtain ⟨hc1, hc2, hc3, -⟩ := marks (.inr (.inr rfl))
  have hagain := all_byteAgain hreads.bytes
  have hopen' : lsquare ∉ escape .encodeHost h := fun hm =>
    hopen ((hreads.mem_iff ho1 ho2 ho3).mpr ((mem_escape_iff (by simp) h).mp hm))
  rw [parseHost, cutLast_eq_none_iff.mpr hopen']
  dsimp only
  cases hcut : cutLast colon s with
  | none =>
    have hcolon : colon ∉ escape .encodeHost h := fun hm => cutLast_eq_none_iff.mp hcut
      ((hreads.mem_iff hc1 hc2 hc3).mpr ((mem_escape_iff (by simp) h).mp hm))
    rw [cutLast_eq_none_iff.mpr hcolon]
    exact hagain
  | some p =>
    obtain ⟨name, port⟩ := p
    obtain ⟨rfl, hnot⟩ := cutLast_eq_some hcut
    obtain ⟨hvalid, hstrict⟩ := hport name port rfl hnot
    obtain ⟨name', port', rfl, hname, hport'⟩ := hreads.exists_of_text hc2 hc3
    obtain rfl : port = port' := Option.some.inj
      ((spelled_port hvalid).unescape.1.symm.trans hport'.unescapeHost)
    have htext : escape .encodeHost (name' ++ colon :: port) =
        escape .encodeHost name' ++ colon :: port := by
      rw [escape_append, escape_cons_mark (by simp), escape_port hvalid]
    have hcond : (!URL.validPort port ||
        (R.strictColons && decide (colon ∈ escape .encodeHost name'))) = false := by
      rw [hvalid, Bool.not_true, Bool.false_or, Bool.and_eq_false_iff]
      by_cases hs : R.strictColons = true
      · refine .inr (decide_eq_false fun hm => hstrict ⟨hs, ?_⟩)
        exact (hname.mem_iff hc1 hc2 hc3).mpr ((mem_escape_iff (by simp) name').mp hm)
      · exact .inl (Bool.eq_false_of_not_eq_true hs)
    rw [htext] at hagain ⊢
    rw [cutLast_append hnot]
    dsimp only
    rw [hcond]
    exact hagain

theorem HostByte.again_iff {b : UInt8} (h : HostByte b) : byteAgain true b = true ↔ b < 0x80 := by
  simp only [byteAgain, if_true, Bool.or_eq_true, beq_iff_eq, Bool.not_eq_true']
  constructor
  · rintro (rfl | rfl | hesc)
    · decide
    · decide
    · by_contra hno
      rw [shouldEscape_not_ascii hno] at hesc
      cases hesc
  · intro hascii
    rcases h with hp | hblank | hplain
    · exact .inl hp
    · exact .inr (.inl hblank)
    · rw [plainHostByte, decide_eq_false (UInt8.not_le.mpr hascii), Bool.false_or] at hplain
      exact .inr (.inr (by simpa using hplain))

theorem unescapeLiteral_escape {address zone : Bytes} (h : LiteralText address zone) :
    unescapeLiteral (escape .encodeHost (address ++ zone)) =
      if ∀ b ∈ zone, b < 0x80 then some (address ++ zone) else none := by
  have hp : percent ∉ address := fun hm => (h.plain _ hm).1 rfl
  have haddress : unescapeHost false (escape .encodeHost address) = some address :=
    all_byteAgain fun b hb => .inr (h.plain b hb).2
  rw [escape_append, unescapeLiteral, cutZone_escape hp]
  rcases h.start with rfl | ⟨z, rfl⟩
  · have hnil : cutZone (escape .encodeHost []) = none := rfl
    have hall : ∀ b ∈ ([] : Bytes), b < 0x80 := fun b hb => absurd hb not_mem_nil
    rw [hnil, Option.map_none, if_pos hall, append_nil]
    change unescapeHost false (escape .encodeHost address ++ []) = _
    rw [append_nil, haddress]
  · have htext : escape .encodeHost (percent :: z) = lit "%25" ++ escape .encodeHost z := rfl
    have hcut : cutZone (escape .encodeHost (percent :: z)) =
        some ([], escape .encodeHost (percent :: z)) := by
      rw [htext]
      rfl
    have hzone : (percent :: z).all (byteAgain true) = true ↔ ∀ b ∈ percent :: z, b < 0x80 := by
      rw [all_eq_true]
      exact ⟨fun hz b hb => (h.bytes b hb).again_iff.mp (hz b hb),
        fun hz b hb => (h.bytes b hb).again_iff.mpr (hz b hb)⟩
    rw [hcut, Option.map_some, append_nil]
    dsimp only
    rw [haddress, unescapeHost_escape]
    by_cases hascii : ∀ b ∈ percent :: z, b < 0x80
    · rw [if_pos (hzone.mpr hascii), if_pos hascii]
      rfl
    · rw [if_neg (mt hzone.mp hascii), if_neg hascii]
      rfl

theorem dropWhile_percent {address zone port : Bytes} (h : LiteralText address zone)
    (hport : validOptionalPort port = true) :
    (∀ b ∈ (lsquare :: (address ++ zone) ++ rsquare :: port).dropWhile (· ≠ percent), b < 0x80) ↔
      ∀ b ∈ zone, b < 0x80 := by
  have hkeep : ∀ b ∈ lsquare :: address, decide (b ≠ percent) = true := by
    intro b hb
    rcases mem_cons.mp hb with rfl | hb
    · decide
    · exact decide_eq_true (h.plain b hb).1
  have htext : lsquare :: (address ++ zone) ++ rsquare :: port =
      (lsquare :: address) ++ (zone ++ rsquare :: port) := by simp
  obtain ⟨hspelled, hascii, -⟩ := spelled_optionalPort hport
  rw [htext, dropWhile_append_of_pos hkeep]
  rcases h.start with rfl | ⟨z, rfl⟩
  · have hend : ([] ++ rsquare :: port).dropWhile (fun b => decide (b ≠ percent)) = [] := by
      rw [dropWhile_eq_nil_iff]
      intro b hb
      rcases mem_cons.mp hb with rfl | hb
      · decide
      · exact decide_eq_true (hspelled.plainHost b hb).1
    rw [hend]
  · rw [cons_append, dropWhile_cons_of_neg (by simp), ← cons_append, forall_mem_append]
    refine ⟨fun hz => hz.1, fun hz => ⟨hz, ?_⟩⟩
    intro b hb
    rcases mem_cons.mp hb with rfl | hb
    · decide
    · exact hascii b hb

/-- **A host that was read is read again, as it is written, exactly if it is rereadable.** -/
theorem parseHost_escape_iff {R : HostRules} {s h : Bytes} (hs : parseHost R s = some h) :
    parseHost R (escape .encodeHost h) = some h ↔ Rereadable h := by
  obtain ⟨ho1, ho2, ho3, -⟩ := marks (.inl rfl)
  cases hostForm_of_parseHost hs with
  | name hopen hreads hport =>
    have hnot : hasPrefix lsquare h = false := by
      rw [hasPrefix, beq_eq_false_iff_ne]
      exact fun hhead => hopen ((hreads.mem_iff ho1 ho2 ho3).mpr (mem_of_mem_head? hhead))
    refine ⟨fun _ hopen' => ?_, fun _ => parseHost_escape_name hopen hreads hport⟩
    rw [hnot] at hopen'
    cases hopen'
  | @literal address zone port htext hip hport =>
    obtain ⟨-, -, hopenPort, hclose⟩ := spelled_optionalPort hport
    have hfirst : hasPrefix lsquare (lsquare :: (address ++ zone) ++ rsquare :: port) = true := rfl
    have htail : (lsquare :: (address ++ zone) ++ rsquare :: port).tail =
        (address ++ zone) ++ rsquare :: port := rfl
    have hwritten : escape .encodeHost (lsquare :: (address ++ zone) ++ rsquare :: port) =
        lsquare :: (escape .encodeHost (address ++ zone) ++ rsquare :: port) := by
      rw [escape_append, escape_cons_mark (by simp), escape_cons_mark (by simp),
        escape_optionalPort hport, cons_append]
    have hrereadable : Rereadable (lsquare :: (address ++ zone) ++ rsquare :: port) ↔
        lsquare ∉ address ++ zone ∧ ∀ b ∈ zone, b < 0x80 := by
      have hmem : lsquare ∉ (address ++ zone) ++ rsquare :: port ↔ lsquare ∉ address ++ zone := by
        rw [mem_append, not_or, mem_cons, not_or]
        exact ⟨fun h => h.1, fun h => ⟨h, by decide, hopenPort⟩⟩
      unfold Rereadable
      rw [htail, hmem, dropWhile_percent htext hport]
      exact ⟨fun h => h hfirst, fun h _ => h⟩
    rw [hrereadable, hwritten]
    by_cases hopen : lsquare ∈ address ++ zone
    · -- the last opening bracket is not the first byte
      refine ⟨fun h => ?_, fun h => absurd hopen h.1⟩
      obtain ⟨x, y, hxy, hy⟩ : ∃ x y, escape .encodeHost (address ++ zone) ++ rsquare :: port =
          x ++ lsquare :: y ∧ lsquare ∉ y := by
        have hm : lsquare ∈ escape .encodeHost (address ++ zone) ++ rsquare :: port :=
          mem_append_left _ ((mem_escape_iff (by simp) _).mpr hopen)
        cases hcut : cutLast lsquare (escape .encodeHost (address ++ zone) ++ rsquare :: port) with
        | none => exact absurd hm (cutLast_eq_none_iff.mp hcut)
        | some p => exact ⟨p.1, p.2, cutLast_eq_some hcut⟩
      have hcut := cutLast_append hy (lsquare :: x)
      rw [hxy, parseHost, ← cons_append, hcut] at h
      cases h
    · have hnot : lsquare ∉ escape .encodeHost (address ++ zone) ++ rsquare :: port := by
        rw [mem_append, not_or, mem_escape_iff (by simp), mem_cons, not_or]
        exact ⟨hopen, by decide, hopenPort⟩
      have hcut := cutLast_append hnot []
      have hcond : (!validOptionalPort port) = false := by rw [hport, Bool.not_true]
      rw [nil_append] at hcut
      rw [parseHost, hcut]
      dsimp only
      rw [parseLiteral, cutLast_append hclose]
      dsimp only
      rw [hcond, if_neg Bool.false_ne_true, unescapeLiteral_escape htext]
      by_cases hascii : ∀ b ∈ zone, b < 0x80
      · rw [if_pos hascii]
        dsimp only
        rw [if_pos hip]
        exact ⟨fun _ => ⟨hopen, hascii⟩, fun _ => rfl⟩
      · rw [if_neg hascii]
        constructor
        · intro h
          cases h
        · intro h
          exact absurd h.2 hascii

/-! ## 5. User information and authorities -/

theorem validUserinfo_escapeByte (c : UInt8) :
    (escapeByte .encodeUserPassword c).all (fun c => isAlnum c || c ∈ lit "-._:~!$&'()*+,;=%@") =
      true := by
  have hhex : ∀ n < 16, isAlnum (upperHex n) = true := by decide
  have hmarks : ∀ c ∈ lit "-_.~", c ∈ lit "-._:~!$&'()*+,;=%@" := by decide +kernel
  have hreserved : ∀ c ∈ lit "$&+,/:;=?@", c ∈ lit "-._:~!$&'()*+,;=%@" ∨ c = slash ∨ c = question := by
    decide +kernel
  have hpercent : percent ∈ lit "-._:~!$&'()*+,;=%@" := by decide +kernel
  have hlt := c.toNat_lt
  rw [escapeByte, if_neg (by simp)]
  split_ifs with hesc
  · simp only [all_cons, all_nil, hhex _ (show c.toNat / 16 < 16 by omega),
      hhex _ (show c.toNat % 16 < 16 by omega), hpercent, decide_true, Bool.or_true, Bool.true_or,
      Bool.and_self]
  · simp only [all_cons, all_nil, Bool.and_true, Bool.or_eq_true, decide_eq_true_eq]
    unfold shouldEscape at hesc
    split_ifs at hesc with h1 h2 h3 h4 h5
    · exact .inl h1
    · cases h2.1
    · exact .inr (hmarks c h3)
    · rcases hreserved c h4 with h | rfl | rfl
      · exact .inr h
      · exact absurd (by decide) hesc
      · exact absurd (by decide) hesc
    · cases h5.1
    · exact absurd rfl hesc

theorem validUserinfo_escape (s : Bytes) :
    (escape .encodeUserPassword s).all (fun c => isAlnum c || c ∈ lit "-._:~!$&'()*+,;=%@") = true := by
  rw [escape, all_flatMap, all_eq_true]
  exact fun c _ => validUserinfo_escapeByte c

theorem colon_not_mem_escape (s : Bytes) : colon ∉ escape .encodeUserPassword s :=
  not_mem_escape (by decide) (by decide) (by decide) (by decide) s

theorem parseUserinfo_string (ui : Userinfo) : parseUserinfo ui.string = some ui := by
  obtain ⟨username, password⟩ := ui
  have hvalid : validUserinfo (Userinfo.string ⟨username, password⟩) = true := by
    unfold validUserinfo Userinfo.string
    rw [all_append, validUserinfo_escape, Bool.true_and]
    cases password with
    | none => rfl
    | some p =>
      dsimp only
      rw [all_cons, validUserinfo_escape]
      rfl
  rw [parseUserinfo, hvalid]
  simp only [Bool.not_true, Bool.false_eq_true, if_false]
  cases password with
  | none =>
    have htext : Userinfo.string ⟨username, none⟩ = escape .encodeUserPassword username := append_nil _
    rw [htext, cut_eq_none_iff.mpr (colon_not_mem_escape _)]
    dsimp only
    rw [unescape_escape]
    rfl
  | some p =>
    have htext : Userinfo.string ⟨username, some p⟩ =
        escape .encodeUserPassword username ++ colon :: escape .encodeUserPassword p := rfl
    rw [htext, cut_append (colon_not_mem_escape _)]
    dsimp only
    rw [unescape_escape, unescape_escape]
    rfl

end AoniContrib.Go
