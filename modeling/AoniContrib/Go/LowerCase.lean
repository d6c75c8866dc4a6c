/-
# Lower case and white space, rune by rune

`strings.ToLower` works on runes, and `strings.TrimSpace` on the bytes of the white space runes.  Here
both are put in terms of runes: what `AppendRune` writes is read back (`runes_flatMap_encodeRune`),
so lower-casing twice is lower-casing once, and a trimmed text stays trimmed in lower case.  Of the
tables of package `unicode` the two results need the three facts of `LowerCase`.
-/
import AoniContrib.Go.Utf8

namespace AoniContrib.Go

open List

variable {s : Bytes} {r : Nat} {b : UInt8}

/-! ## 1. Runes read back -/

/-- A rune that `AppendRune` writes as itself: within range, and no surrogate. -/
def IsScalar (r : Nat) : Prop := r ≤ 0x10FFFF ∧ ¬ (0xD800 ≤ r ∧ r ≤ 0xDFFF)

theorem Sequence.isScalar {tail : Bytes} (h : Sequence b tail r) : IsScalar r :=
  ⟨h.rune.2.1, h.rune.2.2.1⟩

theorem toNat_toUInt8 {n : Nat} (h : n < 256) : n.toUInt8.toNat = n := by
  simp only [Nat.toUInt8, UInt8.toNat_ofNat']
  omega

theorem exists_sequence (hr : 0x80 ≤ r) (h : IsScalar r) :
    ∃ b tail, encodeRune r = b :: tail ∧ Sequence b tail r := by
  obtain ⟨hmax, hsur⟩ := h
  have hcont : ∀ n : Nat, n < 64 → isCont (0x80 + n).toUInt8 = true := by
    intro n hn
    rw [isCont_iff, toNat_toUInt8 (by omega)]
    omega
  rw [encodeRune, if_neg (by omega)]
  by_cases h2 : r < 0x800
  · refine ⟨_, _, if_pos h2, Eq.subst (motive := Sequence _ _) ?_ (.two ?_ ?_ (hcont _ (by omega)))⟩
    all_goals
      simp (disch := omega) only [UInt8.le_iff_toNat_le, toNat_toUInt8, UInt8.reduceToNat]
      omega
  · have hvalid : ¬ (decide (0x10FFFF < r) || (decide (0xD800 ≤ r) && decide (r ≤ 0xDFFF))) = true := by
      simp only [Bool.or_eq_true, Bool.and_eq_true, decide_eq_true_eq]
      omega
    rw [if_neg h2, if_neg hvalid]
    by_cases h3 : r < 0x10000
    · refine ⟨_, _, if_pos h3, Eq.subst (motive := Sequence _ _) ?_
        (.three ?_ ?_ (hcont _ (by omega)) (hcont _ (by omega)) ?_ ?_)⟩
      all_goals
        simp (disch := omega) only [UInt8.le_iff_toNat_le, ← UInt8.toNat_inj, toNat_toUInt8, UInt8.reduceToNat]
        omega
    · refine ⟨_, _, if_neg h3, Eq.subst (motive := Sequence _ _) ?_
        (.four ?_ ?_ (hcont _ (by omega)) (hcont _ (by omega)) (hcont _ (by omega)) ?_ ?_)⟩
      all_goals
        simp (disch := omega) only [UInt8.le_iff_toNat_le, ← UInt8.toNat_inj, toNat_toUInt8, UInt8.reduceToNat]
        omega

theorem runes_encodeRune_append (h : IsScalar r) (s : Bytes) :
    runes (encodeRune r ++ s) = r :: runes s := by
  by_cases hr : r < 0x80
  · have hnat : r.toUInt8.toNat = r := toNat_toUInt8 (by omega)
    have hlt : r.toUInt8 < 0x80 := by
      rw [UInt8.lt_iff_toNat_lt, hnat]
      exact hr
    rw [encodeRune, if_pos hr, singleton_append, runes_cons_ascii hlt, hnat]
  · obtain ⟨b, tail, he, hseq⟩ := exists_sequence (by omega) h
    rw [he, cons_append, runes_cons, hseq.decodeRune_append, drop_succ_cons, drop_left]

theorem runes_flatMap_encodeRune : ∀ {rs : List Nat}, (∀ r ∈ rs, IsScalar r) →
    runes (rs.flatMap encodeRune) = rs
  | [], _ => rfl
  | r :: rs, h => by
    rw [flatMap_cons, runes_encodeRune_append (h r mem_cons_self),
      runes_flatMap_encodeRune (forall_mem_cons.mp h).2]

theorem isScalar_decodeRune (b : UInt8) (s : Bytes) : IsScalar (decodeRune b s).1 := by
  rcases decodeRune_cases b s with ⟨hb, hd⟩ | ⟨_, _, r, -, hseq, hd⟩ | hd
  · have hlt : b.toNat < 0x80 := hb
    rw [hd]
    exact ⟨by omega, by omega⟩
  · rw [hd]
    exact hseq.isScalar
  · rw [hd]
    exact ⟨by decide, by decide⟩

theorem isScalar_of_mem_runes : ∀ {s : Bytes} {r : Nat}, r ∈ runes s → IsScalar r
  | [], _, h => by cases h
  | b :: s, r, h => by
    rw [runes_cons] at h
    rcases mem_cons.mp h with rfl | h
    · exact isScalar_decodeRune b s
    · exact isScalar_of_mem_runes h
termination_by s => s.length
decreasing_by exact drop_lt b s

theorem encodeRune_decodeRune (h : (decodeRune b s).1 ≠ runeError) :
    encodeRune (decodeRune b s).1 ++ (b :: s).drop (decodeRune b s).2 = b :: s := by
  rcases decodeRune_cases b s with ⟨hb, hd⟩ | ⟨tail, rest, r, rfl, hseq, hd⟩ | hd
  · rw [hd, encodeRune_ascii b hb]
    rfl
  · rw [hd, hseq.rune.2.2.2, drop_succ_cons, drop_left, cons_append]
  · exact absurd (by rw [hd]) h

theorem encodeRune_initial (h : (runes s).head? = some r) (hr : r ≠ runeError) :
    encodeRune r <+: s := by
  cases s with
  | nil => cases h
  | cons b s =>
    rw [runes_cons] at h
    obtain rfl := Option.some.inj h
    exact ⟨_, encodeRune_decodeRune hr⟩

theorem encodeRune_final : ∀ {s : Bytes} {r : Nat}, (runes s).getLast? = some r → r ≠ runeError →
    encodeRune r <:+ s
  | [], _, h, _ => by cases h
  | b :: s, r, h, hr => by
    rw [runes_cons] at h
    by_cases hd : (b :: s).drop (decodeRune b s).2 = []
    · rw [hd] at h
      have hfirst : (decodeRune b s).1 = r := Option.some.inj h
      have hall := encodeRune_decodeRune (hfirst ▸ hr)
      rw [hd, append_nil, hfirst] at hall
      rw [hall]
    · have hne : runes ((b :: s).drop (decodeRune b s).2) ≠ [] := by
        cases hc : (b :: s).drop (decodeRune b s).2 with
        | nil => exact absurd hc hd
        | cons c t => rw [runes_cons]; exact cons_ne_nil _ _
      have hlast : (runes ((b :: s).drop (decodeRune b s).2)).getLast? = some r := by
        rw [← h]
        exact (getLast?_append_of_ne_nil [_] hne).symm
      exact (encodeRune_final hlast hr).trans (drop_suffix _ _)
termination_by s => s.length
decreasing_by exact drop_lt b s

theorem encodeRune_shape (h : IsScalar r) :
    ∃ b tail, encodeRune r = b :: tail ∧ isCont b = false ∧ ∀ c ∈ tail, isCont c = true := by
  by_cases hr : r < 0x80
  · refine ⟨r.toUInt8, [], by rw [encodeRune, if_pos hr], ?_, by simp⟩
    rw [Bool.eq_false_iff, Ne, isCont_iff, toNat_toUInt8 (by omega)]
    omega
  · obtain ⟨b, tail, he, hseq⟩ := exists_sequence (by omega) h
    refine ⟨b, tail, he, ?_⟩
    have hlead : ∀ {b : UInt8}, 0xC2 ≤ b → isCont b = false := by
      intro b hb
      rw [UInt8.le_iff_toNat_le] at hb
      have hb : 0xC2 ≤ b.toNat := hb
      rw [Bool.eq_false_iff, Ne, isCont_iff]
      omega
    cases hseq with
    | two h0 _ h1 => exact ⟨hlead h0, by simp [h1]⟩
    | three h0 _ h1 h2 => exact ⟨hlead (UInt8.le_trans (by decide) h0), by simp [h1, h2]⟩
    | four h0 _ h1 h2 h3 => exact ⟨hlead (UInt8.le_trans (by decide) h0), by simp [h1, h2, h3]⟩

theorem eq_of_encodeRune_final {x : Nat} (hx : IsScalar x) (hr : IsScalar r)
    (h₁ : encodeRune x <:+ s) (h₂ : encodeRune r <:+ s) : x = r := by
  have hcore : ∀ {x r : Nat}, IsScalar x → IsScalar r → encodeRune x <:+ encodeRune r → x = r := by
    intro x r hx hr h
    have hread := runes_encodeRune_append hx []
    obtain ⟨b, tail, he, hb, -⟩ := encodeRune_shape hx
    obtain ⟨c, tail', he', -, hc⟩ := encodeRune_shape hr
    rw [he, he'] at h
    rcases suffix_cons_iff.mp h with heq | hsuf
    · rw [he, heq, ← he', runes_encodeRune_append hr] at hread
      exact (List.cons.inj hread).1.symm
    · have hcont := hc b (hsuf.subset mem_cons_self)
      rw [hb] at hcont
      cases hcont
  rcases suffix_or_suffix_of_suffix h₁ h₂ with h | h
  · exact hcore hx hr h
  · exact (hcore hr hx h).symm

/-! ## 2. White space -/

/-- `unicode.IsSpace`. -/
def isSpaceRune (r : Nat) : Bool :=
  (0x09 ≤ r && r ≤ 0x0d) || r == 0x20 || r == 0x85 || r == 0xA0 || r == 0x1680 ||
    (0x2000 ≤ r && r ≤ 0x200a) || r == 0x2028 || r == 0x2029 || r == 0x202f || r == 0x205f ||
    r == 0x3000

theorem Blank.exists_rune {w : Bytes} (h : Blank w) :
    ∃ r, IsScalar r ∧ isSpaceRune r = true ∧ encodeRune r = w := by
  cases h with
  | @one b hb =>
    have hcases : b = 0x20 ∨ b = 0x09 ∨ b = 0x0a ∨ b = 0x0b ∨ b = 0x0c ∨ b = 0x0d := by
      grind [isSpace]
    refine ⟨b.toNat, ?_⟩
    rcases hcases with rfl | rfl | rfl | rfl | rfl | rfl
    all_goals exact ⟨⟨by decide, by decide⟩, by decide, by decide⟩
  | @two b c h =>
    simp only [Bool.and_eq_true, Bool.or_eq_true, beq_iff_eq] at h
    obtain ⟨rfl, rfl | rfl⟩ := h
    · exact ⟨0x85, ⟨by decide, by decide⟩, by decide, by decide⟩
    · exact ⟨0xA0, ⟨by decide, by decide⟩, by decide, by decide⟩
  | @three b c d h =>
    simp only [Bool.and_eq_true, Bool.or_eq_true, beq_iff_eq, decide_eq_true_eq] at h
    rcases h with ((⟨⟨rfl, rfl⟩, rfl⟩ | ⟨⟨rfl, rfl⟩, hd⟩) | ⟨⟨rfl, rfl⟩, rfl⟩) | ⟨⟨rfl, rfl⟩, rfl⟩
    · exact ⟨0x1680, ⟨by decide, by decide⟩, by decide, by decide⟩
    · refine ⟨0x2000 + (d.toNat - 0x80), ?_⟩
      have hnat : 0x80 ≤ d.toNat ∧ d.toNat ≤ 0x8A ∨ d.toNat = 0xA8 ∨ d.toNat = 0xA9 ∨
          d.toNat = 0xAF := by
        rcases hd with ((⟨h1, h2⟩ | rfl) | rfl) | rfl
        · exact .inl ⟨h1, h2⟩
        · exact .inr (.inl rfl)
        · exact .inr (.inr (.inl rfl))
        · exact .inr (.inr (.inr rfl))
      refine ⟨⟨by omega, by omega⟩, ?_, ?_⟩
      · simp only [Go.isSpaceRune, Bool.and_eq_true, Bool.or_eq_true, beq_iff_eq, decide_eq_true_eq]
        omega
      · rw [encodeRune, if_neg (by omega), if_neg (by omega),
          if_neg (by simp only [Bool.or_eq_true, Bool.and_eq_true, decide_eq_true_eq]; omega),
          if_pos (by omega)]
        simp only [List.cons.injEq, and_true, ← UInt8.toNat_inj, Nat.toUInt8, UInt8.toNat_ofNat',
          UInt8.reduceToNat]
        omega
    · exact ⟨0x205f, ⟨by decide, by decide⟩, by decide, by decide⟩
    · exact ⟨0x3000, ⟨by decide, by decide⟩, by decide, by decide⟩

theorem blank_encodeRune (h : isSpaceRune r = true) : Blank (encodeRune r) := by
  simp only [isSpaceRune, Bool.and_eq_true, Bool.or_eq_true, beq_iff_eq, decide_eq_true_eq] at h
  have hcases : r ∈ [0x09, 0x0a, 0x0b, 0x0c, 0x0d, 0x20] ∨ r ∈ [0x85, 0xA0] ∨
      r ∈ [0x1680, 0x2000, 0x2001, 0x2002, 0x2003, 0x2004, 0x2005, 0x2006, 0x2007, 0x2008, 0x2009,
        0x200a, 0x2028, 0x2029, 0x202f, 0x205f, 0x3000] := by
    simp only [mem_cons, not_mem_nil, or_false]
    omega
  rcases hcases with h | h | h
  · have hall : ∀ r ∈ [0x09, 0x0a, 0x0b, 0x0c, 0x0d, 0x20],
        encodeRune r = [r.toUInt8] ∧ isSpace r.toUInt8 = true := by decide
    rw [(hall r h).1]
    exact .one (hall r h).2
  · simp only [mem_cons, not_mem_nil, or_false] at h
    rcases h with rfl | rfl
    · exact .two (b := 0xC2) (c := 0x85) (by decide)
    · exact .two (b := 0xC2) (c := 0xA0) (by decide)
  · simp only [mem_cons, not_mem_nil, or_false] at h
    rcases h with rfl | rfl | rfl | rfl | rfl | rfl | rfl | rfl | rfl | rfl | rfl | rfl | rfl |
      rfl | rfl | rfl | rfl
    all_goals exact .three (by decide)

/-- **A text needs no trimming on the right** when no white space rune ends it. -/
theorem trimRightSpace_eq_self_iff : trimRightSpace s = s ↔ ∀ w, Blank w → ¬ w <:+ s := by
  have hrev : trimRightSpace s = s ↔ trimRightRev s.reverse = s.reverse := by
    rw [trimRightSpace, ← reverse_inj, reverse_reverse]
  rw [hrev, trims_right.eq_self_iff]
  refine ⟨fun h w hw => ?_, fun h w hw => ?_⟩
  · have hno := h w.reverse (by rwa [reverse_reverse])
    exact mt reverse_prefix.mpr hno
  · rw [← reverse_suffix, reverse_reverse]
    exact h w.reverse hw

theorem trimSpace_eq_self_iff : trimSpace s = s ↔ trimLeftSpace s = s ∧ trimRightSpace s = s := by
  constructor
  · intro h
    have hleft := trimLeftSpace_trimSpace s
    rw [h] at hleft
    refine ⟨hleft, ?_⟩
    rw [trimSpace, hleft] at h
    exact h
  · rintro ⟨hleft, hright⟩
    rw [trimSpace, hleft, hright]

theorem trimLeftSpace_append_cons {n : Bytes} (hb : isSolid b = true)
    (h : trimLeftSpace n = n) (x : Bytes) : trimLeftSpace (n ++ b :: x) = n ++ b :: x := by
  rw [trims_left.append_cons (not_mem_blank hb), h]

theorem trimRightSpace_append_cons {n : Bytes} (hb : isSolid b = true)
    (h : trimRightSpace n = n) (x : Bytes) : trimRightSpace (x ++ b :: n) = x ++ b :: n := by
  rw [trimRightSpace_append hb, h]

theorem mem_trimSpace_iff (hb : isSolid b = true) : b ∈ trimSpace s ↔ b ∈ s := by
  rw [trimSpace, trimRightSpace, mem_reverse, trims_right.mem_iff (not_mem_blank_reverse hb),
    mem_reverse, trims_left.mem_iff (not_mem_blank hb)]

/-! ## 3. Lower case -/

/-- What the tables of package `unicode` say of lower case: the lower case of a rune is a rune, has
no other lower case, and is white space only for white space. -/
structure LowerCase (U : Unicode) : Prop where
  scalar : ∀ r, IsScalar r → IsScalar (U.lower r)
  idem : ∀ r, IsScalar r → U.lower (U.lower r) = U.lower r
  blank : ∀ r, IsScalar r → isSpaceRune (U.lower r) = true → isSpaceRune r = true

theorem lowerCase_ascii : LowerCase .ascii where
  scalar r h := by
    simp only [Unicode.ascii, IsScalar, Bool.and_eq_true, decide_eq_true_eq] at h ⊢
    split_ifs <;> omega
  idem r _ := by
    simp only [Unicode.ascii, Bool.and_eq_true, decide_eq_true_eq]
    split_ifs <;> omega
  blank r _ h := by
    simp only [Unicode.ascii, isSpaceRune, Bool.and_eq_true, Bool.or_eq_true, beq_iff_eq,
      decide_eq_true_eq] at h ⊢
    split_ifs at h <;> omega

section
variable {U : Unicode} (hU : LowerCase U)
include hU

theorem runes_toLower (s : Bytes) : runes (toLower U s) = (runes s).map U.lower := by
  have hflat : toLower U s = ((runes s).map U.lower).flatMap encodeRune := by
    rw [toLower, flatMap_map]
  rw [hflat]
  refine runes_flatMap_encodeRune fun x hx => ?_
  obtain ⟨r, hr, rfl⟩ := mem_map.mp hx
  exact hU.scalar r (isScalar_of_mem_runes hr)

theorem LowerCase.toLower_toLower (s : Bytes) : toLower U (toLower U s) = toLower U s := by
  rw [toLower, runes_toLower hU, flatMap_map, toLower]
  exact flatMap_congr fun r hr => by rw [hU.idem r (isScalar_of_mem_runes hr)]

theorem LowerCase.trimSpace_toLower (h : trimSpace s = s) : trimSpace (toLower U s) = toLower U s := by
  have herror : isSpaceRune runeError = false := by decide
  have hne : ∀ {r : Nat}, isSpaceRune r = true → r ≠ runeError := by
    rintro r hr rfl
    rw [herror] at hr
    cases hr
  obtain ⟨hleft, hright⟩ := trimSpace_eq_self_iff.mp h
  rw [trims_left.eq_self_iff] at hleft
  rw [trimRightSpace_eq_self_iff] at hright
  refine trimSpace_eq_self_iff.mpr ⟨trims_left.eq_self_iff.mpr ?_, trimRightSpace_eq_self_iff.mpr ?_⟩
  · rintro w hw ⟨t, ht⟩
    obtain ⟨r, hscalar, hspace, rfl⟩ := hw.exists_rune
    have hrunes := runes_toLower hU s
    rw [← ht, runes_encodeRune_append hscalar] at hrunes
    obtain ⟨r₀, hr₀, hlow⟩ : ∃ r₀, (runes s).head? = some r₀ ∧ U.lower r₀ = r := by
      cases hs : runes s with
      | nil => rw [hs] at hrunes; cases hrunes
      | cons r₀ rs =>
        rw [hs] at hrunes
        exact ⟨r₀, rfl, (List.cons.inj hrunes).1.symm⟩
    have hblank := hU.blank r₀ (isScalar_of_mem_runes (mem_of_head? hr₀)) (hlow ▸ hspace)
    exact hleft _ (blank_encodeRune hblank) (encodeRune_initial hr₀ (hne hblank))
  · rintro w hw hsuf
    obtain ⟨r, hscalar, hspace, rfl⟩ := hw.exists_rune
    rcases eq_nil_or_concat (runes s) with hs | ⟨rs, r₀, hs⟩
    · rw [toLower, hs] at hsuf
      exact trims_left.ne_nil hw (suffix_nil.mp hsuf)
    · rw [concat_eq_append] at hs
      have hlast : (runes s).getLast? = some r₀ := by rw [hs, getLast?_concat]
      have hscalar₀ : IsScalar r₀ := isScalar_of_mem_runes (mem_of_getLast? hlast)
      have hend : encodeRune (U.lower r₀) <:+ toLower U s := by
        rw [toLower, hs, flatMap_append, flatMap_singleton]
        exact suffix_append _ _
      have hlow := eq_of_encodeRune_final (hU.scalar r₀ hscalar₀) hscalar hend hsuf
      have hblank := hU.blank r₀ hscalar₀ (hlow ▸ hspace)
      exact hright _ (blank_encodeRune hblank) (encodeRune_final hlast (hne hblank))

end

end AoniContrib.Go
