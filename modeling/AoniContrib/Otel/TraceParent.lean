/-
# Which headers `ParseTraceParent` accepts: `otel/w3c.go`

The parser looks at fixed offsets: three hyphens, two ids and the flags, and a length of at least 55
bytes, which has to be exact for version 00.  It looks at the two bytes of the version only to
compare them with `ff` and `00`, and never at what is behind the flags.  So an accepted header is a
well-formed `traceparent` exactly if its version is made of hexadecimal digits and its flags are
followed by nothing or by a hyphen (`accepted_wellFormed_iff`); everything else is checked.
-/
import AoniContrib.Otel.Propagation

namespace AoniContrib.Otel

open Go
open List hiding Vector

/-! ## 1. The grammar -/

/-- Digits of an id: hexadecimal, and not all of them zero. -/
def IsID (n : Nat) (s : Bytes) : Prop := s.length = n ∧ (∀ c ∈ s, isHex c = true) ∧ ∃ c ∈ s, c ≠ 0x30

/-- A `traceparent` header without surrounding spaces. -/
structure IsTraceParent (header : Bytes) : Prop where
  parts : ∃ version traceID parentID flags rest,
    header = version ++ hyphen :: (traceID ++ hyphen :: (parentID ++ hyphen :: (flags ++ rest))) ∧
    version.length = 2 ∧ (∀ c ∈ version, isHex c = true) ∧ version ≠ lit "ff" ∧
    IsID 32 traceID ∧ IsID 16 parentID ∧
    flags.length = 2 ∧ (∀ c ∈ flags, isHex c = true) ∧
    (version = lit "00" → rest = []) ∧ (rest = [] ∨ rest.head? = some hyphen)

theorem IsTraceParent.unchecked {t : Bytes} (h : IsTraceParent t) :
    (∀ c ∈ t.take 2, isHex c = true) ∧ (t.length = 55 ∨ t[55]? = some hyphen) := by
  obtain ⟨version, traceID, parentID, flags, rest, heq, hversion, hhex, -, htid, hpid, hflags, -, -,
    htail⟩ := h.parts
  have hassoc : t = (version ++ hyphen :: (traceID ++ hyphen :: (parentID ++ hyphen :: flags))) ++
      rest := by
    simpa using heq
  have hlength : (version ++ hyphen :: (traceID ++ hyphen :: (parentID ++ hyphen :: flags))).length =
      55 := by
    simp [hversion, htid.1, hpid.1, hflags]
  constructor
  · rw [heq, take_left' hversion]
    exact hhex
  · rcases htail with rfl | htail
    · left
      rw [hassoc, append_nil, hlength]
    · right
      rw [hassoc, getElem?_append_right hlength.le, hlength, Nat.sub_self, ← head?_eq_getElem?, htail]

/-! ## 2. The parser -/

variable {H : Hexkit}

theorem isID_of_decode {n : Nat} {s : Bytes} {v : Vector UInt8 n} (h : H.decode n s = some v)
    (hne : v ≠ Vector.replicate n 0) : IsID (2 * n) s := by
  obtain ⟨hlen, hhex, hzero⟩ := H.decode_digits h
  refine ⟨hlen, hhex, ?_⟩
  by_contra hall
  have hdigits : ∀ c ∈ s, c = 0x30 := fun c hc => by_contra fun h => hall ⟨c, hc, h⟩
  have hreplicate := eq_replicate_of_mem (hzero.mpr hdigits)
  exact hne (Vector.toList_inj.mp (by simpa using hreplicate))

theorem parseTraceParent_eq_some {h : Bytes} {sc : SpanContext} (hp : parseTraceParent H h = some sc) :
    let t := trimSpace h
    55 ≤ t.length ∧ t[2]? = some hyphen ∧ t[35]? = some hyphen ∧ t[52]? = some hyphen ∧
      t.take 2 ≠ lit "ff" ∧ (t.take 2 = lit "00" → t.length = 55) ∧
      IsID 32 ((t.drop 3).take 32) ∧ IsID 16 ((t.drop 36).take 16) ∧
      ∃ c1 c2 rest, t.drop 53 = c1 :: c2 :: rest ∧ isHex c1 = true ∧ isHex c2 = true := by
  intro t
  rw [parseTraceParent] at hp
  simp only at hp
  split at hp
  · cases hp
  rename_i hlen
  split at hp
  · cases hp
  rename_i hhyphens
  simp only [not_or, not_not] at hhyphens
  split at hp
  · cases hp
  rename_i hff
  split at hp
  · cases hp
  rename_i hzero
  split at hp
  · cases hp
  rename_i traceID htrace
  split at hp
  · cases hp
  rename_i hvalid
  split at hp
  · cases hp
  rename_i spanID hspan
  split at hp
  · cases hp
  rename_i hvalid'
  split at hp
  · rename_i c1 c2 rest hrest
    split at hp
    · cases hp
    · rename_i flags hflags
      obtain ⟨_, _, h1, h2, -⟩ := hexPair_eq_some hflags
      refine ⟨not_lt.mp hlen, hhyphens.1, hhyphens.2.1, hhyphens.2.2, hff, fun h => ?_,
        isID_of_decode htrace (by simpa [TraceID.isValid] using hvalid),
        isID_of_decode hspan (by simpa [SpanID.isValid] using hvalid'), c1, c2, rest, hrest,
        H.isHex_of_fromHexChar h1, H.isHex_of_fromHexChar h2⟩
      by_contra hne
      exact hzero ⟨h, hne⟩
  · cases hp

theorem drop_of_hyphen {t : Bytes} {i : Nat} (h : t[i]? = some hyphen) :
    t.drop i = hyphen :: t.drop (i + 1) := by
  obtain ⟨hlt, hget⟩ := List.getElem?_eq_some_iff.mp h
  rw [drop_eq_getElem_cons hlt, hget]

/-- **Well-formed headers.**  A header that `ParseTraceParent` accepts is well formed, its surrounding
spaces apart, exactly if the two bytes of its version are hexadecimal digits and nothing or a hyphen
follows its flags. -/
theorem accepted_wellFormed_iff {h : Bytes} {sc : SpanContext} (hp : parseTraceParent H h = some sc) :
    IsTraceParent (trimSpace h) ↔ (∀ c ∈ (trimSpace h).take 2, isHex c = true) ∧
      ((trimSpace h).length = 55 ∨ (trimSpace h)[55]? = some hyphen) := by
  obtain ⟨hlen, h2, h35, h52, hff, hzero, htrace, hspan, c1, c2, rest, h53, hc1, hc2⟩ :=
    parseTraceParent_eq_some hp
  generalize trimSpace h = t at *
  -- the parts by their offsets
  have hsplit : t = t.take 2 ++ hyphen :: ((t.drop 3).take 32 ++ hyphen :: ((t.drop 36).take 16 ++
      hyphen :: ([c1, c2] ++ rest))) := by
    conv_lhs => rw [← take_append_drop 2 t, drop_of_hyphen h2,
      ← take_append_drop 32 (t.drop 3), drop_drop, drop_of_hyphen h35,
      ← take_append_drop 16 (t.drop 36), drop_drop, drop_of_hyphen h52, h53]
    rfl
  have hrest : rest = t.drop 55 := by
    rw [show 55 = 53 + 2 from rfl, ← drop_drop, h53]
    rfl
  refine ⟨IsTraceParent.unchecked, ?_⟩
  rintro ⟨hhex, htail⟩
  refine ⟨t.take 2, _, _, [c1, c2], rest, hsplit, ?_, hhex, hff, htrace, hspan, rfl, ?_, ?_, ?_⟩
  · rw [length_take]
    omega
  · simp [hc1, hc2]
  · intro hv
    rw [hrest, drop_eq_nil_iff, hzero hv]
  · rw [hrest, drop_eq_nil_iff, head?_drop]
    exact htail.imp_left Nat.le_of_eq

/-- The example of the W3C recommendation. -/
theorem accepted_wellFormed_iff_example :
    (parseTraceParent lowerHexkit
        (lit "00-4bf92f3577b34da6a3ce929d0e0e4736-00f067aa0ba902b7-01")).isSome = true ∧
      IsTraceParent (trimSpace (lit "00-4bf92f3577b34da6a3ce929d0e0e4736-00f067aa0ba902b7-01")) := by
  have h : (parseTraceParent lowerHexkit
      (lit "00-4bf92f3577b34da6a3ce929d0e0e4736-00f067aa0ba902b7-01")).isSome = true := by decide
  obtain ⟨sc, hsc⟩ := Option.isSome_iff_exists.mp h
  exact ⟨h, (accepted_wellFormed_iff hsc).mpr ⟨by decide +kernel, .inl (by decide)⟩⟩

/-- **A version that is no number is accepted**, and so is a header that goes on behind its flags. -/
theorem malformed_accepted :
    (parseTraceParent lowerHexkit
        (lit "zz-4bf92f3577b34da6a3ce929d0e0e4736-00f067aa0ba902b7-01")).isSome = true ∧
      ¬ IsTraceParent (trimSpace (lit "zz-4bf92f3577b34da6a3ce929d0e0e4736-00f067aa0ba902b7-01")) ∧
      (parseTraceParent lowerHexkit
        (lit "01-4bf92f3577b34da6a3ce929d0e0e4736-00f067aa0ba902b7-0123")).isSome = true ∧
      ¬ IsTraceParent (trimSpace (lit "01-4bf92f3577b34da6a3ce929d0e0e4736-00f067aa0ba902b7-0123")) :=
  ⟨by decide, fun h => absurd h.unchecked.1 (by decide +kernel), by decide,
    fun h => absurd h.unchecked.2 (by decide)⟩

end AoniContrib.Otel
