/-
# Trace context in headers: `Inject` and `Extract`

`Inject` writes the `traceparent` header of the active span, and its `tracestate` header if it has
one.  It writes nothing where the span has no tracestate, so a tracestate that the carrier already held
stays there, and `Extract` attaches it to the new trace.  The ids and flags always survive, and the
whole context does exactly if the span has a tracestate or the carrier has none
(`context_survives_iff`).
-/
import AoniContrib.Go.Http
import AoniContrib.Go.Quote
import AoniContrib.Otel.Span

namespace AoniContrib.Otel

open Go
open List hiding Vector

/-! ## 1. Hexadecimal digits: `hexkit` -/

def isHex (c : UInt8) : Bool := (unhex c).isSome

/-- What is used of `hexkit`, a package outside the repository: it writes two hexadecimal digits for
each byte, and reads exactly the hexadecimal digits. -/
structure Hexkit where
  encode : Bytes → Bytes
  /-- `Decode32` and `Decode16`, by the number of bytes that the digits are for. -/
  decode (n : Nat) : Bytes → Option (Vector UInt8 n)
  fromHexChar : UInt8 → Option Nat
  encode_digits : ∀ bs, (encode bs).length = 2 * bs.length ∧ ∀ c ∈ encode bs, isHex c = true
  encode_byte : ∀ b, (encode [b]).map fromHexChar = [some (b.toNat / 16), some (b.toNat % 16)]
  decode_encode : ∀ {n} (v : Vector UInt8 n), decode n (encode v.toList) = some v
  decode_digits : ∀ {n s v}, decode n s = some v → s.length = 2 * n ∧ (∀ c ∈ s, isHex c = true) ∧
    ((∀ b ∈ v.toList, b = 0) ↔ ∀ c ∈ s, c = 0x30)
  isHex_of_fromHexChar : ∀ {c d}, fromHexChar c = some d → isHex c = true

/-- The byte of two digits that are read one by one. -/
def hexPair (fromHexChar : UInt8 → Option Nat) (d e : UInt8) : Option UInt8 :=
  match fromHexChar d, fromHexChar e with
  | some hi, some lo => some (hi * 16 + lo).toUInt8
  | _, _ => none

/-! ### The digits of `lowerHex` -/

def encodeHex : Bytes → Bytes
  | [] => []
  | b :: bs => lowerHex (b.toNat / 16) :: lowerHex (b.toNat % 16) :: encodeHex bs

def decodeHex : Bytes → Option Bytes
  | [] => some []
  | d :: e :: s =>
    match hexPair unhex d e, decodeHex s with
    | some b, some bs => some (b :: bs)
    | _, _ => none
  | [_] => none

def decodeID (n : Nat) (s : Bytes) : Option (Vector UInt8 n) :=
  match decodeHex s with
  | none => none
  | some bs => if h : bs.length = n then some ⟨bs.toArray, by simpa using h⟩ else none

theorem unhex_digits (b : UInt8) : unhex (lowerHex (b.toNat / 16)) = some (b.toNat / 16) ∧
    unhex (lowerHex (b.toNat % 16)) = some (b.toNat % 16) := by
  have hb := b.toNat_lt
  exact ⟨unhex_lowerHex _ (by omega), unhex_lowerHex _ (by omega)⟩

theorem encodeHex_digits (bs : Bytes) :
    (encodeHex bs).length = 2 * bs.length ∧ ∀ c ∈ encodeHex bs, isHex c = true := by
  induction bs with
  | nil => simp [encodeHex]
  | cons b bs ih =>
    obtain ⟨hhi, hlo⟩ := unhex_digits b
    refine ⟨by simp only [encodeHex, length_cons, ih.1]; omega, ?_⟩
    simpa [encodeHex, isHex, hhi, hlo] using ih.2

theorem hexPair_of_digits {read : UInt8 → Option Nat} {b d e : UInt8}
    (hd : read d = some (b.toNat / 16)) (he : read e = some (b.toNat % 16)) :
    hexPair read d e = some b := by
  have hsum : b.toNat / 16 * 16 + b.toNat % 16 = b.toNat := by omega
  simp only [hexPair, hd, he, hsum, Nat.toUInt8_eq, UInt8.ofNat_toNat]

theorem decodeHex_encodeHex (bs : Bytes) : decodeHex (encodeHex bs) = some bs := by
  induction bs with
  | nil => rfl
  | cons b bs ih =>
    obtain ⟨hhi, hlo⟩ := unhex_digits b
    simp only [encodeHex, decodeHex, hexPair_of_digits hhi hlo, ih]

theorem decodeID_encodeHex {n : Nat} (v : Vector UInt8 n) :
    decodeID n (encodeHex v.toList) = some v := by
  rw [decodeID, decodeHex_encodeHex]
  simp [Vector.toList]

theorem unhex_eq_zero_iff {c : UInt8} : unhex c = some 0 ↔ c = 0x30 := by
  constructor
  · intro h
    simp only [unhex, Bool.and_eq_true, decide_eq_true_eq, UInt8.le_iff_toNat_le,
      UInt8.reduceToNat] at h
    rw [← UInt8.toNat_inj]
    split_ifs at h <;> simp only [Option.some.injEq] at h <;> simp <;> omega
  · rintro rfl
    rfl

theorem hexPair_eq_some {read : UInt8 → Option Nat} {d e b : UInt8} (h : hexPair read d e = some b) :
    ∃ hi lo, read d = some hi ∧ read e = some lo ∧ (hi * 16 + lo).toUInt8 = b := by
  unfold hexPair at h
  split at h
  · rename_i hd he
    exact ⟨_, _, hd, he, Option.some.inj h⟩
  · cases h

theorem decodeHex_eq_some : ∀ {s bs : Bytes}, decodeHex s = some bs →
    s.length = 2 * bs.length ∧ (∀ c ∈ s, isHex c = true) ∧ ((∀ b ∈ bs, b = 0) ↔ ∀ c ∈ s, c = 0x30)
  | [], bs, h => by
    cases h
    simp
  | [_], bs, h => by cases h
  | d :: e :: s, bs, h => by
    rw [decodeHex] at h
    cases hpair : hexPair unhex d e with
    | none => simp [hpair] at h
    | some b =>
      cases hrest : decodeHex s with
      | none => simp [hpair, hrest] at h
      | some bs' =>
        simp only [hpair, hrest, Option.some.injEq] at h
        subst h
        obtain ⟨hlen, hhex, hzero⟩ := decodeHex_eq_some hrest
        obtain ⟨hi, lo, hd, he, rfl⟩ := hexPair_eq_some hpair
        have hb : (hi * 16 + lo).toUInt8 = 0 ↔ d = 0x30 ∧ e = 0x30 := by
          rw [← unhex_eq_zero_iff, ← unhex_eq_zero_iff, hd, he, ← UInt8.toNat_inj, toNat_hexByte hd he]
          simp
        refine ⟨by simp only [length_cons, hlen]; omega, ?_, ?_⟩
        · simpa [isHex, hd, he] using hhex
        · rw [forall_mem_cons, forall_mem_cons, forall_mem_cons, hb, hzero, and_assoc]

theorem decodeID_digits {n : Nat} {s : Bytes} {v : Vector UInt8 n} (h : decodeID n s = some v) :
    s.length = 2 * n ∧ (∀ c ∈ s, isHex c = true) ∧
      ((∀ b ∈ v.toList, b = 0) ↔ ∀ c ∈ s, c = 0x30) := by
  unfold decodeID at h
  cases hdecode : decodeHex s with
  | none => simp [hdecode] at h
  | some bs =>
    simp only [hdecode] at h
    split at h
    · rename_i hbs
      cases h
      simpa [Vector.toList, hbs] using decodeHex_eq_some hdecode
    · cases h

/-- `hexkit` with lower-case digits. -/
def lowerHexkit : Hexkit where
  encode := encodeHex
  decode := decodeID
  fromHexChar := unhex
  encode_digits := encodeHex_digits
  encode_byte b := by simp [encodeHex, unhex_digits b]
  decode_encode := decodeID_encodeHex
  decode_digits := decodeID_digits
  isHex_of_fromHexChar h := Option.isSome_of_eq_some h

/-! ## 2. `TraceParent` and `ParseTraceParent` -/

def hyphen : UInt8 := 0x2d

section
variable (H : Hexkit)

def SpanContext.traceParent (sc : SpanContext) : Bytes :=
  if !sc.isValid then []
  else
    lit "00-" ++ (H.encode sc.traceID.toList ++ (lit "-" ++ (H.encode sc.spanID.toList ++
      (lit "-" ++ H.encode [sc.traceFlags]))))

/-- `ParseTraceParent`; every error is `ErrInvalidTraceParent`. -/
def parseTraceParent (header : Bytes) : Option SpanContext :=
  let header := trimSpace header
  if header.length < 55 then none
  else if header[2]? ≠ some hyphen ∨ header[35]? ≠ some hyphen ∨ header[52]? ≠ some hyphen then none
  else
    let version := header.take 2
    if version = lit "ff" then none
    else if version = lit "00" ∧ header.length ≠ 55 then none
    else
      match H.decode 16 ((header.drop 3).take 32) with
      | none => none
      | some traceID =>
        if !TraceID.isValid traceID then none
        else
          match H.decode 8 ((header.drop 36).take 16) with
          | none => none
          | some spanID =>
            if !SpanID.isValid spanID then none
            else
              match header.drop 53 with
              | c1 :: c2 :: _ =>
                match hexPair H.fromHexChar c1 c2 with
                | none => none
                | some traceFlags => some { traceID, spanID, traceFlags, remote := true }
              | _ => none

theorem parseTraceParent_parts {tid sid : Bytes} {c1 c2 : UInt8} (htid : tid.length = 32)
    (hsid : sid.length = 16) (hend : isSolid c2 = true) :
    parseTraceParent H (lit "00-" ++ (tid ++ (lit "-" ++ (sid ++ (lit "-" ++ [c1, c2]))))) =
      match H.decode 16 tid with
      | none => none
      | some traceID =>
        if !TraceID.isValid traceID then none
        else
          match H.decode 8 sid with
          | none => none
          | some spanID =>
            if !SpanID.isValid spanID then none
            else
              match hexPair H.fromHexChar c1 c2 with
              | none => none
              | some traceFlags => some { traceID, spanID, traceFlags, remote := true } := by
  have hlit3 : (lit "00-").length = 3 := rfl
  have hlit1 : (lit "-").length = 1 := rfl
  generalize hheader : lit "00-" ++ (tid ++ (lit "-" ++ (sid ++ (lit "-" ++ [c1, c2])))) = header
  have htrim : trimSpace header = header := by
    rw [← hheader]
    refine trimSpace_solid (fun b hb => ?_) (fun b hb => ?_)
    · obtain rfl : (0x30 : UInt8) = b := Option.some.inj hb
      rfl
    · simp only [getLast?_append, getLast?_cons_cons, getLast?_singleton,
        Option.some_or, Option.some.injEq] at hb
      exact hb ▸ hend
  have hlen : header.length = 55 := by
    rw [← hheader]
    simp only [length_append, hlit3, hlit1, htid, hsid, length_cons, length_nil]
  -- the six parts lie at their offsets
  have h3 : header.drop 3 = tid ++ (lit "-" ++ (sid ++ (lit "-" ++ [c1, c2]))) := by
    rw [← hheader, drop_left' hlit3]
  have h35 : header.drop 35 = lit "-" ++ (sid ++ (lit "-" ++ [c1, c2])) := by
    rw [show 35 = 3 + 32 from rfl, ← drop_drop, h3, drop_left' htid]
  have h36 : header.drop 36 = sid ++ (lit "-" ++ [c1, c2]) := by
    rw [show 36 = 35 + 1 from rfl, ← drop_drop, h35, drop_left' hlit1]
  have h52 : header.drop 52 = lit "-" ++ [c1, c2] := by
    rw [show 52 = 36 + 16 from rfl, ← drop_drop, h36, drop_left' hsid]
  have h53 : header.drop 53 = [c1, c2] := by
    rw [show 53 = 52 + 1 from rfl, ← drop_drop, h52, drop_left' hlit1]
  have hat : ∀ {i : Nat} {rest : Bytes}, header.drop i = lit "-" ++ rest →
      header[i]? = some hyphen := by
    intro i rest h
    rw [← Nat.add_zero i, ← getElem?_drop, h]
    rfl
  have hhyphen2 : header[2]? = some hyphen := by
    rw [← hheader]
    rfl
  have hversion : header.take 2 = lit "00" := by
    rw [← hheader]
    rfl
  simp only [parseTraceParent, htrim, hlen, hhyphen2, hat h35, hat h52, hversion, h3, h36, h53,
    take_left' htid, take_left' hsid, lt_irrefl, if_false, ne_eq, not_true_eq_false,
    or_self, and_false]
  rw [if_neg (by decide)]

theorem isSolid_of_isHex {c : UInt8} (h : isHex c = true) : isSolid c = true := by
  grind [isHex, unhex, isSolid, isSpace]

/-- **The header of a valid context parses to its ids and flags.** -/
theorem parseTraceParent_traceParent {sc : SpanContext} (h : sc.isValid = true) :
    parseTraceParent H (sc.traceParent H) = some { sc with traceState := [], remote := true } := by
  obtain ⟨htrace, hspan⟩ := Bool.and_eq_true_iff.mp h
  -- the flags are written with two digits, and these are read one by one
  obtain ⟨c1, c2, hflags⟩ := length_eq_two.mp (H.encode_digits [sc.traceFlags]).1
  have hread := H.encode_byte sc.traceFlags
  have hsolid := (H.encode_digits [sc.traceFlags]).2 c2 (by simp [hflags])
  simp only [hflags, map_cons, map_nil, cons.injEq, and_true] at hread
  rw [SpanContext.traceParent, h, Bool.not_true, if_neg (by decide), hflags,
    parseTraceParent_parts H (by rw [(H.encode_digits _).1, Vector.length_toList])
      (by rw [(H.encode_digits _).1, Vector.length_toList]) (isSolid_of_isHex hsolid)]
  simp only [H.decode_encode, htrace, hspan, hexPair_of_digits hread.1 hread.2, Bool.not_true,
    Bool.false_eq_true, if_false]

end

/-! ## 3. Carriers -/

def headerTraceParent : Bytes := lit "traceparent"
def headerTraceState : Bytes := lit "tracestate"

/-- A `TextMapCarrier` for headers: it returns what was set, and the two headers are not one. -/
structure TextMapCarrier (γ : Type*) where
  get : γ → Bytes → Bytes
  set : γ → Bytes → Bytes → γ
  get_set : ∀ c key value, get (set c key value) key = value
  get_set_parent : ∀ c value, get (set c headerTraceState value) headerTraceParent =
    get c headerTraceParent
  get_set_state : ∀ c value, get (set c headerTraceParent value) headerTraceState =
    get c headerTraceState

def httpHeaderCarrier : TextMapCarrier Header where
  get := Header.get
  set := Header.set
  get_set := Header.get_set_same
  get_set_parent := Header.get_set_of_ne (by decide)
  get_set_state := Header.get_set_of_ne (by decide)

section
variable {γ : Type*} (K : TextMapCarrier γ) (H : Hexkit)

/-- `Inject`, by the context of the active span. -/
def inject (span : Option SpanContext) (carrier : γ) : γ :=
  match span with
  | none => carrier
  | some sc =>
    if !sc.isValid then carrier
    else
      let carrier := K.set carrier headerTraceParent (sc.traceParent H)
      if sc.traceState ≠ [] then K.set carrier headerTraceState sc.traceState else carrier

def extract (carrier : γ) : Option SpanContext :=
  let parentHeader := K.get carrier headerTraceParent
  if parentHeader = [] then none
  else
    match parseTraceParent H parentHeader with
    | none => none
    | some sc =>
      let stateHeader := K.get carrier headerTraceState
      if stateHeader ≠ [] then some { sc with traceState := stateHeader } else some sc

section
variable {sc : SpanContext} (h : sc.isValid = true)
include h

theorem get_inject (carrier : γ) :
    K.get (inject K H (some sc) carrier) headerTraceParent = sc.traceParent H ∧
      K.get (inject K H (some sc) carrier) headerTraceState =
        if sc.traceState ≠ [] then sc.traceState else K.get carrier headerTraceState := by
  simp only [inject, h, Bool.not_true, Bool.false_eq_true, if_false]
  split_ifs with hstate
  · rw [K.get_set_parent, K.get_set, K.get_set]
    exact ⟨rfl, rfl⟩
  · rw [K.get_set, K.get_set_state]
    exact ⟨rfl, rfl⟩

theorem traceParent_ne_nil : sc.traceParent H ≠ [] := by
  rw [SpanContext.traceParent, h, Bool.not_true, if_neg (by decide)]
  exact append_ne_nil_of_left_ne_nil (by decide) _

theorem extract_inject (carrier : γ) : extract K H (inject K H (some sc) carrier) = some { sc with
      traceState := if sc.traceState ≠ [] then sc.traceState else K.get carrier headerTraceState
      remote := true } := by
  obtain ⟨hparent, hstate⟩ := get_inject K H h carrier
  rw [extract, hparent, hstate]
  simp only [if_neg (traceParent_ne_nil H h), parseTraceParent_traceParent H h]
  split_ifs with hown hold
  · rfl
  · rfl
  · rw [not_not.mp hold]

end

/-- **Trace context survives propagation exactly if no foreign tracestate is left behind.**  The ids
and flags always come back. -/
theorem context_survives_iff {sc : SpanContext} (h : sc.isValid = true) (carrier : γ) :
    (∃ sc', extract K H (inject K H (some sc) carrier) = some sc' ∧ sc'.traceID = sc.traceID ∧
      sc'.spanID = sc.spanID ∧ sc'.traceFlags = sc.traceFlags ∧ sc'.traceState = sc.traceState) ↔
      sc.traceState ≠ [] ∨ K.get carrier headerTraceState = [] := by
  rw [extract_inject K H h]
  constructor
  · rintro ⟨sc', hsc', -, -, -, hstate⟩
    obtain rfl := Option.some.inj hsc'
    by_cases hown : sc.traceState = []
    · right
      simpa [hown] using hstate
    · exact .inl hown
  · intro hcond
    refine ⟨_, rfl, rfl, rfl, rfl, ?_⟩
    by_cases hown : sc.traceState = []
    · simpa [hown] using hcond
    · exact if_pos hown

end

/-! ## 4. A carrier that is used again -/

def ownContext (traceState : Bytes) : SpanContext where
  traceID := Vector.replicate 16 1
  spanID := Vector.replicate 8 2
  traceFlags := 1
  traceState

def usedHeader : Header := Header.empty.set headerTraceState (lit "vendor=other")

theorem context_survives_iff_vendor : ∃ sc', extract httpHeaderCarrier lowerHexkit (inject
        httpHeaderCarrier lowerHexkit (some (ownContext (lit "vendor=own"))) usedHeader) = some sc' ∧
      sc'.traceID = Vector.replicate 16 1 ∧ sc'.spanID = Vector.replicate 8 2 ∧
      sc'.traceFlags = 1 ∧ sc'.traceState = lit "vendor=own" :=
  (context_survives_iff httpHeaderCarrier lowerHexkit
    (show (ownContext (lit "vendor=own")).isValid = true by decide) usedHeader).mpr (.inl (by decide))

/-- A span without tracestate goes out with the tracestate of the other trace. -/
theorem foreign_tracestate_attached : (ownContext []).isValid = true ∧
    (extract httpHeaderCarrier lowerHexkit (inject httpHeaderCarrier lowerHexkit (some (ownContext []))
      usedHeader)).map (·.traceState) = some (lit "vendor=other") := by
  have hvalid : (ownContext []).isValid = true := by decide
  have hstate : httpHeaderCarrier.get usedHeader headerTraceState = lit "vendor=other" :=
    Header.get_set_same Header.empty headerTraceState (lit "vendor=other")
  have hnone : ¬ (ownContext []).traceState ≠ [] := fun hne => hne rfl
  rw [extract_inject _ _ hvalid, Option.map_some, if_neg hnone, hstate]
  exact ⟨hvalid, rfl⟩

end AoniContrib.Otel
