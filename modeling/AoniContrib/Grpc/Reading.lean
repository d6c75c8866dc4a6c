/-
# Reading a status

Two readings of the metadata disagree with what they read.  Success is a comparison with the text
`0` while the code is a number, so `00` is an error with the code OK (`zero_reported`); the code is
never OK exactly if `0` is the only numeral of zero that a look-up finds (`never_ok_iff`).  And a
message is decoded by `url.QueryUnescape`, for which a plus sign is a blank (`plus_lost`); it is the
only byte that is lost (`message_read_iff`).
-/
import AoniContrib.Grpc.Outcome

namespace AoniContrib.Grpc

open Go List

variable {U : Unicode} {resp : Response}

/-! ## 1. Numerals of zero -/

def IsZero (text : Bytes) : Prop := text ≠ [] ∧ ∀ b ∈ text, b = 0x30

theorem parseUintLoop_eq_zero {n : Nat} {s : Bytes} :
    parseUintLoop n s = (0, none) ↔ n = 0 ∧ ∀ b ∈ s, b = 0x30 := by
  induction s generalizing n with
  | nil => simp [parseUintLoop]
  | cons c s ih =>
    have hdigit : ∀ c : UInt8, isDigit c = true → (c.toNat - 0x30 = 0 ↔ c = 0x30) := by
      decide +kernel
    rw [parseUintLoop, forall_mem_cons]
    by_cases hc : isDigit c = true
    · rw [if_pos hc]
      dsimp only
      split_ifs with hbig
      · refine iff_of_false (by simp) ?_
        rintro ⟨rfl, hzero, -⟩
        have := (hdigit c hc).mpr hzero
        omega
      · rw [ih, ← hdigit c hc, ← and_assoc]
        exact and_congr_left' (by omega)
    · rw [if_neg hc]
      refine iff_of_false (by simp) ?_
      rintro ⟨-, rfl, -⟩
      exact hc rfl

theorem codeOf_eq_zero {text : Bytes} : codeOf text = 0 ↔ IsZero text := by
  have hunknown : statusUnknown ≠ 0 := by decide
  have hzero : parseUint text = (0, none) ↔ IsZero text := by
    rw [parseUint, IsZero]
    split_ifs with hnil
    · simp [hnil]
    · rw [parseUintLoop_eq_zero]
      simp [hnil]
  rw [← hzero, codeOf, parseUint32]
  rcases parseUint text with ⟨n, _ | err⟩
  · dsimp only
    split_ifs with hlt
    · rw [Option.getD_some, Prod.mk.injEq, ← UInt32.toNat_inj, UInt32.toNat_ofNat_of_lt' hlt]
      simp
    · refine iff_of_false hunknown ?_
      rintro ⟨rfl⟩
      exact hlt (by decide)
  · exact iff_of_false hunknown (by simp)

/-- No error has the code OK, and the trailers are accepted exactly if the selected status is a
numeral of zero. -/
def NeverOK (U : Unicode) (resp : Response) : Prop :=
  ∀ ord, (∀ err, validateInitialHeaders U ord resp = some (.status err) → err.code ≠ 0) ∧
    (∀ err, validateResponseTrailers U ord resp = some (.status err) → err.code ≠ 0) ∧
    (validateResponseTrailers U ord resp = none ↔ IsZero (selectStatus U ord resp).2)

/-- If one look-up in a map finds a numeral of zero, every look-up there finds `0` or nothing. -/
def PlainZero (find : MapOrder → Bytes) : Prop :=
  ∀ o o', IsZero (find o) → find o' = [] ∨ find o' = zero

/-- The same for the maps in which the code is looked up. -/
structure OnlyPlainZero (U : Unicode) (resp : Response) : Prop where
  initial : resp.statusCode = 200 →
    (resp.header.get contentType = [] ∨ mimeApplicationGRPC <+: resp.header.get contentType) →
    IsZero (resp.header.get grpcStatus) → resp.header.get grpcStatus = zero
  trailer : PlainZero fun o => trailerStatus U o resp
  header : (∃ o, trailerStatus U o resp = []) →
    PlainZero fun o => getHeaderCaseInsensitive U o (some resp.header) grpcStatus

theorem isZero_zero : IsZero zero := ⟨by decide, by decide +kernel⟩

theorem validateResponseTrailers_ne_ok (ord : Nat → MapOrder) :
    (∀ err, validateResponseTrailers U ord resp = some (.status err) → err.code ≠ 0) ↔
      (IsZero (getHeaderCaseInsensitive U (ord 2) (selectStatus U ord resp).1 grpcStatus) →
        (selectStatus U ord resp).2 = [] ∨ (selectStatus U ord resp).2 = zero) := by
  simp only [validateResponseTrailers]
  split_ifs with hnil hzero
  · simp [hnil]
  · rw [← codeOf_eq_zero]
    simp [hnil, hzero, parseGRPCStatus]
  · simp [not_not.mp hzero]

/-- **A status error is never OK** exactly if `0` is the only numeral of zero that is found. -/
theorem never_ok_iff (U : Unicode) (resp : Response) : NeverOK U resp ↔ OnlyPlainZero U resp := by
  constructor
  · intro h
    refine ⟨fun hstatus htype hzero => ?_, fun o o' hzero => ?_, fun ⟨o, hnil⟩ o₁ o₂ hzero => ?_⟩
    · by_contra hne
      refine (h fun _ => .listed).1 (parseGRPCStatus U (fun _ => .listed) (some resp.header)) ?_ ?_
      · rw [validateInitialHeaders, if_neg (not_not.mpr hstatus), if_neg (by tauto),
          if_pos ⟨hzero.1, hne⟩]
      · rw [code_header hzero.1, codeOf_eq_zero]
        exact hzero
    · by_cases hnil : trailerStatus U o' resp = []
      · exact .inl hnil
      · have hread := (validateResponseTrailers_ne_ok fun i => if i = 0 then o' else o).mp (h _).2.1
        rw [selectStatus_of_found hnil] at hread
        exact hread hzero
    · have hread := (validateResponseTrailers_ne_ok
        fun i => if i = 0 then o else if i = 1 then o₂ else o₁).mp (h _).2.1
      rw [selectStatus_of_missing hnil] at hread
      exact hread hzero
  · rintro ⟨hinitial, htrailer, hheader⟩ ord
    obtain ⟨find, hplain, o, hselect, hread⟩ : ∃ find, PlainZero find ∧
        ∃ o, (selectStatus U ord resp).2 = find o ∧
          getHeaderCaseInsensitive U (ord 2) (selectStatus U ord resp).1 grpcStatus = find (ord 2) := by
      by_cases hnil : trailerStatus U (ord 0) resp = []
      · rw [selectStatus_of_missing hnil]
        exact ⟨_, hheader ⟨_, hnil⟩, ord 1, rfl, rfl⟩
      · rw [selectStatus_of_found hnil]
        exact ⟨_, htrailer, ord 0, rfl, rfl⟩
    refine ⟨fun err herr => ?_, (validateResponseTrailers_ne_ok ord).mpr ?_, ?_⟩
    · unfold validateInitialHeaders at herr
      split_ifs at herr with hstatus htype hcode
      · cases herr
        exact (by decide : statusUnknown ≠ 0)
      · cases herr
      · cases herr
        rw [code_header hcode.1, ne_eq, codeOf_eq_zero]
        exact fun hzero => hcode.2 (hinitial (not_not.mp hstatus) (by tauto) hzero)
    · rw [hselect, hread]
      exact hplain _ _
    · rw [validateResponseTrailers_eq_none, hselect]
      exact ⟨fun hzero => hzero ▸ isZero_zero, fun hzero => (hplain o o hzero).resolve_left hzero.1⟩

/-- **A status `00` in the trailers is an error with the code OK.** -/
theorem zero_reported : ∃ err, validateResponseTrailers .ascii (fun _ => .listed) (trailed (lit "00")) =
      some (.status err) ∧ err.code = 0 := ⟨_, rfl, by decide⟩

/-! ## 2. Messages -/

/-- `text` is the message as gRPC writes it: a byte outside of 0x20 to 0x7E and a percent sign as
`%XX`, and every other byte as it is. -/
inductive Encoded : Bytes → Bytes → Prop where
  | nil : Encoded [] []
  | plain {c : UInt8} {msg text : Bytes} : 0x20 ≤ c → c ≤ 0x7e → c ≠ percent →
      Encoded msg text → Encoded (c :: msg) (c :: text)
  | escaped {c d e : UInt8} {hi lo : Nat} {msg text : Bytes} : c < 0x20 ∨ 0x7e < c ∨ c = percent →
      unhex d = some hi → unhex e = some lo → (hi * 16 + lo).toUInt8 = c →
      Encoded msg text → Encoded (c :: msg) (percent :: d :: e :: text)

variable {msg text : Bytes}

theorem Encoded.queryUnescape (h : Encoded msg text) :
    queryUnescape text = some (msg.map fun c => if c = plus then space else c) := by
  induction h with
  | nil => rfl
  | @plain c _ _ _ _ hc _ ih =>
    rw [Go.queryUnescape] at ih ⊢
    rw [unescape_cons hc, ih]
    simp
  | @escaped c d e hi lo msg text hout hd he hvalue _ ih =>
    have hplus : c ≠ plus := by
      rintro rfl
      exact absurd hout (by decide)
    rw [Go.queryUnescape] at ih ⊢
    rw [unescape, if_pos rfl, hd, he, ih, map_cons, if_neg hplus, ← hvalue]
    rfl

theorem Encoded.eq_map (h : Encoded msg text) (hp : percent ∉ text) (hplus : plus ∉ text) :
    text = msg.map fun c => if c = plus then space else c := by
  induction h with
  | nil => rfl
  | plain _ _ _ _ ih =>
    rw [mem_cons, not_or] at hp hplus
    rw [map_cons, if_neg fun h => hplus.1 h.symm, ← ih hp.2 hplus.2]
  | escaped => exact absurd mem_cons_self hp

/-- **A message is decoded faithfully** exactly if it has no plus sign. -/
theorem message_read_iff {ord : Nat → MapOrder} {trailers : Option Header} (h : Encoded msg text)
    (hget : getHeaderCaseInsensitive U (ord 1) trailers grpcMessage = text) :
    (parseGRPCStatus U ord trailers).message = msg ↔ plus ∉ msg := by
  have hmessage : (parseGRPCStatus U ord trailers).message =
      msg.map fun c => if c = plus then space else c := by
    simp only [parseGRPCStatus, hget]
    split_ifs with hdecode
    · rw [h.queryUnescape, Option.getD_some]
    · rw [not_or] at hdecode
      exact h.eq_map hdecode.1 hdecode.2
  rw [hmessage]
  nth_rewrite 2 [← map_id msg]
  rw [map_inj_left]
  constructor
  · intro hsame hmem
    exact absurd (hsame plus hmem) (by decide)
  · intro hno c hc
    exact if_neg (ne_of_mem_of_not_mem hc hno)

def messageTrailer (text : Bytes) : Header := (⟨[], nodup_nil⟩ : Header).set grpcMessage text

theorem message_read_percent : Encoded (lit "5%") (lit "5%25") ∧
    (parseGRPCStatus .ascii (fun _ => .listed) (some (messageTrailer (lit "5%25")))).message =
      lit "5%" := by
  have h : Encoded (lit "5%") (lit "5%25") := .plain (by decide) (by decide) (by decide)
    (.escaped (d := 0x32) (e := 0x35) (by decide) rfl rfl (by decide) .nil)
  exact ⟨h, (message_read_iff h (by decide)).mpr (by decide)⟩

/-- **A plus sign becomes a blank.** -/
theorem plus_lost : Encoded (lit "1+1") (lit "1+1") ∧
      (parseGRPCStatus .ascii (fun _ => .listed) (some (messageTrailer (lit "1+1")))).message =
        lit "1 1" :=
  ⟨.plain (by decide) (by decide) (by decide) (.plain (by decide) (by decide) (by decide)
    (.plain (by decide) (by decide) (by decide) .nil)), by decide⟩

end AoniContrib.Grpc
