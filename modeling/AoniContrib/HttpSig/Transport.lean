/-
# Two members in two headers

What `Verify` finds when the members made by `Sign` are placed in the `Signature-Input` and
`Signature` headers.  The signature bytes always come back.  The text of the parameters comes
back up to the first comma at which `splitHeaderComma` cuts it (`splitHeaderComma_member`), and
`ParseSignatureParams` reads from it what stands before its first `)` as the list and the rest
as parameters (`readSignature_received`, `parse_cut`).
-/
import AoniContrib.Data.Pieces
import AoniContrib.HttpSig.Chunk

namespace AoniContrib.HttpSig

open Go Data List

variable (U : Unicode)

/-! ## 1. The received message -/

/-- The message with the two members in its headers and nothing else changed. -/
def withMembers (ctx : RequestContext) (inputMember sigMember : Bytes) : RequestContext :=
  { ctx with
    header := some (((ctx.header.getD .empty).set headerSignatureInput inputMember).set
      headerSignature sigMember) }

variable (ctx : RequestContext) (inputMember sigMember : Bytes)

theorem headerGet_input :
    (withMembers ctx inputMember sigMember).headerGet headerSignatureInput = inputMember := by
  have hne : canonicalMIMEHeaderKey headerSignatureInput ≠ canonicalMIMEHeaderKey headerSignature := by
    decide
  simp only [withMembers, RequestContext.headerGet]
  rw [Header.get_set_of_ne hne, Header.get_set_same]

theorem headerGet_signature :
    (withMembers ctx inputMember sigMember).headerGet headerSignature = sigMember := by
  simp only [withMembers, RequestContext.headerGet]
  rw [Header.get_set_same]

/-! ## 2. What is open at a place in a header -/

/-- What is open behind the bytes read so far: a quoted string, parentheses, a byte sequence. -/
structure Nesting where
  quote : Bool := false
  paren : Nat := 0
  colon : Bool := false
  deriving DecidableEq, Repr

namespace Nesting

/-- What one byte opens or closes.  Quotes do not count inside a byte sequence, and nothing else counts
inside quotes. -/
def step (n : Nesting) (ch : UInt8) : Nesting :=
  if ch = dquote ∧ n.colon = false then { n with quote := !n.quote }
  else if ch = lparen ∧ n.quote = false then { n with paren := n.paren + 1 }
  else if ch = rparen ∧ n.quote = false ∧ 0 < n.paren then { n with paren := n.paren - 1 }
  else if ch = Go.colon ∧ n.quote = false then { n with colon := !n.colon }
  else n

def run (n : Nesting) (s : Bytes) : Nesting := s.foldl step n

/-- A comma ends an item where nothing is open. -/
def ends (n : Nesting) (ch : UInt8) : Bool := ch == comma && n == {}

theorem ends_iff {n : Nesting} {ch : UInt8} : n.ends ch = true ↔ ch = comma ∧ n = {} := by
  simp [ends]

/-- A comma of the text stands where nothing is open. -/
def exposes : Nesting → Bytes → Bool
  | _, [] => false
  | n, ch :: s => (ch == comma && n == {}) || exposes (n.step ch) s

@[simp] theorem run_nil (n : Nesting) : n.run [] = n := rfl

@[simp] theorem run_cons (n : Nesting) (ch : UInt8) (s : Bytes) : n.run (ch :: s) = (n.step ch).run s := rfl

@[simp] theorem run_append (n : Nesting) (s t : Bytes) : n.run (s ++ t) = (n.run s).run t :=
  foldl_append

@[simp] theorem exposes_nil (n : Nesting) : n.exposes [] = false := rfl

theorem exposes_append (s t : Bytes) :
    ∀ n : Nesting, n.exposes (s ++ t) = (n.exposes s || (n.run s).exposes t) := by
  induction s with
  | nil => intro n; simp
  | cons ch s ih =>
    intro n
    rw [cons_append, exposes, exposes, ih, run_cons, Bool.or_assoc]

theorem exposes_of_not_mem {s : Bytes} (h : comma ∉ s) : ∀ n : Nesting, n.exposes s = false := by
  induction s with
  | nil => intro n; rfl
  | cons ch s ih =>
    intro n
    rw [mem_cons, not_or] at h
    rw [exposes, ih h.2, Bool.or_false, beq_eq_false_iff_ne.mpr (Ne.symm h.1), Bool.false_and]

theorem exposes_eq_false_iff : ∀ {s : Bytes} {n : Nesting},
    n.exposes s = false ↔ pieces step ends n s = [s]
  | [], n => by simp [pieces]
  | ch :: s, n => by
    have ih := exposes_eq_false_iff (s := s) (n := n.step ch)
    obtain ⟨p, ps, hp⟩ := exists_pieces step ends (n.step ch) s
    rw [exposes, pieces]
    cases h : n.ends ch with
    | true => simp [show (ch == comma && n == {}) = true from h]
    | false => simp [show (ch == comma && n == {}) = false from h, ih, hp]

def Plain (b : UInt8) : Prop := b ≠ dquote ∧ b ≠ lparen ∧ b ≠ rparen ∧ b ≠ Go.colon

theorem step_plain {b : UInt8} (h : Plain b) (n : Nesting) : n.step b = n := by
  obtain ⟨h1, h2, h3, h4⟩ := h
  simp [step, h1, h2, h3, h4]

theorem run_plain {s : Bytes} (h : ∀ b ∈ s, Plain b) (n : Nesting) : n.run s = n := by
  induction s with
  | nil => rfl
  | cons b s ih =>
    rw [run_cons, step_plain (h b mem_cons_self)]
    exact ih (forall_mem_cons.mp h).2

end Nesting

/-! ## 3. The comma splitter -/

/-- The state of the splitter with this text in its builder and this nesting. -/
def commaState (current : Bytes) (n : Nesting) : CommaState :=
  { current, inQuote := n.quote, inParen := n.paren, inColon := n.colon }

theorem commaLoop_cons {current s : Bytes} {n : Nesting} {ch : UInt8} (h : ¬ (ch = comma ∧ n = {})) :
    splitHeaderCommaLoop (commaState current n) (ch :: s) =
      splitHeaderCommaLoop (commaState (current ++ [ch]) (n.step ch)) s := by
  have hrest : ¬ (ch = comma ∧ n.quote = false ∧ n.paren = 0 ∧ n.colon = false) := by
    rintro ⟨hc, hq, hp, hcol⟩
    exact h ⟨hc, by cases n; simp_all⟩
  rw [splitHeaderCommaLoop]
  simp only [commaState, hrest, if_false, Nesting.step]
  split_ifs <;> rfl

theorem commaLoop_eq : ∀ (s current : Bytes) (n : Nesting),
    splitHeaderCommaLoop (commaState current n) s =
      ((pieces Nesting.step Nesting.ends n s).modifyHead (current ++ ·)).filter (· ≠ [])
  | [], current, n => by
    by_cases hc : current = []
    · simp [splitHeaderCommaLoop, pieces, commaState, hc]
    · simp [splitHeaderCommaLoop, pieces, commaState, hc]
  | ch :: s, current, n => by
    obtain ⟨p, ps, hp⟩ := exists_pieces Nesting.step Nesting.ends (n.step ch) s
    by_cases h : ch = comma ∧ n = {}
    · obtain ⟨rfl, rfl⟩ := h
      have ih := commaLoop_eq s [] {}
      change pieces Nesting.step Nesting.ends {} s = p :: ps at hp
      rw [hp, modifyHead_cons, nil_append] at ih
      have hcut : pieces Nesting.step Nesting.ends {} (comma :: s) = [] :: p :: ps := by
        rw [← hp]
        rfl
      rw [splitHeaderCommaLoop, hcut]
      simp only [commaState] at ih ⊢
      rw [if_neg (by decide), if_neg (by decide), if_neg (by decide), if_neg (by decide),
        if_pos (by decide)]
      by_cases hc : current = []
      · simp [hc, ih]
      · simp [hc, ih]
    · rw [commaLoop_cons h, commaLoop_eq, pieces, if_neg (mt Nesting.ends_iff.mp h), hp]
      simp

theorem splitHeaderComma_eq (s : Bytes) :
    splitHeaderComma s = (pieces Nesting.step Nesting.ends {} s).filter (· ≠ []) := by
  obtain ⟨p, ps, hp⟩ := exists_pieces Nesting.step Nesting.ends {} s
  have h := commaLoop_eq s [] {}
  rw [hp] at h ⊢
  exact h

theorem readMember_blanks {y : Bytes} (hy : ∀ b ∈ y, isSpace b = true) (s : Bytes) :
    readMember (y ++ s) = readMember s := by
  rw [readMember, readMember, trimSpace_blanks hy]

theorem parseDictionaryMembers_eq (s : Bytes) :
    parseDictionaryMembers s = (pieces Nesting.step Nesting.ends {} s).filterMap readMember := by
  rw [parseDictionaryMembers, splitHeaderComma_eq, filterMap_filter]
  refine filterMap_congr fun x _ => ?_
  split
  · rfl
  · rename_i hx
    obtain rfl : x = [] := by simpa using hx
    rfl

/-- **A member is found whole, or cut at a comma of its value.** -/
theorem splitHeaderComma_member (label : SfKey) (text : Bytes) :
    splitHeaderComma (label.val ++ equals :: text) = [label.val ++ equals :: text] ∨
      ∃ X rest more, text = X ++ comma :: rest ∧
        splitHeaderComma (label.val ++ equals :: text) = (label.val ++ equals :: X) :: more := by
  rw [splitHeaderComma_eq]
  rcases exists_first_piece Nesting.step Nesting.ends {} (label.val ++ equals :: text) with
    h | ⟨y, x, rest, hsplit, hy, hx⟩
  · exact .inl (by rw [h]; simp)
  · obtain rfl : x = comma := (Nesting.ends_iff.mp hx).1
    -- the label holds no comma
    have hno : comma ∉ label.val ++ [equals] := by
      rw [mem_append, mem_singleton, not_or]
      exact ⟨label.not_mem (by decide), by decide⟩
    rw [hsplit, pieces_append _ _ _ hx, hy]
    rw [append_cons] at hsplit
    obtain ⟨X, rfl, rfl⟩ := append_eq_cut_of_not_mem hno hsplit
    have hfirst : ∀ more : List Bytes, ([label.val ++ [equals] ++ X] ++ more).filter (· ≠ []) =
        (label.val ++ equals :: X) :: more.filter (· ≠ []) := by simp
    exact .inr ⟨X, rest, _, rfl, hfirst _⟩

theorem splitHeaderComma_cut (label : SfKey) (text : Bytes) :
    ∃ X rest more, text = X ++ rest ∧ (∀ b, rest.head? = some b → b = comma) ∧
      splitHeaderComma (label.val ++ equals :: text) = (label.val ++ equals :: X) :: more ∧
      (rest = [] → splitHeaderComma (label.val ++ equals :: text) = [label.val ++ equals :: text]) := by
  rcases splitHeaderComma_member label text with h | ⟨X, rest, more, hX, h⟩
  · exact ⟨text, [], [], (append_nil _).symm, by simp, h, fun _ => h⟩
  · exact ⟨X, comma :: rest, more, hX, fun b hb => (Option.some.inj hb).symm, h, by simp⟩

/-! ## 4. Reading the members -/

variable {X sig inner W : Bytes}

theorem readMember_entry (label : SfKey)
    (hX : ∃ b, X.head? = some b ∧ isSolid b = true) :
    readMember (label.val ++ equals :: X) = some ⟨label.val, trimSpace X⟩ := by
  have htrim : trimSpace (label.val ++ equals :: X) = label.val ++ equals :: trimSpace X := by
    obtain ⟨b, hb, hsolid⟩ := hX
    rw [trimSpace_assignment, trimSpace_of_head fun c hc => by rw [hb] at hc; cases hc; exact hsolid]
  have hne : label.val ++ equals :: trimSpace X ≠ [] := by simp
  simp only [readMember, htrim, if_neg hne, cut_equals_key, Option.map_some,
    label.solidEnds.trimSpace_eq, trimSpace_idem]

variable {label : SfKey} {more : List Bytes}

theorem valueOf_member {m : Bytes}
    (hsplit : splitHeaderComma m = (label.val ++ equals :: X) :: more)
    (hX : ∃ b, X.head? = some b ∧ isSolid b = true) :
    valueOf (parseDictionaryMembers m) label.val = trimSpace X := by
  rw [parseDictionaryMembers, hsplit, filterMap_cons_some (readMember_entry label hX),
    valueOf, find?_cons_of_pos (by simp)]
  rfl

def signatureText (sig : Bytes) : Bytes := colon :: stdEncoding.encode sig ++ [colon]

theorem stdEncode_facts {b : UInt8} (h : b ∈ stdEncoding.encode sig) : b < 0x80 ∧ b ≠ comma := by
  have hall : ∀ c : UInt8, ((stdValue c).isSome = true ∨ c = equals) → c < 0x80 ∧ c ≠ comma := by
    grind [stdValue]
  exact hall b (mem_stdEncode h)

theorem signatureText_facts (sig : Bytes) :
    Ascii (signatureText sig) ∧ comma ∉ signatureText sig ∧ SolidEnds (signatureText sig) := by
  refine ⟨fun b hb => ?_, fun hm => ?_, ⟨colon, rfl, by decide⟩, colon, ?_, by decide⟩
  · rcases mem_cons.mp hb with rfl | hb
    · decide
    · rcases mem_append.mp hb with hb | hb
      · exact (stdEncode_facts hb).1
      · rw [mem_singleton.mp hb]
        decide
  · rcases mem_cons.mp hm with he | hm
    · exact absurd he (by decide)
    · rcases mem_append.mp hm with hm | hm
      · exact (stdEncode_facts hm).2 rfl
      · exact absurd (mem_singleton.mp hm) (by decide)
  · rw [signatureText, getLast?_concat]

theorem signature_received (label : SfKey) (sig : Bytes) :
    valueOf (parseDictionaryMembers (label.val ++ equals :: signatureText sig)) label.val =
        signatureText sig ∧
      decodeByteSequence (signatureText sig) = .ok sig := by
  obtain ⟨-, hcomma, hends⟩ := signatureText_facts sig
  constructor
  · rcases splitHeaderComma_member label (signatureText sig) with h | ⟨X, rest, more, hX, -⟩
    · rw [valueOf_member h hends.1, hends.trimSpace_eq]
    · exact absurd (by rw [hX]; simp) hcomma
  · rw [decodeByteSequence, hends.trimSpace_eq, signatureText, stripPair_wrapped,
      stdEncoding.decode_encode]

/-- **What `Verify` reads from the received message**: the signature bytes, and the parameters in
the part of the text that the comma splitter leaves. -/
theorem readSignature_received {ctx : RequestContext} {text : Bytes} (hsplit : splitHeaderComma (label.val ++ equals :: text) =
      (label.val ++ equals :: X) :: more) (hX : X.head? = some lparen)
    {r : SignatureParams × Bytes} :
    readSignature U (withMembers ctx (label.val ++ equals :: text)
        (label.val ++ equals :: signatureText sig)) label.val = .ok r ↔
      ∃ params, parseSignatureParams U (trimSpace X) = .ok params ∧
        r = ({ params with label := label.val }, sig) := by
  obtain ⟨hsig, hdecode⟩ := signature_received label sig
  have hsolid : ∃ b, X.head? = some b ∧ isSolid b = true := ⟨lparen, hX, by decide⟩
  have hne : ¬ (label.val ++ equals :: text = [] ∨ label.val ++ equals :: signatureText sig = []) := by
    simp
  have hparams : trimSpace X ≠ [] := by
    cases X with
    | nil => cases hX
    | cons b X =>
      obtain rfl := Option.some.inj hX
      rw [trimSpace_cons_solid (by decide)]
      exact cons_ne_nil _ _
  have hsigne : signatureText sig ≠ [] := by simp [signatureText]
  unfold readSignature
  rw [headerGet_input, headerGet_signature, if_neg hne]
  simp only [targetLabel, if_pos label.ne_nil, inputMemberValue, signatureMemberValue,
    headerGet_input, headerGet_signature, hsig, valueOf_member hsplit hsolid, if_neg hparams,
    if_neg hsigne, hdecode]
  cases hp : parseSignatureParams U (trimSpace X) with
  | error e => simp
  | ok params =>
    constructor
    · intro h
      exact ⟨params, rfl, (Except.ok.inj h).symm⟩
    · rintro ⟨params', h, rfl⟩
      obtain rfl := Except.ok.inj h
      rfl

/-! ## 5. Reading the parameters -/

/-- The text of a `Signature-Input` member: a list in parentheses and parameters behind it. -/
def memberText (inner params : Bytes) : Bytes := lparen :: inner ++ rparen :: params

theorem foldl_readParam_blank (params : SignatureParams) (s : Bytes) :
    (if s ≠ [] then (s.splitOn semicolon).foldl (readParam U) params else params) =
      (s.splitOn semicolon).foldl (readParam U) params := by
  by_cases hs : s = []
  · subst hs
    rfl
  · rw [if_pos hs]

/-- **The list is what stands before the first `)`**, wherever the text ends; and a list without
`)` is followed by its parameters, as far as the text goes. -/
theorem parse_cut {r : Bytes} {params : SignatureParams} (ht : trimSpace X = X)
    (he : memberText inner W = X ++ r) (h : parseSignatureParams U X = .ok params) :
    params.components = chunksOf inner ∧
      (rparen ∉ inner → ∃ rest, W = rest ++ r ∧ X = lparen :: inner ++ rparen :: rest ∧
        params = ((trimSpace rest).splitOn semicolon).foldl (readParam U)
          { components := chunksOf inner }) := by
  have hp : hasPrefix lparen X = true := by
    cases hp : hasPrefix lparen X with
    | true => rfl
    | false =>
      simp only [parseSignatureParams, ht, hp, Bool.not_false, if_true] at h
      cases h
  cases hc : cut rparen X with
  | none =>
    simp only [parseSignatureParams, ht, hp, hc, Bool.not_true, Bool.false_eq_true, if_false] at h
    cases h
  | some lr =>
    obtain ⟨list, rest⟩ := lr
    rw [parseSignatureParams_cut U ht hp hc, foldl_readParam_blank] at h
    obtain ⟨hX, hlist⟩ := cut_eq_some hc
    have hwhole : lparen :: inner ++ rparen :: W = list ++ rparen :: (rest ++ r) := by
      rw [memberText] at he
      rw [he, hX]
      simp
    -- both sides, up to the first closing parenthesis
    have htake : lparen :: inner.takeWhile (fun b => b ≠ rparen) = list := by
      have hleft : (lparen :: inner ++ rparen :: W).takeWhile (fun b => b ≠ rparen) =
          lparen :: inner.takeWhile (fun b => b ≠ rparen) := by
        rw [cons_append, takeWhile_cons_of_pos (by decide)]
        by_cases hm : rparen ∈ inner
        · rw [takeWhile_append_of_mem (x := rparen) (by simp) hm]
        · rw [takeWhile_append_of_not_mem hm, takeWhile_cons_of_neg (by simp), append_nil,
            takeWhile_of_not_mem hm]
      rw [← hleft, hwhole, takeWhile_append_of_not_mem hlist, takeWhile_cons_of_neg (by simp),
        append_nil]
    have hcomps : splitInnerList (trimSpace list.tail) = chunksOf inner := by
      rw [← htake, tail_cons, chunksOf]
    rw [hcomps] at h
    obtain rfl := Except.ok.inj h
    refine ⟨by rw [foldl_readParam_components], fun hno => ⟨rest, ?_, ?_, rfl⟩⟩
    · rw [takeWhile_of_not_mem hno] at htake
      rw [← htake] at hwhole
      exact (List.cons.inj (append_cancel_left hwhole)).2
    · rw [hX, ← htake, takeWhile_of_not_mem hno]

theorem parse_whole (ht : trimSpace (memberText inner W) = memberText inner W)
    (hW : trimSpace W = W) (hno : rparen ∉ inner) :
    parseSignatureParams U (memberText inner W) =
      .ok ((W.splitOn semicolon).foldl (readParam U) { components := chunksOf inner }) := by
  have hcut : cut rparen (memberText inner W) = some (lparen :: inner, W) := by
    refine cut_append ?_ W
    rw [mem_cons, not_or]
    exact ⟨by decide, hno⟩
  rw [parseSignatureParams_cut U ht rfl hcut, foldl_readParam_blank, tail_cons, hW, chunksOf,
    takeWhile_of_not_mem hno]

end AoniContrib.HttpSig
