/-
# Reading a serialized identifier again

`Verify` parses the identifiers that `SerializeSignatureParams` has written.  What
`ParseComponentIdentifier` records of an identifier is STABLE: lower-cased, trimmed and free of
the separators, so that its text is read back as it is (`parse_identifierText`).  A signature base is
ASCII, and there what is recorded is SETTLED, which says the same byte by byte.

`reads_back_iff` answers for every text `ParseComponentIdentifier` accepts whether its serialized form
is read back.  A bare name is written between quotes without a look at what it holds: `a"b` becomes
`"a"b"`, which is the name `a` and a parameter.
-/
import AoniContrib.Go.LowerCase
import AoniContrib.HttpSig.Inner

namespace AoniContrib.HttpSig

open Go Data List

variable {n part raw remainder : Bytes} {qs : List Piece} {p : ParsedComponent}

variable (U : Unicode)

/-! ## 1. Stable parameters -/

/-- A name that reading leaves as it is: trimmed, in lower case, without separators. -/
structure StableName (n : Bytes) : Prop where
  trimmed : trimSpace n = n
  lower : toLower U n = n
  noSemicolon : semicolon ∉ n
  noEquals : equals ∉ n

def Piece.body : Piece → Bytes
  | .flag n => n
  | .param n v => n ++ equals :: (dquote :: v ++ [dquote])

theorem Piece.text_eq : ∀ q : Piece, q.text = semicolon :: q.body
  | .flag _ => rfl
  | .param n v => by
    have hl : lit "=\"" = [equals, dquote] := by decide
    simp [Piece.text, Piece.body, hl]

/-- A parameter that reading leaves as it is. -/
def Piece.Stable : Piece → Prop
  | .flag n => n ≠ [] ∧ StableName U n
  | .param n v => StableName U n ∧ semicolon ∉ v

section
variable {U} {q : Piece}

theorem Piece.Stable.ne_nil (h : q.Stable U) : q.body ≠ [] := by
  cases q with
  | flag n => exact h.1
  | param n v => simp [Piece.body]

theorem Piece.Stable.trimSpace_body (h : q.Stable U) : trimSpace q.body = q.body := by
  cases q with
  | flag n => exact h.2.trimmed
  | param n v =>
    have hleft := (trimSpace_eq_self_iff.mp h.1.trimmed).1
    refine trimSpace_eq_self_iff.mpr ⟨trimLeftSpace_append_cons (by decide) hleft _, ?_⟩
    rw [Piece.body, ← cons_append, ← append_assoc]
    exact trimRightSpace_append_solid (by decide) _

theorem Piece.Stable.noSemicolon (h : q.Stable U) : semicolon ∉ q.body := by
  cases q with
  | flag n => exact h.2.noSemicolon
  | param n v =>
    have hn := h.1.noSemicolon
    have hv := h.2
    simp only [Piece.body, mem_append, mem_cons, not_or]
    exact ⟨hn, by decide, ⟨by decide, hv⟩, by decide⟩

theorem Piece.Stable.read (h : q.Stable U) : readPiece U q.body = some q := by
  have hne := h.ne_nil
  have htrim := h.trimSpace_body
  cases q with
  | flag n =>
    have hcut : cut equals n = none := cut_eq_none_iff.mpr h.2.noEquals
    simp only [Piece.body] at hne htrim
    rw [readPiece]
    simp only [Piece.body, htrim, if_neg hne, hcut, h.2.lower]
  | param n v =>
    simp only [Piece.body] at hne htrim
    rw [readPiece]
    simp only [Piece.body, htrim, if_neg hne, cut_append h.1.noEquals, h.1.trimmed, h.1.lower,
      (solidEnds_quoted v).trimSpace_eq, stripPair_wrapped]

end

variable {q : Piece}

/-- **What can be read**: the name of a parameter is trimmed and holds no separator. -/
theorem readPiece_cases (h : readPiece U part = some q)
    (hpart : semicolon ∉ part) : ∃ n, trimSpace n = n ∧ semicolon ∉ n ∧ equals ∉ n ∧
      (n ≠ [] ∧ q = .flag (toLower U n) ∨ ∃ v, semicolon ∉ v ∧ q = .param (toLower U n) v) := by
  have hsub : semicolon ∉ trimSpace part := fun hm => hpart (trimSpace_subset part hm)
  unfold readPiece at h
  simp only at h
  split at h
  · cases h
  · rename_i hne
    split at h
    · rename_i hcut
      obtain rfl := Option.some.inj h
      rw [trimSpace_idem]
      exact ⟨_, trimSpace_idem part, hsub, cut_eq_none_iff.mp hcut, .inl ⟨hne, rfl⟩⟩
    · rename_i k v hcut
      obtain rfl := Option.some.inj h
      obtain ⟨hsplit, heq⟩ := cut_eq_some hcut
      rw [hsplit, mem_append, mem_cons, not_or, not_or] at hsub
      refine ⟨_, trimSpace_idem k, fun hm => hsub.1 (trimSpace_subset k hm),
        fun hm => heq (trimSpace_subset k hm), .inr ⟨_, fun hm => ?_, rfl⟩⟩
      exact hsub.2.2 (trimSpace_subset v (stripPair_subset dquote _ hm))

theorem stable_of_readPiece (hU : LowerCase U)
    (h : readPiece U part = some q) (hpart : semicolon ∉ part) : q.Stable U := by
  obtain ⟨n, htrim, hsemi, heq, hq⟩ := readPiece_cases U h hpart
  have hname : StableName U (toLower U n) := by
    refine ⟨hU.trimSpace_toLower htrim, hU.toLower_toLower n, ?_, ?_⟩
    · rwa [mem_toLower_iff U (by decide) (by decide)]
    · rwa [mem_toLower_iff U (by decide) (by decide)]
  rcases hq with ⟨hne, rfl⟩ | ⟨v, hv, rfl⟩
  · exact ⟨toLower_ne_nil U hne, hname⟩
  · exact ⟨hname, hv⟩

theorem stable_of_readPieces (hU : LowerCase U) (h : q ∈ readPieces U remainder) : q.Stable U := by
  rw [readPieces] at h
  split at h
  · cases h
  · obtain ⟨part, hpart, hread⟩ := mem_filterMap.mp h
    exact stable_of_readPiece U hU hread (not_mem_of_mem_splitOn hpart)

/-! ## 2. Settled parameters -/

/-- A name as it comes out of reading: ASCII, in lower case, trimmed, without separators. -/
structure SettledName (n : Bytes) : Prop where
  ascii : Ascii n
  lower : n.map asciiLower = n
  head : ∀ b, n.head? = some b → isSolid b = true
  last : ∀ b, n.getLast? = some b → isSolid b = true
  noSemicolon : semicolon ∉ n
  noEquals : equals ∉ n

theorem SettledName.trimSpace_eq (h : SettledName n) : trimSpace n = n := trimSpace_solid h.head h.last

theorem SettledName.toLower_eq (h : SettledName n) : toLower U n = n := by
  rw [toLower_of_ascii U h.ascii, h.lower]

theorem SettledName.stable (h : SettledName n) : StableName U n :=
  ⟨h.trimSpace_eq, h.toLower_eq U, h.noSemicolon, h.noEquals⟩

theorem solid_of_lower {b x : UInt8} (hb : isSpace b = false)
    (h : x = asciiLower b ∧ b < 0x80 ∨ 0x80 ≤ x ∨ isAlpha x = true) (hx : x < 0x80) :
    isSolid x = true := by
  have hlow : ∀ c : UInt8, isSpace c = false → isSpace (asciiLower c) = false := by grind [isSpace, asciiLower]
  have halpha : ∀ c : UInt8, isAlpha c = true → isSolid c = true := by grind [isAlpha, isSolid, isSpace]
  rcases h with ⟨rfl, -⟩ | hbig | ha
  · exact isSolid_iff.mpr ⟨hx, hlow b hb⟩
  · exact absurd hx (by simpa using hbig)
  · exact halpha x ha

variable {s namePart : Bytes}

theorem settledName_toLower (htrim : trimSpace s = s) (hascii : Ascii (toLower U s))
    (hsemi : semicolon ∉ s) (heq : equals ∉ s) : SettledName (toLower U s) where
  ascii := hascii
  lower := by rw [← toLower_of_ascii U hascii, toLower_toLower U hascii]
  head x hx := by
    cases s with
    | nil => cases hx
    | cons b s =>
      refine solid_of_lower (b := b) ?_ (head?_toLower U rfl hx) (hascii x (mem_of_head? hx))
      exact head?_trimSpace (s := b :: s) (by rw [htrim]; rfl)
  last x hx := by
    have hne : s ≠ [] := by
      rintro rfl
      cases hx
    have hlast := getLast?_eq_some_getLast hne
    refine solid_of_lower ?_ (getLast?_toLower U hlast hx) (hascii x (mem_of_getLast? hx))
    exact getLast?_trimSpace (s := s) (by rw [htrim]; exact hlast)
  noSemicolon := by rwa [mem_toLower_iff U (by decide) (by decide)]
  noEquals := by rwa [mem_toLower_iff U (by decide) (by decide)]

def Piece.Settled : Piece → Prop
  | .flag n => n ≠ [] ∧ SettledName n
  | .param n v => SettledName n ∧ semicolon ∉ v ∧ Ascii v

/-- **What is read is settled**, as soon as it is ASCII. -/
theorem settled_of_readPiece (h : readPiece U part = some q)
    (hpart : semicolon ∉ part) (hascii : Ascii q.body) : q.Settled := by
  obtain ⟨n, htrim, hsemi, heq, ⟨hne, rfl⟩ | ⟨v, hv, rfl⟩⟩ := readPiece_cases U h hpart
  · exact ⟨toLower_ne_nil U hne, settledName_toLower U htrim hascii hsemi heq⟩
  · refine ⟨settledName_toLower U htrim (fun b hb => hascii b ?_) hsemi heq, hv, fun b hb => hascii b ?_⟩
    · exact mem_append_left _ hb
    · exact mem_append_right _ (mem_cons_of_mem _ (mem_append_left _ (mem_cons_of_mem _ hb)))

theorem SettledName.head_assignment (h : SettledName n) (v : Bytes) :
    ∃ b, (n ++ equals :: v).head? = some b ∧ isSolid b = true := by
  cases n with
  | nil => exact ⟨equals, rfl, by decide⟩
  | cons c n => exact ⟨c, rfl, h.head c rfl⟩

theorem SettledName.solidEnds {v : Bytes} (h : SettledName n)
    (hv : ∃ b, v.getLast? = some b ∧ isSolid b = true) : SolidEnds (n ++ equals :: v) := by
  obtain ⟨b, hb, hsolid⟩ := hv
  exact ⟨h.head_assignment v, b, by rw [getLast?_append, getLast?_cons, hb]; rfl, hsolid⟩

theorem Piece.Settled.solidEnds : ∀ {q : Piece}, q.Settled → SolidEnds q.body
  | .flag n, ⟨hne, hn⟩ =>
    ⟨⟨n.head hne, head?_eq_some_head hne, hn.head _ (head?_eq_some_head hne)⟩,
      n.getLast hne, getLast?_eq_some_getLast hne,
      hn.last _ (getLast?_eq_some_getLast hne)⟩
  | .param _ v, ⟨hn, _, _⟩ => hn.solidEnds (solidEnds_quoted v).2

theorem Piece.Settled.stable : ∀ {q : Piece}, q.Settled → q.Stable U
  | .flag _, h => ⟨h.1, h.2.stable U⟩
  | .param _ _, h => ⟨h.1.stable U, h.2.1⟩

theorem Piece.Settled.noSemicolon (h : q.Settled) : semicolon ∉ q.body := (h.stable .ascii).noSemicolon

/-! ## 3. Identifiers read back -/

def piecesText (qs : List Piece) : Bytes := qs.flatMap (fun q => semicolon :: q.body)

theorem identifierText_eq (n : Bytes) (qs : List Piece) :
    identifierText n qs = dquote :: n ++ dquote :: piecesText qs := by
  have h : qs.flatMap Piece.text = piecesText qs := flatMap_congr fun q _ => q.text_eq
  rw [identifierText, h]
  simp

theorem readPieces_piecesText (h : ∀ q ∈ qs, q.Stable U) : readPieces U (piecesText qs) = qs := by
  have hread : readPieces U (qs.flatMap (fun q => semicolon :: q.body)) = qs.map id :=
    readPieces_bodies U (fun q hq => (h q hq).read) (fun q hq => (h q hq).noSemicolon)
  rwa [map_id] at hread

theorem trimRightSpace_piecesText (h : ∀ q ∈ qs, q.Stable U) {x : Bytes}
    (hx : trimRightSpace x = x) : trimRightSpace (x ++ piecesText qs) = x ++ piecesText qs := by
  rcases eq_nil_or_concat qs with rfl | ⟨rs, q, rfl⟩
  · simpa [piecesText] using hx
  · have hq := (trimSpace_eq_self_iff.mp (h q (by simp)).trimSpace_body).2
    have hend := trimRightSpace_append_cons (b := semicolon) (by decide) hq (x ++ piecesText rs)
    simpa [piecesText] using hend

theorem trimSpace_piecesText (h : ∀ q ∈ qs, q.Stable U) :
    trimSpace (piecesText qs) = piecesText qs := by
  cases qs with
  | nil => rfl
  | cons q qs =>
    have hright := trimRightSpace_piecesText U h (x := []) rfl
    exact trimSpace_eq_self_iff.mpr ⟨trimLeftSpace_cons_solid (b := semicolon) (by decide) _, hright⟩

/-- **An identifier with a stable name and stable parameters is read back**, unless the name holds a
quote. -/
theorem parse_identifierText (hq : dquote ∉ n) (hlow : toLower U n = n) (hqs : ∀ q ∈ qs, q.Stable U)
    (hp : p = { qs.foldl Piece.record { raw := identifierText n qs, name := n } with
      serialized := identifierText n qs })
    (hcons : ¬ (p.bs = true ∧ (p.sf = true ∨ p.key ≠ []))) :
    parseComponentIdentifier U (identifierText n qs) = .ok p := by
  have hne : identifierText n qs ≠ [] := by simp [identifierText]
  have htrim : trimSpace (identifierText n qs) = identifierText n qs := by
    have hquoted := (trimSpace_eq_self_iff.mp (solidEnds_quoted n).trimSpace_eq).2
    have hright := trimRightSpace_piecesText U hqs hquoted
    rw [identifierText_eq]
    refine trimSpace_eq_self_iff.mpr ⟨trimLeftSpace_cons_solid (by decide) _, ?_⟩
    simpa using hright
  have hsplit : splitName (identifierText n qs) (identifierText n qs) = .ok (n, piecesText qs) := by
    conv_lhs => arg 2; rw [identifierText_eq]
    rw [splitName_quoted hq, trimSpace_piecesText U hqs]
  refine parse_of_splitName U (by rwa [htrim]) (by rw [htrim]; exact hsplit) ?_ hcons
  rw [hlow, readPieces_piecesText U hqs, hp]

theorem solidEnds_identifierText (h : ∀ q ∈ qs, q.Settled) : SolidEnds (identifierText n qs) := by
  rw [identifierText_eq]
  cases qs with
  | nil => simpa [piecesText] using solidEnds_quoted n
  | cons q qs =>
    have hps : SolidEnds (piecesText (q :: qs)) := solidEnds_flatMap fun x hx => (h x hx).solidEnds
    simpa using (solidEnds_quoted n).append hps

/-- What is known of an identifier that has been read from `raw`: the parameters `qs` behind its
name are settled, and a name with a quote in it was written bare. -/
structure Recorded (raw : Bytes) (qs : List Piece) (p : ParsedComponent) : Prop where
  eq : p = { qs.foldl Piece.record { raw := raw, name := p.name } with
    serialized := identifierText p.name qs }
  consistent : ¬ (p.bs = true ∧ (p.sf = true ∨ p.key ≠ []))
  settled : ∀ q ∈ qs, q.Settled
  lower : toLower U p.name = p.name
  bare : dquote ∈ p.name → semicolon ∉ p.name

theorem Recorded.serialized {raw : Bytes} {qs : List Piece} {p : ParsedComponent}
    (h : Recorded U raw qs p) : p.serialized = identifierText p.name qs := by
  rw [h.eq]
  simp

theorem splitName_bare
    (h : splitName raw s = .ok (namePart, remainder)) (hq : dquote ∈ namePart) :
    semicolon ∉ namePart := by
  unfold splitName at h
  split at h
  · split at h
    · cases h
    · rename_i _ x y hcut
      cases h
      exact absurd hq (cut_eq_some hcut).2
  · split at h
    · rename_i _ x y hcut
      cases h
      exact fun hm => (cut_eq_some hcut).2 (trimSpace_subset x hm)
    · rename_i hcut
      cases h
      exact cut_eq_none_iff.mp hcut

/-- **What is read is recorded as such**, as soon as it is ASCII. -/
theorem recorded_of_parse (h : parseComponentIdentifier U raw = .ok p) (hascii : Ascii p.serialized) :
    ∃ qs, Recorded U raw qs p := by
  obtain ⟨namePart, remainder, hsplit, hp, hcons⟩ := parseComponentIdentifier_ok U h
  have hname : p.name = toLower U namePart := parse_name U hsplit h
  have hser : p.serialized = identifierText p.name (readPieces U remainder) := by
    rw [hname, hp]
  rw [hser, identifierText_eq] at hascii
  have hnameAscii : Ascii p.name := fun b hb => hascii b (by simp [hb])
  refine ⟨readPieces U remainder, ?_, hcons, fun q hq => ?_, ?_, fun hq => ?_⟩
  · rw [hname]
    exact hp
  · have hpiece := hq
    rw [readPieces] at hpiece
    split at hpiece
    · cases hpiece
    · obtain ⟨part, hpart, hread⟩ := mem_filterMap.mp hpiece
      refine settled_of_readPiece U hread (not_mem_of_mem_splitOn hpart) fun b hb => hascii b ?_
      refine mem_append_right _ (mem_cons_of_mem _ (mem_flatMap.mpr ⟨q, hq, ?_⟩))
      exact mem_cons_of_mem _ hb
  · rw [hname] at hnameAscii ⊢
    exact toLower_toLower U hnameAscii
  · rw [hname, mem_toLower_iff U (by decide) (by decide)] at hq ⊢
    exact splitName_bare hsplit hq

theorem Piece.record_raw (r : Bytes) (c : ParsedComponent) (q : Piece) :
    q.record { c with raw := r } = { q.record c with raw := r } := by
  cases q <;> simp only [Piece.record] <;> split_ifs <;> rfl

theorem foldl_record_raw (r : Bytes) (qs : List Piece) (c : ParsedComponent) :
    qs.foldl Piece.record { c with raw := r } = { qs.foldl Piece.record c with raw := r } := by
  induction qs generalizing c with
  | nil => rfl
  | cons q qs ih => rw [foldl_cons, foldl_cons, Piece.record_raw, ih]

/-- **A serialized identifier is read back as what it was written for**, unless its name holds a
quote. -/
theorem parse_serialized (h : Recorded U raw qs p) (hq : dquote ∉ p.name) :
    parseComponentIdentifier U p.serialized = .ok { p with raw := p.serialized } := by
  have hraw := foldl_record_raw (identifierText p.name qs) qs { raw := raw, name := p.name }
  rw [h.serialized]
  refine parse_identifierText U hq h.lower (fun q hm => (h.settled q hm).stable U) ?_ h.consistent
  rw [hraw]
  conv_lhs => rw [h.eq]
  simp

/-! ## 4. Which identifiers are read back -/

/-- `c` and `p` are the same but for the text they were read from. -/
structure SameIdentifier (c p : ParsedComponent) : Prop where
  name : c.name = p.name
  key : c.key = p.key
  nameParam : c.nameParam = p.nameParam
  sf : c.sf = p.sf
  bs : c.bs = p.bs
  req : c.req = p.req
  tr : c.tr = p.tr
  serialized : c.serialized = p.serialized

/-- The serialized text of `p` is accepted, and read as `p`. -/
def ReadsBack (p : ParsedComponent) : Prop :=
  ∃ c, parseComponentIdentifier U p.serialized = .ok c ∧ SameIdentifier c p

/-- The name is written in quotes, or holds none. -/
def QuotedOrPlain (raw : Bytes) : Prop :=
  hasPrefix dquote (trimSpace raw) = true ∨ dquote ∉ (trimSpace raw).takeWhile (fun b => b ≠ semicolon)

theorem quotedOrPlain_iff
    (h : splitName raw (trimSpace raw) = .ok (namePart, remainder)) :
    QuotedOrPlain raw ↔ dquote ∉ namePart := by
  unfold QuotedOrPlain
  unfold splitName at h
  split at h
  · rename_i hp
    split at h
    · cases h
    · rename_i _ x y hcut
      cases h
      exact iff_of_true (.inl hp) (cut_eq_some hcut).2
  · rename_i hp
    rw [or_iff_right hp]
    split at h
    · rename_i _ x y hcut
      cases h
      obtain ⟨hx, hno⟩ := cut_eq_some hcut
      rw [hx, takeWhile_append_of_not_mem hno, takeWhile_cons_of_neg (by simp),
        append_nil, mem_trimSpace_iff (by decide)]
    · rename_i hcut
      cases h
      rw [takeWhile_of_not_mem (cut_eq_none_iff.mp hcut)]

theorem not_readsBack {c : ParsedComponent} (hq : dquote ∈ n)
    (h : parseComponentIdentifier U (identifierText n qs) = .ok c) : c.name ≠ n := by
  obtain ⟨x, y, rfl, hx⟩ : ∃ x y, n = x ++ dquote :: y ∧ dquote ∉ x := by
    cases hc : cut dquote n with
    | none => exact absurd hq (cut_eq_none_iff.mp hc)
    | some xy => exact ⟨xy.1, xy.2, cut_eq_some hc⟩
  have htext : identifierText (x ++ dquote :: y) qs =
      dquote :: x ++ dquote :: (y ++ dquote :: piecesText qs) := by
    rw [identifierText_eq]
    simp
  have htrim : trimSpace (identifierText (x ++ dquote :: y) qs) =
      dquote :: x ++ dquote :: trimRightSpace (y ++ dquote :: piecesText qs) := by
    rw [htext]
    simpa using (solidEnds_quoted x).trimSpace_append (y ++ dquote :: piecesText qs)
  have hname := parse_name U (by rw [htrim]; exact splitName_quoted hx) h
  intro he
  have hm : dquote ∈ toLower U x := by
    rw [← hname, he]
    simp
  exact hx ((mem_toLower_iff U (by decide) (by decide) x).mp hm)

/-- **A serialized identifier is read back exactly if the name was written in quotes or holds
none.** -/
theorem reads_back_iff (hU : LowerCase U) {raw : Bytes} {p : ParsedComponent}
    (h : parseComponentIdentifier U raw = .ok p) : ReadsBack U p ↔ QuotedOrPlain raw := by
  obtain ⟨namePart, remainder, hsplit, hp, hcons⟩ := parseComponentIdentifier_ok U h
  have hname : p.name = toLower U namePart := parse_name U hsplit h
  have hser : p.serialized = identifierText (toLower U namePart) (readPieces U remainder) := by
    rw [hp]
  have hquote : dquote ∈ toLower U namePart ↔ dquote ∈ namePart :=
    mem_toLower_iff U (by decide) (by decide) namePart
  rw [quotedOrPlain_iff hsplit, ReadsBack, hser]
  constructor
  · rintro ⟨c, hc, hsame⟩ hq
    exact not_readsBack U (hquote.mpr hq) hc (hsame.name.trans hname)
  · intro hq
    have hstable : ∀ q ∈ readPieces U remainder, q.Stable U := fun q hm => stable_of_readPieces U hU hm
    have hraw := foldl_record_raw (identifierText (toLower U namePart) (readPieces U remainder))
      (readPieces U remainder) { raw := raw, name := toLower U namePart }
    refine ⟨{ p with raw := p.serialized }, ?_, rfl, rfl, rfl, rfl, rfl, rfl, rfl, rfl⟩
    refine parse_identifierText U (mt hquote.mp hq) (hU.toLower_toLower namePart) hstable ?_ hcons
    rw [hser, hraw]
    conv_lhs => rw [hp]

theorem reads_back_iff_quoted :
    ∃ p, parseComponentIdentifier .ascii (lit "\"X ;y\" ; KEY = a ;sf") = .ok p ∧
      ReadsBack .ascii p := by
  have hparse : parseComponentIdentifier .ascii (lit "\"X ;y\" ; KEY = a ;sf") = .ok {
      raw := lit "\"X ;y\" ; KEY = a ;sf", name := lit "x ;y", key := lit "a", sf := true,
      serialized := lit "\"x ;y\";key=\"a\";sf" } := by decide
  exact ⟨_, hparse, (reads_back_iff .ascii lowerCase_ascii hparse).mpr (.inl (by decide))⟩

/-- **A bare name with a quote in it is not read back.** -/
theorem bare_quote_lost :
    ∃ p, parseComponentIdentifier .ascii (lit "a\"b") = .ok p ∧ ¬ ReadsBack .ascii p := by
  have hparse : parseComponentIdentifier .ascii (lit "a\"b") = .ok {
      raw := lit "a\"b", name := lit "a\"b", serialized := lit "\"a\"b\"" } := by decide
  have hagain : parseComponentIdentifier .ascii (lit "\"a\"b\"") = .ok {
      raw := lit "\"a\"b\"", name := lit "a", serialized := lit "\"a\";b\"" } := by decide
  refine ⟨_, hparse, ?_⟩
  rintro ⟨c, hc, hsame⟩
  rw [hagain] at hc
  obtain rfl := Except.ok.inj hc
  exact absurd hsame.name (by decide)

end AoniContrib.HttpSig
