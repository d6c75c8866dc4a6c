/-
# Reading the inner list of a member

`ParseSignatureParams` looks for the first `)` and for semicolons without regard to quotes.  An
identifier whose name is in lower case, whose parameters are flags and strings, and which holds
no `)` and no `;` inside a string is PLAIN: it is read back as it was written.  At the first
identifier that is not plain, what the parser reads serialises to a text that DIVERGES from the
one received, or to none at all (`components_of_defect`).
-/
import AoniContrib.HttpSig.Grammar

namespace AoniContrib.HttpSig

open Go Data List

variable {Q W name : Bytes} {m : Member} {p : ParsedComponent} {k : SfKey} {s : SfString}

variable (U : Unicode)

/-! ## 1. Plain identifiers -/

/-- A flag, or a string without `;` and `)`. -/
def ItemParam.Plain : ItemParam → Prop
  | .flag _ => True
  | .valued _ (.int _) => False
  | .valued _ (.str s) => semicolon ∉ s.val ∧ rparen ∉ s.val

structure Item.Plain (it : Item) : Prop where
  lower : it.name.val.map asciiLower = it.name.val
  name : rparen ∉ it.name.val
  params : ∀ p ∈ it.params, p.Plain

theorem SfString.toLower_eq (s : SfString) : toLower U s.val = s.val.map asciiLower :=
  toLower_of_ascii U fun b hb => isUnescaped_ascii b (s.unescaped b hb)

theorem ItemParam.Plain.text_eq : ∀ {p : ItemParam}, p.Plain → p.piece.text = semicolon :: p.body
  | .flag k, _ => rfl
  | .valued k (.str s), _ => by
    have hl : lit "=\"" = [equals, dquote] := by decide
    simp [ItemParam.piece, Piece.text, ItemParam.body, Value.text, Value.content, hl]

theorem not_mem_assignment {v : Bytes} {x : UInt8} (hk : isKeyByte x = false)
    (he : x ≠ equals) (hv : x ∉ v) : x ∉ k.val ++ equals :: v := by
  rw [mem_append, mem_cons, not_or, not_or]
  exact ⟨k.not_mem hk, he, hv⟩

theorem ItemParam.Plain.not_mem : ∀ {p : ItemParam}, p.Plain → semicolon ∉ p.body ∧ rparen ∉ p.body
  | .flag k, _ => ⟨k.not_mem (by decide), k.not_mem (by decide)⟩
  | .valued k (.str s), h => by
    have hq : ∀ {x : UInt8}, x ∉ s.val → x ≠ dquote → x ∉ dquote :: s.val ++ [dquote] := by
      intro x hx hd
      simpa [hd] using hx
    exact ⟨not_mem_assignment (by decide) (by decide) (hq h.1 (by decide)),
      not_mem_assignment (by decide) (by decide) (hq h.2 (by decide))⟩

variable {ps : List ItemParam}

theorem rparen_not_mem_itemParamsText (h : ∀ p ∈ ps, p.Plain) : rparen ∉ itemParamsText ps := by
  intro hm
  obtain ⟨p, hp, hm⟩ := mem_flatMap.mp hm
  rcases mem_cons.mp hm with he | hm
  · exact absurd he (by decide)
  · exact (h p hp).not_mem.2 hm

variable {it : Item}

theorem Item.Plain.rparen_not_mem (h : it.Plain) : rparen ∉ it.text := by
  have h1 := h.name
  have h2 := rparen_not_mem_itemParamsText h.params
  simp only [Item.text, cons_append, mem_cons, mem_append, not_or]
  exact ⟨by decide, h1, by decide, h2⟩

theorem flatMap_piece_text (h : ∀ p ∈ ps, p.Plain) :
    (ps.map ItemParam.piece).flatMap Piece.text = itemParamsText ps := by
  rw [flatMap_map, itemParamsText]
  exact flatMap_congr fun p hp => (h p hp).text_eq

/-! ## 2. Parsing an identifier that starts well -/

theorem solidEnds_quoted (name : Bytes) : SolidEnds (dquote :: name ++ [dquote]) := by
  refine ⟨⟨dquote, rfl, by decide⟩, dquote, ?_, by decide⟩
  rw [getLast?_concat]

theorem splitName_quoted {raw R : Bytes} (hq : dquote ∉ name) :
    splitName raw (dquote :: name ++ dquote :: R) = .ok (name, trimSpace R) := by
  have hp : hasPrefix dquote (dquote :: name ++ dquote :: R) = true := rfl
  rw [splitName, if_pos hp, cons_append, tail_cons, cut_append hq]

/-- **A quoted name is read**, and the parameters from the text behind it. -/
theorem parse_quoted {R : Bytes} (hq : dquote ∉ name)
    (h : parseComponentIdentifier U (dquote :: name ++ dquote :: R) = .ok p) :
    p.serialized = identifierText (toLower U name) (readPieces U (trimSpace (trimRightSpace R))) := by
  have htrim : trimSpace (dquote :: name ++ dquote :: R) =
      dquote :: name ++ dquote :: trimRightSpace R :=
    trimSpace_append_cons (s := dquote :: name) (by rintro b ⟨⟩; decide) (by decide) R
  obtain ⟨n, r, hsplit, rfl, -⟩ := parseComponentIdentifier_ok U h
  rw [htrim, splitName_quoted hq] at hsplit
  cases hsplit
  rfl

theorem parse_quoted_params (hq : dquote ∉ name)
    (hQ : SolidEnds Q)
    (h : parseComponentIdentifier U (dquote :: name ++ dquote :: (Q ++ W)) = .ok p) :
    p.serialized = identifierText (toLower U name) (readPieces U (Q ++ trimRightSpace W)) := by
  rw [parse_quoted U hq h, hQ.trimRightSpace_append, hQ.trimSpace_append, trimRightSpace_idem]

theorem parse_open_name {x : Bytes} (hx : dquote ∉ x) (p : ParsedComponent) :
    parseComponentIdentifier U (dquote :: x) ≠ .ok p := by
  intro h
  obtain ⟨n, r, hsplit, -, -⟩ := parseComponentIdentifier_ok U h
  have hp : hasPrefix dquote (dquote :: trimRightSpace x) = true := rfl
  have hcut : cut dquote (trimRightSpace x) = none :=
    cut_eq_none_iff.mpr fun hm => hx ((trimRightSpace_initial x).subset hm)
  rw [trimSpace_cons_solid (by decide), splitName, if_pos hp, tail_cons, hcut] at hsplit
  cases hsplit

theorem Item.solidEnds (it : Item) : SolidEnds it.text := by
  cases hps : it.params with
  | nil => simpa [Item.text, hps, itemParamsText] using solidEnds_quoted it.name.val
  | cons p ps =>
    have h : SolidEnds (itemParamsText (p :: ps)) := solidEnds_flatMap fun q _ => q.solidEnds
    have := (solidEnds_quoted it.name.val).append h
    simpa [Item.text, hps] using this

/-- What is recorded for an identifier, as it is written. -/
def Item.parsed (it : Item) : ParsedComponent :=
  { (it.params.map ItemParam.piece).foldl Piece.record { raw := it.text, name := it.name.val } with
    serialized := it.text }

/-- **A plain identifier is read as it was written**, unless its parameters conflict. -/
theorem parse_plain (h : it.Plain) : parseComponentIdentifier U it.text =
      if it.parsed.bs && (it.parsed.sf || it.parsed.key ≠ []) then
        .error (.wrap .errInvalidStructuredField "bs parameter cannot be combined with sf or key" [])
      else .ok it.parsed := by
  have hne : it.text ≠ [] := by simp [Item.text]
  have hsplit : splitName it.text it.text = .ok (it.name.val, itemParamsText it.params) := by
    have htrim : trimSpace (itemParamsText it.params) = itemParamsText it.params := by
      cases hps : it.params with
      | nil => rfl
      | cons p ps =>
        exact SolidEnds.trimSpace_eq (solidEnds_flatMap fun q _ => q.solidEnds)
    conv_lhs => arg 2; rw [Item.text]
    rw [splitName_quoted (it.name.not_mem (by decide)), htrim]
  have hpieces : readPieces U (itemParamsText it.params) = it.params.map ItemParam.piece :=
    readPieces_params U fun p hp => (h.params p hp).not_mem.1
  have htext : identifierText it.name.val (it.params.map ItemParam.piece) = it.text := by
    rw [identifierText, flatMap_piece_text h.params]
    simp [Item.text]
  simp only [parseComponentIdentifier, it.solidEnds.trimSpace_eq, if_neg hne, hsplit, bind,
    Except.bind, SfString.toLower_eq, h.lower, hpieces, htext]
  rfl

/-! ## 3. The first parameter that is not plain -/

theorem diverge_identifier {qs rs : List ItemParam} {bad : ItemParam} {x : Piece}
    {more : List Piece} (hps : it.params = qs ++ bad :: rs) (hqs : ∀ q ∈ qs, q.Plain)
    (hx : Diverge x.text (semicolon :: bad.body)) :
    Diverge (identifierText it.name.val (qs.map ItemParam.piece ++ x :: more)) it.text := by
  have h := (hx.append (more.flatMap Piece.text) (itemParamsText rs)).prepend
    (dquote :: it.name.val ++ dquote :: itemParamsText qs)
  have hleft : identifierText it.name.val (qs.map ItemParam.piece ++ x :: more) =
      (dquote :: it.name.val ++ dquote :: itemParamsText qs) ++
        (x.text ++ more.flatMap Piece.text) := by
    rw [identifierText, flatMap_append, flatMap_piece_text hqs, flatMap_cons]
    simp
  have hright : it.text = (dquote :: it.name.val ++ dquote :: itemParamsText qs) ++
      (semicolon :: bad.body ++ itemParamsText rs) := by
    rw [Item.text, hps]
    simp [itemParamsText]
  rw [hleft, hright]
  exact h

theorem diverge_int (k : SfKey) (n : SfInteger) : Diverge (ItemParam.valued k (.int n)).piece.text
      (semicolon :: (ItemParam.valued k (.int n)).body) := by
  cases ht : n.text with
  | nil => exact absurd ht n.text_ne_nil
  | cons b t =>
    have hb : dquote ≠ b := by
      rintro rfl
      exact n.not_mem_text (x := dquote) (by decide) (by decide) (by rw [ht]; exact mem_cons_self)
    have hl : lit "=\"" = [equals, dquote] := by decide
    have h := (Diverge.of_heads hb (b :: t ++ [dquote]) t).prepend (semicolon :: k.val ++ [equals])
    simpa [ItemParam.piece, Piece.text, ItemParam.body, Value.text, Value.content, ht, hl] using h

theorem diverge_open (k : SfKey) (hs : s.val ≠ []) (x : Bytes) :
    Diverge (Piece.param k.val (dquote :: x)).text
      (semicolon :: (ItemParam.valued k (.str s)).body) := by
  cases ht : s.val with
  | nil => exact absurd ht hs
  | cons b t =>
    have hb : dquote ≠ b := by
      rintro rfl
      exact s.not_mem (x := dquote) (by decide) (by rw [ht]; exact mem_cons_self)
    have hl : lit "=\"" = [equals, dquote] := by decide
    have h := (Diverge.of_heads hb (x ++ [dquote]) (t ++ [dquote])).prepend
      (semicolon :: k.val ++ [equals, dquote])
    simpa [Piece.text, ItemParam.body, Value.text, ht, hl] using h

theorem solidEnds_itemParams_append (qs : List ItemParam) (hQ : SolidEnds Q) :
    SolidEnds (itemParamsText qs ++ Q) := by
  cases qs with
  | nil => exact hQ
  | cons q qs => exact SolidEnds.append (solidEnds_flatMap fun q _ => q.solidEnds) hQ

theorem solidEnds_semicolon (hQ : SolidEnds Q) : SolidEnds (semicolon :: Q) :=
  SolidEnds.append (s := [semicolon]) ⟨⟨semicolon, rfl, by decide⟩, semicolon, rfl, by decide⟩ hQ

section
variable {it : Item} {qs rs : List ItemParam}

theorem parse_defect_int {n : SfInteger}
    (hlower : it.name.val.map asciiLower = it.name.val)
    (hps : it.params = qs ++ .valued k (.int n) :: rs) (hqs : ∀ q ∈ qs, q.Plain)
    (hW : W = [] ∨ W.head? = some semicolon)
    (h : parseComponentIdentifier U (dquote :: it.name.val ++ dquote ::
      (itemParamsText qs ++ semicolon :: (ItemParam.valued k (.int n)).body ++ W)) = .ok p) :
    Diverge p.serialized it.text := by
  have hsolid := solidEnds_itemParams_append qs
    (solidEnds_semicolon (ItemParam.valued k (.int n)).solidEnds)
  have he := parse_quoted_params U (it.name.not_mem (by decide)) hsolid h
  have hno : semicolon ∉ (ItemParam.valued k (.int n)).body :=
    not_mem_assignment (by decide) (by decide) (n.not_mem_text (by decide) (by decide))
  obtain ⟨more, hmore⟩ :=
    splitOn_eq_takeWhile semicolon ((ItemParam.valued k (.int n)).body ++ trimRightSpace W)
  have hstop : (trimRightSpace W).takeWhile (fun b => b ≠ semicolon) = [] := by
    rcases hW with rfl | hW
    · rfl
    · obtain ⟨W', rfl⟩ := head?_eq_some_iff.mp hW
      rw [trimRightSpace_cons (by decide)]
      simp
  rw [takeWhile_append_of_not_mem hno, hstop, append_nil] at hmore
  rw [he, SfString.toLower_eq, hlower, append_assoc, cons_append,
    readPieces_append U (fun q hq => (hqs q hq).not_mem.1), hmore,
    filterMap_cons_some (readPiece_body U _)]
  exact diverge_identifier hps hqs (diverge_int k n)

theorem parse_defect_str (hlower : it.name.val.map asciiLower = it.name.val)
    (hps : it.params = qs ++ .valued k (.str s) :: rs) (hqs : ∀ q ∈ qs, q.Plain)
    (hs : s.val ≠ []) (hW : dquote ∉ W.takeWhile (fun b => b ≠ semicolon))
    (h : parseComponentIdentifier U (dquote :: it.name.val ++ dquote ::
      (itemParamsText qs ++ semicolon :: (k.val ++ [equals, dquote]) ++ W)) = .ok p) :
    Diverge p.serialized it.text := by
  have hsolid := solidEnds_itemParams_append qs
    (solidEnds_semicolon (solidEnds_assignment k solidEnds_dquote))
  have he := parse_quoted_params U (it.name.not_mem (by decide)) hsolid h
  have hopen : dquote ∉ (trimRightSpace W).takeWhile (fun b => b ≠ semicolon) :=
    fun hm => hW ((takeWhile_mono (trimRightSpace_initial W)).subset hm)
  have hno : semicolon ∉ k.val ++ [equals, dquote] :=
    not_mem_assignment (by decide) (by decide) (by decide)
  obtain ⟨more, hmore⟩ := splitOn_eq_takeWhile semicolon (k.val ++ [equals, dquote] ++ trimRightSpace W)
  rw [takeWhile_append_of_not_mem hno] at hmore
  obtain ⟨x, hx⟩ := readPiece_open U k hopen
  have hx : readPiece U (k.val ++ [equals, dquote] ++ (trimRightSpace W).takeWhile (fun b => b ≠ semicolon)) =
      some (.param k.val (dquote :: x)) := by simpa using hx
  rw [he, SfString.toLower_eq, hlower, append_assoc, cons_append,
    readPieces_append U (fun q hq => (hqs q hq).not_mem.1), hmore, filterMap_cons_some hx]
  exact diverge_identifier hps hqs (diverge_open k hs x)

end

/-! ## 4. The first identifier that is not plain -/

theorem join_cons (a : Bytes) (l : List Bytes) :
    join [space] (a :: l) = a ++ l.flatMap (fun x => space :: x) := by
  induction l generalizing a with
  | nil => simp [join]
  | cons b l ih =>
    have hstep : join [space] (a :: b :: l) = a ++ ([space] ++ join [space] (b :: l)) := by
      rw [join, join, intercalate_cons_cons, append_assoc]
    rw [hstep, ih, flatMap_cons]
    simp

/-- The list before an identifier, each item followed by a blank. -/
def itemsBefore (pre : List Item) : Bytes := pre.flatMap (fun it => it.text ++ [space])

theorem join_append_cons (xs : List Bytes) (y : Bytes) (ys : List Bytes) :
    join [space] (xs ++ y :: ys) =
      xs.flatMap (fun x => x ++ [space]) ++ (y ++ ys.flatMap (fun x => space :: x)) := by
  induction xs with
  | nil => exact join_cons y ys
  | cons x xs ih =>
    have hne : ∃ z zs, xs ++ y :: ys = z :: zs := by
      cases xs with
      | nil => exact ⟨y, ys, rfl⟩
      | cons z zs => exact ⟨z, zs ++ y :: ys, rfl⟩
    obtain ⟨z, zs, hz⟩ := hne
    rw [cons_append, hz, join, intercalate_cons_cons, ← join, ← hz, ih]
    simp

theorem splitLoop_before (pre : List Item) (rest : Bytes) :
    splitInnerListLoop false [] (itemsBefore pre ++ rest) =
      pre.map Item.text ++ splitInnerListLoop false [] rest := by
  induction pre with
  | nil => rfl
  | cons it pre ih =>
    have hne : [] ++ it.text ≠ [] := by simp [Item.text]
    have h := splitLoop_item it [] (space :: (itemsBefore pre ++ rest))
    rw [splitLoop_space hne, ih] at h
    simpa [itemsBefore] using h

theorem solidEnds_before (pre : List Item) {H : Bytes} (hH : SolidEnds H) :
    SolidEnds (itemsBefore pre ++ H) := by
  obtain ⟨⟨b, hb, hsb⟩, c, hc, hsc⟩ := hH
  refine ⟨?_, c, by rw [getLast?_append, hc]; rfl, hsc⟩
  cases pre with
  | nil => exact ⟨b, hb, hsb⟩
  | cons it pre => exact ⟨dquote, rfl, by decide⟩

theorem splitInnerList_before (pre : List Item) {H : Bytes} (hH : SolidEnds H) (W : Bytes) :
    ∃ W', W' <+: W ∧ splitInnerList (trimSpace (itemsBefore pre ++ (H ++ W))) =
      pre.map Item.text ++ splitInnerListLoop false [] (H ++ W') := by
  refine ⟨trimRightSpace W, trimRightSpace_initial W, ?_⟩
  rw [← append_assoc, (solidEnds_before pre hH).trimSpace_append, splitInnerList, append_assoc,
    splitLoop_before]

/-- Behind the earlier identifiers, the items read go on with one that serialises to a text
that diverges from the identifier `it`, or to none. -/
def Misread (pre : List Item) (it : Item) (comps : List Bytes) : Prop :=
  ∃ t more, comps = pre.map Item.text ++ t :: more ∧
    ∀ q, parseComponentIdentifier U t = .ok q → Diverge q.serialized it.text

section
variable (pre : List Item) {it : Item} (tail : Bytes)

theorem misread_name (hn : rparen ∈ it.name.val) : Misread U pre it (splitInnerList (trimSpace
      (itemsBefore pre ++ (it.text ++ tail).takeWhile (fun b => b ≠ rparen)))) := by
  have htake : (it.text ++ tail).takeWhile (fun b => b ≠ rparen) =
      [dquote] ++ it.name.val.takeWhile (fun b => b ≠ rparen) := by
    have h := takeWhile_append_of_mem (p := fun b => decide (b ≠ rparen)) (x := rparen) (by simp)
      hn (dquote :: itemParamsText it.params ++ tail)
    rw [Item.text, cons_append, cons_append, takeWhile_cons, if_pos (by decide), append_assoc, h]
    rfl
  obtain ⟨W, hW, hsplit⟩ :=
    splitInnerList_before pre solidEnds_dquote (it.name.val.takeWhile (fun b => b ≠ rparen))
  obtain ⟨t, more, ht, -, hchunk⟩ := splitLoop_chunk W ([] ++ [dquote]) (!false) (by simp)
  refine ⟨dquote :: t, more, ?_, fun q hp => ?_⟩
  · rw [htake, hsplit, singleton_append, splitLoop_quote, hchunk]
    rfl
  · have hno : dquote ∉ t := by
      intro hm
      exact it.name.not_mem (x := dquote) (by decide)
        ((takeWhile_sublist _).subset (hW.subset (ht.subset hm)))
    exact absurd hp (parse_open_name U hno q)

theorem takeWhile_item (hn : rparen ∉ it.name.val) : (it.text ++ tail).takeWhile (fun b => b ≠ rparen) =
      (dquote :: it.name.val ++ [dquote]) ++
        (itemParamsText it.params ++ tail).takeWhile (fun b => b ≠ rparen) := by
  have hno : rparen ∉ dquote :: it.name.val ++ [dquote] := by
    simpa using hn
  rw [← takeWhile_append_of_not_mem hno]
  simp [Item.text]

theorem misread_upper (hn : rparen ∉ it.name.val)
    (hup : it.name.val.map asciiLower ≠ it.name.val) :
    Misread U pre it (splitInnerList (trimSpace
      (itemsBefore pre ++ (it.text ++ tail).takeWhile (fun b => b ≠ rparen)))) := by
  obtain ⟨W, -, hsplit⟩ := splitInnerList_before pre (solidEnds_quoted it.name.val)
    ((itemParamsText it.params ++ tail).takeWhile (fun b => b ≠ rparen))
  have hstring := splitLoop_string it.name [] W
  obtain ⟨t, more, -, -, hchunk⟩ := splitLoop_chunk W
    ([] ++ (dquote :: it.name.val ++ [dquote])) false (by simp)
  refine ⟨dquote :: it.name.val ++ dquote :: t, more, ?_, fun q hp => ?_⟩
  · rw [takeWhile_item tail hn, hsplit]
    simp only [append_assoc, cons_append, nil_append] at hstring hchunk ⊢
    rw [hstring, hchunk]
  · have h := ((diverge_map_of_ne hup).append
      (dquote :: (readPieces U (trimSpace (trimRightSpace t))).flatMap Piece.text)
      (dquote :: itemParamsText it.params)).prepend [dquote]
    rw [parse_quoted U (it.name.not_mem (by decide)) hp, SfString.toLower_eq]
    simpa [identifierText, Item.text] using h

variable {qs rs : List ItemParam}

theorem misread_int {n : SfInteger}
    (htail : tail = [] ∨ tail.head? = some space) (hn : rparen ∉ it.name.val)
    (hlower : it.name.val.map asciiLower = it.name.val)
    (hps : it.params = qs ++ .valued k (.int n) :: rs) (hqs : ∀ q ∈ qs, q.Plain) :
    Misread U pre it (splitInnerList (trimSpace
      (itemsBefore pre ++ (it.text ++ tail).takeWhile (fun b => b ≠ rparen)))) := by
  -- the identifier up to the integer is an identifier itself
  let head : Item := ⟨it.name, qs ++ [.valued k (.int n)]⟩
  have hno : rparen ∉ itemParamsText head.params := by
    have hint : rparen ∉ (ItemParam.valued k (.int n)).body :=
      not_mem_assignment (by decide) (by decide) (n.not_mem_text (by decide) (by decide))
    have hq := rparen_not_mem_itemParamsText hqs
    rw [itemParamsText] at hq ⊢
    rw [flatMap_append, mem_append, not_or]
    refine ⟨hq, ?_⟩
    simpa using hint
  have htake : (it.text ++ tail).takeWhile (fun b => b ≠ rparen) =
      head.text ++ (itemParamsText rs ++ tail).takeWhile (fun b => b ≠ rparen) := by
    have hsplit : itemParamsText it.params ++ tail =
        itemParamsText head.params ++ (itemParamsText rs ++ tail) := by
      simp [hps, head, itemParamsText]
    rw [takeWhile_item tail hn, hsplit, takeWhile_append_of_not_mem hno]
    simp [Item.text, head]
  obtain ⟨W, hW, hsplit⟩ := splitInnerList_before pre head.solidEnds
    ((itemParamsText rs ++ tail).takeWhile (fun b => b ≠ rparen))
  obtain ⟨t, more, ht, hblank, hchunk⟩ := splitLoop_chunk W ([] ++ head.text) false
    (by simp [Item.text])
  -- what follows the integer inside the item is another parameter
  have hhead : t = [] ∨ t.head? = some semicolon := by
    cases t with
    | nil => exact .inl rfl
    | cons b t =>
      have hb : (itemParamsText rs ++ tail).head? = some b := by
        obtain ⟨r, hr⟩ := (ht.trans hW).trans <| takeWhile_prefix _
        rw [← hr]
        rfl
      cases rs with
      | nil =>
        rcases htail with rfl | htail
        · cases hb
        · have hb : tail.head? = some b := hb
          rw [htail] at hb
          exact absurd (by rw [head?_cons, Option.some.inj hb]) (hblank rfl)
      | cons r rs =>
        right
        rw [head?_cons, ← hb]
        rfl
  refine ⟨head.text ++ t, more, ?_, fun q hp => ?_⟩
  · rw [htake, hsplit, splitLoop_item, hchunk]
    rfl
  · refine parse_defect_int U hlower hps hqs hhead ?_
    rw [← hp]
    simp [Item.text, head, itemParamsText]

theorem misread_str
    (hn : rparen ∉ it.name.val) (hlower : it.name.val.map asciiLower = it.name.val)
    (hps : it.params = qs ++ .valued k (.str s) :: rs) (hqs : ∀ q ∈ qs, q.Plain)
    (hs : semicolon ∈ s.val ∨ rparen ∈ s.val) :
    Misread U pre it (splitInnerList (trimSpace
      (itemsBefore pre ++ (it.text ++ tail).takeWhile (fun b => b ≠ rparen)))) := by
  let head : Item := ⟨it.name, qs ++ [.flag k]⟩
  let rest : Bytes := s.val ++ (dquote :: itemParamsText rs ++ tail)
  have hno : rparen ∉ itemParamsText head.params ++ [equals, dquote] := by
    rw [mem_append, not_or]
    refine ⟨rparen_not_mem_itemParamsText ?_, by decide⟩
    intro p hp
    rcases mem_append.mp hp with hp | hp
    · exact hqs p hp
    · rw [mem_singleton.mp hp]
      trivial
  have htake : (it.text ++ tail).takeWhile (fun b => b ≠ rparen) =
      (head.text ++ [equals, dquote]) ++ rest.takeWhile (fun b => b ≠ rparen) := by
    have hsplit : itemParamsText it.params ++ tail =
        (itemParamsText head.params ++ [equals, dquote]) ++ rest := by
      simp [hps, head, rest, itemParamsText, ItemParam.body, Value.text]
    rw [takeWhile_item tail hn, hsplit, takeWhile_append_of_not_mem hno]
    simp [Item.text, head]
  have hq : SolidEnds [equals, dquote] := ⟨⟨equals, rfl, by decide⟩, dquote, rfl, by decide⟩
  obtain ⟨W, hW, hsplit⟩ := splitInnerList_before pre (head.solidEnds.append hq)
    (rest.takeWhile (fun b => b ≠ rparen))
  obtain ⟨t, more, ht, -, hchunk⟩ := splitLoop_chunk W ([] ++ head.text ++ [equals] ++ [dquote])
    (!false) (by simp)
  have hplain := splitLoop_plain (w := [equals]) (q := false) (by decide) (.inr (by decide))
    ([] ++ head.text) (dquote :: W)
  -- the string is cut before its closing quote, at the parenthesis or at the semicolon
  have hopen : dquote ∉ t.takeWhile (fun b => b ≠ semicolon) := by
    have hcut : (rest.takeWhile (fun b => b ≠ rparen)).takeWhile (fun b => b ≠ semicolon) <+:
        s.val := by
      rw [takeWhile_takeWhile]
      rcases hs with hs | hs
      · rw [takeWhile_append_of_mem (x := semicolon) (by simp) hs]
        exact takeWhile_prefix _
      · rw [takeWhile_append_of_mem (x := rparen) (by simp) hs]
        exact takeWhile_prefix _
    intro hm
    exact s.not_mem (x := dquote) (by decide) (hcut.subset ((takeWhile_mono (ht.trans hW)).subset hm))
  refine ⟨head.text ++ [equals, dquote] ++ t, more, ?_, fun q hp => ?_⟩
  · rw [htake, hsplit, append_assoc, splitLoop_item]
    change _ ++ splitInnerListLoop false ([] ++ head.text) ([equals] ++ dquote :: W) = _
    rw [hplain, splitLoop_quote, hchunk]
    simp
  · have hne : s.val ≠ [] := by
      intro he
      rw [he] at hs
      rcases hs with hs | hs <;> cases hs
    refine parse_defect_str U hlower hps hqs hne hopen ?_
    rw [← hp]
    simp [Item.text, head, itemParamsText, ItemParam.body]

end

variable {pre post : List Item}

theorem inner_eq {it : Item} (hm : m.items = pre ++ it :: post) :
    m.inner = itemsBefore pre ++ (it.text ++ post.flatMap (fun i => space :: i.text)) := by
  rw [Member.inner, hm, map_append, map_cons, join_append_cons, itemsBefore, flatMap_map, flatMap_map]

theorem rparen_not_mem_itemsBefore (h : ∀ i ∈ pre, i.Plain) : rparen ∉ itemsBefore pre := by
  intro hm
  obtain ⟨i, hi, hm⟩ := mem_flatMap.mp hm
  rcases mem_append.mp hm with hm | hm
  · exact (h i hi).rparen_not_mem hm
  · exact absurd (mem_singleton.mp hm) (by decide)

/-- **The first identifier that is not plain is misread.** -/
theorem components_of_defect {it : Item}
    (hm : m.items = pre ++ it :: post) (hpre : ∀ i ∈ pre, i.Plain) (hit : ¬ it.Plain) :
    Misread U pre it (splitInnerList (trimSpace (m.inner.takeWhile (fun b => b ≠ rparen)))) := by
  rw [inner_eq hm, takeWhile_append_of_not_mem (rparen_not_mem_itemsBefore hpre)]
  by_cases hn : rparen ∈ it.name.val
  · exact misread_name U pre _ hn
  by_cases hlower : it.name.val.map asciiLower = it.name.val
  · have hdefect : ¬ ∀ p ∈ it.params, p.Plain := fun h => hit ⟨hlower, hn, h⟩
    obtain ⟨qs, bad, rs, hps, hqs, hbad⟩ := exists_first_not hdefect
    match bad, hps, hbad with
    | .flag _, _, hbad => exact absurd trivial hbad
    | .valued k (.int n), hps, _ =>
      refine misread_int U pre _ ?_ hn hlower hps hqs
      cases post with
      | nil => exact .inl rfl
      | cons i post => exact .inr rfl
    | .valued k (.str s), hps, hbad =>
      refine misread_str U pre _ hn hlower hps hqs ?_
      by_contra hno
      rw [not_or] at hno
      exact hbad hno
  · exact misread_upper U pre _ hn hlower

theorem components_plain (h : ∀ it ∈ m.items, it.Plain) :
    rparen ∉ m.inner ∧ splitInnerList (trimSpace m.inner) = m.items.map Item.text := by
  rcases eq_nil_or_concat m.items with hm | ⟨pre, it, hm⟩
  · have hinner : m.inner = [] := by simp [Member.inner, hm, join]
    rw [hinner, hm]
    exact ⟨by simp, rfl⟩
  · rw [concat_eq_append] at hm
    have hpre : ∀ i ∈ pre, i.Plain := fun i hi => h i (by rw [hm]; exact mem_append_left _ hi)
    have hit : it.Plain := h it (by simp [hm])
    have hinner : m.inner = itemsBefore pre ++ it.text := by
      rw [inner_eq hm, flatMap_nil, append_nil]
    constructor
    · rw [hinner, mem_append, not_or]
      exact ⟨rparen_not_mem_itemsBefore hpre, hit.rparen_not_mem⟩
    · have hlast := splitLoop_item it [] []
      have hne : it.text ≠ [] := by simp [Item.text]
      rw [append_nil, splitInnerListLoop, nil_append, if_pos hne] at hlast
      rw [hinner, (solidEnds_before pre it.solidEnds).trimSpace_eq, splitInnerList,
        splitLoop_before, hlast, hm, map_append]
      rfl

/-! ## 5. Reading a member -/

theorem Member.solidEnds (m : Member) : SolidEnds m.text := by
  refine ⟨⟨lparen, rfl, by decide⟩, ?_⟩
  have hclose : SolidEnds [rparen] := ⟨⟨rparen, rfl, by decide⟩, rparen, rfl, by decide⟩
  obtain ⟨-, b, hb, hsb⟩ : SolidEnds ([rparen] ++ m.paramsText) := by
    cases hps : m.params with
    | nil => simpa [Member.paramsText, hps] using hclose
    | cons p ps =>
      rw [Member.paramsText, hps]
      exact hclose.append (solidEnds_flatMap fun q _ => q.solidEnds)
  refine ⟨b, ?_, hsb⟩
  rw [Member.text, ← singleton_append (x := rparen), getLast?_append, hb]
  rfl

@[simp] theorem readParam_components (params : SignatureParams) (part : Bytes) :
    (readParam U params part).components = params.components := by
  have hset : ∀ k v, (setParam params k v).components = params.components := by
    intro k v
    unfold setParam
    split_ifs
    all_goals first | rfl | (split <;> rfl)
  unfold readParam
  simp only
  split
  · rfl
  · split
    · rfl
    · exact hset _ _

@[simp] theorem foldl_readParam_components (parts : List Bytes) (params : SignatureParams) :
    (parts.foldl (readParam U) params).components = params.components := by
  induction parts generalizing params with
  | nil => rfl
  | cons part parts ih => rw [foldl_cons, ih, readParam_components]

theorem parseSignatureParams_cut {input list rest : Bytes} (ht : trimSpace input = input)
    (hp : hasPrefix lparen input = true) (hc : cut rparen input = some (list, rest)) :
    parseSignatureParams U input = .ok
      (if trimSpace rest ≠ [] then ((trimSpace rest).splitOn semicolon).foldl (readParam U)
        { components := splitInnerList (trimSpace list.tail) }
      else { components := splitInnerList (trimSpace list.tail) }) := by
  have hempty : ∀ s : Bytes, (if s ≠ [] then splitInnerList s else []) = splitInnerList s := by
    intro s
    by_cases hs : s = []
    · subst hs
      rfl
    · rw [if_pos hs]
  unfold parseSignatureParams
  simp only [ht, hp, hc, Bool.not_true, Bool.false_eq_true, if_false, hempty]

theorem parse_member (m : Member) : ∃ p, parseSignatureParams U m.text = .ok p ∧
      p.components = splitInnerList (trimSpace (m.inner.takeWhile (fun b => b ≠ rparen))) := by
  obtain ⟨rest, hcut⟩ : ∃ rest, cut rparen m.text =
      some (lparen :: m.inner.takeWhile (fun b => b ≠ rparen), rest) := by
    have hno : rparen ∉ lparen :: m.inner.takeWhile (fun b => b ≠ rparen) := by
      intro hm
      rcases mem_cons.mp hm with he | hm
      · exact absurd he (by decide)
      · simpa using mem_takeWhile_imp hm
    rcases hd : m.inner.dropWhile (fun b => b ≠ rparen) with _ | ⟨b, t⟩
    · refine ⟨m.paramsText, ?_⟩
      have hall : m.inner.takeWhile (fun b => b ≠ rparen) = m.inner := by
        have := takeWhile_append_dropWhile (p := fun b => decide (b ≠ rparen)) (l := m.inner)
        rwa [hd, append_nil] at this
      rw [hall] at hno ⊢
      exact cut_append hno m.paramsText
    · have hb : b = rparen := by
        have := head?_dropWhile_not (fun b => decide (b ≠ rparen)) m.inner
        rw [hd] at this
        simpa using this
      subst hb
      refine ⟨t ++ rparen :: m.paramsText, ?_⟩
      have hsplit : m.text = (lparen :: m.inner.takeWhile (fun b => b ≠ rparen)) ++
          rparen :: (t ++ rparen :: m.paramsText) := by
        have := takeWhile_append_dropWhile (p := fun b => decide (b ≠ rparen)) (l := m.inner)
        rw [hd] at this
        rw [Member.text]
        conv_lhs => rw [← this]
        simp
      rw [hsplit]
      exact cut_append hno _
  refine ⟨_, parseSignatureParams_cut U m.solidEnds.trimSpace_eq rfl hcut, ?_⟩
  split
  · rw [foldl_readParam_components, tail_cons]
  · rw [tail_cons]

theorem parse_member_plain (h : ∀ it ∈ m.items, it.Plain) : parseSignatureParams U m.text = .ok
      ((m.params.flatMap (fun p => p.body.splitOn semicolon)).foldl (readParam U)
        { components := m.items.map Item.text }) := by
  obtain ⟨hno, hcomps⟩ := components_plain h
  have hcut : cut rparen m.text = some (lparen :: m.inner, m.paramsText) := by
    refine cut_append ?_ m.paramsText
    rw [mem_cons, not_or]
    exact ⟨by decide, hno⟩
  rw [parseSignatureParams_cut U m.solidEnds.trimSpace_eq rfl hcut, tail_cons, hcomps]
  cases hps : m.params with
  | nil => simp [Member.paramsText, hps]
  | cons p ps =>
    have hsolid : SolidEnds m.paramsText := by
      rw [Member.paramsText, hps]
      exact solidEnds_flatMap fun q _ => q.solidEnds
    have hne : m.paramsText ≠ [] := by simp [Member.paramsText, hps]
    have hsplit := splitOn_flatMap_cons semicolon Param.body [] m.params
    have hnil : ([] : Bytes).splitOn semicolon = [[]] := rfl
    rw [nil_append, ← Member.paramsText, hnil, singleton_append] at hsplit
    have hblank : ∀ params, readParam U params [] = params := fun _ => rfl
    rw [hsolid.trimSpace_eq, if_pos hne, hsplit, foldl_cons, hblank, hps]

end AoniContrib.HttpSig
