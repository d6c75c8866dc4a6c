/-
# Chunks of an inner list

The splitters of `ParseSignatureParams` do not always hand over an identifier as it was
written.  A CHUNK that ends inside the identifier, at a blank or a parenthesis, or that goes on
behind it, is read as an identifier whose line in the signature base diverges from the one that
was signed (`diverge_of_wrongChunk`).  `headChunk` says what the first chunk of a list can be.
-/
import AoniContrib.HttpSig.Settled

namespace AoniContrib.HttpSig

open Go Data List

variable {Y rest y : Bytes} {q : Piece} {x : UInt8}

variable (U : Unicode)

/-! ## 1. A parameter that is cut short, or goes on

What is written for the part `z` of a text is `pieceText U z`.  In the signature base a colon
follows the identifier, and a colon is what neither a cut nor a continuation has at that place. -/

def pieceText (part : Bytes) : Bytes := ((readPiece U part).map Piece.text).getD []

theorem pieceText_some {part : Bytes} (h : readPiece U part = some q) :
    pieceText U part = semicolon :: q.body := by
  rw [pieceText, h, Option.map_some, Option.getD_some, q.text_eq]

/-- The bytes at which a splitter ends a chunk inside an identifier. -/
def EndsChunk (x : UInt8) : Prop := x = rparen ∨ isSpace x = true

theorem EndsChunk.ne {y : UInt8} (h : EndsChunk x) (hp : y ≠ rparen) (hs : isSpace y = false) :
    x ≠ y := by
  rintro rfl
  rcases h with h | h
  · exact hp h
  · rw [hs] at h
    cases h

theorem EndsChunk.after_blanks (h : EndsChunk x)
    (hy : ∀ b ∈ y, isSpace b = true) (rest : Bytes) :
    ∃ x' rest', y ++ x :: rest = x' :: rest' ∧ EndsChunk x' := by
  cases y with
  | nil => exact ⟨x, rest, rfl, h⟩
  | cons b y => exact ⟨b, y ++ x :: rest, rfl, .inr (hy b mem_cons_self)⟩

theorem diverge_shifted {x : UInt8} (hx : x ≠ dquote) (s t : Bytes) :
    ∀ v : Bytes, Diverge (dquote :: v ++ s) (v ++ x :: t)
  | [] => Diverge.of_heads hx.symm s t
  | b :: v => by
    by_cases hb : b = dquote
    · subst hb
      exact (diverge_shifted hx s t v).prepend [dquote]
    · exact Diverge.of_heads (fun e => hb e.symm) _ _

theorem map_lower_of_prefix {a b : Bytes} (h : (a ++ b).map asciiLower = a ++ b) :
    a.map asciiLower = a := by
  rw [map_append] at h
  exact (append_inj h (by simp)).1

variable {n z : Bytes}

theorem diverge_cut_name (hn : SettledName n)
    (he : n = z ++ x :: rest) (hx : EndsChunk x) (hz : trimRightSpace z = z) (s t : Bytes) :
    Diverge (pieceText U z ++ colon :: s) (semicolon :: n ++ t) := by
  by_cases hempty : z = []
  · rw [hempty]
    exact Diverge.of_heads (by decide) _ _
  · have hhead : ∀ b, z.head? = some b → isSolid b = true := by
      intro b hb
      exact hn.head b (by rw [he, head?_append, hb]; rfl)
    have htrim : trimSpace z = z := (trimSpace_of_head hhead).trans hz
    have hcut : cut equals z = none := cut_eq_none_iff.mpr fun hm =>
      hn.noEquals (by rw [he]; exact mem_append_left _ hm)
    have hlow : toLower U z = z := by
      rw [toLower_of_ascii U fun c hc => hn.ascii c (by rw [he]; exact mem_append_left _ hc)]
      exact map_lower_of_prefix (he ▸ hn.lower)
    have hread : readPiece U z = some (.flag z) := by
      simp only [readPiece, htrim, if_neg hempty, hcut, hlow]
    rw [pieceText_some U hread, he]
    have h := (Diverge.of_heads (hx.ne (y := colon) (by decide) (by decide)).symm s
      (rest ++ t)).prepend (semicolon :: z)
    simpa [Piece.body] using h

theorem stripPair_cases (q : UInt8) (v : Bytes) :
    q :: stripPair q v ++ [q] = v ∨ stripPair q v = v := by
  unfold stripPair
  split
  · rename_i h
    simp only [Bool.and_eq_true, decide_eq_true_eq, hasPrefix, hasSuffix, beq_iff_eq] at h
    obtain ⟨⟨hlen, hhead⟩, hlast⟩ := h
    left
    cases v with
    | nil => cases hhead
    | cons b v =>
      obtain rfl := Option.some.inj hhead
      have hne : v ≠ [] := by
        rintro rfl
        simp at hlen
      rw [getLast?_cons, getLast?_eq_some_getLast hne, Option.getD_some] at hlast
      have hv := dropLast_append_getLast hne
      rw [Option.some.inj hlast] at hv
      rw [tail_cons, cons_append, hv]
  · exact .inr rfl

theorem pieceText_open (hn : SettledName n) (u : Bytes) : pieceText U (n ++ equals :: dquote :: u) =
        semicolon :: (n ++ equals :: dquote :: trimRightSpace u) ∨
      pieceText U (n ++ equals :: dquote :: u) =
        semicolon :: (n ++ equals :: dquote :: (dquote :: trimRightSpace u ++ [dquote])) := by
  have hne : n ++ equals :: trimRightSpace (dquote :: u) ≠ [] := by simp
  have hread : readPiece U (n ++ equals :: dquote :: u) =
      some (.param n (stripPair dquote (dquote :: trimRightSpace u))) := by
    simp only [readPiece, trimSpace_append_cons hn.head (by decide : isSolid equals = true), if_neg hne,
      cut_append hn.noEquals, hn.trimSpace_eq, hn.toLower_eq U, trimSpace_open]
  rw [pieceText_some U hread, Piece.body]
  rcases stripPair_cases dquote (dquote :: trimRightSpace u) with h | h
  · exact .inl (by rw [h])
  · exact .inr (by rw [h]; simp)

theorem pieceText_flag_long (hne : n ≠ []) (hn : SettledName n) (w : Bytes) :
    ∃ r, pieceText U (n ++ space :: dquote :: w) = semicolon :: n ++ space :: r := by
  have hhead : ∀ b, (n ++ [space]).head? = some b → isSolid b = true := by
    intro b hb
    rw [head?_append_of_ne_nil _ hne] at hb
    exact hn.head b hb
  have htrim : ∀ v, trimSpace (n ++ space :: dquote :: v) = n ++ space :: dquote :: trimRightSpace v := by
    intro v
    simpa using trimSpace_append_cons hhead (by decide : isSolid dquote = true) v
  have hlow : ∀ v, toLower U (n ++ space :: v) = n ++ space :: toLower U v := by
    intro v
    rw [toLower_append_ascii U hn.ascii, hn.lower, toLower_cons_ascii U (by decide)]
    rfl
  have hsome : n ++ space :: dquote :: trimRightSpace w ≠ [] := by simp
  cases hcut : cut equals (n ++ space :: dquote :: trimRightSpace w) with
  | none =>
    have hread : readPiece U (n ++ space :: dquote :: w) =
        some (.flag (n ++ space :: toLower U (dquote :: trimRightSpace (trimRightSpace w)))) := by
      simp only [readPiece, htrim, if_neg hsome, hcut, hlow]
    exact ⟨_, pieceText_some U hread⟩
  | some kv =>
    -- the first `=` stands behind the quote
    have hno : equals ∉ n ++ [space, dquote] := by
      have := hn.noEquals
      simpa using this
    have hjoin : ∀ v, n ++ space :: dquote :: v = (n ++ [space, dquote]) ++ v := by simp
    have hbehind := hcut
    rw [hjoin, cut_append_left hno, Option.map_eq_some_iff] at hbehind
    obtain ⟨⟨w₂, v⟩, -, rfl⟩ := hbehind
    have hread : readPiece U (n ++ space :: dquote :: w) =
        some (.param (n ++ space :: toLower U (dquote :: trimRightSpace w₂))
          (stripPair dquote (trimSpace v))) := by
      simp only [readPiece, htrim, if_neg hsome, hcut, ← hjoin, hlow]
    refine ⟨toLower U (dquote :: trimRightSpace w₂) ++
      equals :: (dquote :: stripPair dquote (trimSpace v) ++ [dquote]), ?_⟩
    rw [pieceText_some U hread, Piece.body]
    simp

theorem diverge_cut (hq : q.Settled)
    (he : q.body = z ++ x :: rest) (hx : EndsChunk x) (hz : trimRightSpace z = z) (s t : Bytes) :
    Diverge (pieceText U z ++ colon :: s) (semicolon :: q.body ++ t) := by
  match q, hq with
  | .flag n, ⟨_, hn⟩ => exact diverge_cut_name U hn he hx hz s t
  | .param n v, ⟨hn, _, hv⟩ =>
    change n ++ equals :: (dquote :: v ++ [dquote]) = z ++ x :: rest at he
    rcases append_eq_cut he with ⟨a, hnz, -⟩ | ⟨a, rfl, ha⟩
    · have hdiv := diverge_cut_name U hn hnz hx hz s (equals :: (dquote :: v ++ [dquote]) ++ t)
      simpa [Piece.body] using hdiv
    · -- the cut is behind the name, and so inside the string
      have hcolon := hx.ne (y := colon) (by decide) (by decide)
      have hquote := hx.ne (y := dquote) (by decide) (by decide)
      have hpre : x ∉ [equals, dquote] := by simp [hx.ne (y := equals) (by decide) (by decide), hquote]
      obtain ⟨u, rest', rfl, rfl⟩ := exists_cut_behind hpre hquote ha
      change Diverge (pieceText U (n ++ equals :: dquote :: u) ++ colon :: s) _
      have hu : trimRightSpace u = u := by
        have h := trimRightSpace_append (by decide : isSolid dquote = true) (n ++ [equals]) u
        rw [append_assoc, append_assoc] at h
        simpa using h.symm.trans hz
      rcases pieceText_open U hn u with h | h
      · have hdiv := (Diverge.of_heads hcolon.symm s (rest' ++ dquote :: t)).prepend
          (semicolon :: (n ++ equals :: dquote :: u))
        rw [h, hu]
        simpa [Piece.body] using hdiv
      · have hdiv := (diverge_shifted hquote (dquote :: colon :: s) (rest' ++ dquote :: t) u).prepend
          (semicolon :: (n ++ [equals, dquote]))
        rw [h, hu]
        simpa [Piece.body] using hdiv

theorem diverge_long (hq : q.Settled) (w s t : Bytes) :
    Diverge (pieceText U (q.body ++ space :: dquote :: w) ++ s) (semicolon :: q.body ++ colon :: t) := by
  match q, hq with
  | .flag n, ⟨hne, hn⟩ =>
    obtain ⟨r, hr⟩ := pieceText_flag_long U hne hn w
    have hdiv := (Diverge.of_heads (a := space) (b := colon) (by decide) (r ++ s) t).prepend
      (semicolon :: n)
    simp only [Piece.body, hr]
    simpa using hdiv
  | .param n v, ⟨hn, _, _⟩ =>
    have hbody : (Piece.param n v).body ++ space :: dquote :: w =
        n ++ equals :: dquote :: (v ++ dquote :: space :: dquote :: w) := by
      simp [Piece.body]
    have htrim : trimRightSpace (v ++ dquote :: space :: dquote :: w) =
        v ++ dquote :: space :: dquote :: trimRightSpace w := by
      simpa using trimRightSpace_append (by decide : isSolid dquote = true) (v ++ [dquote, space]) w
    have hopen := pieceText_open U hn (v ++ dquote :: space :: dquote :: w)
    rw [htrim, ← hbody] at hopen
    rcases hopen with h | h
    · have hdiv := (Diverge.of_heads (a := space) (b := colon) (by decide)
        (dquote :: trimRightSpace w ++ s) t).prepend
        (semicolon :: (n ++ equals :: dquote :: (v ++ [dquote])))
      rw [h]
      simpa [Piece.body] using hdiv
    · have hdiv := (diverge_shifted (x := colon) (by decide)
        (space :: dquote :: trimRightSpace w ++ dquote :: s) t (v ++ [dquote])).prepend
        (semicolon :: (n ++ [equals, dquote]))
      rw [h]
      simpa [Piece.body] using hdiv

/-! ## 2. An identifier in a wrong chunk -/

/-- A chunk that ends inside the identifier `S`, or goes on behind it with a blank and the quote
of the next identifier. -/
inductive WrongChunk (S : Bytes) : Bytes → Prop where
  | short {Y rest : Bytes} {x : UInt8} : S = Y ++ x :: rest → EndsChunk x → WrongChunk S Y
  | long {w : Bytes} : Ascii w → WrongChunk S (S ++ space :: dquote :: w)

theorem quoted_eq_cut {R : Bytes} (hx : x ≠ dquote)
    (h : dquote :: n ++ dquote :: R = Y ++ x :: rest) :
    (∃ u r, Y = dquote :: u ∧ n = u ++ x :: r) ∨
      ∃ Z, Y = dquote :: n ++ dquote :: Z ∧ R = Z ++ x :: rest := by
  have hjoin : dquote :: n ++ dquote :: R = (dquote :: n ++ [dquote]) ++ R := by simp
  rcases append_eq_cut (hjoin.symm.trans h) with ⟨u, hu, -⟩ | ⟨Z, rfl, hZ⟩
  · obtain ⟨v, r, rfl, hn⟩ := exists_cut_behind (by simpa using hx : x ∉ [dquote]) hx hu
    exact .inl ⟨v, r, rfl, hn⟩
  · exact .inr ⟨Z, by simp, hZ⟩

theorem identifierText_append (n : Bytes) (qs : List Piece) (q : Piece) (qs' : List Piece) :
    identifierText n (qs ++ q :: qs') =
      (dquote :: n ++ dquote :: piecesText qs) ++ (semicolon :: q.body ++ piecesText qs') := by
  rw [identifierText_eq]
  simp [piecesText]

variable {qs : List Piece}

theorem identifierText_read {W w : Bytes} {ws : List Bytes}
    (hqs : ∀ q ∈ qs, q.Settled) (hW : W.splitOn semicolon = w :: ws) (n : Bytes) :
    identifierText n (readPieces U (piecesText qs ++ semicolon :: W)) =
      (dquote :: n ++ dquote :: piecesText qs) ++
        (pieceText U w ++ (ws.filterMap (readPiece U)).flatMap Piece.text) := by
  have hread : readPieces U (qs.flatMap (fun q => semicolon :: q.body) ++ semicolon :: W) =
      qs.map id ++ (W.splitOn semicolon).filterMap (readPiece U) :=
    readPieces_bodies_append U (fun q hq => ((hqs q hq).stable U).read)
      (fun q hq => (hqs q hq).noSemicolon) W
  have hfirst : ((w :: ws).filterMap (readPiece U)).flatMap Piece.text =
      pieceText U w ++ (ws.filterMap (readPiece U)).flatMap Piece.text := by
    cases hw : readPiece U w with
    | none => rw [filterMap_cons_none hw, pieceText, hw]; rfl
    | some q =>
      rw [filterMap_cons_some hw, flatMap_cons, pieceText_some U hw, q.text_eq]
  have htext : qs.flatMap Piece.text = piecesText qs := flatMap_congr fun q _ => q.text_eq
  rw [piecesText, hread, map_id, hW, identifierText, flatMap_append, hfirst, htext, piecesText]
  simp

theorem trimSpace_pieces (qs : List Piece) {m : Bytes} {c : UInt8}
    (hm : ∀ b, m.head? = some b → isSolid b = true) (hc : isSolid c = true) (w : Bytes) :
    trimSpace (trimRightSpace (piecesText qs ++ (m ++ c :: w))) =
      piecesText qs ++ (m ++ c :: trimRightSpace w) := by
  have hhead : ∀ b, (piecesText qs ++ m).head? = some b → isSolid b = true := by
    cases qs with
    | nil => exact hm
    | cons q qs =>
      intro b hb
      cases hb
      decide
  rw [← append_assoc, trimRightSpace_append hc, trimSpace_append_cons hhead hc, trimRightSpace_idem,
    append_assoc]

theorem readPieces_solid {b : UInt8} (hb : isSolid b = true) (hs : b ≠ semicolon) (w : Bytes) :
    ∃ q qs, readPieces U (b :: w) = q :: qs := by
  obtain ⟨more, hmore⟩ := splitOn_eq_takeWhile semicolon (b :: w)
  rw [takeWhile_cons_of_pos (by simpa using hs)] at hmore
  obtain ⟨q, hread⟩ : ∃ q, readPiece U (b :: w.takeWhile (fun x => x ≠ semicolon)) = some q := by
    simp only [readPiece, trimSpace_cons_solid hb, if_neg (cons_ne_nil b _)]
    split
    · exact ⟨_, rfl⟩
    · exact ⟨_, rfl⟩
  exact ⟨q, more.filterMap (readPiece U), by
    rw [readPieces, if_neg (cons_ne_nil b w), hmore, filterMap_cons_some hread]⟩

theorem diverge_behind_name {r r' : Bytes} {s : Bytes}
    (hsemi : x ≠ semicolon) (hcolon : qs = [] → x ≠ colon) (hr : r = x :: r') :
    Diverge (identifierText n qs ++ colon :: s) (dquote :: n ++ dquote :: r) := by
  have hleft : identifierText n qs ++ colon :: s =
      (dquote :: n ++ [dquote]) ++ (piecesText qs ++ colon :: s) := by
    rw [identifierText_eq]
    simp
  have hright : dquote :: n ++ dquote :: r = (dquote :: n ++ [dquote]) ++ x :: r' := by
    rw [hr]
    simp
  rw [hleft, hright]
  refine Diverge.prepend ?_ _
  cases qs with
  | nil => exact Diverge.of_heads (hcolon rfl).symm _ _
  | cons q qs => exact Diverge.of_heads hsemi.symm _ _

section
variable {n : Bytes} {qs : List Piece} {p : ParsedComponent}

theorem diverge_of_short (hqs : ∀ q ∈ qs, q.Settled)
    (hlow : toLower U n = n) (hq : dquote ∉ n) (hascii : Ascii (identifierText n qs))
    (he : identifierText n qs = Y ++ x :: rest) (hx : EndsChunk x)
    (h : parseComponentIdentifier U Y = .ok p) (s t : Bytes) :
    Diverge (p.serialized ++ colon :: s) (identifierText n qs ++ t) := by
  have hYascii : Ascii Y := (ascii_append_iff.mp (he ▸ hascii)).1
  rw [identifierText_eq] at he
  rcases quoted_eq_cut (hx.ne (by decide) (by decide)) he with ⟨u, r, rfl, rfl⟩ | ⟨Z, rfl, hZ⟩
  · exact absurd h (parse_open_name U (fun hm => hq (mem_append_left _ hm)) p)
  obtain ⟨qs₁, q, qs₂, z, rest', rfl, rfl, hz⟩ := exists_cut_body (hx.ne (by decide) (by decide)) hZ
  have hset : q.Settled := hqs q (by simp)
  have hqs₁ : ∀ r ∈ qs₁, r.Settled := fun r hr => hqs r (mem_append_left _ hr)
  -- without the blanks in front of it the cut is a cut as well
  obtain ⟨y, hy, hblank⟩ := trimRightSpace_ascii (s := z)
    fun b hb => hYascii b (by simp only [mem_cons, mem_append]; tauto)
  obtain ⟨x', rest'', hx', hends⟩ := hx.after_blanks hblank rest'
  have hz' : q.body = trimRightSpace z ++ x' :: rest'' := by rw [hz, ← hx', ← append_assoc, ← hy]
  have hno : semicolon ∉ trimRightSpace z := by
    intro hm
    exact hset.noSemicolon (by rw [hz']; exact mem_append_left _ hm)
  have hser := parse_quoted U hq h
  have htrim := trimSpace_pieces qs₁ (m := []) (by simp) (by decide : isSolid semicolon = true) z
  rw [nil_append, nil_append] at htrim
  change p.serialized = identifierText _ (readPieces U (trimSpace (trimRightSpace (piecesText qs₁ ++ _)))) at hser
  rw [hlow, htrim, identifierText_read U hqs₁ (splitOn_eq_singleton hno)] at hser
  have hdiv := (diverge_cut U hset hz' hends (trimRightSpace_idem z) s (piecesText qs₂ ++ t)).prepend
    (dquote :: n ++ dquote :: piecesText qs₁)
  rw [hser, identifierText_append]
  simpa using hdiv

theorem diverge_of_long {w : Bytes} (hqs : ∀ q ∈ qs, q.Settled) (hlow : toLower U n = n)
    (hq : dquote ∉ n)
    (h : parseComponentIdentifier U (identifierText n qs ++ space :: dquote :: w) = .ok p)
    (s t : Bytes) :
    Diverge (p.serialized ++ colon :: s) (identifierText n qs ++ colon :: t) := by
  have hjoin : identifierText n qs ++ space :: dquote :: w =
      dquote :: n ++ dquote :: (piecesText qs ++ space :: dquote :: w) := by
    rw [identifierText_eq]
    simp
  rw [hjoin] at h
  have hser := parse_quoted U hq h
  rcases eq_nil_or_concat qs with rfl | ⟨qs₁, q, rfl⟩
  · -- the quote behind the blank starts a parameter
    have htrim : trimSpace (trimRightSpace (piecesText [] ++ space :: dquote :: w)) =
        dquote :: trimRightSpace w := by
      have h1 := trimRightSpace_append (by decide : isSolid dquote = true) [space] w
      rw [singleton_append, singleton_append] at h1
      rw [piecesText, flatMap_nil, nil_append, h1, trimSpace_cons_space (by decide),
        trimSpace_cons_solid (by decide), trimRightSpace_idem]
    obtain ⟨q, qs', hread⟩ := readPieces_solid U (b := dquote) (by decide) (by decide) (trimRightSpace w)
    have hright : identifierText n [] ++ colon :: t = dquote :: n ++ dquote :: (colon :: t) := by
      simp [identifierText]
    rw [hser, hlow, htrim, hread, hright]
    exact diverge_behind_name (by decide) (by simp) rfl
  · rw [concat_eq_append] at hqs hser ⊢
    have hset : q.Settled := hqs q (by simp)
    have hqs₁ : ∀ r ∈ qs₁, r.Settled := fun r hr => hqs r (mem_append_left _ hr)
    have htrim : trimSpace (trimRightSpace (piecesText (qs₁ ++ [q]) ++ space :: dquote :: w)) =
        piecesText qs₁ ++ semicolon :: (q.body ++ space :: dquote :: trimRightSpace w) := by
      have h1 := trimSpace_pieces qs₁ (m := semicolon :: q.body ++ [space])
        (by rintro b ⟨⟩; decide) (by decide : isSolid dquote = true) w
      simpa [piecesText] using h1
    obtain ⟨more, hmore⟩ := splitOn_eq_takeWhile semicolon
      (q.body ++ space :: dquote :: trimRightSpace w)
    rw [takeWhile_append_of_not_mem hset.noSemicolon, takeWhile_cons_of_pos (by decide),
      takeWhile_cons_of_pos (by decide)] at hmore
    rw [hlow, htrim, identifierText_read U hqs₁ hmore] at hser
    have hdiv := (diverge_long U hset ((trimRightSpace w).takeWhile (fun x => x ≠ semicolon))
      ((more.filterMap (readPiece U)).flatMap Piece.text ++ colon :: s) t).prepend
      (dquote :: n ++ dquote :: piecesText qs₁)
    rw [hser, identifierText_append]
    simpa [piecesText] using hdiv

theorem diverge_of_quote {a b : Bytes} (hn : n = a ++ dquote :: b) (ha : dquote ∉ a)
    (hsemi : semicolon ∉ n) (hlow : toLower U a = a)
    (hY : WrongChunk (identifierText n qs) Y ∨ Y = identifierText n qs)
    (h : parseComponentIdentifier U Y = .ok p) (s t : Bytes) :
    Diverge (p.serialized ++ colon :: s) (identifierText n qs ++ t) := by
  obtain ⟨x, R, hR, hxsemi⟩ : ∃ x R, b ++ dquote :: piecesText qs = x :: R ∧ x ≠ semicolon := by
    cases b with
    | nil => exact ⟨dquote, _, rfl, by decide⟩
    | cons x b => exact ⟨x, _, rfl, fun he => hsemi (by rw [hn, he]; simp)⟩
  have hS : identifierText n qs = dquote :: a ++ dquote :: (x :: R) := by
    rw [identifierText_eq, hn, ← hR]
    simp
  -- the chunk ends in the part of the name before the quote, or has that part and goes on
  have hshape : (∃ y, Y = dquote :: y ∧ dquote ∉ y) ∨
      ∃ Z, Y = dquote :: a ++ dquote :: Z ∧ (Z = [] ∧ EndsChunk x ∨ ∃ Z', Z = x :: Z') := by
    rcases hY with (⟨he, hends⟩ | @⟨w, hw⟩) | rfl
    · rw [hS] at he
      rcases quoted_eq_cut (hends.ne (by decide) (by decide)) he with ⟨u, r, rfl, rfl⟩ | ⟨Z, rfl, hZ⟩
      · exact .inl ⟨u, rfl, fun hm => ha (mem_append_left _ hm)⟩
      · refine .inr ⟨Z, rfl, ?_⟩
        cases Z with
        | nil =>
          obtain ⟨rfl, -⟩ := List.cons.inj hZ
          exact .inl ⟨rfl, hends⟩
        | cons z Z =>
          obtain ⟨rfl, -⟩ := List.cons.inj hZ
          exact .inr ⟨Z, rfl⟩
    · exact .inr ⟨x :: (R ++ space :: dquote :: w), by rw [hS]; simp, .inr ⟨_, rfl⟩⟩
    · exact .inr ⟨x :: R, hS, .inr ⟨R, rfl⟩⟩
  have hright : identifierText n qs ++ t = dquote :: a ++ dquote :: (x :: (R ++ t)) := by
    rw [hS]
    simp
  rw [hright]
  rcases hshape with ⟨y, rfl, hy⟩ | ⟨Z, rfl, hZ⟩
  · exact absurd h (parse_open_name U hy p)
  · rw [parse_quoted U ha h, hlow]
    refine diverge_behind_name hxsemi (fun hnil => ?_) rfl
    rintro rfl
    -- a colon behind the quote is read as a parameter
    rcases hZ with ⟨-, hends⟩ | ⟨Z', rfl⟩
    · exact hends.ne (y := colon) (by decide) (by decide) rfl
    · rw [trimRightSpace_cons (by decide), trimSpace_cons_solid (by decide)] at hnil
      obtain ⟨q, qs', hread⟩ := readPieces_solid U (b := colon) (by decide) (by decide)
        (trimRightSpace (trimRightSpace Z'))
      rw [hread] at hnil
      cases hnil

end

/-- **In a wrong chunk an identifier is refused, or its line diverges**; and so does one whose
name holds a quote, in any chunk. -/
theorem diverge_of_wrongChunk {raw : Bytes} {qs : List Piece} {p p' : ParsedComponent}
    (hrec : Recorded U raw qs p) (hascii : Ascii p.serialized)
    (hY : WrongChunk p.serialized Y ∨ Y = p.serialized ∧ dquote ∈ p.name)
    (h : parseComponentIdentifier U Y = .ok p') (s t : Bytes) :
    Diverge (p'.serialized ++ colon :: s) (p.serialized ++ colon :: t) := by
  rw [hrec.serialized] at hascii hY ⊢
  by_cases hq : dquote ∈ p.name
  · obtain ⟨a, b, hcut⟩ : ∃ a b, cut dquote p.name = some (a, b) := by
      cases hc : cut dquote p.name with
      | none => exact absurd hq (cut_eq_none_iff.mp hc)
      | some ab => exact ⟨ab.1, ab.2, rfl⟩
    obtain ⟨hn, ha⟩ := cut_eq_some hcut
    have hname : Ascii p.name := by
      rw [identifierText_eq] at hascii
      exact fun c hc => hascii c (by simp [hc])
    have hlow : toLower U a = a := by
      have hall := hrec.lower
      rw [toLower_of_ascii U hname, hn] at hall
      rw [toLower_of_ascii U fun c hc => hname c (by rw [hn]; exact mem_append_left _ hc)]
      exact map_lower_of_prefix hall
    exact diverge_of_quote U hn ha (hrec.bare hq) hlow (hY.imp_right And.left) h s (colon :: t)
  · rcases hY with (⟨he, hx⟩ | ⟨hw⟩) | ⟨-, hq'⟩
    · exact diverge_of_short U hrec.settled hrec.lower hq hascii he hx h s (colon :: t)
    · exact diverge_of_long U hrec.settled hrec.lower hq h s t
    · exact absurd hq' hq

/-! ## 3. What the splitter makes of a list -/

/-- What `ParseSignatureParams` makes of the text between the parentheses: it is cut at the first
`)`, trimmed and split. -/
def chunksOf (inner : Bytes) : List Bytes :=
  splitInnerList (trimSpace (inner.takeWhile (fun b => b ≠ rparen)))

/-- The text of an identifier that has been read. -/
structure IdentifierForm (id : Bytes) : Prop where
  head : id.head? = some dquote
  ends : SolidEnds id
  ascii : Ascii id

theorem splitLoop_run : ∀ (s : Bytes) (q : Bool) (cur : Bytes),
    (∃ q', ∀ rest, splitInnerListLoop q cur (s ++ rest) = splitInnerListLoop q' (cur ++ s) rest) ∨
      ∃ y s', s = y ++ space :: s' ∧
        ∀ rest, splitInnerListLoop q cur (y ++ rest) = splitInnerListLoop false (cur ++ y) rest
  | [], q, cur => .inl ⟨q, by simp⟩
  | b :: s, q, cur => by
    by_cases hb : b = space ∧ q = false
    · obtain ⟨rfl, rfl⟩ := hb
      exact .inr ⟨[], s, rfl, by simp⟩
    · -- the byte is copied, and a quote flips the state
      obtain ⟨q₁, hstep⟩ : ∃ q₁, ∀ rest,
          splitInnerListLoop q cur (b :: rest) = splitInnerListLoop q₁ (cur ++ [b]) rest := by
        by_cases hq : b = dquote
        · exact ⟨!q, fun rest => by rw [splitInnerListLoop, if_pos hq]⟩
        · exact ⟨q, fun rest => by rw [splitInnerListLoop, if_neg hq, if_neg hb]⟩
      rcases splitLoop_run s q₁ (cur ++ [b]) with ⟨q', h⟩ | ⟨y, s', hs, h⟩
      · exact .inl ⟨q', fun rest => by rw [cons_append, hstep, h]; simp⟩
      · exact .inr ⟨b :: y, s', by rw [hs]; rfl, fun rest => by
          rw [cons_append, hstep, h]; simp⟩

theorem splitInnerList_blank {s' : Bytes} (hne : y ≠ [])
    (h : ∀ rest, splitInnerListLoop false [] (y ++ rest) = splitInnerListLoop false ([] ++ y) rest) :
    splitInnerList (y ++ space :: s') = y :: splitInnerList s' := by
  rw [splitInnerList, h, nil_append, splitLoop_space hne, splitInnerList]

section
variable {id : Bytes}

theorem IdentifierForm.ne_nil (h : IdentifierForm id) : id ≠ [] := by
  rintro rfl
  exact absurd h.head (by simp)

theorem IdentifierForm.before_blank_ne_nil {s' : Bytes} (h : IdentifierForm id)
    (he : id = y ++ space :: s') : y ≠ [] := by
  rintro rfl
  have := h.head
  rw [he] at this
  exact absurd (Option.some.inj this) (by decide)

/-- **An identifier with a parenthesis is cut there, or earlier.** -/
theorem headChunk_rparen (hid : IdentifierForm id) (hp : rparen ∈ id) (tail : Bytes) :
    ∃ Y more, chunksOf (id ++ tail) = Y :: more ∧ WrongChunk id Y := by
  obtain ⟨u, v, hcut⟩ : ∃ u v, cut rparen id = some (u, v) := by
    cases hc : cut rparen id with
    | none => exact absurd hp (cut_eq_none_iff.mp hc)
    | some uv => exact ⟨uv.1, uv.2, rfl⟩
  obtain ⟨he, hu⟩ := cut_eq_some hcut
  have htake : (id ++ tail).takeWhile (fun b => b ≠ rparen) = u := by
    rw [he, append_assoc, takeWhile_append_of_not_mem hu]
    simp
  obtain ⟨u', hu'⟩ : ∃ u', u = dquote :: u' := by
    have := hid.head
    rw [he] at this
    cases u with
    | nil => exact absurd (Option.some.inj this) (by decide)
    | cons b u => exact ⟨u, by rw [Option.some.inj this]⟩
  have hform : Ascii u := fun b hb => hid.ascii b (by rw [he]; exact mem_append_left _ hb)
  obtain ⟨y, hy, hblank⟩ := trimRightSpace_ascii hform
  have htrim : trimSpace u = dquote :: trimRightSpace u' := by
    rw [hu', trimSpace_cons_solid (by decide)]
  rw [← show trimSpace u = trimRightSpace u by
    rw [htrim, hu', trimRightSpace_cons (by decide)]] at hy
  rw [chunksOf, htake]
  rcases splitLoop_run (trimSpace u) false [] with ⟨q', hrun⟩ | ⟨z, s', hz, hrun⟩
  · refine ⟨trimSpace u, [], ?_, ?_⟩
    · have := hrun []
      rw [append_nil, nil_append, splitInnerListLoop, if_pos (by rw [htrim]; simp)] at this
      exact this
    · obtain ⟨x, rest, hx, hends⟩ := EndsChunk.after_blanks (x := rparen) (.inl rfl) hblank v
      have hsplit : id = trimSpace u ++ x :: rest := by
        rw [← hx, ← append_assoc, ← hy]
        exact he
      exact .short hsplit hends
  · have hzne : z ≠ [] := by
      rintro rfl
      rw [htrim] at hz
      exact absurd (List.cons.inj hz).1 (by decide)
    refine ⟨z, splitInnerList s', ?_, ?_⟩
    · rw [hz]
      exact splitInnerList_blank hzne hrun
    · have hsplit : id = z ++ space :: (s' ++ y ++ rparen :: v) := by
        rw [hz] at hy
        rw [he, hy]
        simp
      exact .short hsplit (.inr (by decide))

variable {ids : List Bytes}

theorem ascii_join (h : ∀ i ∈ ids, Ascii i) : Ascii (join [space] ids) := by
  cases ids with
  | nil => exact fun b hb => by cases hb
  | cons i is =>
    rw [join_cons]
    refine ascii_append_iff.mpr ⟨h i mem_cons_self, fun b hb => ?_⟩
    obtain ⟨x, hx, hb⟩ := mem_flatMap.mp hb
    rcases mem_cons.mp hb with rfl | hb
    · decide
    · exact h x (mem_cons_of_mem _ hx) b hb

/-- **The first chunk of a list** is its first identifier, and the rest of the list is split as it
is alone; or it is a wrong chunk. -/
theorem headChunk (hid : IdentifierForm id)
    (hids : ∀ i ∈ ids, IdentifierForm i) :
    (∃ Y more, chunksOf (join [space] (id :: ids)) = Y :: more ∧ WrongChunk id Y) ∨
      rparen ∉ id ∧ chunksOf (join [space] (id :: ids)) = id :: chunksOf (join [space] ids) ∧
        splitInnerList (join [space] (id :: ids)) = id :: splitInnerList (join [space] ids) := by
  rw [join_cons]
  by_cases hp : rparen ∈ id
  · exact .inl (headChunk_rparen hid hp _)
  have htake := takeWhile_append_of_not_mem hp (ids.flatMap (fun x => space :: x))
  rcases splitLoop_run id false [] with ⟨q, hrun⟩ | ⟨y, s', he, hrun⟩
  · have hlast : splitInnerList id = [id] := by
      have h := hrun []
      rw [append_nil, nil_append, splitInnerListLoop, if_pos hid.ne_nil] at h
      exact h
    cases ids with
    | nil =>
      refine .inr ⟨hp, ?_, ?_⟩
      · rw [chunksOf, htake]
        simp only [flatMap_nil, takeWhile_nil, append_nil]
        rw [hid.ends.trimSpace_eq, hlast]
        rfl
      · rw [flatMap_nil, append_nil, hlast]
        rfl
    | cons i is =>
      have hi := hids i mem_cons_self
      have htail : (i :: is).flatMap (fun x => space :: x) = space :: join [space] (i :: is) := by
        rw [join_cons, flatMap_cons]
        rfl
      obtain ⟨J, hJ⟩ : ∃ J, join [space] (i :: is) = dquote :: J := by
        have := hi.head
        rw [join_cons]
        cases i with
        | nil => cases this
        | cons b i =>
          obtain rfl := Option.some.inj this
          exact ⟨_, rfl⟩
      have htakeJ : (dquote :: J).takeWhile (fun b => b ≠ rparen) =
          dquote :: J.takeWhile (fun b => b ≠ rparen) := takeWhile_cons_of_pos (by decide)
      have htrimJ := trimSpace_cons_solid (by decide : isSolid dquote = true)
        (J.takeWhile (fun b => b ≠ rparen))
      have hw := trimRightSpace_initial (J.takeWhile (fun b => b ≠ rparen))
      have hwascii : Ascii (J.takeWhile (fun b => b ≠ rparen)) := fun b hb =>
        ascii_join (fun x hx => (hids x hx).ascii) b
          (by rw [hJ]; exact mem_cons_of_mem _ ((takeWhile_sublist _).subset hb))
      -- the trimmed text: the identifier, a blank, and the trimmed rest
      have htrim : trimSpace ((id ++ space :: dquote :: J).takeWhile (fun b => b ≠ rparen)) =
          id ++ space :: dquote :: trimRightSpace (J.takeWhile (fun b => b ≠ rparen)) := by
        have h := trimRightSpace_append (by decide : isSolid dquote = true) [space]
          (J.takeWhile (fun b => b ≠ rparen))
        rw [takeWhile_append_of_not_mem hp, takeWhile_cons_of_pos (by decide), htakeJ,
          hid.ends.trimSpace_append]
        simpa using h
      generalize trimRightSpace (J.takeWhile (fun b => b ≠ rparen)) = w at htrimJ hw htrim
      have hchunks : chunksOf (dquote :: J) = splitInnerListLoop false [] (dquote :: w) := by
        rw [chunksOf, htakeJ, htrimJ, splitInnerList]
      rw [htail, hJ, chunksOf, htrim, hchunks, splitInnerList, splitInnerList, hrun, hrun, nil_append]
      cases q with
      | false =>
        right
        rw [splitLoop_space hid.ne_nil, splitLoop_space hid.ne_nil]
        exact ⟨hp, rfl, rfl⟩
      | true =>
        -- the blank is inside quotes, and the chunk goes on
        left
        obtain ⟨w', more, hw', -, hchunk⟩ := splitLoop_chunk w (id ++ [space] ++ [dquote]) false (by simp)
        have hstep := splitLoop_plain (w := [space]) (q := true) (by decide) (.inl rfl) id (dquote :: w)
        refine ⟨id ++ space :: dquote :: w', more, ?_, .long fun b hb => ?_⟩
        · rw [singleton_append] at hstep
          rw [hstep, splitLoop_quote, Bool.not_true, hchunk]
          simp
        · exact hwascii b (hw.subset (hw'.subset hb))
  · -- a blank outside quotes ends the chunk inside the identifier
    have htrim := hid.ends.trimSpace_append
      ((ids.flatMap (fun x => space :: x)).takeWhile (fun b => b ≠ rparen))
    generalize trimRightSpace _ = x' at htrim
    refine .inl ⟨y, splitInnerList (s' ++ x'), ?_, .short he (.inr (by decide))⟩
    have hjoin : id ++ x' = y ++ space :: (s' ++ x') := by
      rw [he]
      simp
    rw [chunksOf, htake, htrim, hjoin]
    exact splitInnerList_blank (hid.before_blank_ne_nil he) hrun

end

end AoniContrib.HttpSig
