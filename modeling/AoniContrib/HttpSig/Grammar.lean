/-
# The form of a `Signature-Input` member

RFC 9421 gives a `Signature-Input` member as a structured field: an inner list of quoted
component identifiers with parameters, and parameters behind it.  This file has the form as a
data type (`Member`, with the restrictions on strings, keys and integers as fields, so that every
value is well formed), the text of a member, and what the splitters of `base.go` make of the
parts of such a text.
-/
import AoniContrib.Data.Diverge
import AoniContrib.Data.Split
import AoniContrib.HttpSig.Identifier

namespace AoniContrib.HttpSig

open Go Data List

variable (U : Unicode)

/-! ## 1. Strings, keys and integers -/

def isUnescaped (b : UInt8) : Bool := 0x20 ≤ b && b ≤ 0x7e && b != dquote && b != backslash

/-- The bytes a key starts with, and those it goes on with. -/
def isKeyStart (b : UInt8) : Bool := (0x61 ≤ b && b ≤ 0x7a) || b == 0x2a
def isKeyByte (b : UInt8) : Bool := isKeyStart b || isDigit b || b ∈ lit "_-."

/-- The content of a quoted string without escapes. -/
structure SfString where
  val : Bytes
  unescaped : ∀ b ∈ val, isUnescaped b = true

structure SfKey where
  val : Bytes
  start : ∃ b, val.head? = some b ∧ isKeyStart b = true
  chars : ∀ b ∈ val, isKeyByte b = true

/-- An integer as it is written: leading zeros are allowed. -/
structure SfInteger where
  neg : Bool
  digits : Bytes
  nonempty : digits ≠ []
  chars : ∀ b ∈ digits, isDigit b = true

def SfInteger.text (n : SfInteger) : Bytes := if n.neg then minus :: n.digits else n.digits

variable {x : UInt8}

theorem SfString.not_mem (s : SfString) (hx : isUnescaped x = false) : x ∉ s.val := by
  intro h
  rw [s.unescaped x h] at hx
  cases hx

theorem SfKey.not_mem (k : SfKey) (hx : isKeyByte x = false) : x ∉ k.val := by
  intro h
  rw [k.chars x h] at hx
  cases hx

theorem SfInteger.mem_text (n : SfInteger) (h : x ∈ n.text) : isDigit x = true ∨ x = minus := by
  unfold SfInteger.text at h
  split at h
  · rcases mem_cons.mp h with rfl | h
    · exact .inr rfl
    · exact .inl (n.chars x h)
  · exact .inl (n.chars x h)

theorem SfInteger.not_mem_text (n : SfInteger) (hd : isDigit x = false)
    (hm : x ≠ minus) : x ∉ n.text := by
  intro h
  rcases n.mem_text h with h | h
  · rw [h] at hd
    cases hd
  · exact hm h

theorem isUnescaped_ascii : ∀ b : UInt8, isUnescaped b = true → b < 0x80 := by grind [isUnescaped]

theorem isKeyByte_facts : ∀ b : UInt8, isKeyByte b = true →
    b < 0x80 ∧ isSolid b = true ∧ asciiLower b = b := by decide +kernel

theorem isDigit_solid : ∀ b : UInt8, isDigit b = true → isSolid b = true := by grind [isDigit, isSolid, isSpace]

def SolidEnds (s : Bytes) : Prop :=
  (∃ b, s.head? = some b ∧ isSolid b = true) ∧ ∃ b, s.getLast? = some b ∧ isSolid b = true

variable {s : Bytes}

theorem SolidEnds.trimSpace_eq (h : SolidEnds s) : trimSpace s = s := by
  obtain ⟨⟨b, hb, hsb⟩, c, hc, hsc⟩ := h
  refine trimSpace_solid (fun x hx => ?_) (fun x hx => ?_)
  · rw [hb] at hx
    obtain rfl := Option.some.inj hx
    exact hsb
  · rw [hc] at hx
    obtain rfl := Option.some.inj hx
    exact hsc

theorem SolidEnds.trimRightSpace_append (h : SolidEnds s) (x : Bytes) :
    trimRightSpace (s ++ x) = s ++ trimRightSpace x := by
  obtain ⟨-, c, hc, hsc⟩ := h
  obtain ⟨t, rfl⟩ := getLast?_eq_some_iff.mp hc
  rw [append_assoc, singleton_append, Go.trimRightSpace_append hsc, append_assoc, singleton_append]

/-- **A text with solid ends survives trimming**, and what follows it is trimmed on the right. -/
theorem SolidEnds.trimSpace_append (h : SolidEnds s) (x : Bytes) :
    trimSpace (s ++ x) = s ++ trimRightSpace x := by
  obtain ⟨b, hb, hsb⟩ := h.1
  have hhead : ∀ c, (s ++ x).head? = some c → isSolid c = true := by
    intro c hc
    rw [head?_append, hb] at hc
    obtain rfl := Option.some.inj hc
    exact hsb
  rw [trimSpace_of_head hhead, h.trimRightSpace_append]

theorem solidEnds_dquote : SolidEnds [dquote] := ⟨⟨dquote, rfl, by decide⟩, dquote, rfl, by decide⟩

theorem SolidEnds.append {t : Bytes} (hs : SolidEnds s) (ht : SolidEnds t) : SolidEnds (s ++ t) := by
  obtain ⟨⟨b, hb, hsb⟩, -⟩ := hs
  obtain ⟨-, c, hc, hsc⟩ := ht
  refine ⟨⟨b, by rw [head?_append, hb]; rfl, hsb⟩, c, ?_, hsc⟩
  rw [getLast?_append, hc]
  rfl

theorem solidEnds_all (hne : s ≠ []) (h : ∀ b ∈ s, isSolid b = true) : SolidEnds s := by
  exact ⟨⟨s.head hne, head?_eq_some_head hne, h _ (head_mem hne)⟩, s.getLast hne,
    getLast?_eq_some_getLast hne, h _ (getLast_mem hne)⟩

theorem SfKey.ne_nil (k : SfKey) : k.val ≠ [] := by
  obtain ⟨b, hb, -⟩ := k.start
  intro h
  rw [h] at hb
  cases hb

theorem SfKey.solidEnds (k : SfKey) : SolidEnds k.val :=
  solidEnds_all k.ne_nil fun b hb => (isKeyByte_facts b (k.chars b hb)).2.1

theorem SfKey.toLower_eq (k : SfKey) : toLower U k.val = k.val := by
  rw [toLower_of_ascii U fun b hb => (isKeyByte_facts b (k.chars b hb)).1]
  conv_rhs => rw [← map_id k.val]
  exact map_congr_left fun b hb => (isKeyByte_facts b (k.chars b hb)).2.2

theorem SfInteger.text_ne_nil (n : SfInteger) : n.text ≠ [] := by
  unfold SfInteger.text
  split
  · exact cons_ne_nil _ _
  · exact n.nonempty

theorem SfInteger.solidEnds (n : SfInteger) : SolidEnds n.text := by
  refine solidEnds_all n.text_ne_nil fun b hb => ?_
  rcases n.mem_text hb with h | rfl
  · exact isDigit_solid b h
  · decide

/-! ## 2. Members -/

inductive Value where
  | int (n : SfInteger)
  | str (s : SfString)

def Value.content : Value → Bytes
  | .int n => n.text
  | .str s => s.val

def Value.text : Value → Bytes
  | .int n => n.text
  | .str s => dquote :: s.val ++ [dquote]

inductive ItemParam where
  | flag (k : SfKey)
  | valued (k : SfKey) (v : Value)

def ItemParam.body : ItemParam → Bytes
  | .flag k => k.val
  | .valued k v => k.val ++ equals :: v.text

structure Item where
  name : SfString
  params : List ItemParam

def itemParamsText (ps : List ItemParam) : Bytes := ps.flatMap (fun p => semicolon :: p.body)

def Item.text (it : Item) : Bytes :=
  dquote :: it.name.val ++ dquote :: itemParamsText it.params

structure Param where
  key : SfKey
  value : Value

def Param.body (p : Param) : Bytes := p.key.val ++ equals :: p.value.text

/-- The value of a `Signature-Input` member. -/
structure Member where
  items : List Item
  params : List Param

def Member.inner (m : Member) : Bytes := join [space] (m.items.map Item.text)
def Member.paramsText (m : Member) : Bytes := m.params.flatMap (fun p => semicolon :: p.body)
def Member.text (m : Member) : Bytes := lparen :: m.inner ++ rparen :: m.paramsText

theorem Value.solidEnds : ∀ v : Value, SolidEnds v.text
  | .int n => n.solidEnds
  | .str s => by
    refine ⟨⟨dquote, rfl, by decide⟩, dquote, ?_, by decide⟩
    rw [Value.text, getLast?_concat]

theorem solidEnds_assignment (k : SfKey) {v : Bytes} (hv : SolidEnds v) :
    SolidEnds (k.val ++ equals :: v) := by
  have he : SolidEnds [equals] := ⟨⟨equals, rfl, by decide⟩, equals, rfl, by decide⟩
  exact k.solidEnds.append (he.append hv)

theorem ItemParam.solidEnds : ∀ p : ItemParam, SolidEnds p.body
  | .flag k => k.solidEnds
  | .valued k v => solidEnds_assignment k v.solidEnds

theorem Param.solidEnds (p : Param) : SolidEnds p.body := solidEnds_assignment p.key p.value.solidEnds

theorem solidEnds_flatMap {α : Type*} {f : α → Bytes} {a : α} {l : List α}
    (h : ∀ x ∈ a :: l, SolidEnds (f x)) :
    SolidEnds ((a :: l).flatMap (fun x => semicolon :: f x)) := by
  have hsemi : ∀ {s : Bytes}, SolidEnds s → SolidEnds (semicolon :: s) := by
    intro s hs
    exact SolidEnds.append (s := [semicolon]) ⟨⟨semicolon, rfl, by decide⟩, semicolon, rfl, by decide⟩ hs
  induction l generalizing a with
  | nil => simpa using hsemi (h a mem_cons_self)
  | cons b l ih =>
    rw [flatMap_cons]
    exact (hsemi (h a mem_cons_self)).append (ih (forall_mem_cons.mp h).2)

/-! ## 3. Reading one parameter -/

/-- What `ParseComponentIdentifier` reads from a parameter. -/
def ItemParam.piece : ItemParam → Piece
  | .flag k => .flag k.val
  | .valued k v => .param k.val v.content

theorem hasSuffix_concat (q b : UInt8) (s : Bytes) : hasSuffix q (s ++ [b]) = (b == q) := by
  rw [hasSuffix, getLast?_concat]
  rfl

theorem stripPair_wrapped (q : UInt8) (v : Bytes) : stripPair q (q :: v ++ [q]) = v := by
  have hs : hasSuffix q (q :: v ++ [q]) = true := by
    rw [hasSuffix_concat, beq_self_eq_true]
  have hlen : 2 ≤ (q :: v ++ [q]).length := by simp
  have hp : hasPrefix q (q :: v ++ [q]) = true := by
    simp [hasPrefix]
  rw [stripPair, if_pos (by rw [hs, hp, decide_eq_true hlen]; rfl), cons_append,
    tail_cons, dropLast_concat]

theorem stripPair_text : ∀ v : Value, stripPair dquote v.text = v.content
  | .int n => by
    have hno : hasPrefix dquote n.text = false := by
      rw [hasPrefix, beq_eq_false_iff_ne]
      intro h
      exact n.not_mem_text (by decide) (by decide) (mem_of_head? h)
    simp [stripPair, Value.text, Value.content, hno]
  | .str s => stripPair_wrapped dquote s.val

theorem stripPair_open {x : Bytes} (hx : dquote ∉ x) :
    stripPair dquote (dquote :: x) = dquote :: x := by
  rw [stripPair, if_neg]
  rcases eq_nil_or_concat x with rfl | ⟨y, b, rfl⟩
  · simp
  · rw [concat_eq_append, ← cons_append, hasSuffix_concat]
    have hb : b ≠ dquote := by
      rintro rfl
      exact hx (by simp)
    simp [hb]

theorem cut_equals_key (k : SfKey) (v : Bytes) : cut equals (k.val ++ equals :: v) = some (k.val, v) :=
  cut_append (k.not_mem (by decide)) v

theorem readPiece_body : ∀ p : ItemParam, readPiece U p.body = some p.piece
  | .flag k => by
    have hcut : cut equals k.val = none := cut_eq_none_iff.mpr (k.not_mem (by decide))
    rw [readPiece]
    simp only [ItemParam.body, k.solidEnds.trimSpace_eq, if_neg k.ne_nil, hcut, k.toLower_eq U,
      ItemParam.piece]
  | .valued k v => by
    have hne : k.val ++ equals :: v.text ≠ [] := by simp
    rw [readPiece]
    simp only [ItemParam.body, (solidEnds_assignment k v.solidEnds).trimSpace_eq, if_neg hne,
      cut_equals_key, k.solidEnds.trimSpace_eq, k.toLower_eq U, v.solidEnds.trimSpace_eq,
      stripPair_text, ItemParam.piece]

theorem trimSpace_assignment (k : SfKey) (x : Bytes) :
    trimSpace (k.val ++ equals :: x) = k.val ++ equals :: trimRightSpace x :=
  trimSpace_append_cons (fun b hb => (isKeyByte_facts b (k.chars b (mem_of_head? hb))).2.1) (by decide) x

theorem trimSpace_open (x : Bytes) :
    trimSpace (trimRightSpace (dquote :: x)) = dquote :: trimRightSpace x := by
  rw [trimRightSpace_cons (by decide), trimSpace_cons_solid (by decide), trimRightSpace_idem]

theorem readPiece_open (k : SfKey) {x : Bytes} (hx : dquote ∉ x) :
    ∃ x', readPiece U (k.val ++ equals :: dquote :: x) = some (.param k.val (dquote :: x')) := by
  have hopen : dquote ∉ trimRightSpace x := fun hm => hx ((trimRightSpace_initial x).subset hm)
  have hne : k.val ++ equals :: trimRightSpace (dquote :: x) ≠ [] := by simp
  refine ⟨trimRightSpace x, ?_⟩
  rw [readPiece]
  simp only [trimSpace_assignment, if_neg hne, cut_equals_key, k.solidEnds.trimSpace_eq, k.toLower_eq U,
    trimSpace_open, stripPair_open hopen]

section
variable {α : Type*} {body : α → Bytes} {piece : α → Piece} {l : List α}

section
variable (hread : ∀ x ∈ l, readPiece U (body x) = some (piece x)) (hwhole : ∀ x ∈ l, semicolon ∉ body x)
include hread hwhole

theorem readPieces_bodies_append (w : Bytes) :
    readPieces U (l.flatMap (fun x => semicolon :: body x) ++ semicolon :: w) =
      l.map piece ++ (w.splitOn semicolon).filterMap (readPiece U) := by
  have hsplit : (l.flatMap (fun x => semicolon :: body x) ++ semicolon :: w).splitOn semicolon =
      [] :: l.map body ++ w.splitOn semicolon := by
    have hcore := splitOn_flatMap_cons semicolon body [] l
    rw [nil_append] at hcore
    rw [splitOn_append_cons_self, hcore, flatMap_splitOn_eq_map hwhole]
    rfl
  have hpieces : (l.map body).filterMap (readPiece U) = l.map piece := by
    rw [filterMap_map, ← filterMap_eq_map]
    exact filterMap_congr hread
  have hblank : readPiece U [] = none := rfl
  rw [readPieces, if_neg (by simp), hsplit, cons_append, filterMap_cons_none hblank,
    filterMap_append, hpieces]

theorem readPieces_bodies : readPieces U (l.flatMap (fun x => semicolon :: body x)) = l.map piece := by
  rcases eq_nil_or_concat l with rfl | ⟨xs, x, rfl⟩
  · rfl
  · rw [concat_eq_append] at hread hwhole ⊢
    have hx : semicolon ∉ body x := hwhole x (by simp)
    have hcore := readPieces_bodies_append U (fun y hy => hread y (mem_append_left _ hy))
      (fun y hy => hwhole y (mem_append_left _ hy)) (body x)
    rw [splitOn_eq_singleton hx, filterMap_cons_some (hread x (by simp))] at hcore
    simpa using hcore

end

end

variable {ps : List ItemParam}

theorem readPieces_append (h : ∀ p ∈ ps, semicolon ∉ p.body) (w : Bytes) :
    readPieces U (itemParamsText ps ++ semicolon :: w) =
      ps.map ItemParam.piece ++ (w.splitOn semicolon).filterMap (readPiece U) :=
  readPieces_bodies_append U (fun p _ => readPiece_body U p) h w

theorem readPieces_params (h : ∀ p ∈ ps, semicolon ∉ p.body) :
    readPieces U (itemParamsText ps) = ps.map ItemParam.piece :=
  readPieces_bodies U (fun p _ => readPiece_body U p) h

/-! ## 4. Splitting the inner list

`splitInnerList` flips its quote state at every quote and ends an item at a blank outside
quotes.  An identifier passes through it as a whole. -/

theorem splitLoop_plain {w : Bytes} {q : Bool} (hq : dquote ∉ w) (hs : q = true ∨ space ∉ w)
    (cur rest : Bytes) :
    splitInnerListLoop q cur (w ++ rest) = splitInnerListLoop q (cur ++ w) rest := by
  induction w generalizing cur with
  | nil => simp
  | cons b w ih =>
    rw [mem_cons, not_or] at hq
    have hb : ¬ (b = space ∧ q = false) := by
      rintro ⟨rfl, rfl⟩
      rcases hs with hs | hs
      · cases hs
      · exact hs mem_cons_self
    have hs' : q = true ∨ space ∉ w := hs.imp_right fun h hm => h (mem_cons_of_mem _ hm)
    rw [cons_append, splitInnerListLoop, if_neg (fun e => hq.1 e.symm), if_neg hb, ih hq.2 hs']
    simp

theorem splitLoop_quote (q : Bool) (cur rest : Bytes) :
    splitInnerListLoop q cur (dquote :: rest) = splitInnerListLoop (!q) (cur ++ [dquote]) rest := by
  rw [splitInnerListLoop, if_pos rfl]

theorem splitLoop_string (s : SfString) (cur rest : Bytes) :
    splitInnerListLoop false cur (dquote :: s.val ++ dquote :: rest) =
      splitInnerListLoop false (cur ++ (dquote :: s.val ++ [dquote])) rest := by
  rw [cons_append, splitLoop_quote, Bool.not_false,
    splitLoop_plain (s.not_mem (by decide)) (.inl rfl), splitLoop_quote]
  simp

theorem splitLoop_key (k : SfKey) (cur rest : Bytes) :
    splitInnerListLoop false cur (semicolon :: k.val ++ rest) =
      splitInnerListLoop false (cur ++ semicolon :: k.val) rest := by
  have hq : dquote ∉ semicolon :: k.val := by
    simpa using k.not_mem (x := dquote) (by decide)
  have hs : space ∉ semicolon :: k.val := by
    simpa using k.not_mem (x := space) (by decide)
  exact splitLoop_plain hq (.inr hs) cur rest

theorem splitLoop_itemParam : ∀ (p : ItemParam) (cur rest : Bytes),
    splitInnerListLoop false cur (semicolon :: p.body ++ rest) =
      splitInnerListLoop false (cur ++ semicolon :: p.body) rest
  | .flag k, cur, rest => splitLoop_key k cur rest
  | .valued k (.int n), cur, rest => by
    have hq : dquote ∉ equals :: n.text := by
      simpa using n.not_mem_text (x := dquote) (by decide) (by decide)
    have hs : space ∉ equals :: n.text := by
      simpa using n.not_mem_text (x := space) (by decide) (by decide)
    have h := splitLoop_key k cur (equals :: n.text ++ rest)
    rw [splitLoop_plain hq (.inr hs)] at h
    simpa [ItemParam.body, Value.text] using h
  | .valued k (.str s), cur, rest => by
    have h := splitLoop_key k cur ([equals] ++ (dquote :: s.val ++ dquote :: rest))
    have hstep := splitLoop_plain (w := [equals]) (q := false) (by decide) (.inr (by decide))
      (cur ++ semicolon :: k.val) (dquote :: s.val ++ dquote :: rest)
    rw [hstep, splitLoop_string] at h
    simpa [ItemParam.body, Value.text] using h

theorem splitLoop_itemParams : ∀ (ps : List ItemParam) (cur rest : Bytes),
    splitInnerListLoop false cur (itemParamsText ps ++ rest) =
      splitInnerListLoop false (cur ++ itemParamsText ps) rest
  | [], cur, rest => by simp [itemParamsText]
  | p :: ps, cur, rest => by
    have h := splitLoop_itemParam p cur (itemParamsText ps ++ rest)
    rw [splitLoop_itemParams ps] at h
    simpa [itemParamsText] using h

theorem splitLoop_item (it : Item) (cur rest : Bytes) :
    splitInnerListLoop false cur (it.text ++ rest) = splitInnerListLoop false (cur ++ it.text) rest := by
  have h := splitLoop_string it.name cur (itemParamsText it.params ++ rest)
  rw [splitLoop_itemParams] at h
  simpa [Item.text] using h

theorem splitLoop_space {cur : Bytes} (h : cur ≠ []) (rest : Bytes) :
    splitInnerListLoop false cur (space :: rest) = cur :: splitInnerListLoop false [] rest := by
  rw [splitInnerListLoop, if_neg (by decide), if_pos ⟨rfl, rfl⟩, if_pos h]

theorem splitLoop_chunk : ∀ (s cur : Bytes) (q : Bool), cur ≠ [] →
    ∃ s' more, s' <+: s ∧ (q = false → s'.head? ≠ some space) ∧
      splitInnerListLoop q cur s = (cur ++ s') :: more
  | [], cur, q, h => ⟨[], [], prefix_rfl, by simp, by simp [splitInnerListLoop, h]⟩
  | b :: s, cur, q, h => by
    have hcur : cur ++ [b] ≠ [] := by simp
    by_cases hb : b = dquote
    · obtain ⟨s', more, hpre, -, he⟩ := splitLoop_chunk s _ (!q) hcur
      refine ⟨b :: s', more, cons_prefix_cons.mpr ⟨rfl, hpre⟩, ?_, ?_⟩
      · rintro - hs
        rw [head?_cons, hb] at hs
        exact absurd (Option.some.inj hs) (by decide)
      · rw [splitInnerListLoop, if_pos hb, he]
        simp
    · by_cases hs : b = space ∧ q = false
      · refine ⟨[], splitInnerListLoop q [] s, nil_prefix, by simp, ?_⟩
        rw [splitInnerListLoop, if_neg hb, if_pos hs, if_pos h, append_nil]
      · obtain ⟨s', more, hpre, -, he⟩ := splitLoop_chunk s _ q hcur
        refine ⟨b :: s', more, cons_prefix_cons.mpr ⟨rfl, hpre⟩, ?_, ?_⟩
        · rintro rfl hh
          exact hs ⟨Option.some.inj hh, rfl⟩
        · rw [splitInnerListLoop, if_neg hb, if_neg hs, he]
          simp

end AoniContrib.HttpSig
