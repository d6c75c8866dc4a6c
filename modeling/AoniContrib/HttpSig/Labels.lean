/-
# Several signatures in one message

`appendHeader` joins the members of several signatures by `", "`, and `parseDictionaryMembers` takes
them apart at the commas that stand outside quotes, parentheses and colons.  The members come back one
by one exactly when each CLOSES what it opens, so that its neighbours are read from rest, and hides
its own commas (`labels_independent_iff`).

A `Signature` member always does.  A `Signature-Input` member need not: `ParseComponentIdentifier`
splits a component's parameters at EVERY semicolon.  The string `"a:;b"` becomes `=""a:"` and a
parameter `b"`, its colon stands outside the quotes, and the members behind it are swallowed
(`colon_swallows_member`).
-/
import AoniContrib.HttpSig.Transport

namespace AoniContrib.HttpSig

open Go Data List

variable (U : Unicode)

/-! ## 1. Members in a row -/

/-- A member as `Sign` writes it: a label, and a value that survives trimming. -/
structure Labelled where
  label : SfKey
  value : Bytes
  ascii : Ascii value
  ends : SolidEnds value
  start : value.head? ≠ some comma

namespace Labelled

def text (m : Labelled) : Bytes := m.label.val ++ equals :: m.value

def entry (m : Labelled) : DictEntry := ⟨m.label.val, m.value⟩

end Labelled

/-- The members hide their commas, and each but the last closes what it opens. -/
structure Separable (texts : List Bytes) : Prop where
  hidden : ∀ t ∈ texts, Nesting.exposes {} t = false
  closed : ∀ t ∈ texts.dropLast, Nesting.run {} t = {}

def joinMembers (texts : List Bytes) : Bytes := join (lit ", ") texts

theorem joinMembers_cons_cons (t t' : Bytes) (ts : List Bytes) :
    joinMembers (t :: t' :: ts) = t ++ comma :: space :: joinMembers (t' :: ts) := by
  rw [joinMembers, join, intercalate_cons_cons, append_assoc]
  rfl

variable {m : Labelled} {t t' : Bytes}

theorem Labelled.split_text {y : Bytes} (h : m.text ++ t = y ++ comma :: t') :
    ∃ X, y = m.label.val ++ equals :: X ∧ m.value ++ t = X ++ comma :: t' ∧
      X.head? = m.value.head? := by
  have hno : comma ∉ m.label.val ++ [equals] := by
    rw [mem_append, mem_singleton, not_or]
    exact ⟨m.label.not_mem (by decide), by decide⟩
  have hjoin : (m.label.val ++ [equals]) ++ (m.value ++ t) = y ++ comma :: t' := by
    rw [← h, Labelled.text]
    simp
  obtain ⟨b, hb, -⟩ := m.ends.1
  obtain ⟨X, rfl, hX⟩ := append_eq_cut_of_not_mem hno hjoin
  have hhead := congrArg List.head? hX
  rw [head?_append, hb, Option.some_or] at hhead
  refine ⟨X, by simp, hX, ?_⟩
  cases X with
  | nil => exact absurd (hb.trans hhead) m.start
  | cons c X => exact (hb.trans hhead).symm

theorem Labelled.trimSpace_eq_iff {X r : Bytes}
    (hstart : ∀ b, t.head? = some b → b = comma) (h : m.value ++ t = X ++ r) : trimSpace X = m.value ↔ X = m.value := by
  constructor
  · intro htrim
    rcases append_eq_append_iff.mp h with ⟨a, rfl, hrest⟩ | ⟨a, ha, -⟩
    · cases a with
      | nil => rw [append_nil]
      | cons c a =>
        -- the item goes on behind the value with a comma, which trimming keeps
        have hc : c = comma := hstart c (by rw [hrest]; rfl)
        rw [m.ends.trimSpace_append, trimRightSpace_cons (by rw [hc]; decide)] at htrim
        have hlen := congrArg List.length htrim
        simp at hlen
    · have hlen : (trimSpace X).length ≤ X.length :=
        (trimRightSpace_initial _).length_le.trans (trimLeftSpace_suffix X).length_le
      rw [htrim, ha, length_append] at hlen
      have hnil : a = [] := eq_nil_of_length_eq_zero (by omega)
      rw [ha, hnil, append_nil]
  · rintro rfl
    exact m.ends.trimSpace_eq

/-- **The first member is read as itself** exactly when it hides its commas and, if more follows, closes
what it opens. -/
theorem parse_text_append
    (hstart : ∀ b, t.head? = some b → b = comma) (more : List DictEntry) :
    parseDictionaryMembers (m.text ++ t) = m.entry :: more ↔ Nesting.exposes {} m.text = false ∧
        (t = [] ∧ more = [] ∨
          ∃ t', t = comma :: t' ∧ Nesting.run {} m.text = {} ∧ parseDictionaryMembers t' = more) := by
  have hread : ∀ X, X.head? = m.value.head? →
      readMember (m.label.val ++ equals :: X) = some ⟨m.label.val, trimSpace X⟩ := by
    intro X hX
    rw [readMember_entry m.label (hX ▸ m.ends.1)]
  have htext : m.text ++ t = m.label.val ++ equals :: (m.value ++ t) := by simp [Labelled.text]
  have hhead : (m.value ++ t).head? = m.value.head? := by
    obtain ⟨b, hb, -⟩ := m.ends.1
    rw [head?_append, hb, Option.some_or]
  have hentry : ∀ X rest, (⟨m.label.val, X⟩ : DictEntry) :: rest = m.entry :: more ↔
      X = m.value ∧ rest = more := by
    intro X rest
    rw [Labelled.entry, List.cons.injEq, DictEntry.mk.injEq]
    simp
  rcases exists_first_piece Nesting.step Nesting.ends {} (m.text ++ t) with
    hone | ⟨y, x, t', hsplit, hone, hx⟩
  · -- no comma is exposed: the item is the whole text
    have hhidden := Nesting.exposes_eq_false_iff.mpr hone
    rw [Nesting.exposes_append, Bool.or_eq_false_iff] at hhidden
    rw [parseDictionaryMembers_eq, hone, htext, filterMap_cons_some (hread _ hhead),
      filterMap_nil, hentry, Labelled.trimSpace_eq_iff hstart (append_nil _).symm]
    constructor
    · rintro ⟨hval, hmore⟩
      exact ⟨hhidden.1, .inl ⟨append_right_eq_self.mp hval, hmore.symm⟩⟩
    · rintro ⟨-, ⟨rfl, rfl⟩ | ⟨t', rfl, hrun, -⟩⟩
      · exact ⟨append_nil _, rfl⟩
      · rw [hrun] at hhidden
        exact absurd hhidden.2 (by simp [Nesting.exposes])
  · obtain ⟨rfl, hrun⟩ := Nesting.ends_iff.mp hx
    have hrest : pieces Nesting.step Nesting.ends {} (m.text ++ t) =
        y :: pieces Nesting.step Nesting.ends {} t' := by
      rw [hsplit, pieces_append _ _ _ hx, hone, hrun]
      rfl
    have hhidden := Nesting.exposes_eq_false_iff.mpr hone
    change Nesting.run {} y = {} at hrun
    obtain ⟨X, rfl, hX, hXhead⟩ := Labelled.split_text hsplit
    rw [parseDictionaryMembers_eq, hrest, filterMap_cons_some (hread X hXhead), hentry,
      Labelled.trimSpace_eq_iff hstart hX, ← parseDictionaryMembers_eq]
    constructor
    · rintro ⟨rfl, hmore⟩
      exact ⟨hhidden, .inr ⟨t', append_cancel_left hX, hrun, hmore⟩⟩
    · rintro ⟨hhidden', ⟨rfl, -⟩ | ⟨t'', rfl, hrun', hmore⟩⟩
      · -- an exposed comma inside the member
        rw [append_nil] at hsplit
        rw [hsplit, Nesting.exposes_append, hrun] at hhidden'
        simp [Nesting.exposes] at hhidden'
      · rcases append_eq_cut hX with ⟨a, ha, -⟩ | ⟨a, rfl, ha⟩
        · have hlong : m.text = m.label.val ++ equals :: X ++ comma :: a := by
            simp [Labelled.text, ha]
          rw [hlong, Nesting.exposes_append, hrun] at hhidden'
          simp [Nesting.exposes] at hhidden'
        · cases a with
          | nil =>
            obtain ⟨-, rfl⟩ := List.cons.inj ha
            exact ⟨append_nil _, hmore⟩
          | cons c a =>
            obtain ⟨rfl, -⟩ := List.cons.inj ha
            have hlong : m.label.val ++ equals :: (m.value ++ comma :: a) = m.text ++ comma :: a := by
              simp [Labelled.text]
            rw [hlong, Nesting.exposes_append, hrun'] at hhidden
            simp [Nesting.exposes] at hhidden

theorem separable_cons_cons {ts : List Bytes} : Separable (t :: t' :: ts) ↔
    Nesting.exposes {} t = false ∧ Nesting.run {} t = {} ∧ Separable (t' :: ts) := by
  constructor
  · rintro ⟨hhidden, hclosed⟩
    rw [dropLast_cons_cons] at hclosed
    exact ⟨hhidden t mem_cons_self, hclosed t mem_cons_self,
      (forall_mem_cons.mp hhidden).2,
      (forall_mem_cons.mp hclosed).2⟩
  · rintro ⟨hhidden, hclosed, htail⟩
    refine ⟨fun u hu => ?_, fun u hu => ?_⟩
    · rcases mem_cons.mp hu with rfl | hu
      · exact hhidden
      · exact htail.hidden u hu
    · rw [dropLast_cons_cons] at hu
      rcases mem_cons.mp hu with rfl | hu
      · exact hclosed
      · exact htail.closed u hu

theorem parse_space (s : Bytes) : parseDictionaryMembers (space :: s) = parseDictionaryMembers s := by
  obtain ⟨p, ps, hp⟩ := exists_pieces Nesting.step Nesting.ends {} s
  have hread : readMember (space :: p) = readMember p :=
    readMember_blanks (y := [space]) (by intro b hb; rw [mem_singleton.mp hb]; decide) p
  rw [parseDictionaryMembers_eq, parseDictionaryMembers_eq, pieces, if_neg (by decide)]
  change List.filterMap readMember ((pieces Nesting.step Nesting.ends {} s).modifyHead _) = _
  rw [hp, modifyHead_cons, filterMap_cons, filterMap_cons, hread]

theorem parse_joinMembers_iff : ∀ ms : List Labelled,
    parseDictionaryMembers (joinMembers (ms.map Labelled.text)) = ms.map Labelled.entry ↔
      Separable (ms.map Labelled.text)
  | [] => ⟨fun _ => ⟨by simp, by simp⟩, fun _ => rfl⟩
  | [m] => by
    have h := parse_text_append (m := m) (t := []) (by simp) []
    rw [append_nil] at h
    simp only [map_cons, map_nil, joinMembers, join, intercalate_singleton]
    rw [h]
    constructor
    · rintro ⟨hhidden, -⟩
      exact ⟨by simpa using hhidden, by simp⟩
    · intro hsep
      exact ⟨hsep.hidden _ (by simp), .inl ⟨rfl, rfl⟩⟩
  | m :: m' :: ms => by
    have ih := parse_joinMembers_iff (m' :: ms)
    have h := parse_text_append (m := m)
      (t := comma :: space :: joinMembers ((m' :: ms).map Labelled.text))
      (fun b hb => (Option.some.inj hb).symm) ((m' :: ms).map Labelled.entry)
    simp only [map_cons] at h ih ⊢
    rw [joinMembers_cons_cons, h, separable_cons_cons, ← ih]
    constructor
    · rintro ⟨hhidden, ⟨hnil, -⟩ | ⟨t', ht', hclosed, hmore⟩⟩
      · cases hnil
      · obtain ⟨-, rfl⟩ := List.cons.inj ht'
        rw [parse_space] at hmore
        exact ⟨hhidden, hclosed, hmore⟩
    · rintro ⟨hhidden, hclosed, hmore⟩
      exact ⟨hhidden, .inr ⟨_, rfl, hclosed, by rw [parse_space, hmore]⟩⟩

/-! ## 2. The members of several `Sign` calls -/

/-- A successful `Sign` call under a label that is a key. -/
structure Signing where
  ord : Nat → MapOrder
  ctx : RequestContext
  cfg : SignConfig
  now : Time
  label : SfKey
  input : Bytes
  sig : Bytes
  signed : sign U ord ctx cfg now = .ok (input, sig)
  labelled : cfg.labelOrDefault = label.val

def LastSolid (s : Bytes) : Prop := ∃ b, s.getLast? = some b ∧ isSolid b = true

theorem LastSolid.append {s : Bytes} (hs : LastSolid s) (ht : t = [] ∨ LastSolid t) :
    LastSolid (s ++ t) := by
  rcases ht with rfl | ⟨b, hb, hsolid⟩
  · rwa [append_nil]
  · exact ⟨b, by rw [getLast?_append, hb, Option.some_or], hsolid⟩

theorem lastSolid_intParam (name : String) (n : Int64) :
    intParam name n = [] ∨ LastSolid (intParam name n) := by
  unfold intParam
  split_ifs with h
  · have hne : formatInt n ≠ [] := by
      unfold formatInt
      split_ifs
      · exact cons_ne_nil _ _
      · exact decimal_ne_nil _
    have hsolid : ∀ b : UInt8, isDigit b = true ∨ b = minus → isSolid b = true := by grind [isDigit, isSolid, isSpace]
    refine .inr ⟨(formatInt n).getLast hne, ?_, hsolid _ (mem_formatInt (getLast_mem hne))⟩
    rw [getLast?_append, getLast?_eq_some_getLast hne, Option.some_or]
  · exact .inl rfl

theorem lastSolid_stringParam (name : String) (v : Bytes) :
    stringParam name v = [] ∨ LastSolid (stringParam name v) := by
  unfold stringParam
  split_ifs
  · exact .inr ⟨dquote, getLast?_concat, by decide⟩
  · exact .inl rfl

theorem lastSolid_memberText (inner : Bytes) (p : SignatureParams) :
    LastSolid (memberText inner (paramsText p)) := by
  have hparen : LastSolid ((lparen :: inner) ++ [rparen]) := ⟨rparen, getLast?_concat, by decide⟩
  have hsplit : memberText inner (paramsText p) = (lparen :: inner) ++ [rparen] ++
      intParam ";created=" p.created ++ intParam ";expires=" p.expires ++
      stringParam ";keyid=\"" p.keyID ++ stringParam ";alg=\"" p.alg ++
      stringParam ";nonce=\"" p.nonce ++ stringParam ";tag=\"" p.tag := by
    simp [memberText, paramsText]
  rw [hsplit]
  exact (((((hparen.append (lastSolid_intParam _ _)).append (lastSolid_intParam _ _)).append
    (lastSolid_stringParam _ _)).append (lastSolid_stringParam _ _)).append
    (lastSolid_stringParam _ _)).append (lastSolid_stringParam _ _)

theorem serialize_memberText {p : SignatureParams} {text : Bytes}
    (h : serializeSignatureParams U p = .ok text) :
    ∃ ids, serializedIdentifiers U p.components = .ok ids ∧
      text = memberText (join [space] ids) (paramsText p) := by
  obtain ⟨ids, hids, h⟩ := bind_eq_ok.mp h
  exact ⟨ids, hids, by rw [← Except.ok.inj h]; simp [memberText]⟩

namespace Signing

variable {U}

theorem exists_input (c : Signing U) : ∃ m : Labelled, m.label = c.label ∧ m.text = c.input := by
  obtain ⟨signer, base, sig, text, -, hbase, -, htext, hinput, -⟩ := sign_ok U c.signed
  obtain ⟨ls, text', -, -, htext', hbase', hascii⟩ := (buildSignatureBase_ok_iff U).mp hbase
  obtain rfl : text = text' := by
    rw [htext] at htext'
    exact Except.ok.inj htext'
  have htextAscii : Ascii text := fun b hb => hascii b (by rw [hbase']; simp [hb])
  obtain ⟨ids, -, hmember⟩ := serialize_memberText U htext
  have hhead : text.head? = some lparen := by rw [hmember]; rfl
  refine ⟨⟨c.label, text, htextAscii, ⟨⟨lparen, hhead, by decide⟩, ?_⟩, ?_⟩, rfl, ?_⟩
  · rw [hmember]
    exact lastSolid_memberText _ _
  · rw [hhead]
    decide
  · rw [hinput, c.labelled, Labelled.text]
    simp

theorem exists_sig (c : Signing U) : ∃ (m : Labelled) (bytes : Bytes), m.label = c.label ∧
    m.value = signatureText bytes ∧ m.text = c.sig := by
  obtain ⟨signer, base, sig, text, -, -, -, -, -, hsig⟩ := sign_ok U c.signed
  obtain ⟨hascii, -, hends⟩ := signatureText_facts sig
  refine ⟨⟨c.label, signatureText sig, hascii, hends, ?_⟩, sig, rfl, rfl, ?_⟩
  · rw [signatureText, cons_append, head?_cons]
    decide
  · have hl : lit "=:" = [equals, colon] := by decide
    rw [hsig, c.labelled, hl]
    simp [Labelled.text, signatureText]

/-- The label and the value of the `Signature-Input` member, and of the `Signature` member. -/
def inputEntry (c : Signing U) : DictEntry := ⟨c.label.val, c.input.drop (c.label.val.length + 1)⟩

def sigEntry (c : Signing U) : DictEntry := ⟨c.label.val, c.sig.drop (c.label.val.length + 1)⟩

end Signing

theorem Labelled.drop_text (m : Labelled) : m.text.drop (m.label.val.length + 1) = m.value := by
  have h : m.text = (m.label.val ++ [equals]) ++ m.value := by simp [Labelled.text]
  rw [h, drop_left' (by simp)]

/-- The headers after one more signature, and after several. -/
def attach (h : Header) (c : Signing U) : Header :=
  appendHeader (appendHeader h headerSignatureInput c.input) headerSignature c.sig

def attachAll (h : Header) (cs : List (Signing U)) : Header := cs.foldl (attach U) h

def glue (existing member : Bytes) : Bytes :=
  if existing = [] then member else existing ++ lit ", " ++ member

theorem get_appendHeader_same (h : Header) (key member : Bytes) :
    (appendHeader h key member).get key = glue (h.get key) member := by
  unfold appendHeader glue
  dsimp only
  split_ifs <;> rw [Header.get_set_same]

theorem get_appendHeader_of_ne {key key' : Bytes}
    (hne : canonicalMIMEHeaderKey key' ≠ canonicalMIMEHeaderKey key) (h : Header) (member : Bytes) :
    (appendHeader h key member).get key' = h.get key' := by
  unfold appendHeader
  dsimp only
  split_ifs <;> rw [Header.get_set_of_ne hne]

theorem get_attachAll (cs : List (Signing U)) : ∀ h : Header,
    (attachAll U h cs).get headerSignatureInput =
        (cs.map Signing.input).foldl glue (h.get headerSignatureInput) ∧
      (attachAll U h cs).get headerSignature =
        (cs.map Signing.sig).foldl glue (h.get headerSignature) := by
  have hne : canonicalMIMEHeaderKey headerSignatureInput ≠ canonicalMIMEHeaderKey headerSignature := by
    decide
  induction cs with
  | nil => intro h; exact ⟨rfl, rfl⟩
  | cons c cs ih =>
    intro h
    obtain ⟨hin, hsig⟩ := ih (attach U h c)
    rw [attach, get_appendHeader_of_ne hne, get_appendHeader_same] at hin
    rw [attach, get_appendHeader_same, get_appendHeader_of_ne (Ne.symm hne)] at hsig
    exact ⟨hin, hsig⟩

theorem foldl_glue_ne_nil : ∀ (ts : List Bytes) {acc : Bytes}, acc ≠ [] →
    ts.foldl glue acc = joinMembers (acc :: ts)
  | [], acc, _ => by simp [joinMembers, join]
  | t :: ts, acc, hacc => by
    have hstep : glue acc t = acc ++ comma :: space :: t := by
      rw [glue, if_neg hacc, append_assoc]
      rfl
    have hne : acc ++ comma :: space :: t ≠ [] := by simp
    rw [foldl_cons, hstep, foldl_glue_ne_nil ts hne, joinMembers_cons_cons]
    cases ts with
    | nil => simp [joinMembers, join]
    | cons t' ts =>
      rw [joinMembers_cons_cons, joinMembers_cons_cons]
      simp

theorem foldl_glue {ts : List Bytes} (h : ∀ t ∈ ts, t ≠ []) : ts.foldl glue [] = joinMembers ts := by
  cases ts with
  | nil => rfl
  | cons t ts =>
    rw [foldl_cons, glue, if_pos rfl, foldl_glue_ne_nil ts (h t mem_cons_self)]

/-! ## 3. Independence -/

theorem separable_sigs {ms : List Labelled} (h : ∀ m ∈ ms, ∃ bytes, m.value = signatureText bytes) :
    Separable (ms.map Labelled.text) := by
  have hkey : ∀ b : UInt8, isKeyByte b = true → Nesting.Plain b := by
    unfold Nesting.Plain
    decide +kernel
  have hcode : ∀ b : UInt8, (stdValue b).isSome = true ∨ b = equals → Nesting.Plain b := by
    unfold Nesting.Plain
    decide +kernel
  have hclosed : ∀ m ∈ ms, Nesting.run {} m.text = {} := by
    intro m hm
    obtain ⟨bytes, hvalue⟩ := h m hm
    have hlabel : Nesting.run {} m.label.val = {} :=
      Nesting.run_plain (fun b hb => hkey b (m.label.chars b hb)) _
    have hbody : ∀ n : Nesting, n.run (stdEncoding.encode bytes) = n :=
      Nesting.run_plain fun b hb => hcode b (mem_stdEncode hb)
    rw [Labelled.text, hvalue, signatureText, Nesting.run_append, hlabel, Nesting.run_cons,
      cons_append, Nesting.run_cons, Nesting.run_append, hbody]
    decide
  have hhidden : ∀ m ∈ ms, Nesting.exposes {} m.text = false := by
    intro m hm
    obtain ⟨bytes, hvalue⟩ := h m hm
    refine Nesting.exposes_of_not_mem ?_ _
    rw [Labelled.text, mem_append, mem_cons, hvalue, not_or, not_or]
    exact ⟨m.label.not_mem (by decide), by decide, (signatureText_facts bytes).2.1⟩
  refine ⟨fun t ht => ?_, fun t ht => ?_⟩
  · obtain ⟨m, hm, rfl⟩ := mem_map.mp ht
    exact hhidden m hm
  · obtain ⟨m, hm, rfl⟩ := mem_map.mp (mem_of_mem_dropLast ht)
    exact hclosed m hm

theorem valueOf_mem : ∀ {es : List DictEntry}, (es.map DictEntry.label).Nodup → ∀ e ∈ es,
    valueOf es e.label = e.value
  | [], _, e, he => by cases he
  | d :: es, hnodup, e, he => by
    rw [map_cons, nodup_cons] at hnodup
    rcases mem_cons.mp he with rfl | he
    · rw [valueOf, find?_cons_of_pos (by simp)]
      rfl
    · have hne : ¬ (d.label == e.label) = true := by
        intro heq
        rw [beq_iff_eq] at heq
        exact hnodup.1 (heq ▸ mem_map_of_mem he)
      rw [valueOf, find?_cons_of_neg (by exact hne)]
      exact valueOf_mem hnodup.2 e he

/-- The signatures stay independent: each header is read as the list of their members, and `Verify`
with the label of one sees that one's own values. -/
structure Independent (h : Header) (cs : List (Signing U)) : Prop where
  inputs : parseDictionaryMembers ((attachAll U h cs).get headerSignatureInput) =
    cs.map Signing.inputEntry
  signatures : parseDictionaryMembers ((attachAll U h cs).get headerSignature) = cs.map Signing.sigEntry
  seen : ∀ c ∈ cs, ∀ ctx : RequestContext, ctx.header = some (attachAll U h cs) →
    inputMemberValue ctx c.label.val = c.inputEntry.value ∧
      signatureMemberValue ctx c.label.val = c.sigEntry.value

theorem exists_members (f : Signing U → Bytes) (good : Labelled → Prop)
    (h : ∀ c : Signing U, ∃ m : Labelled, m.label = c.label ∧ good m ∧ m.text = f c)
    (cs : List (Signing U)) :
    ∃ ms : List Labelled, (∀ m ∈ ms, good m) ∧ ms.map Labelled.text = cs.map f ∧ ms.map Labelled.entry =
        cs.map (fun c => ⟨c.label.val, (f c).drop (c.label.val.length + 1)⟩) := by
  induction cs with
  | nil => exact ⟨[], by simp, rfl, rfl⟩
  | cons c cs ih =>
    obtain ⟨m, hlabel, hgood, htext⟩ := h c
    obtain ⟨ms, hall, htexts, hentries⟩ := ih
    refine ⟨m :: ms, fun x hx => ?_, by rw [map_cons, map_cons, htext, htexts], ?_⟩
    · rcases mem_cons.mp hx with rfl | hx
      · exact hgood
      · exact hall x hx
    · rw [map_cons, map_cons, hentries, ← htext, ← hlabel, m.drop_text]
      rfl

/-- **When signatures with several labels stay independent.**  Of the members only this is asked: that
the `Signature-Input` members hide their commas and, but for the last, close what they open. -/
theorem labels_independent_iff {cs : List (Signing U)} {h : Header}
    (hlabels : (cs.map fun c => c.label.val).Nodup) (hin : h.get headerSignatureInput = [])
    (hsig : h.get headerSignature = []) :
    Independent U h cs ↔ Separable (cs.map Signing.input) := by
  obtain ⟨ms, -, htexts, hentries⟩ := exists_members U Signing.input (fun _ => True)
    (fun c => by obtain ⟨m, hl, ht⟩ := c.exists_input; exact ⟨m, hl, trivial, ht⟩) cs
  obtain ⟨ss, hsigs, hstexts, hsentries⟩ := exists_members U Signing.sig
    (fun m => ∃ bytes, m.value = signatureText bytes)
    (fun c => by obtain ⟨m, bytes, hl, hv, ht⟩ := c.exists_sig; exact ⟨m, hl, ⟨bytes, hv⟩, ht⟩) cs
  have hne : ∀ (ls : List Labelled), ∀ t ∈ ls.map Labelled.text, t ≠ [] := by
    intro ls t ht
    obtain ⟨m, -, rfl⟩ := mem_map.mp ht
    simp [Labelled.text]
  obtain ⟨hgetIn, hgetSig⟩ := get_attachAll U cs h
  rw [hin, ← htexts, foldl_glue (hne ms)] at hgetIn
  rw [hsig, ← hstexts, foldl_glue (hne ss)] at hgetSig
  have hsigParse := (parse_joinMembers_iff ss).mpr (separable_sigs hsigs)
  rw [← hgetSig, hsentries] at hsigParse
  rw [← htexts, ← parse_joinMembers_iff, ← hgetIn, hentries]
  refine ⟨fun hind => hind.inputs, fun hinParse => ⟨hinParse, hsigParse, fun c hc ctx hctx => ?_⟩⟩
  rw [inputMemberValue, signatureMemberValue, RequestContext.headerGet, RequestContext.headerGet, hctx]
  dsimp only
  rw [hinParse, hsigParse]
  have hnodup : ∀ g : Signing U → DictEntry, (∀ d, (g d).label = d.label.val) →
      valueOf (cs.map g) c.label.val = (g c).value := by
    intro g hg
    rw [← hg c]
    refine valueOf_mem ?_ _ (mem_map_of_mem hc)
    rw [map_map]
    have hfun : DictEntry.label ∘ g = fun d => d.label.val := funext hg
    rw [hfun]
    exact hlabels
  exact ⟨hnodup Signing.inputEntry fun _ => rfl, hnodup Signing.sigEntry fun _ => rfl⟩

/-! ## 4. A swallowed member -/

namespace Example

def methodOnly : RequestContext := { method := lit "GET" }

def labelConfig (label component : String) : SignConfig :=
  { label := lit label, signer := some (.transparent (lit "k")), components := [lit component],
    created := Time.unix 1618884473 }

def labelMembers (label component : String) : Bytes × Bytes :=
  (sign .ascii (fun _ => .listed) methodOnly (labelConfig label component) (Time.unix 0)).toOption.getD
    ([], [])

def keyA : SfKey := ⟨lit "a", ⟨0x61, rfl, by decide⟩, by decide +kernel⟩
def keyB : SfKey := ⟨lit "b", ⟨0x62, rfl, by decide⟩, by decide +kernel⟩

def signingA : Signing .ascii :=
  ⟨fun _ => .listed, methodOnly, labelConfig "a" "@method", Time.unix 0, keyA,
    (labelMembers "a" "@method").1, (labelMembers "a" "@method").2, by decide, by decide⟩

def signingB : Signing .ascii :=
  ⟨fun _ => .listed, methodOnly, labelConfig "b" "@method", Time.unix 0, keyB,
    (labelMembers "b" "@method").1, (labelMembers "b" "@method").2, by decide, by decide⟩

/-- The method with the parameter `ext="a:;b"`, signed under `a`. -/
def signingColon : Signing .ascii :=
  ⟨fun _ => .listed, methodOnly, labelConfig "a" "\"@method\";ext=\"a:;b\"", Time.unix 0, keyA,
    (labelMembers "a" "\"@method\";ext=\"a:;b\"").1, (labelMembers "a" "\"@method\";ext=\"a:;b\"").2,
    by decide +kernel, by decide +kernel⟩

end Example

open Example in
theorem labels_independent_iff_methods : Independent .ascii .empty [signingA, signingB] := by
  refine (labels_independent_iff .ascii (by decide) (by decide) (by decide)).mpr ⟨?_, ?_⟩
  · decide
  · decide

open Example in
/-- The colon of the string `a:;b` hides the comma behind the first member: the header is read as ONE
member, and a verifier that asks for the label `b` finds nothing. -/
theorem colon_swallows_member :
    (parseDictionaryMembers ((attachAll .ascii .empty [signingColon, signingB]).get
        headerSignatureInput)).map DictEntry.label = [lit "a"] ∧
      ¬ Independent .ascii .empty [signingColon, signingB] := by
  have hlabels : (parseDictionaryMembers ((attachAll .ascii .empty [signingColon, signingB]).get
      headerSignatureInput)).map DictEntry.label = [lit "a"] := by decide +kernel
  refine ⟨hlabels, fun hind => ?_⟩
  rw [hind.inputs] at hlabels
  exact absurd (congrArg List.length hlabels) (by decide)

end AoniContrib.HttpSig
