/-
# Signing a message that is signed already

`SignRequest` and `SignResponse` write the new members with `appendHeader`, which takes the existing
ones from `Header.Get` and gives everything back to `Header.Set`.  `Get` reads the FIRST field line and
`Set` replaces all of them, so the members of every further line are gone (`second_line_dropped`).
The earlier members are kept exactly when those lines have none and the new member is one
(`signing_keeps_members_iff`).
-/
import AoniContrib.HttpSig.Labels

namespace AoniContrib.HttpSig

open Go Data List

variable (U : Unicode)

/-! ## 1. The members of a field -/

/-- Where a reader of structured fields stands: outside of a string, in one, behind a backslash. -/
inductive Place where
  | outside
  | quoted
  | escaped
  deriving DecidableEq

namespace Place

def next : Place → UInt8 → Place
  | outside, c => if c = dquote then quoted else outside
  | quoted, c => if c = dquote then outside else if c = backslash then escaped else quoted
  | escaped, _ => quoted

/-- A comma outside of a string ends a member. -/
def ends (p : Place) (c : UInt8) : Bool := p = outside && c == comma

end Place

def ClosedText (s : Bytes) : Prop := s.foldl Place.next .outside = .outside

instance (s : Bytes) : Decidable (ClosedText s) := inferInstanceAs (Decidable (_ = _))

def isOWS (b : UInt8) : Bool := b = space || b = 9

def trimOWS (s : Bytes) : Bytes := (s.dropWhile isOWS).rdropWhile isOWS

/-- The members of a list or dictionary of RFC 8941, as texts. -/
def members (s : Bytes) : List Bytes :=
  ((pieces Place.next Place.ends .outside s).map trimOWS).filter (· ≠ [])

theorem trimOWS_sublist (s : Bytes) : (trimOWS s).Sublist s := by
  have hend := rdropWhile_prefix isOWS (s.dropWhile isOWS)
  exact hend.sublist.trans (dropWhile_sublist isOWS)

theorem members_append {s : Bytes} (h : ClosedText s) (t : Bytes) :
    members (s ++ lit ", " ++ t) = members s ++ members t := by
  have hends : Place.ends (s.foldl Place.next .outside) comma = true := by
    rw [h]
    rfl
  have htext : s ++ lit ", " ++ t = s ++ comma :: space :: t := by
    rw [append_assoc]
    rfl
  have hspace : ∀ ps : List Bytes, (ps.modifyHead (space :: ·)).map trimOWS = ps.map trimOWS := by
    intro ps
    cases ps <;> rfl
  rw [members, htext, pieces_append _ _ _ hends, h, map_append, filter_append]
  refine congrArg _ (congrArg _ ?_)
  exact hspace _

theorem members_eq_singleton_iff {s : Bytes} : members s = [s] ↔
    pieces Place.next Place.ends .outside s = [s] ∧ trimOWS s = s ∧ s ≠ [] := by
  constructor
  · intro h
    obtain ⟨hmem, hne⟩ := mem_filter.mp (h ▸ mem_singleton_self s : s ∈ members s)
    obtain ⟨p, hp, htrim⟩ := mem_map.mp hmem
    have hlen := length_add_length_le Place.next Place.ends hp
    have hsub := trimOWS_sublist p
    rw [htrim] at hsub
    obtain ⟨q, qs, hq⟩ := exists_pieces Place.next Place.ends .outside s
    have hle := hsub.length_le
    rw [hq] at hp hlen ⊢
    rw [length_cons] at hlen
    obtain rfl : qs = [] := length_eq_zero_iff.mp (by omega)
    obtain rfl := mem_singleton.mp hp
    obtain rfl := hsub.eq_of_length_le (by omega)
    exact ⟨rfl, htrim, by simpa using hne⟩
  · rintro ⟨hp, htrim, hne⟩
    rw [members, hp, map_singleton, htrim, filter_singleton, decide_eq_true hne]
    rfl

theorem members_eq_append_iff {s : Bytes} {ms : List Bytes} :
    members s = ms ++ [s] ↔ ms = [] ∧ members s = [s] := by
  refine ⟨fun h => ?_, fun ⟨hms, hs⟩ => by rw [hms, hs]; rfl⟩
  have hmem : s ∈ members s := by simp [h]
  obtain ⟨p, hp, htrim⟩ := mem_map.mp (mem_filter.mp hmem).1
  have hlen := length_add_length_le Place.next Place.ends hp
  have hle := (trimOWS_sublist p).length_le
  rw [htrim] at hle
  have hcount := length_filter_le (· ≠ []) ((pieces Place.next Place.ends .outside s).map trimOWS)
  rw [← members, h, length_map, length_append, length_singleton] at hcount
  have hms : ms = [] := length_eq_zero_iff.mp (by omega)
  rw [hms] at h
  exact ⟨hms, h⟩

/-! ## 2. What `appendHeader` keeps -/

def fieldLines (h : Header) (key : Bytes) : List Bytes := h.lookup (canonicalMIMEHeaderKey key)

/-- The members of a field: those of all its lines, joined. -/
def fieldMembers (h : Header) (key : Bytes) : List Bytes := members (join (lit ", ") (fieldLines h key))

def ClosedLines (h : Header) (key : Bytes) : Prop := ∀ line ∈ fieldLines h key, ClosedText line

/-- No line of the field but the first has a member. -/
def OneLine (h : Header) (key : Bytes) : Prop := ∀ line ∈ (fieldLines h key).tail, members line = []

theorem members_join : ∀ {ls : List Bytes}, (∀ l ∈ ls, ClosedText l) →
    members (join (lit ", ") ls) = ls.flatMap members
  | [], _ => rfl
  | [l], _ => by simp [join]
  | l :: l' :: ls, h => by
    have ih := members_join (forall_mem_cons.mp h).2
    have hjoin : join (lit ", ") (l :: l' :: ls) = l ++ lit ", " ++ join (lit ", ") (l' :: ls) := by
      simp [join, intercalate_cons_cons]
    rw [hjoin, members_append (h l mem_cons_self), ih]
    rfl

theorem fieldLines_appendHeader (h : Header) (key member : Bytes) :
    fieldLines (appendHeader h key member) key = [glue (h.get key) member] := by
  unfold appendHeader glue fieldLines
  dsimp only
  split_ifs <;> rw [Header.lookup_set_same]

theorem fieldLines_appendHeader_of_ne {key key' : Bytes}
    (hne : canonicalMIMEHeaderKey key' ≠ canonicalMIMEHeaderKey key) (h : Header) (member : Bytes) :
    fieldLines (appendHeader h key member) key' = fieldLines h key' := by
  unfold appendHeader fieldLines
  dsimp only
  split_ifs <;> rw [Header.lookup_set_of_ne hne]

/-- **`appendHeader` adds a member** to those of the first line, and drops the others. -/
theorem fieldMembers_appendHeader {h : Header} {key : Bytes} (hclosed : ClosedLines h key)
    (member : Bytes) :
    fieldMembers (appendHeader h key member) key = fieldMembers h key ++ [member] ↔
      OneLine h key ∧ members member = [member] := by
  have hafter : fieldMembers (appendHeader h key member) key = members (h.get key) ++ members member := by
    rw [fieldMembers, fieldLines_appendHeader, join, intercalate_singleton, glue]
    split_ifs with hnil
    · rw [hnil]
      rfl
    · refine members_append ?_ member
      cases hlines : fieldLines h key with
      | nil => exact absurd (by rw [Header.get, ← fieldLines, hlines]; rfl) hnil
      | cons l ls =>
        rw [Header.get, ← fieldLines, hlines]
        exact hclosed l (hlines ▸ mem_cons_self)
  have hbefore : fieldMembers h key = members (h.get key) ++ (fieldLines h key).tail.flatMap members := by
    rw [fieldMembers, members_join hclosed, Header.get, ← fieldLines]
    cases fieldLines h key <;> rfl
  rw [hafter, hbefore, append_assoc, append_cancel_left_eq, members_eq_append_iff, flatMap_eq_nil_iff]
  rfl

/-! ## 3. What signing keeps -/

section
variable (ord : Nat → MapOrder) (cfg : SignConfig) (now : Time)

/-- **The property.**  In both headers the members are the earlier ones and, behind them, the one that
`Sign` returns. -/
def KeepsEarlier (ctx : RequestContext) (h h' : Header) : Prop :=
  ∃ input sig, sign U ord ctx cfg now = .ok (input, sig) ∧
    fieldMembers h' headerSignatureInput = fieldMembers h headerSignatureInput ++ [input] ∧
    fieldMembers h' headerSignature = fieldMembers h headerSignature ++ [sig]

/-- **The condition.**  Each field has its members in the first line, and the label with the serialised
parameters is one member: it holds no comma outside of a string, and no white space around it. -/
structure Appendable (ctx : RequestContext) (h : Header) : Prop where
  input : OneLine h headerSignatureInput
  sig : OneLine h headerSignature
  whole : ∀ signer text, cfg.signer = some signer →
    serializeSignatureParams U (signParams ctx cfg signer now) = .ok text →
    members (cfg.labelOrDefault ++ [equals] ++ text) = [cfg.labelOrDefault ++ [equals] ++ text]

def ClosedFields (h : Header) : Prop :=
  ClosedLines h headerSignatureInput ∧ ClosedLines h headerSignature

variable {ord cfg now}

theorem labelOrDefault_ne_nil : cfg.labelOrDefault ≠ [] := by
  unfold SignConfig.labelOrDefault
  split_ifs with h
  · decide
  · exact h

theorem members_sig {label text enc : Bytes} (hlabel : label ≠ [])
    (h : members (label ++ [equals] ++ text) = [label ++ [equals] ++ text]) (henc : comma ∉ enc) :
    members (label ++ lit "=:" ++ enc ++ [colon]) = [label ++ lit "=:" ++ enc ++ [colon]] := by
  rw [members_eq_singleton_iff] at h ⊢
  obtain ⟨hp, htrim, -⟩ := h
  obtain ⟨c, label, rfl⟩ := exists_cons_of_ne_nil hlabel
  have hplain : ∀ x ∈ lit "=:" ++ enc ++ [colon], ∀ m, Place.ends m x = false := by
    intro x hx m
    have hne : x ≠ comma := by
      rintro rfl
      simp only [mem_append, henc, or_false] at hx
      exact absurd hx (by decide)
    simp [Place.ends, hne]
  rw [append_assoc] at hp
  rw [append_assoc, append_assoc, ← append_assoc (lit "=:")]
  refine ⟨pieces_replace _ _ hplain hp, ?_, cons_ne_nil _ _⟩
  have hc : ¬ isOWS c = true := by
    intro hc
    have hle := (trimOWS_sublist (label ++ [equals] ++ text)).length_le
    rw [cons_append, cons_append, trimOWS, dropWhile_cons_of_pos hc, ← trimOWS] at htrim
    rw [htrim, length_cons] at hle
    omega
  rw [cons_append, trimOWS, dropWhile_cons_of_neg hc, ← cons_append, ← append_assoc]
  exact rdropWhile_concat_neg _ _ _ (by decide)

variable {U}

theorem keepsEarlier_iff {ctx : RequestContext} {h : Header} {input sig : Bytes}
    (hsign : sign U ord ctx cfg now = .ok (input, sig)) (hclosed : ClosedFields h) :
    KeepsEarlier U ord cfg now ctx h
        (appendHeader (appendHeader h headerSignatureInput input) headerSignature sig) ↔
      Appendable U cfg now ctx h := by
  have hne : canonicalMIMEHeaderKey headerSignature ≠ canonicalMIMEHeaderKey headerSignatureInput := by
    decide
  obtain ⟨signer, base, bytes, text, hsigner, -, -, htext, hinput, hsig⟩ := sign_ok U hsign
  have hin : fieldMembers (appendHeader (appendHeader h headerSignatureInput input) headerSignature sig)
      headerSignatureInput = fieldMembers (appendHeader h headerSignatureInput input)
        headerSignatureInput := by
    rw [fieldMembers, fieldLines_appendHeader_of_ne hne.symm, ← fieldMembers]
  have hlines := fieldLines_appendHeader_of_ne hne h input
  have hclosed' : ClosedLines (appendHeader h headerSignatureInput input) headerSignature := by
    rw [ClosedLines, hlines]
    exact hclosed.2
  have hmembers : fieldMembers (appendHeader h headerSignatureInput input) headerSignature =
      fieldMembers h headerSignature := by
    rw [fieldMembers, hlines, ← fieldMembers]
  have hone : OneLine (appendHeader h headerSignatureInput input) headerSignature ↔
      OneLine h headerSignature := by
    rw [OneLine, hlines, ← OneLine]
  have hleft := fieldMembers_appendHeader hclosed.1 input
  have hright := fieldMembers_appendHeader hclosed' sig
  rw [hmembers, hone] at hright
  rw [← hin] at hleft
  constructor
  · rintro ⟨input', sig', hsign', hkept⟩
    obtain ⟨rfl, rfl⟩ := Prod.mk.inj (Except.ok.inj (hsign.symm.trans hsign'))
    obtain ⟨hfirst, hwhole⟩ := hleft.mp hkept.1
    refine ⟨hfirst, (hright.mp hkept.2).1, fun signer' text' hsigner' htext' => ?_⟩
    obtain rfl := Option.some.inj (hsigner.symm.trans hsigner')
    obtain rfl := Except.ok.inj (htext.symm.trans htext')
    rw [← hinput]
    exact hwhole
  · intro happ
    have hwhole := happ.whole signer text hsigner htext
    have henc : comma ∉ stdEncoding.encode bytes := by
      intro hm
      rcases mem_stdEncode hm with hv | heq
      · exact absurd hv (by decide)
      · exact absurd heq (by decide)
    refine ⟨input, sig, hsign, hleft.mpr ⟨happ.input, hinput ▸ hwhole⟩, hright.mpr ⟨happ.sig, ?_⟩⟩
    rw [hsig]
    exact members_sig labelOrDefault_ne_nil hwhole henc

end

/-- **Signing keeps the earlier members** exactly when they stand in one line and the new one is one
member, for requests and for responses. -/
theorem signing_keeps_members_iff (ord : Nat → MapOrder) (cfg : SignConfig) (now : Time) :
    (∀ req req', signRequest U ord req cfg now = .ok req' → ClosedFields req.header →
      (KeepsEarlier U ord cfg now (requestContext req) req.header req'.header ↔
        Appendable U cfg now (requestContext req) req.header)) ∧
    ∀ resp origReq resp', signResponse U ord resp origReq cfg now = .ok resp' →
      ClosedFields resp.header →
      (KeepsEarlier U ord cfg now (responseContext resp origReq) resp.header resp'.header ↔
        Appendable U cfg now (responseContext resp origReq) resp.header) := by
  constructor
  · intro req req' h hclosed
    obtain ⟨p, hsign, h⟩ := bind_eq_ok.mp h
    rw [← Except.ok.inj h]
    exact keepsEarlier_iff hsign hclosed
  · intro resp origReq resp' h hclosed
    obtain ⟨p, hsign, h⟩ := bind_eq_ok.mp h
    rw [← Except.ok.inj h]
    exact keepsEarlier_iff hsign hclosed

namespace Example

theorem signedTwice_nodup (lines : List Bytes) :
    ([(headerSignatureInput, lines), (headerSignature, [lit "a=:YQ==:"])].map Prod.fst).Nodup := by
  change [headerSignatureInput, headerSignature].Nodup
  decide

def signedTwice (lines : List Bytes) : Response where
  statusCode := 200
  header := ⟨[(headerSignatureInput, lines), (headerSignature, [lit "a=:YQ==:"])], signedTwice_nodup lines⟩

def statusConfig : SignConfig :=
  { label := lit "c", signer := some (.transparent (lit "k")), created := Time.unix 1 }

def signedAgain (lines : List Bytes) : Except Err Response :=
  signResponse .ascii (fun _ => .listed) (signedTwice lines) none statusConfig (Time.unix 0)

end Example

open Example in
theorem signing_keeps_members_iff_line : ∃ resp', signedAgain [lit "a=(), b=()"] = .ok resp' ∧
    KeepsEarlier .ascii (fun _ => .listed) statusConfig (Time.unix 0)
      (responseContext (signedTwice [lit "a=(), b=()"]) none) (signedTwice [lit "a=(), b=()"]).header
      resp'.header := by
  refine ⟨_, rfl, ((signing_keeps_members_iff .ascii _ statusConfig (Time.unix 0)).2 _ none _ rfl ?_).mpr ?_⟩
  · exact ⟨by unfold ClosedLines; decide, by unfold ClosedLines; decide⟩
  · refine ⟨by unfold OneLine; decide, by unfold OneLine; decide, ?_⟩
    rintro signer text ⟨⟩ htext
    obtain rfl := Except.ok.inj htext
    decide

open Example in
/-- **The second line is dropped**: the member `b` is gone. -/
theorem second_line_dropped : ∃ resp', signedAgain [lit "a=()", lit "b=()"] = .ok resp' ∧
    fieldMembers (signedTwice [lit "a=()", lit "b=()"]).header headerSignatureInput =
      [lit "a=()", lit "b=()"] ∧
    fieldMembers resp'.header headerSignatureInput =
      [lit "a=()", lit "c=(\"@status\");created=1;keyid=\"k\";alg=\"hmac-sha256\""] ∧
    ¬ KeepsEarlier .ascii (fun _ => .listed) statusConfig (Time.unix 0)
      (responseContext (signedTwice [lit "a=()", lit "b=()"]) none)
      (signedTwice [lit "a=()", lit "b=()"]).header resp'.header := by
  have hafter : ∀ resp', signedAgain [lit "a=()", lit "b=()"] = .ok resp' →
      (fieldMembers resp'.header headerSignatureInput).length = 2 := by
    intro resp' h
    obtain rfl := Except.ok.inj h
    decide
  refine ⟨_, rfl, by decide, by decide, ?_⟩
  rintro ⟨input, sig, -, hkept, -⟩
  have hlen := congrArg List.length hkept
  have hbefore : (fieldMembers (signedTwice [lit "a=()", lit "b=()"]).header
      headerSignatureInput).length = 2 := by decide
  rw [hafter _ rfl, length_append, hbefore] at hlen
  exact absurd hlen (by simp)

end AoniContrib.HttpSig
