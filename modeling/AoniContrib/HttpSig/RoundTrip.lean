/-
# Signing and verifying one message

The members that `Sign` returns are placed in the headers of the otherwise unchanged message.
`Verify` takes the text through four splitters written by hand: at commas, at the first closing
parenthesis, at blanks and at semicolons.  Each has its own idea of quoting.
`roundTrips_iff` says that the signed base is rebuilt exactly when each of them cuts the text
where `Sign` joined it (`SplitsBack`), and no covered value depends on the order in which a
header map is visited (`OrderFree`).
-/
import AoniContrib.HttpSig.Lines
import AoniContrib.HttpSig.Received
import AoniContrib.HttpSig.Transport

namespace AoniContrib.HttpSig

open Go Data List

variable (U : Unicode)

/-! ## 1. The value of a component -/

/-- The value of a component in a message, the headers visited in the order `ord`. -/
def componentValue (ord : MapOrder) (ctx : RequestContext) (p : ParsedComponent) :
    Except Err Bytes := do
  let target ← targetContext ctx p
  deriveComponentValue U ord target p

theorem reads_iff {ord : MapOrder} {ctx : RequestContext} {c : Bytes} {l : Line} : l.Reads U ord ctx c ↔
      parseComponentIdentifier U c = .ok l.comp ∧ componentValue U ord ctx l.comp = .ok l.val := by
  unfold Line.Reads componentValue
  constructor
  · rintro ⟨hp, target, ht, hv⟩
    refine ⟨hp, ?_⟩
    rw [ht]
    exact hv
  · rintro ⟨hp, hv⟩
    refine ⟨hp, ?_⟩
    cases ht : targetContext ctx l.comp with
    | error e => rw [ht] at hv; cases hv
    | ok target => exact ⟨target, rfl, by rw [ht] at hv; exact hv⟩

/-- The component is a field of the message itself, under the name of a signature header. -/
def ReadsMember (p : ParsedComponent) : Prop :=
  hasPrefix atSign p.name = false ∧ p.req = false ∧ p.tr = false ∧
    (equalFold U headerSignatureInput p.name = true ∨ equalFold U headerSignature p.name = true)

theorem exists_order {h h' : Header} {name : Bytes}
    (hf : h'.entries.filter (fun e => equalFold U e.1 name) =
      h.entries.filter (fun e => equalFold U e.1 name)) (ord : MapOrder) :
    ∃ ord' : MapOrder, matchValues U ord' h' name = matchValues U ord h name := by
  let fold : Bytes × List Bytes → Bool := fun e => equalFold U e.1 name
  let visited := (ord.visit h).filter fold ++ h'.entries.filter (fun e => !fold e)
  have hperm : visited.Perm h'.entries := by
    have h1 : ((ord.visit h).filter fold).Perm (h'.entries.filter fold) := by
      rw [show h'.entries.filter fold = h.entries.filter fold from hf]
      exact (ord.perm h).filter fold
    exact (h1.append_right _).trans (filter_append_perm fold h'.entries)
  refine ⟨⟨fun x => if x = h' then visited else ord.visit x, fun x => ?_⟩, ?_⟩
  · split
    · rename_i hx
      rw [hx]
      exact hperm
    · exact ord.perm x
  · have hkeep : visited.filter fold = (ord.visit h).filter fold := by
      rw [filter_append, filter_filter, filter_filter]
      simp
    simp only [matchValues, if_true]
    rw [flatMap_ite fold Prod.snd, flatMap_ite fold Prod.snd, hkeep]

section
variable {ctx : RequestContext} {p : ParsedComponent} {inputMember sigMember : Bytes}

theorem componentValue_elsewhere
    (h : p.req = true ∨ hasPrefix atSign p.name = true ∨ p.tr = true) (ord : MapOrder) :
    componentValue U ord (withMembers ctx inputMember sigMember) p = componentValue U ord ctx p := by
  by_cases hr : p.req = true
  · have htarget : targetContext (withMembers ctx inputMember sigMember) p = targetContext ctx p := by
      rw [targetContext, targetContext, if_pos hr, if_pos hr]
      rfl
    rw [componentValue, componentValue, htarget]
  · have htarget : ∀ c : RequestContext, targetContext c p = .ok c := by
      intro c
      rw [targetContext, if_neg hr]
    simp only [componentValue, htarget, bind, Except.bind, deriveComponentValue]
    rcases h with h | h | h
    · exact absurd h hr
    · rw [if_pos h, if_pos h]
      rfl
    · split
      · rfl
      · simp only [deriveHTTPField, h, if_true, withMembers]

/-- Two messages have the same values of a component, each in some order. -/
structure SameValues (ctx ctx' : RequestContext) (p : ParsedComponent) : Prop where
  sent : ∀ ord, ∃ ord', componentValue U ord' ctx' p = componentValue U ord ctx p
  received : ∀ ord', ∃ ord, componentValue U ord' ctx' p = componentValue U ord ctx p

/-- **The received message gives the values of the sent one.** -/
theorem componentValue_received (hno : ¬ ReadsMember U p)
    (hok : ∃ ord v, componentValue U ord ctx p = .ok v) :
    SameValues U ctx (withMembers ctx inputMember sigMember) p := by
  by_cases h : p.req = true ∨ hasPrefix atSign p.name = true ∨ p.tr = true
  · exact ⟨fun ord => ⟨ord, componentValue_elsewhere U h ord⟩,
      fun ord => ⟨ord, componentValue_elsewhere U h ord⟩⟩
  · simp only [not_or, Bool.not_eq_true] at h
    obtain ⟨hr, hat, htr⟩ := h
    have hvalue : ∀ (ord : MapOrder) (c : RequestContext),
        componentValue U ord c p = deriveHTTPField U ord c p := by
      intro ord c
      simp [componentValue, targetContext, hr, deriveComponentValue, hat, bind, Except.bind]
    obtain ⟨hd, hheader⟩ : ∃ hd, ctx.header = some hd := by
      obtain ⟨ord, v, hv⟩ := hok
      rw [hvalue, deriveHTTPField] at hv
      cases hh : ctx.header with
      | none => simp [htr, hh] at hv
      | some hd => exact ⟨hd, rfl⟩
    have hnames : equalFold U headerSignatureInput p.name = false ∧
        equalFold U headerSignature p.name = false := by
      rw [← Bool.not_eq_true, ← Bool.not_eq_true, ← not_or]
      exact fun hn => hno ⟨hat, hr, htr, hn⟩
    have hk1 : canonicalMIMEHeaderKey headerSignatureInput = headerSignatureInput := by decide
    have hk2 : canonicalMIMEHeaderKey headerSignature = headerSignature := by decide
    -- the two maps agree under every key that folds to the name
    have hf : ((hd.set headerSignatureInput inputMember).set headerSignature sigMember).entries.filter
        (fun e => equalFold U e.1 p.name) = hd.entries.filter (fun e => equalFold U e.1 p.name) := by
      rw [Header.filter_set (p := fun k => equalFold U k p.name) (by rw [hk2]; exact hnames.2),
        Header.filter_set (p := fun k => equalFold U k p.name) (by rw [hk1]; exact hnames.1)]
    have hread : ∀ ord ord' : MapOrder,
        matchValues U ord' ((hd.set headerSignatureInput inputMember).set headerSignature sigMember)
          p.name = matchValues U ord hd p.name →
        componentValue U ord' (withMembers ctx inputMember sigMember) p =
          componentValue U ord ctx p := by
      intro ord ord' hm
      rw [hvalue, hvalue, deriveHTTPField, deriveHTTPField]
      simp only [htr, Bool.false_eq_true, if_false, withMembers, hheader, Option.getD_some, hm]
    constructor
    · intro ord
      obtain ⟨ord', hm⟩ := exists_order U hf ord
      exact ⟨ord', hread ord ord' hm⟩
    · intro ord'
      obtain ⟨ord, hm⟩ := exists_order U hf.symm ord'
      exact ⟨ord, hread ord ord' hm.symm⟩

end

/-! ## 2. The lines of the received message -/

/-- The line of an identifier that is read from its own text. -/
def Line.reread (l : Line) : Line := { l with comp := { l.comp with raw := l.comp.serialized } }

theorem Line.reread_text (l : Line) : l.reread.text = l.text := rfl

theorem componentValue_raw (ord : MapOrder) (ctx : RequestContext) (p : ParsedComponent) (r : Bytes) :
    componentValue U ord ctx { p with raw := r } = componentValue U ord ctx p := rfl

/-- Read in the order `ord`, the message gives the values of the lines. -/
def Carries (ctx : RequestContext) (ord : Nat → MapOrder) (ls : List Line) : Prop :=
  ∀ i l, ls[i]? = some l → componentValue U (ord i) ctx l.comp = .ok l.val

section
variable {ctx : RequestContext} {ord : Nat → MapOrder} {l : Line} {ls : List Line}
  (h : Carries U ctx ord (l :: ls))
include h

theorem Carries.head : componentValue U (ord 0) ctx l.comp = .ok l.val := h 0 l rfl

theorem Carries.tail : Carries U ctx (fun i => ord (i + 1)) ls :=
  fun i k hk => h (i + 1) k (by simpa using hk)

end

/-- A line of a signature base: what was read of its identifier is settled and ASCII. -/
def SettledLine (l : Line) : Prop :=
  ∃ raw qs, Recorded U raw qs l.comp ∧ Ascii l.comp.serialized

theorem SettledLine.form {l : Line} (h : SettledLine U l) : IdentifierForm l.comp.serialized := by
  obtain ⟨raw, qs, hrec, hascii⟩ := h
  refine ⟨?_, ?_, hascii⟩
  · rw [hrec.serialized]
    rfl
  · rw [hrec.serialized]
    exact solidEnds_identifierText hrec.settled

attribute [ext] Line

variable {ctx : RequestContext}

theorem Line.Reads.unique {ord : MapOrder} {c : Bytes} {l l' : Line}
    (h : l.Reads U ord ctx c) (h' : l'.Reads U ord ctx c) : l = l' := by
  obtain ⟨hp, hv⟩ := (reads_iff U).mp h
  obtain ⟨hp', hv'⟩ := (reads_iff U).mp h'
  have hcomp : l.comp = l'.comp := Except.ok.inj (hp.symm.trans hp')
  rw [hcomp, hv'] at hv
  exact Line.ext hcomp (Except.ok.inj hv).symm

theorem Reading.unique {ord : Nat → MapOrder} {comps : List Bytes}
    {ls ls' : List Line} (h : Reading U ctx ord comps ls) (h' : Reading U ctx ord comps ls') :
    ls = ls' := by
  induction h generalizing ls' with
  | nil =>
    cases h'
    rfl
  | cons hread _ ih =>
    cases h' with
    | cons hread' htail' => rw [ih htail', hread.unique U hread']

/-- **Identifiers without a quote in their names are read back, with their values.** -/
theorem reading_received {ctx : RequestContext} :
    ∀ {ls : List Line} {ord : Nat → MapOrder}, (∀ l ∈ ls, SettledLine U l) →
      (∀ l ∈ ls, dquote ∉ l.comp.name) → Carries U ctx ord ls →
      Reading U ctx ord (ls.map Line.id) (ls.map Line.reread)
  | [], _, _, _, _ => .nil
  | l :: ls, ord, hset, hquote, hcarry => by
    obtain ⟨raw, qs, hrec, -⟩ := hset l mem_cons_self
    refine .cons ((reads_iff U).mpr ⟨?_, ?_⟩) (reading_received
      (forall_mem_cons.mp hset).2
      (forall_mem_cons.mp hquote).2 (Carries.tail U hcarry))
    · exact parse_serialized U hrec (hquote l mem_cons_self)
    · exact (componentValue_raw U _ _ _ _).trans (Carries.head U hcarry)

theorem Line.text_colon (l : Line) :
    l.text = l.comp.serialized ++ colon :: (space :: l.val ++ [newline]) := by
  have hl : lit ": " = [colon, space] := by decide
  simp [Line.text, hl]

/-- **The identifiers come back as they were written, or the lines diverge.** -/
theorem chunks_cases {ctx : RequestContext} :
    ∀ {ls ls' : List Line} {ord : Nat → MapOrder}, (∀ l ∈ ls, SettledLine U l) →
      Carries U ctx ord ls →
      Reading U ctx ord (chunksOf (join [space] (ls.map Line.id))) ls' →
      ((∀ l ∈ ls, dquote ∉ l.comp.name ∧ rparen ∉ l.comp.serialized) ∧
        splitInnerList (join [space] (ls.map Line.id)) = ls.map Line.id ∧
        chunksOf (join [space] (ls.map Line.id)) = ls.map Line.id) ∨
      ∀ s t, Diverge (ls'.flatMap Line.text ++ s) (ls.flatMap Line.text ++ t)
  | [], _, _, _, _, _ => .inl ⟨by simp, rfl, rfl⟩
  | l :: ls, ls', ord, hset, hcarry, hread => by
    obtain ⟨raw, qs, hrec, hascii⟩ := hset l mem_cons_self
    have hform := SettledLine.form U (hset l mem_cons_self)
    have hforms : ∀ i ∈ ls.map Line.id, IdentifierForm i := by
      intro i hi
      obtain ⟨k, hk, rfl⟩ := mem_map.mp hi
      exact SettledLine.form U (hset k (mem_cons_of_mem _ hk))
    -- a first line with another identifier diverges at once
    have hwrong : ∀ {Y : Bytes} {more : List Bytes}, Reading U ctx ord (Y :: more) ls' →
        (WrongChunk l.comp.serialized Y ∨ Y = l.comp.serialized ∧ dquote ∈ l.comp.name) →
        ∀ s t, Diverge (ls'.flatMap Line.text ++ s) ((l :: ls).flatMap Line.text ++ t) := by
      intro Y more hY hcase s t
      cases hY with
      | @cons _ _ _ l' ls' hfirst _ =>
        obtain ⟨hp, -⟩ := hfirst
        have hdiv := diverge_of_wrongChunk U hrec hascii hcase hp
          (space :: l'.val ++ [newline] ++ ls'.flatMap Line.text ++ s)
          (space :: l.val ++ [newline] ++ ls.flatMap Line.text ++ t)
        simpa [Line.text_colon] using hdiv
    rw [map_cons] at hread ⊢
    rcases headChunk hform hforms with ⟨Y, more, hchunks, hY⟩ | ⟨hparen, hchunks, hsplit⟩
    · rw [hchunks] at hread
      exact .inr (hwrong hread (.inl hY))
    · rw [hchunks] at hread
      by_cases hquote : dquote ∈ l.comp.name
      · exact .inr (hwrong hread (.inr ⟨rfl, hquote⟩))
      · cases hread with
        | @cons _ _ _ l' ls' hfirst hrest =>
          have hl : l' = l.reread := by
            have hparse := parse_serialized U hrec hquote
            have hval := (componentValue_raw U _ _ _ l.comp.serialized).trans (Carries.head U hcarry)
            exact hfirst.unique U ((reads_iff U).mpr ⟨hparse, hval⟩)
          rcases chunks_cases (forall_mem_cons.mp hset).2
            (Carries.tail U hcarry) hrest with ⟨hgood, hs, hc⟩ | hdiv
          · refine .inl ⟨fun k hk => ?_, by rw [hsplit, hs], by rw [hchunks, hc]⟩
            rcases mem_cons.mp hk with rfl | hk
            · exact ⟨hquote, hparen⟩
            · exact hgood k hk
          · right
            intro s t
            have h := (hdiv s t).prepend l.text
            rw [hl]
            simpa [Line.reread_text] using h

/-! ## 3. The parameters of the received message -/

def ParamName.key (n : ParamName) : SfKey where
  val := n.name
  start := by cases n <;> exact ⟨_, rfl, by decide⟩
  chars := by cases n <;> decide +kernel

theorem valueText_set_string {n : ParamName} (hn : n ≠ .created ∧ n ≠ .expires)
    (p : SignatureParams) (v : Bytes) :
    n.valueText (n.set p v) = if v ≠ [] then some (dquote :: v ++ [dquote]) else none := by
  cases n with
  | created => exact absurd rfl hn.1
  | expires => exact absurd rfl hn.2
  | keyid | alg | nonce | tag => rfl

section
variable {p q : SignatureParams}

variable {n : ParamName} {v r : Bytes}

theorem readParam_written (hclean : NoSemicolon p)
    (hv : n.valueText p = some v) (acc : SignatureParams) :
    ∃ w, readParam U acc (n.body p) = n.set acc w ∧ n.valueText (n.set acc w) = some v := by
  have hbody : n.body p = n.key.val ++ equals :: v := by
    rw [ParamName.body, hv]
    rfl
  rcases ParamName.valueText_cases hclean hv with ⟨hn, k, h0, hk, rfl⟩ | ⟨hn, s, hne, -, rfl⟩
  · let m : SfInteger := ⟨false, decimal k, decimal_ne_nil _, fun b hb => isDigit_of_mem_decimal hb⟩
    have hfit : n.Fits (.int m) := by
      rcases hn with rfl | rfl
      · exact ⟨rfl, k, h0, hk, rfl⟩
      · exact ⟨rfl, k, h0, hk, rfl⟩
    refine ⟨decimal k, ?_, ParamName.valueText_set hfit acc⟩
    have h := readParam_body U acc ⟨n.key, .int m⟩
    rw [hbody, ← ParamName.setParam_name]
    exact h
  · refine ⟨s, ?_, by rw [valueText_set_string hn, if_pos hne]⟩
    rw [hbody, readParam_solid U acc n.key (solidEnds_quoted s), stripPair_wrapped,
      ← ParamName.setParam_name]
    rfl

theorem foldl_readParam_written (hclean : NoSemicolon p) {ns : List ParamName}
    (hns : ∀ n ∈ ns, (n.valueText p).isSome = true) (hnodup : ns.Nodup) (acc : SignatureParams)
    (n : ParamName) :
    n.valueText ((ns.map (fun n => n.body p)).foldl (readParam U) acc) =
      if n ∈ ns then n.valueText p else n.valueText acc := by
  induction ns generalizing acc with
  | nil => rfl
  | cons m ns ih =>
    obtain ⟨hfresh, hnodup⟩ := nodup_cons.mp hnodup
    obtain ⟨v, hv⟩ := Option.isSome_iff_exists.mp (hns m mem_cons_self)
    obtain ⟨w, hset, hval⟩ := readParam_written U hclean hv acc
    rw [map_cons, foldl_cons, hset, ih (forall_mem_cons.mp hns).2 hnodup]
    by_cases hn : n ∈ ns
    · rw [if_pos hn, if_pos (mem_cons_of_mem _ hn)]
    · rw [if_neg hn]
      by_cases hm : n = m
      · subst hm
        rw [if_pos mem_cons_self, hval, hv]
      · rw [if_neg (by rw [mem_cons, not_or]; exact ⟨hm, hn⟩), ParamName.valueText_set_of_ne hm]

theorem splitOn_paramsText (hclean : NoSemicolon p) :
    (paramsText p).splitOn semicolon = [] :: (ParamName.present p).map (fun n => n.body p) := by
  have h := splitOn_flatMap_cons semicolon (fun n => ParamName.body p n) [] (ParamName.present p)
  rw [nil_append, flatMap_splitOn_eq_map fun n hn => (ParamName.body_facts hclean hn).1,
    ← ParamName.paramsText_present] at h
  exact h

theorem paramsText_read (hclean : NoSemicolon p) (comps : List Bytes) :
    paramsText (((paramsText p).splitOn semicolon).foldl (readParam U) { components := comps }) =
      paramsText p := by
  have hnodup : (ParamName.present p).Nodup := List.Nodup.filter _ (by decide)
  have hsome : ∀ n ∈ ParamName.present p, (n.valueText p).isSome = true :=
    fun n hn => (mem_filter.mp hn).2
  have hnone : ∀ n : ParamName, n.valueText { components := comps } = none := by
    intro n
    cases n <;> rfl
  have hblank : ∀ params, readParam U params [] = params := fun _ => rfl
  rw [splitOn_paramsText hclean, foldl_cons, hblank, paramsText_eq, paramsText_eq]
  refine flatMap_congr fun n hn => ?_
  rw [ParamName.segment, ParamName.segment, foldl_readParam_written U hclean hsome hnodup, hnone]
  by_cases hm : n ∈ ParamName.present p
  · rw [if_pos hm]
  · have habsent : n.valueText p = none := by
      rw [← Option.not_isSome_iff_eq_none]
      exact fun hs => hm (mem_filter.mpr ⟨hn, hs⟩)
    rw [if_neg hm, habsent]

/-- **Without semicolons, the text tells the values.** -/
theorem valueText_of_paramsText (hp : NoSemicolon p) (hq : NoSemicolon q)
    (h : paramsText p = paramsText q) (hv : n.valueText q = some v) :
    n.valueText p = some v := by
  have hbodies : (ParamName.present p).map (fun n => n.body p) =
      (ParamName.present q).map (fun n => n.body q) := by
    have h1 := splitOn_paramsText hp
    rw [h, splitOn_paramsText hq] at h1
    exact (List.cons.inj h1).2.symm
  have horder : n ∈ ParamName.order := by cases n <;> decide
  have hmem : n.body q ∈ (ParamName.present p).map (fun n => n.body p) := by
    rw [hbodies]
    exact mem_map.mpr ⟨n, mem_filter.mpr ⟨horder, by rw [hv]; rfl⟩, rfl⟩
  obtain ⟨m, hm, hbody⟩ := mem_map.mp hmem
  obtain ⟨w, hw⟩ := Option.isSome_iff_exists.mp (mem_filter.mp hm).2
  -- both texts are cut at their `=`
  have hcut := cut_equals_key m.key w
  rw [show m.key.val ++ equals :: w = n.key.val ++ equals :: v by
    rw [ParamName.body, ParamName.body, hw, hv] at hbody
    exact hbody, cut_equals_key] at hcut
  obtain ⟨hname, rfl⟩ := Prod.mk.inj (Option.some.inj hcut)
  have hinj : ∀ a b : ParamName, a.name = b.name → a = b := by
    intro a b
    cases a <;> cases b <;> decide
  rw [hinj n m hname, hw]

theorem readParam_open (acc : SignatureParams) (k : SfKey) (x : Bytes) :
    readParam U acc (k.val ++ equals :: dquote :: x) =
      setParam acc k.val (stripPair dquote (dquote :: trimRightSpace x)) := by
  have hne : k.val ++ equals :: trimRightSpace (dquote :: x) ≠ [] := by simp
  rw [readParam]
  simp only [trimSpace_assignment, if_neg hne, cut_equals_key, k.solidEnds.trimSpace_eq, k.toLower_eq U,
    trimSpace_open]

theorem stripPair_cut {u u' : Bytes} {x : UInt8} (hx : x ≠ dquote) (hu : u' <+: u) :
    stripPair dquote (dquote :: u') ≠ u ++ x :: r := by
  intro h
  have hlen := hu.length_le
  rcases stripPair_cases dquote (dquote :: u') with hs | hs
  · have := congrArg List.length hs
    rw [h] at this
    simp only [length_append, length_cons, length_nil] at this
    omega
  · rw [hs] at h
    have hl := congrArg List.length h
    simp only [length_append, length_cons] at hl
    obtain rfl : u' = u := hu.eq_of_length (by omega)
    obtain rfl : r = [] := length_eq_zero_iff.mp (by omega)
    exact hx (eq_of_rotated h.symm)

/-- **Parameters that are cut short are not read back.**  The last part ends inside a string. -/
theorem cut_not_read_back (hclean : NoSemicolon p) {rest : Bytes} {x : UInt8}
    (hx : x = comma ∨ isSpace x = true) (hW : paramsText p = rest ++ x :: r) (comps : List Bytes) :
    paramsText (((trimSpace rest).splitOn semicolon).foldl (readParam U) { components := comps }) ≠
      paramsText p := by
  intro h
  have hfacts : ∀ c : UInt8, (c = comma ∨ isSpace c = true) → isKeyByte c = false ∧
      isDigit c = false ∧ c ≠ equals ∧ c ≠ dquote ∧ c ≠ semicolon := by decide +kernel
  obtain ⟨hkey, hdigit, heq, hquote, hsemi⟩ := hfacts x hx
  rw [ParamName.paramsText_present] at hW
  obtain ⟨ns₁, n, ns₂, z, rest', hpresent, rfl, hbody⟩ := exists_cut_body hsemi hW
  obtain ⟨v, hv⟩ := Option.isSome_iff_exists.mp (mem_filter.mp
    (show n ∈ ParamName.present p by rw [hpresent]; simp)).2
  have hmem : x ∈ n.name ++ equals :: v := by
    rw [ParamName.body, hv, Option.getD_some] at hbody
    rw [hbody]
    simp
  -- the cut is inside a string
  rcases ParamName.valueText_cases hclean hv with ⟨-, k, -, -, rfl⟩ | ⟨hn, s, -, hsclean, rfl⟩
  · rcases mem_append.mp hmem with hm | hm
    · exact n.name_not_mem hkey hm
    · rcases mem_cons.mp hm with hm | hm
      · exact heq hm
      · exact ParamName.not_mem_decimal hdigit k hm
  obtain ⟨u, r', rfl, hs⟩ : ∃ u r', z = (n.name ++ [equals, dquote]) ++ u ∧ s = u ++ x :: r' := by
    refine exists_cut_behind (d := dquote) (w := rest') ?_ hquote ?_
    · simp only [mem_append, mem_cons, not_mem_nil, or_false, not_or]
      exact ⟨n.name_not_mem hkey, heq, hquote⟩
    · rw [← hbody, ParamName.body, hv]
      simp
  -- what is read of it
  have hhead : ∀ b, (ns₁.flatMap (fun n => semicolon :: n.body p) ++
      semicolon :: (n.name ++ [equals])).head? = some b → isSolid b = true := by
    intro b hb
    have : some semicolon = some b := by cases ns₁ <;> exact hb
    cases this
    decide
  have htrim := trimSpace_append_cons hhead (by decide : isSolid dquote = true) u
  have hu₁ := trimRightSpace_initial u
  generalize trimRightSpace u = u₁ at htrim hu₁
  have htrim : trimSpace (ns₁.flatMap (fun n => semicolon :: n.body p) ++
      semicolon :: (n.name ++ [equals, dquote] ++ u)) =
      ns₁.flatMap (fun n => semicolon :: n.body p) ++
        semicolon :: (n.key.val ++ equals :: dquote :: u₁) := by
    simpa [ParamName.key] using htrim
  have hread : NoSemicolon (((trimSpace (ns₁.flatMap (fun n => semicolon :: n.body p) ++
      semicolon :: (n.name ++ [equals, dquote] ++ u))).splitOn semicolon).foldl (readParam U)
      { components := comps }) := noSemicolon_read U (fun _ hm => not_mem_of_mem_splitOn hm) comps
  have hvalue := valueText_of_paramsText hread hclean h hv
  have hwhole : semicolon ∉ n.key.val ++ equals :: dquote :: u₁ := by
    simp only [mem_append, mem_cons, not_or]
    refine ⟨n.key.not_mem (by decide), by decide, by decide, fun hm => hsclean ?_⟩
    rw [hs]
    exact mem_append_left _ (hu₁.subset hm)
  have hset := readParam_open U
    (((ns₁.flatMap (fun n => semicolon :: n.body p)).splitOn semicolon).foldl (readParam U)
      { components := comps }) n.key u₁
  rw [htrim, splitOn_append_cons_self, splitOn_eq_singleton hwhole, foldl_append,
    foldl_cons, foldl_nil, hset, ParamName.key, ParamName.setParam_name,
    valueText_set_string hn] at hvalue
  split at hvalue
  · have hstrip : stripPair dquote (dquote :: trimRightSpace u₁) = s :=
      (List.cons.inj (append_cancel_right (Option.some.inj hvalue))).2
    exact stripPair_cut hquote ((trimRightSpace_initial u₁).trans hu₁) (hstrip.trans hs)
  · cases hvalue

end

/-! ## 4. The round trip -/

/-- **The property.**  The members of a successful `Sign` are placed in the headers, `Verify` finds
the signature bytes and parameters that give the signed base again, in whatever order the header
maps are visited. -/
def RoundTrips (ord : Nat → MapOrder) (ctx : RequestContext) (cfg : SignConfig) (now : Time)
    (inputMember sigMember : Bytes) : Prop :=
  ∃ signer base sig params, cfg.signer = some signer ∧
    buildSignatureBase U ord ctx (signParams ctx cfg signer now) = .ok base ∧
    signer.sign base = .ok sig ∧
    readSignature U (withMembers ctx inputMember sigMember) cfg.labelOrDefault = .ok (params, sig) ∧
    ∀ ord', buildSignatureBase U ord' (withMembers ctx inputMember sigMember) params = .ok base

/-- Each of the splitters cuts the text where `Sign` joined it. -/
structure SplitsBack (label : Bytes) (comps : List Bytes) (params : SignatureParams) : Prop where
  quote : ∀ name ∈ comps.filterMap (nameOf U), dquote ∉ name
  paren : ∀ id ∈ comps.filterMap (identifierOf U), rparen ∉ id
  blank : splitInnerList (join [space] (comps.filterMap (identifierOf U))) =
    comps.filterMap (identifierOf U)
  semicolon : ∃ q, NoSemicolon q ∧ paramsText q = paramsText params
  comma : splitHeaderComma (label ++ equals ::
      memberText (join [space] (comps.filterMap (identifierOf U))) (paramsText params)) =
    [label ++ equals ::
      memberText (join [space] (comps.filterMap (identifierOf U))) (paramsText params)]

/-- No covered value depends on the order in which a header map is visited. -/
def OrderFree (ord : Nat → MapOrder) (ctx : RequestContext) (comps : List Bytes) : Prop :=
  ∀ i c, comps[i]? = some c → ∀ p, parseComponentIdentifier U c = .ok p →
    ∀ ord', componentValue U ord' ctx p = componentValue U (ord i) ctx p

/-- What `Sign` has read, signed and written. -/
structure Sent (ord : Nat → MapOrder) (ctx : RequestContext) (params : SignatureParams)
    (base : Bytes) (ls : List Line) : Prop where
  reading : Reading U ctx ord params.components ls
  nodup : (ls.map Line.id).Nodup
  base_eq : base = ls.flatMap Line.text ++ paramsLineHead ++
    memberText (join [space] (ls.map Line.id)) (paramsText params)
  ascii : Ascii base

variable {ctx : RequestContext} {ord : Nat → MapOrder} {params : SignatureParams}

theorem serialize_of_reading {ls : List Line} (h : Reading U ctx ord params.components ls) :
    serializeSignatureParams U params = .ok
      (memberText (join [space] (ls.map Line.id)) (paramsText params)) := by
  simp [serializeSignatureParams, serializedIdentifiers_of_reading U h, memberText, bind, Except.bind]

theorem sent_iff
    {base : Bytes} :
    buildSignatureBase U ord ctx params = .ok base ↔ ∃ ls, Sent U ord ctx params base ls := by
  rw [buildSignatureBase_ok_iff]
  constructor
  · rintro ⟨ls, text, hread, hnodup, ht, hbase, hascii⟩
    rw [serialize_of_reading U hread] at ht
    obtain rfl := Except.ok.inj ht
    exact ⟨ls, hread, hnodup, hbase, hascii⟩
  · rintro ⟨ls, hread, hnodup, hbase, hascii⟩
    exact ⟨ls, _, hread, hnodup, serialize_of_reading U hread, hbase, hascii⟩

section
variable {ctx : RequestContext} {ord : Nat → MapOrder} {comps : List Bytes} {ls : List Line}

section
variable (h : Reading U ctx ord comps ls)
include h

theorem Reading.line_at {i : Nat} {l : Line}
    (hl : ls[i]? = some l) : ∃ c, comps[i]? = some c ∧ l.Reads U (ord i) ctx c := by
  induction h generalizing i with
  | nil => cases hl
  | @cons ord c comps l' ls hread _ ih =>
    cases i with
    | zero =>
      obtain rfl := Option.some.inj hl
      exact ⟨c, rfl, hread⟩
    | succ i => exact ih (by simpa using hl)

theorem Reading.comp_at {i : Nat} {c : Bytes}
    (hc : comps[i]? = some c) : ∃ l, ls[i]? = some l ∧ l.Reads U (ord i) ctx c := by
  induction h generalizing i with
  | nil => cases hc
  | @cons ord c' comps l ls hread _ ih =>
    cases i with
    | zero =>
      obtain rfl := Option.some.inj hc
      exact ⟨l, rfl, hread⟩
    | succ i => exact ih (by simpa using hc)

theorem Reading.carries : Carries U ctx ord ls := by
  intro i l hl
  obtain ⟨c, -, hread⟩ := h.line_at U hl
  exact ((reads_iff U).mp hread).2

theorem Reading.filterMap_eq : comps.filterMap (identifierOf U) = ls.map Line.id ∧
      comps.filterMap (nameOf U) = ls.map (fun l => l.comp.name) := by
  induction h with
  | nil => exact ⟨rfl, rfl⟩
  | cons hread _ ih =>
    rw [filterMap_cons_some (identifierOf_ok U hread.1),
      filterMap_cons_some (nameOf_ok U hread.1), ih.1, ih.2]
    exact ⟨rfl, rfl⟩

end

theorem Sent.settled {params : SignatureParams} {base : Bytes}
    (h : Sent U ord ctx params base ls) : ∀ l ∈ ls, SettledLine U l := by
  intro l hl
  obtain ⟨i, hi, rfl⟩ := getElem_of_mem hl
  obtain ⟨c, -, hread⟩ := h.reading.line_at U (getElem?_eq_getElem hi)
  have hascii : Ascii ls[i].comp.serialized := by
    intro b hb
    refine h.ascii b ?_
    rw [h.base_eq, append_assoc]
    refine mem_append_left _ (mem_flatMap.mpr ⟨ls[i], hl, ?_⟩)
    rw [Line.text_colon]
    exact mem_append_left _ hb
  obtain ⟨qs, hrec⟩ := recorded_of_parse U hread.1 hascii
  exact ⟨c, qs, hrec, hascii⟩

variable {ctx' : RequestContext} {ord' : Nat → MapOrder} {params params' : SignatureParams}
  {base : Bytes} {ls' : List Line}

variable {X r₀ : Bytes}

theorem Sent.cut_text (h : Sent U ord ctx params base ls)
    (hX : memberText (join [space] (ls.map Line.id)) (paramsText params) =
      X ++ r₀) (hr₀ : ∀ b, r₀.head? = some b → b = comma) :
    X.head? = some lparen ∧ Ascii X := by
  constructor
  · cases X with
    | nil =>
      rw [nil_append] at hX
      exact absurd (hr₀ lparen (by rw [← hX]; rfl)) (by decide)
    | cons b X => rw [(List.cons.inj hX).1]; rfl
  · intro b hb
    refine h.ascii b ?_
    rw [h.base_eq, hX]
    exact mem_append_right _ (mem_append_left _ hb)

theorem exists_carries (h : Carries U ctx ord ls) (hsame : ∀ l ∈ ls, SameValues U ctx ctx' l.comp) :
    ∃ ord', Carries U ctx' ord' ls := by
  have hone : ∀ i : Nat, ∃ o, ∀ l : Line, ls[i]? = some l → componentValue U o ctx' l.comp = .ok l.val := by
    intro i
    cases hl : ls[i]? with
    | none => exact ⟨ord i, fun l hl => by cases hl⟩
    | some l =>
      obtain ⟨o, ho⟩ := (hsame l (mem_of_getElem? hl)).sent (ord i)
      refine ⟨o, fun k hk => ?_⟩
      obtain rfl := Option.some.inj hk
      rw [ho, h i l hl]
  choose ord' hord' using hone
  exact ⟨ord', hord'⟩

/-- **A rebuilt base shows where the text was cut.**  From the text `Sign` wrote, up to its end or
up to a comma, parameters are read that give the signed base in a message with the signed values. -/
theorem splits_of_rebuilt (hsent : Sent U ord ctx params base ls)
    (hcarry : Carries U ctx' ord' ls)
    (hX : memberText (join [space] (ls.map Line.id)) (paramsText params) =
      X ++ r₀) (hr₀ : ∀ b, r₀.head? = some b → b = comma)
    (hparse : parseSignatureParams U (trimSpace X) = .ok params')
    (hback : Sent U ord' ctx' params' base ls') :
    r₀ = [] ∧ (∀ l ∈ ls, dquote ∉ l.comp.name ∧ rparen ∉ l.comp.serialized) ∧
      splitInnerList (join [space] (ls.map Line.id)) = ls.map Line.id ∧
      NoSemicolon params' ∧ paramsText params' = paramsText params ∧
      params'.components = ls.map Line.id := by
  obtain ⟨hhead, hascii⟩ := hsent.cut_text U hX hr₀
  obtain ⟨y, hy, hblank⟩ := trimRightSpace_ascii hascii
  rw [← trimSpace_of_head fun b hb => by rw [hhead] at hb; cases hb; decide] at hy
  have hcutText : memberText (join [space] (ls.map Line.id))
      (paramsText params) = trimSpace X ++ (y ++ r₀) := by
    rw [hX, ← append_assoc, ← hy]
  obtain ⟨hcomps, hrest⟩ := parse_cut U (trimSpace_idem X) hcutText hparse
  have hread := hback.reading
  rw [hcomps] at hread
  have hbases := hsent.base_eq.symm.trans hback.base_eq
  rcases chunks_cases U (hsent.settled U) hcarry hread with ⟨hgood, hsplit, hchunks⟩ | hdiv
  · rw [hchunks] at hread hcomps
    have hlines : ls' = ls.map Line.reread :=
      hread.unique U (reading_received U (hsent.settled U) (fun l hl => (hgood l hl).1) hcarry)
    have hids : ls'.map Line.id = ls.map Line.id := by
      rw [hlines, map_map]
      rfl
    have htexts : ls'.flatMap Line.text = ls.flatMap Line.text := by
      rw [hlines, flatMap_map]
      rfl
    have hparams : paramsText params' = paramsText params := by
      rw [hids, htexts, memberText, memberText] at hbases
      have h := append_cancel_left hbases
      exact ((List.cons.inj (append_cancel_left h)).2).symm
    have hno : rparen ∉ join [space] (ls.map Line.id) := by
      rw [mem_join_iff (by decide)]
      rintro ⟨id, hid, hm⟩
      obtain ⟨l, hl, rfl⟩ := mem_map.mp hid
      exact (hgood l hl).2 hm
    obtain ⟨rest, hW, -, hfold⟩ := hrest hno
    have hclean : NoSemicolon params' := by
      rw [hfold]
      exact noSemicolon_read U (fun _ hm => not_mem_of_mem_splitOn hm) _
    refine ⟨?_, hgood, hsplit, hclean, hparams, hcomps⟩
    -- a text that is cut short would not give its own parameters
    cases hyr : y ++ r₀ with
    | nil => exact (append_eq_nil_iff.mp hyr).2
    | cons x r =>
      have hx : x = comma ∨ isSpace x = true := by
        cases y with
        | nil => exact .inl (hr₀ x (by rw [nil_append] at hyr; rw [hyr]; rfl))
        | cons c y =>
          obtain ⟨rfl, -⟩ := List.cons.inj hyr
          exact .inr (hblank c mem_cons_self)
      rw [← hparams, hyr] at hW
      exact absurd (by rw [← hfold]) (cut_not_read_back U hclean hx hW _)
  · rw [append_assoc, append_assoc] at hbases
    exact absurd hbases.symm (hdiv _ _).ne

theorem Reading.eq_of_text (h : Reading U ctx ord comps ls) (h' : Reading U ctx ord' comps ls') {i : Nat}
    (hord : ∀ j ≠ i, ord' j = ord j) {s : Bytes}
    (htext : ls'.flatMap Line.text ++ s = ls.flatMap Line.text ++ s) : ls' = ls := by
  have hlen : ls'.length = ls.length := h'.length_eq.trans h.length_eq.symm
  have hother : ∀ j ≠ i, ls'[j]? = ls[j]? := by
    intro j hj
    cases hk : ls[j]? with
    | none =>
      rw [getElem?_eq_none_iff] at hk ⊢
      rwa [hlen]
    | some k =>
      obtain ⟨d, hd, hread⟩ := h.line_at U hk
      obtain ⟨k', hk', hread'⟩ := h'.comp_at U hd
      rw [hord j hj] at hread'
      rw [hk', hread.unique U hread']
  refine ext_getElem? fun j => ?_
  by_cases hj : j = i
  · subst hj
    have htexts : (ls'.map Line.text)[j]? = (ls.map Line.text)[j]? := by
      rw [flatMap_def, flatMap_def] at htext
      refine eq_of_flatten_eq (by rw [length_map, length_map, hlen]) (fun k hk => ?_) htext
      rw [getElem?_map, hother k hk, getElem?_map]
    cases hl : ls[j]? with
    | none =>
      rw [getElem?_eq_none_iff] at hl ⊢
      rwa [hlen]
    | some l =>
      obtain ⟨c, hc, hread⟩ := h.line_at U hl
      obtain ⟨l', hl', hread'⟩ := h'.comp_at U hc
      have hcomp : l'.comp = l.comp := Except.ok.inj (hread'.1.symm.trans hread.1)
      rw [getElem?_map, getElem?_map, hl, hl'] at htexts
      have hline := Option.some.inj htexts
      rw [Line.text, Line.text, hcomp] at hline
      have hval : l'.val = l.val := append_cancel_left (append_cancel_right hline)
      rw [hl', Line.ext hcomp hval]
  · exact hother j hj

theorem orderFree_of_rebuilt (hsent : Sent U ord ctx params base ls)
    (hcarry : Carries U ctx' ord' ls) (hquote : ∀ l ∈ ls, dquote ∉ l.comp.name)
    (hcomps : params'.components = ls.map Line.id)
    (hparams : paramsText params' = paramsText params)
    (hreach : ∀ l ∈ ls, ∀ o, ∃ o', componentValue U o' ctx' l.comp = componentValue U o ctx l.comp)
    (hback : ∀ ord', ∃ ls', Sent U ord' ctx' params' base ls') :
    OrderFree U ord ctx params.components := by
  intro i c hc p hp o
  obtain ⟨l, hl, hread⟩ := hsent.reading.comp_at U hc
  obtain ⟨hlp, hval⟩ := (reads_iff U).mp hread
  obtain rfl : l.comp = p := Except.ok.inj (hlp.symm.trans hp)
  -- visit the header of this one component in the order `o`
  obtain ⟨o', ho'⟩ := hreach l (mem_of_getElem? hl) o
  obtain ⟨ls', hls'⟩ := hback (Function.update ord' i o')
  have hread' := hls'.reading
  rw [hcomps] at hread'
  have hagain := reading_received U (hsent.settled U) hquote hcarry
  have hids : ls'.map Line.id = ls.map Line.id := by
    rw [← (hread'.filterMap_eq U).1, (hagain.filterMap_eq U).1, map_map]
    rfl
  have hbases := hls'.base_eq.symm.trans hsent.base_eq
  rw [hids, hparams, append_assoc, append_assoc] at hbases
  -- so its line is the signed one
  have hlines : ls' = ls.map Line.reread := by
    refine hagain.eq_of_text U hread' (fun j hj => Function.update_of_ne hj _ _)
      (hbases.trans (congrArg (· ++ _) ?_))
    rw [flatMap_map]
    exact (flatMap_congr fun k _ => k.reread_text).symm
  have hl' : ls'[i]? = some l.reread := by
    rw [hlines, getElem?_map, hl]
    rfl
  obtain ⟨d, -, hlread'⟩ := hread'.line_at U hl'
  have hval' := ((reads_iff U).mp hlread').2
  rw [Function.update_self, Line.reread, componentValue_raw, ho'] at hval'
  rw [hval', hval]

theorem trimSpace_join : ∀ {ids : List Bytes}, (∀ id ∈ ids, SolidEnds id) →
    trimSpace (join [space] ids) = join [space] ids
  | [], _ => rfl
  | id :: ids, h => by
    suffices hends : ∀ {id : Bytes} {ids : List Bytes}, (∀ i ∈ id :: ids, SolidEnds i) →
        SolidEnds (join [space] (id :: ids)) from (hends h).trimSpace_eq
    intro id ids
    induction ids generalizing id with
    | nil =>
      intro h
      simpa [join] using h id mem_cons_self
    | cons b ids ih =>
      intro h
      have hstep : join [space] (id :: b :: ids) = id ++ [space] ++ join [space] (b :: ids) := by
        rw [join, join, intercalate_cons_cons]
      obtain ⟨⟨x, hx, hxs⟩, -⟩ := h id mem_cons_self
      obtain ⟨-, y, hy, hys⟩ := ih (forall_mem_cons.mp h).2
      rw [hstep]
      refine ⟨⟨x, ?_, hxs⟩, y, ?_, hys⟩
      · rw [append_assoc, head?_append, hx]
        rfl
      · rw [getLast?_append, hy]
        rfl

theorem trimSpace_paramsText {q : SignatureParams} (hclean : NoSemicolon q) :
    trimSpace (paramsText q) = paramsText q ∧
      ∀ inner, trimSpace (memberText inner (paramsText q)) = memberText inner (paramsText q) := by
  have hclose : SolidEnds [rparen] := ⟨⟨rparen, rfl, by decide⟩, rparen, rfl, by decide⟩
  have hmember : ∀ {W : Bytes}, SolidEnds ([rparen] ++ W) → ∀ inner,
      trimSpace (memberText inner W) = memberText inner W := by
    rintro W ⟨-, b, hb, hsolid⟩ inner
    refine SolidEnds.trimSpace_eq ⟨⟨lparen, rfl, by decide⟩, b, ?_, hsolid⟩
    rw [memberText, ← singleton_append (x := rparen), getLast?_append, hb]
    rfl
  have hbody : ∀ n ∈ ParamName.present q, SolidEnds (n.body q) := by
    intro n hn
    obtain ⟨v, hv⟩ := Option.isSome_iff_exists.mp (mem_filter.mp hn).2
    have hbody : n.body q = n.key.val ++ equals :: v := by
      rw [ParamName.body, hv]
      rfl
    rw [hbody]
    refine solidEnds_assignment n.key ?_
    rcases ParamName.valueText_cases hclean hv with ⟨-, k, -, -, rfl⟩ | ⟨-, t, -, -, rfl⟩
    · exact solidEnds_all (decimal_ne_nil k) fun b hb => isDigit_solid b (isDigit_of_mem_decimal hb)
    · exact solidEnds_quoted t
  rw [ParamName.paramsText_present]
  cases hps : ParamName.present q with
  | nil => exact ⟨rfl, hmember hclose⟩
  | cons n ns =>
    rw [hps] at hbody
    have hends := solidEnds_flatMap hbody
    exact ⟨hends.trimSpace_eq, hmember (hclose.append hends)⟩

/-- **A text that is cut where it was joined is read back.** -/
theorem rebuilt_of_splits {label : Bytes} (hsent : Sent U ord ctx params base ls)
    (h : SplitsBack U label params.components params) :
    ∃ params', parseSignatureParams U (memberText (join [space] (ls.map Line.id)) (paramsText params)) =
          .ok params' ∧
      trimSpace (memberText (join [space] (ls.map Line.id)) (paramsText params)) =
          memberText (join [space] (ls.map Line.id)) (paramsText params) ∧
      ∀ {ctx' : RequestContext} {ord' : Nat → MapOrder}, Carries U ctx' ord' ls →
        Sent U ord' ctx' params' base (ls.map Line.reread) := by
  obtain ⟨hquote, hparen, hblank, ⟨q, hclean, hq⟩, -⟩ := h
  rw [(hsent.reading.filterMap_eq U).1] at hparen hblank
  rw [(hsent.reading.filterMap_eq U).2] at hquote
  obtain ⟨hW, hmember⟩ := trimSpace_paramsText hclean
  rw [hq] at hW hmember
  have hno : rparen ∉ join [space] (ls.map Line.id) := by
    rw [mem_join_iff (by decide)]
    rintro ⟨id, hid, hm⟩
    exact hparen id hid hm
  have hchunks : chunksOf (join [space] (ls.map Line.id)) = ls.map Line.id := by
    rw [chunksOf, takeWhile_of_not_mem hno, trimSpace_join, hblank]
    intro id hid
    obtain ⟨l, hl, rfl⟩ := mem_map.mp hid
    exact (SettledLine.form U (hsent.settled U l hl)).ends
  refine ⟨_, parse_whole U (hmember _) hW hno, hmember _, fun {ctx'} {ord'} hcarry => ?_⟩
  have hread : Reading U ctx' ord' (ls.map Line.id) (ls.map Line.reread) :=
    reading_received U (hsent.settled U) (fun l hl => hquote _ (mem_map.mpr ⟨l, hl, rfl⟩)) hcarry
  have hids : (ls.map Line.reread).map Line.id = ls.map Line.id := by
    rw [map_map]
    rfl
  refine ⟨?_, by rw [hids]; exact hsent.nodup, ?_, hsent.ascii⟩
  · rw [foldl_readParam_components, hchunks]
    exact hread
  · rw [hids, ← hq, paramsText_read U hclean, hq, flatMap_map]
    exact hsent.base_eq

end

/-- **What the round trip needs.**  `Sign` succeeded and the label is a structured-field key.  No
covered component is one of the two headers that are written.  Then the signed base and the
signature bytes come back exactly when every splitter cuts the text where it was joined and no
covered value depends on an order. -/
theorem roundTrips_iff {ord : Nat → MapOrder} {ctx : RequestContext} {cfg : SignConfig}
    {now : Time} {signer : Signer} {label : SfKey} {inputMember sigMember : Bytes}
    (hsign : sign U ord ctx cfg now = .ok (inputMember, sigMember))
    (hsigner : cfg.signer = some signer) (hlabel : cfg.labelOrDefault = label.val)
    (hcover : ∀ c ∈ cfg.componentsFor ctx, ∀ p, parseComponentIdentifier U c = .ok p →
      ¬ ReadsMember U p) :
    RoundTrips U ord ctx cfg now inputMember sigMember ↔
      SplitsBack U label.val (cfg.componentsFor ctx) (signParams ctx cfg signer now) ∧
        OrderFree U ord ctx (cfg.componentsFor ctx) := by
  obtain ⟨signer', base, sig, text, hs, hbase, hsig, htext, hinput, hsigm⟩ := sign_ok U hsign
  obtain rfl : signer = signer' := Option.some.inj (hsigner.symm.trans hs)
  obtain ⟨ls, hsent⟩ := (sent_iff U).mp hbase
  rw [serialize_of_reading U hsent.reading] at htext
  obtain rfl := Except.ok.inj htext
  have hcolon : lit "=:" = [equals, colon] := by decide
  obtain rfl : inputMember = label.val ++ equals :: memberText
      (join [space] (ls.map Line.id))
      (paramsText (signParams ctx cfg signer now)) := by
    rw [hinput, hlabel, append_assoc]
    rfl
  obtain rfl : sigMember = label.val ++ equals :: signatureText sig := by
    rw [hsigm, hlabel, hcolon, signatureText]
    simp
  unfold RoundTrips
  set ctx' := withMembers ctx _ _
  have hsame : ∀ l ∈ ls, SameValues U ctx ctx' l.comp := by
    intro l hl
    obtain ⟨i, hi, rfl⟩ := getElem_of_mem hl
    obtain ⟨c, hc, hread⟩ := hsent.reading.line_at U (getElem?_eq_getElem hi)
    obtain ⟨hp, hv⟩ := (reads_iff U).mp hread
    exact componentValue_received U (hcover c (mem_of_getElem? hc) _ hp) ⟨_, _, hv⟩
  have hids : (cfg.componentsFor ctx).filterMap (identifierOf U) =
      ls.map Line.id := (hsent.reading.filterMap_eq U).1
  have hnames : (cfg.componentsFor ctx).filterMap (nameOf U) = ls.map (fun l => l.comp.name) :=
    (hsent.reading.filterMap_eq U).2
  constructor
  · rintro ⟨signer', base', sig', params', hs', hbase', hsig', hread, hback⟩
    obtain rfl : signer = signer' := Option.some.inj (hsigner.symm.trans hs')
    obtain rfl : base = base' := Except.ok.inj (hbase.symm.trans hbase')
    obtain ⟨ord', hcarry⟩ := exists_carries U (hsent.reading.carries U) hsame
    obtain ⟨X, r₀, more, hX, hr₀, hsplit, hwhole⟩ := splitHeaderComma_cut label _
    obtain ⟨hhead, -⟩ := hsent.cut_text U hX hr₀
    rw [hlabel] at hread
    obtain ⟨params₀, hparse, he⟩ := (readSignature_received U hsplit hhead).mp hread
    obtain ⟨rfl, -⟩ := Prod.mk.inj he
    have hback : ∀ ord', ∃ ls', Sent U ord' ctx' params₀ base ls' := by
      intro ord'
      obtain ⟨ls', h⟩ := (sent_iff U).mp (hback ord')
      exact ⟨ls', h.reading, h.nodup, h.base_eq, h.ascii⟩
    obtain ⟨ls', hls'⟩ := hback ord'
    obtain ⟨hr, hgood, hblank, hclean, hparams, hcomps⟩ :=
      splits_of_rebuilt U hsent hcarry hX hr₀ hparse hls'
    refine ⟨⟨?_, ?_, ?_, ⟨params₀, hclean, hparams⟩, ?_⟩,
      orderFree_of_rebuilt U hsent hcarry (fun l hl => (hgood l hl).1) hcomps hparams
        (fun l hl => (hsame l hl).sent) hback⟩
    · intro name hn
      rw [hnames] at hn
      obtain ⟨l, hl, rfl⟩ := mem_map.mp hn
      exact (hgood l hl).1
    · intro id hid
      rw [hids] at hid
      obtain ⟨l, hl, rfl⟩ := mem_map.mp hid
      exact (hgood l hl).2
    · rw [hids]
      exact hblank
    · rw [hids]
      exact hwhole hr
  · rintro ⟨hsplits, horder⟩
    obtain ⟨params₀, hparse, htrim, hrebuilt⟩ := rebuilt_of_splits U hsent hsplits
    have hsplit := hsplits.comma
    rw [hids] at hsplit
    obtain ⟨hhead, -⟩ := hsent.cut_text U (append_nil _).symm (by simp)
    refine ⟨signer, base, sig, { params₀ with label := label.val }, hsigner, hbase, hsig, ?_,
      fun ord' => (sent_iff U).mpr ?_⟩
    · rw [hlabel]
      exact (readSignature_received U hsplit hhead).mpr ⟨params₀, by rw [htrim, hparse], rfl⟩
    · have hcarry : Carries U ctx' ord' ls := by
        intro i l hl
        obtain ⟨c, hc, hread⟩ := hsent.reading.line_at U hl
        obtain ⟨hp, hv⟩ := (reads_iff U).mp hread
        obtain ⟨o, ho⟩ := (hsame l (mem_of_getElem? hl)).received (ord' i)
        rw [ho, horder i c hc l.comp hp o, hv]
      have h := hrebuilt hcarry
      exact ⟨_, h.reading, h.nodup, h.base_eq, h.ascii⟩

namespace Example

theorem orderMessage_nodup : ([(lit "X-Tag", [lit "v"])].map Prod.fst).Nodup := by decide

def orderMessage : RequestContext :=
  { method := lit "POST", header := some ⟨[(lit "X-Tag", [lit "v"])], orderMessage_nodup⟩ }

def keyedConfig (keyID : String) : SignConfig :=
  { signer := some (.transparent (lit keyID)), components := [compMethod, lit "x-tag"],
    created := Time.unix 1618884473 }

def sigLabel : SfKey := ⟨lit "sig1", ⟨0x73, rfl, by decide⟩, by decide +kernel⟩

def inputText (keyID : String) : Bytes :=
  lit "sig1=(\"@method\" \"x-tag\");created=1618884473;keyid=\"" ++ lit keyID ++
    lit "\";alg=\"hmac-sha256\""

def sigText (keyID : String) : Bytes :=
  (((sign .ascii (fun _ => .listed) orderMessage (keyedConfig keyID) (Time.unix 0)).toOption.map
    Prod.snd)).getD []

theorem orderMessage_free (ord ord' : MapOrder) (p : ParsedComponent) :
    componentValue .ascii ord' orderMessage p = componentValue .ascii ord orderMessage p := by
  have hvisit : ∀ o : MapOrder, o.visit ⟨[(lit "X-Tag", [lit "v"])], by decide⟩ =
      [(lit "X-Tag", [lit "v"])] := fun o => perm_singleton.mp (o.perm _)
  cases hr : p.req with
  | true => simp [componentValue, targetContext, hr, orderMessage, bind, Except.bind]
  | false =>
    cases htr : p.tr with
    | true => simp [componentValue, targetContext, hr, deriveComponentValue, deriveHTTPField, htr,
        orderMessage, bind, Except.bind]
    | false => simp [componentValue, targetContext, hr, deriveComponentValue, deriveHTTPField, htr,
        orderMessage, matchValues, hvisit, bind, Except.bind]

end Example

open Example in
/-- The key id `a;b` is printable and signed, and read back as `"a`. -/
theorem roundTrips_semicolon :
    sign .ascii (fun _ => .listed) orderMessage (keyedConfig "a;b") (Time.unix 0) =
        .ok (inputText "a;b", sigText "a;b") ∧
      (∀ b ∈ lit "a;b", isUnescaped b = true) ∧
      ¬ RoundTrips .ascii (fun _ => .listed) orderMessage (keyedConfig "a;b") (Time.unix 0)
        (inputText "a;b") (sigText "a;b") := by
  refine ⟨by decide +kernel, by decide +kernel, ?_⟩
  rintro ⟨signer, base, sig, params, hsigner, hbase, -, hread, hback⟩
  obtain rfl := Option.some.inj hsigner
  have hne : ((readSignature .ascii (withMembers orderMessage (inputText "a;b") (sigText "a;b"))
        (keyedConfig "a;b").labelOrDefault).toOption.bind fun r =>
          (buildSignatureBase .ascii (fun _ => .listed)
            (withMembers orderMessage (inputText "a;b") (sigText "a;b")) r.1).toOption) ≠
      (buildSignatureBase .ascii (fun _ => .listed) orderMessage (signParams orderMessage
        (keyedConfig "a;b") (.transparent (lit "a;b")) (Time.unix 0))).toOption := by decide +kernel
  refine hne ?_
  rw [hread, hbase]
  exact congrArg Except.toOption (hback fun _ => .listed)

open Example in
theorem roundTrips_plain :
    RoundTrips .ascii (fun _ => .listed) orderMessage (keyedConfig "a, b") (Time.unix 0)
      (inputText "a, b") (sigText "a, b") := by
  have hsign : sign .ascii (fun _ => .listed) orderMessage (keyedConfig "a, b") (Time.unix 0) =
      .ok (inputText "a, b", sigText "a, b") := by decide +kernel
  have hlabel : (keyedConfig "a, b").labelOrDefault = sigLabel.val := by decide
  refine (roundTrips_iff .ascii hsign rfl hlabel ?_).mpr ⟨⟨?_, ?_, ?_, ?_, ?_⟩, ?_⟩
  · have hnames : ∀ c ∈ [compMethod, lit "x-tag"], nameOf .ascii c = some c := by decide
    have hfold : ∀ name ∈ [compMethod, lit "x-tag"],
        equalFold .ascii headerSignatureInput name = false ∧
          equalFold .ascii headerSignature name = false := by decide
    rintro c hc p hp ⟨-, -, -, hmember⟩
    have hname := hnames c hc
    rw [nameOf_ok .ascii hp] at hname
    obtain ⟨h1, h2⟩ := hfold c hc
    rw [Option.some.inj hname, h1, h2] at hmember
    simp at hmember
  · decide
  · decide
  · decide
  · exact ⟨_, by decide, rfl⟩
  · decide +kernel
  · intro i c _ p _ ord'
    exact orderMessage_free _ _ p

end AoniContrib.HttpSig
