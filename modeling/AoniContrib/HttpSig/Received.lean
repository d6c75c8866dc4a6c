/-
# What is verified and what was received

`Verify` does not copy the received `Signature-Input` member into the base: it serialises the
parsed parameters again, in a fixed order and under six names.  `serialize_parsed_iff` says for
which members this gives the received text back: identifiers as `Inner.lean` calls them plain and
without a conflict, and parameters among the six, in the fixed order, each at most once, with
values that are printed as they were written.
-/
import AoniContrib.HttpSig.Inner

namespace AoniContrib.HttpSig

open Go Data List

variable {ps : List Param} {m : Member} {p : SignatureParams}

variable (U : Unicode)

/-! ## 1. The six parameters -/

/-- The parameters that `SignatureParams` has a field for. -/
inductive ParamName where
  | created
  | expires
  | keyid
  | alg
  | nonce
  | tag
  deriving DecidableEq, Repr

variable {n : ParamName}

namespace ParamName

def name : ParamName → Bytes
  | created => lit "created"
  | expires => lit "expires"
  | keyid => lit "keyid"
  | alg => lit "alg"
  | nonce => lit "nonce"
  | tag => lit "tag"

def order : List ParamName := [created, expires, keyid, alg, nonce, tag]

/-- The value written for a parameter, if it is written. -/
def valueText (p : SignatureParams) : ParamName → Option Bytes
  | created => if 0 < p.created then some (formatInt p.created) else none
  | expires => if 0 < p.expires then some (formatInt p.expires) else none
  | keyid => if p.keyID ≠ [] then some (dquote :: p.keyID ++ [dquote]) else none
  | alg => if p.alg ≠ [] then some (dquote :: p.alg ++ [dquote]) else none
  | nonce => if p.nonce ≠ [] then some (dquote :: p.nonce ++ [dquote]) else none
  | tag => if p.tag ≠ [] then some (dquote :: p.tag ++ [dquote]) else none

/-- The text written for a parameter, empty when it is absent. -/
def segment (p : SignatureParams) (n : ParamName) : Bytes :=
  match n.valueText p with
  | none => []
  | some v => semicolon :: (n.name ++ equals :: v)

/-- The values that are printed as they were written. -/
def Fits : ParamName → Value → Prop
  | created, .int n | expires, .int n =>
    n.neg = false ∧ ∃ k, 0 < k ∧ k < 2 ^ 63 ∧ n.digits = decimal k
  | created, .str _ | expires, .str _ => False
  | _, .str s => s.val ≠ [] ∧ semicolon ∉ s.val
  | _, .int _ => False

end ParamName

/-- The parameters are some of the six, in order, with values that fit. -/
def CanonicalParams (ps : List Param) : Prop :=
  ∃ ns : List ParamName, ns.Sublist ParamName.order ∧
    List.Forall₂ (fun n q => q.key.val = n.name ∧ n.Fits q.value) ns ps

theorem paramsText_eq (p : SignatureParams) :
    paramsText p = ParamName.order.flatMap (ParamName.segment p) := by
  have hint : ∀ (n : ParamName) (name : String) (x : Int64),
      lit name = semicolon :: (n.name ++ [equals]) →
      n.valueText p = (if 0 < x then some (formatInt x) else none) →
      intParam name x = n.segment p := by
    intro n name x hname hval
    rw [ParamName.segment, hval, intParam, hname]
    split <;> simp
  have hstr : ∀ (n : ParamName) (name : String) (x : Bytes),
      lit name = semicolon :: (n.name ++ [equals, dquote]) →
      n.valueText p = (if x ≠ [] then some (dquote :: x ++ [dquote]) else none) →
      stringParam name x = n.segment p := by
    intro n name x hname hval
    rw [ParamName.segment, hval, stringParam, hname]
    split <;> simp
  rw [paramsText, hint .created _ _ (by decide) rfl, hint .expires _ _ (by decide) rfl,
    hstr .keyid _ _ (by decide) rfl, hstr .alg _ _ (by decide) rfl,
    hstr .nonce _ _ (by decide) rfl, hstr .tag _ _ (by decide) rfl]
  simp [ParamName.order]

/-! ## 2. Reading a parameter -/

theorem readParam_solid (params : SignatureParams) (k : SfKey) {v : Bytes} (hv : SolidEnds v) :
    readParam U params (k.val ++ equals :: v) = setParam params k.val (stripPair dquote v) := by
  have hne : k.val ++ equals :: v ≠ [] := by simp
  rw [readParam]
  simp only [(solidEnds_assignment k hv).trimSpace_eq, if_neg hne, cut_equals_key,
    k.solidEnds.trimSpace_eq, k.toLower_eq U, hv.trimSpace_eq]

theorem readParam_body (params : SignatureParams) (q : Param) :
    readParam U params q.body = setParam params q.key.val q.value.content := by
  rw [Param.body, readParam_solid U params q.key q.value.solidEnds, stripPair_text]

namespace ParamName

def set (p : SignatureParams) : ParamName → Bytes → SignatureParams
  | created, v => match parseInt v with
    | (c, none) => { p with created := c }
    | _ => p
  | expires, v => match parseInt v with
    | (e, none) => { p with expires := e }
    | _ => p
  | keyid, v => { p with keyID := v }
  | alg, v => { p with alg := v }
  | nonce, v => { p with nonce := v }
  | tag, v => { p with tag := v }

theorem setParam_name (p : SignatureParams) (n : ParamName) (v : Bytes) :
    setParam p n.name v = n.set p v := by
  cases n <;> rfl

theorem valueText_set {v : Value} (h : n.Fits v) (p : SignatureParams) :
    n.valueText (n.set p v.content) = some v.text := by
  have hint : ∀ {m : SfInteger}, m.neg = false → ∀ {k : Nat}, 0 < k → k < 2 ^ 63 →
      m.digits = decimal k → parseInt m.text = (Int64.ofInt k, none) ∧
        (if 0 < Int64.ofInt k then some (formatInt (Int64.ofInt k)) else none) = some m.text := by
    intro m hneg k h0 hk hd
    have ht : m.text = decimal k := by rw [SfInteger.text, hneg, hd]; rfl
    rw [ht, formatInt_ofInt hk, if_pos (ofInt_pos h0 hk)]
    exact ⟨parseInt_decimal (by omega) hk, rfl⟩
  match n, v, h with
  | .created, .int m, ⟨hneg, k, h0, hk, hd⟩ =>
    obtain ⟨hp, hv⟩ := hint hneg h0 hk hd
    simp only [set, Value.content, hp]
    exact hv
  | .expires, .int m, ⟨hneg, k, h0, hk, hd⟩ =>
    obtain ⟨hp, hv⟩ := hint hneg h0 hk hd
    simp only [set, Value.content, hp]
    exact hv
  | .keyid, .str s, ⟨hne, _⟩ => exact if_pos hne
  | .alg, .str s, ⟨hne, _⟩ => exact if_pos hne
  | .nonce, .str s, ⟨hne, _⟩ => exact if_pos hne
  | .tag, .str s, ⟨hne, _⟩ => exact if_pos hne

theorem valueText_set_of_ne {n' : ParamName} (h : n' ≠ n) (p : SignatureParams) (v : Bytes) :
    n'.valueText (n.set p v) = n'.valueText p := by
  cases n with
  | created | expires => cases n' <;> first | exact absurd rfl h | (simp only [set]; split <;> rfl)
  | keyid | alg | nonce | tag => cases n' <;> first | exact absurd rfl h | rfl

theorem Fits.semicolon_not_mem : ∀ {n : ParamName} {v : Value}, n.Fits v → semicolon ∉ v.text := by
  have hstr : ∀ {s : SfString}, semicolon ∉ s.val → semicolon ∉ dquote :: s.val ++ [dquote] := by
    intro s h
    simpa using h
  intro n v h
  match v with
  | .int m => exact m.not_mem_text (by decide) (by decide)
  | .str s =>
    match n, h with
    | .keyid, h => exact hstr h.2
    | .alg, h => exact hstr h.2
    | .nonce, h => exact hstr h.2
    | .tag, h => exact hstr h.2

end ParamName

/-! ## 3. Canonical parameters are written back -/

theorem foldl_readParam_canonical {ns : List ParamName}
    (h : List.Forall₂ (fun n q => q.key.val = n.name ∧ n.Fits q.value) ns ps) (hnodup : ns.Nodup)
    (p₀ : SignatureParams) :
    (∀ n ∉ ns, n.valueText ((ps.map Param.body).foldl (readParam U) p₀) = n.valueText p₀) ∧
      List.Forall₂ (fun n q => n.segment ((ps.map Param.body).foldl (readParam U) p₀) =
        semicolon :: q.body) ns ps := by
  induction h generalizing p₀ with
  | nil => exact ⟨fun _ _ => rfl, .nil⟩
  | @cons n q ns ps hq hrest ih =>
    obtain ⟨hfresh, hnodup⟩ := nodup_cons.mp hnodup
    obtain ⟨hother, hthese⟩ := ih hnodup (n.set p₀ q.value.content)
    have hstep : readParam U p₀ q.body = n.set p₀ q.value.content := by
      rw [readParam_body, hq.1, ParamName.setParam_name]
    rw [map_cons, foldl_cons, hstep]
    refine ⟨fun n' hn' => ?_, .cons ?_ hthese⟩
    · rw [mem_cons, not_or] at hn'
      rw [hother n' hn'.2, ParamName.valueText_set_of_ne hn'.1]
    · rw [ParamName.segment, hother n hfresh, ParamName.valueText_set hq.2, Param.body, hq.1]

/-- **Canonical parameters are serialised as they were received.** -/
theorem paramsText_canonical (h : CanonicalParams ps) (comps : List Bytes) :
    paramsText ((ps.flatMap (fun q => q.body.splitOn semicolon)).foldl (readParam U)
      { components := comps }) = ps.flatMap (fun q => semicolon :: q.body) := by
  obtain ⟨ns, hsub, hall⟩ := h
  have hno : ∀ q ∈ ps, semicolon ∉ q.body := by
    intro q hq
    obtain ⟨i, hi, rfl⟩ := getElem_of_mem hq
    have hfit := hall.get (by rw [hall.length_eq]; exact hi) hi
    exact not_mem_assignment (by decide) (by decide) hfit.2.semicolon_not_mem
  have horder : ParamName.order.Nodup := by decide
  have habsent : ∀ n : ParamName, n.valueText { components := comps } = none := by
    intro n
    cases n <;> rfl
  obtain ⟨hother, hthese⟩ :=
    foldl_readParam_canonical U hall (hsub.nodup horder) { components := comps }
  rw [flatMap_splitOn_eq_map hno, paramsText_eq, flatMap_of_sublist hsub horder fun n _ hn => ?_]
  · exact flatMap_congr_forall₂ hthese fun _ _ h => h
  · rw [ParamName.segment, hother n hn, habsent]

/-! ## 4. Only canonical parameters are -/

def NoSemicolon (p : SignatureParams) : Prop :=
  semicolon ∉ p.keyID ∧ semicolon ∉ p.alg ∧ semicolon ∉ p.nonce ∧ semicolon ∉ p.tag

instance (p : SignatureParams) : Decidable (NoSemicolon p) :=
  inferInstanceAs (Decidable (_ ∧ _ ∧ _ ∧ _))

theorem NoSemicolon.readParam {p : SignatureParams} (h : NoSemicolon p) {part : Bytes}
    (hpart : semicolon ∉ part) : NoSemicolon (readParam U p part) := by
  have hset : ∀ k {v : Bytes}, semicolon ∉ v → NoSemicolon (setParam p k v) := by
    intro k v hv
    obtain ⟨h1, h2, h3, h4⟩ := h
    unfold setParam
    split_ifs
    · split <;> exact ⟨h1, h2, h3, h4⟩
    · split <;> exact ⟨h1, h2, h3, h4⟩
    · exact ⟨hv, h2, h3, h4⟩
    · exact ⟨h1, hv, h3, h4⟩
    · exact ⟨h1, h2, hv, h4⟩
    · exact ⟨h1, h2, h3, hv⟩
    · exact ⟨h1, h2, h3, h4⟩
  unfold HttpSig.readParam
  simp only
  split
  · exact h
  · split
    · exact h
    · rename_i k v hcut
      refine hset _ fun hm => hpart ?_
      have hv : semicolon ∈ v := trimSpace_subset v (stripPair_subset dquote _ hm)
      refine trimSpace_subset part ?_
      rw [(cut_eq_some hcut).1]
      exact mem_append_right _ (mem_cons_of_mem _ hv)

theorem NoSemicolon.foldl {parts : List Bytes} (hparts : ∀ part ∈ parts, semicolon ∉ part)
    {p : SignatureParams} (h : NoSemicolon p) :
    NoSemicolon (parts.foldl (HttpSig.readParam U) p) := by
  induction parts generalizing p with
  | nil => exact h
  | cons part parts ih =>
    rw [foldl_cons]
    exact ih (forall_mem_cons.mp hparts).2 (h.readParam U (hparts part mem_cons_self))

namespace ParamName

theorem valueText_cases (hclean : NoSemicolon p) {v : Bytes}
    (h : n.valueText p = some v) :
    ((n = created ∨ n = expires) ∧ ∃ k, 0 < k ∧ k < 2 ^ 63 ∧ v = decimal k) ∨
      ((n ≠ created ∧ n ≠ expires) ∧
        ∃ s : Bytes, s ≠ [] ∧ semicolon ∉ s ∧ v = dquote :: s ++ [dquote]) := by
  have hint : ∀ {x : Int64}, (if 0 < x then some (formatInt x) else none) = some v →
      ∃ k, 0 < k ∧ k < 2 ^ 63 ∧ v = decimal k := by
    intro x hx
    split at hx
    · rename_i hpos
      obtain ⟨hf, h0, hk⟩ := formatInt_pos hpos
      exact ⟨_, h0, hk, by rw [← Option.some.inj hx, hf]⟩
    · cases hx
  have hstr : ∀ {x : Bytes}, semicolon ∉ x →
      (if x ≠ [] then some (dquote :: x ++ [dquote]) else none) = some v →
      ∃ s : Bytes, s ≠ [] ∧ semicolon ∉ s ∧ v = dquote :: s ++ [dquote] := by
    intro x hsemi hx
    split at hx
    · rename_i hne
      exact ⟨x, hne, hsemi, (Option.some.inj hx).symm⟩
    · cases hx
  obtain ⟨h1, h2, h3, h4⟩ := hclean
  cases n with
  | created => exact .inl ⟨.inl rfl, hint h⟩
  | expires => exact .inl ⟨.inr rfl, hint h⟩
  | keyid => exact .inr ⟨by decide, hstr h1 h⟩
  | alg => exact .inr ⟨by decide, hstr h2 h⟩
  | nonce => exact .inr ⟨by decide, hstr h3 h⟩
  | tag => exact .inr ⟨by decide, hstr h4 h⟩

theorem not_mem_decimal {x : UInt8} (hx : isDigit x = false) (k : Nat) : x ∉ decimal k := by
  intro h
  rw [isDigit_of_mem_decimal h] at hx
  cases hx

theorem fits_of_valueText (hclean : NoSemicolon p) {q : Value}
    (h : n.valueText p = some q.text) : n.Fits q := by
  rcases valueText_cases hclean h with ⟨hn, k, h0, hk, ht⟩ | ⟨hn, s, hne, hsemi, ht⟩
  · have hfit : ∃ m, q = .int m ∧ m.neg = false ∧ m.digits = decimal k := by
      match q, ht with
      | .str s, ht =>
        have hq : dquote ∈ decimal k := by
          rw [← ht]
          exact mem_cons_self
        exact absurd hq (not_mem_decimal (by decide) k)
      | .int m, ht =>
        refine ⟨m, rfl, ?_⟩
        have ht : m.text = decimal k := ht
        unfold SfInteger.text at ht
        split at ht
        · have hm : minus ∈ decimal k := by
            rw [← ht]
            exact mem_cons_self
          exact absurd hm (not_mem_decimal (by decide) k)
        · rename_i hneg
          exact ⟨by simpa using hneg, ht⟩
    obtain ⟨m, rfl, hneg, hd⟩ := hfit
    rcases hn with rfl | rfl
    · exact ⟨hneg, k, h0, hk, hd⟩
    · exact ⟨hneg, k, h0, hk, hd⟩
  · have hfit : ∃ t : SfString, q = .str t ∧ t.val = s := by
      match q, ht with
      | .int m, ht =>
        have hq : dquote ∈ m.text := by
          change m.text = _ at ht
          rw [ht]
          exact mem_cons_self
        exact absurd hq (m.not_mem_text (by decide) (by decide))
      | .str t, ht =>
        refine ⟨t, rfl, ?_⟩
        have ht : dquote :: t.val ++ [dquote] = dquote :: s ++ [dquote] := ht
        exact (List.cons.inj (append_cancel_right ht)).2
    obtain ⟨t, rfl, rfl⟩ := hfit
    cases n with
    | created => exact absurd rfl hn.1
    | expires => exact absurd rfl hn.2
    | keyid | alg | nonce | tag => exact ⟨hne, hsemi⟩

/-- The text written for a present parameter, without its semicolon. -/
def body (p : SignatureParams) (n : ParamName) : Bytes := n.name ++ equals :: (n.valueText p).getD []

def present (p : SignatureParams) : List ParamName := order.filter (fun n => (n.valueText p).isSome)

theorem paramsText_present (p : SignatureParams) :
    paramsText p = (present p).flatMap (fun n => semicolon :: n.body p) := by
  have hsub : (present p).Sublist order := filter_sublist
  rw [paramsText_eq, flatMap_of_sublist hsub (by decide) fun n hn hno => ?_]
  · refine flatMap_congr fun n hn => ?_
    obtain ⟨v, hv⟩ := Option.isSome_iff_exists.mp (mem_filter.mp hn).2
    simp [segment, body, hv]
  · have hnone : n.valueText p = none := by
      rw [← Option.not_isSome_iff_eq_none]
      exact fun hs => hno (mem_filter.mpr ⟨hn, hs⟩)
    rw [segment, hnone]

theorem name_not_mem (n : ParamName) {x : UInt8} (hx : isKeyByte x = false) : x ∉ n.name := by
  have hall : ∀ n : ParamName, ∀ b ∈ n.name, isKeyByte b = true := by
    intro n
    cases n <;> decide +kernel
  intro h
  rw [hall n x h] at hx
  cases hx

theorem body_facts (hclean : NoSemicolon p)
    (h : n ∈ present p) :
    semicolon ∉ n.body p ∧ ((n.body p).count dquote = 0 ∨ 2 ≤ (n.body p).count dquote) := by
  obtain ⟨v, hv⟩ := Option.isSome_iff_exists.mp (mem_filter.mp h).2
  have hname : n.name.count dquote = 0 := count_eq_zero.mpr (n.name_not_mem (by decide))
  have hsemi : semicolon ∉ v → semicolon ∉ n.body p := by
    intro hs
    rw [body, hv, Option.getD_some, mem_append, mem_cons, not_or, not_or]
    exact ⟨n.name_not_mem (by decide), by decide, hs⟩
  have hcount : (n.body p).count dquote = v.count dquote := by
    rw [body, hv, Option.getD_some, count_append, hname, count_cons_of_ne (by decide)]
    omega
  rw [hcount]
  rcases valueText_cases hclean hv with ⟨-, k, -, -, rfl⟩ | ⟨-, s, -, hs, rfl⟩
  · exact ⟨hsemi (not_mem_decimal (by decide) k), .inl (count_eq_zero.mpr
      (not_mem_decimal (by decide) k))⟩
  · refine ⟨hsemi (by simpa using hs), .inr ?_⟩
    rw [count_append, count_cons_self, count_singleton_self]
    omega

end ParamName

theorem count_quote_of_semicolon {q : Param} (h : semicolon ∈ q.body) :
    (q.body.takeWhile (fun b => b ≠ semicolon)).count dquote = 1 := by
  have hno : semicolon ∉ q.key.val ++ [equals, dquote] :=
    not_mem_assignment (by decide) (by decide) (by decide)
  have hkey : q.key.val.count dquote = 0 := count_eq_zero.mpr (q.key.not_mem (by decide))
  cases hv : q.value with
  | int n =>
    refine absurd h ?_
    rw [Param.body, hv]
    exact not_mem_assignment (by decide) (by decide) (n.not_mem_text (by decide) (by decide))
  | str s =>
    have hbody : q.body = (q.key.val ++ [equals, dquote]) ++ (s.val ++ [dquote]) := by
      simp [Param.body, hv, Value.text]
    have hs : semicolon ∈ s.val := by
      rw [hbody] at h
      rcases mem_append.mp h with h | h
      · exact absurd h hno
      · rcases mem_append.mp h with h | h
        · exact h
        · exact absurd (mem_singleton.mp h) (by decide)
    have hzero : (s.val.takeWhile (fun b => b ≠ semicolon)).count dquote = 0 :=
      count_eq_zero.mpr fun hm =>
        s.not_mem (x := dquote) (by decide) ((takeWhile_sublist _).subset hm)
    have htake : (s.val ++ [dquote]).takeWhile (fun b => b ≠ semicolon) =
        s.val.takeWhile (fun b => b ≠ semicolon) :=
      takeWhile_append_of_mem (x := semicolon) (by simp) hs [dquote]
    rw [hbody, takeWhile_append_of_not_mem hno, htake, count_append, hzero, count_append, hkey]
    decide

/-- **The text tells the parameters apart.**  Split at its semicolons, a text that is written for
`p` gives the parts of `p`; a string that is cut there leaves a part with one quote, which no
written part has. -/
theorem params_of_paramsText (hclean : NoSemicolon p)
    (h : paramsText p = ps.flatMap (fun q => semicolon :: q.body)) :
    List.Forall₂ (fun n q => q.key.val = n.name ∧ n.valueText p = some q.value.text)
      (ParamName.present p) ps := by
  have hbodies : ∀ n ∈ ParamName.present p, semicolon ∉ n.body p :=
    fun n hn => (ParamName.body_facts hclean hn).1
  -- the parts of the two texts
  have hsplit : ps.flatMap (fun q => q.body.splitOn semicolon) =
      (ParamName.present p).map (fun n => n.body p) := by
    have hl := splitOn_flatMap_cons semicolon Param.body [] ps
    have hr := splitOn_flatMap_cons semicolon (fun n => ParamName.body p n) [] (ParamName.present p)
    rw [nil_append] at hl hr
    rw [flatMap_splitOn_eq_map hbodies, ← ParamName.paramsText_present, h, hl] at hr
    exact append_cancel_left hr
  have hwhole : ∀ q ∈ ps, semicolon ∉ q.body := by
    intro q hq hm
    obtain ⟨more, hmore⟩ := splitOn_eq_takeWhile semicolon q.body
    have hpart : q.body.takeWhile (fun b => b ≠ semicolon) ∈
        (ParamName.present p).map (fun n => n.body p) := by
      rw [← hsplit]
      exact mem_flatMap.mpr ⟨q, hq, by rw [hmore]; exact mem_cons_self⟩
    obtain ⟨n, hn, he⟩ := mem_map.mp hpart
    have hone := count_quote_of_semicolon hm
    rw [← he] at hone
    have := (ParamName.body_facts hclean hn).2
    omega
  rw [flatMap_splitOn_eq_map hwhole] at hsplit
  have hall : List.Forall₂ (fun n q => q.body = ParamName.body p n) (ParamName.present p) ps := by
    rw [← List.forall₂_map_left_iff (f := fun n => ParamName.body p n)
      (R := fun b q => Param.body q = b), ← hsplit, List.forall₂_map_left_iff]
    exact List.forall₂_same.mpr fun _ _ => rfl
  have hpresent : ∀ n ∈ ParamName.present p, (n.valueText p).isSome = true :=
    fun n hn => (mem_filter.mp hn).2
  refine ((List.forall₂_and_left _ _).mpr ⟨hpresent, hall⟩).imp ?_
  rintro n q ⟨hsome, hbody⟩
  obtain ⟨v, hv⟩ := Option.isSome_iff_exists.mp hsome
  have hcut := cut_equals_key q.key q.value.text
  rw [Param.body, ParamName.body, hv, Option.getD_some] at hbody
  rw [hbody, cut_append (n.name_not_mem (by decide))] at hcut
  obtain ⟨hname, hval⟩ := Prod.mk.inj (Option.some.inj hcut)
  exact ⟨hname.symm, by rw [hv, hval]⟩

theorem noSemicolon_read {parts : List Bytes} (hparts : ∀ part ∈ parts, semicolon ∉ part)
    (comps : List Bytes) :
    NoSemicolon (parts.foldl (readParam U) { components := comps }) :=
  NoSemicolon.foldl U hparts ⟨by simp, by simp, by simp, by simp⟩

/-- **Only canonical parameters are serialised as they were received.** -/
theorem canonical_of_paramsText {comps : List Bytes}
    (h : paramsText ((ps.flatMap (fun q => q.body.splitOn semicolon)).foldl (readParam U)
      { components := comps }) = ps.flatMap (fun q => semicolon :: q.body)) :
    CanonicalParams ps := by
  have hparts : ∀ part ∈ ps.flatMap (fun q => q.body.splitOn semicolon), semicolon ∉ part := by
    intro part hm
    obtain ⟨q, -, hm⟩ := mem_flatMap.mp hm
    exact not_mem_of_mem_splitOn hm
  have hclean := noSemicolon_read U hparts comps
  refine ⟨_, filter_sublist, (params_of_paramsText hclean h).imp ?_⟩
  rintro n q ⟨hname, hval⟩
  exact ⟨hname, ParamName.fits_of_valueText hclean hval⟩

/-! ## 5. Conflicting parameters of an identifier -/

def Item.HasFlag (it : Item) (name : String) : Prop :=
  ∃ k, ItemParam.flag k ∈ it.params ∧ k.val = lit name

def ItemParam.keyValue : ItemParam → Option Bytes
  | .flag _ => none
  | .valued k v => if k.val = lit "key" then some v.content else none

def Item.keyParam (it : Item) : Bytes := (it.params.filterMap ItemParam.keyValue).getLast?.getD []

/-- `bs` does not stand beside `sf` or `key`. -/
def Item.Consistent (it : Item) : Prop :=
  ¬ (it.HasFlag "bs" ∧ (it.HasFlag "sf" ∨ it.keyParam ≠ []))

theorem Piece.record_flag (c : ParsedComponent) (n : Bytes) :
    (((Piece.flag n).record c).bs = true ↔ n = lit "bs" ∨ c.bs = true) ∧
      (((Piece.flag n).record c).sf = true ↔ n = lit "sf" ∨ c.sf = true) ∧
      ((Piece.flag n).record c).key = c.key := by
  have h1 : lit "sf" ≠ lit "bs" := by decide
  simp only [Piece.record]
  by_cases hs : n = lit "sf"
  · subst hs
    simp [h1]
  · by_cases hb : n = lit "bs"
    · subst hb
      simp [h1.symm]
    · rw [if_neg hs, if_neg hb]
      split_ifs <;> simp [hs, hb]

theorem Piece.record_param (c : ParsedComponent) (n v : Bytes) :
    ((Piece.param n v).record c).bs = c.bs ∧ ((Piece.param n v).record c).sf = c.sf ∧
      ((Piece.param n v).record c).key = if n = lit "key" then v else c.key := by
  simp only [Piece.record]
  split_ifs <;> exact ⟨rfl, rfl, rfl⟩

theorem foldl_record_flags (ps : List ItemParam) (c : ParsedComponent) :
    (((ps.map ItemParam.piece).foldl Piece.record c).bs = true ↔
      (∃ k, ItemParam.flag k ∈ ps ∧ k.val = lit "bs") ∨ c.bs = true) ∧
    (((ps.map ItemParam.piece).foldl Piece.record c).sf = true ↔
      (∃ k, ItemParam.flag k ∈ ps ∧ k.val = lit "sf") ∨ c.sf = true) ∧
    ((ps.map ItemParam.piece).foldl Piece.record c).key =
      (ps.filterMap ItemParam.keyValue).getLast?.getD c.key := by
  induction ps generalizing c with
  | nil => simp
  | cons p ps ih =>
    obtain ⟨hbs, hsf, hkey⟩ := ih (p.piece.record c)
    rw [map_cons, foldl_cons, hbs, hsf, hkey]
    cases p with
    | flag k =>
      obtain ⟨h1, h2, h3⟩ := Piece.record_flag c k.val
      have hmem : ∀ name : Bytes, (∃ k', ItemParam.flag k' ∈ ItemParam.flag k :: ps ∧ k'.val = name) ↔
          (∃ k', ItemParam.flag k' ∈ ps ∧ k'.val = name) ∨ k.val = name := by
        intro name
        constructor
        · rintro ⟨k', hk', hn⟩
          rcases mem_cons.mp hk' with he | hk'
          · exact .inr (by rw [← ItemParam.flag.inj he]; exact hn)
          · exact .inl ⟨k', hk', hn⟩
        · rintro (⟨k', hk', hn⟩ | hn)
          · exact ⟨k', mem_cons_of_mem _ hk', hn⟩
          · exact ⟨k, mem_cons_self, hn⟩
      have hnone : ItemParam.keyValue (.flag k) = none := rfl
      rw [ItemParam.piece, h1, h2, h3, hmem, hmem, or_assoc, or_assoc, filterMap_cons_none hnone]
      exact ⟨Iff.rfl, Iff.rfl, rfl⟩
    | valued k v =>
      obtain ⟨h1, h2, h3⟩ := Piece.record_param c k.val v.content
      have hmem : ∀ name : Bytes, (∃ k', ItemParam.flag k' ∈ ItemParam.valued k v :: ps ∧ k'.val = name) ↔
          ∃ k', ItemParam.flag k' ∈ ps ∧ k'.val = name := by
        intro name
        simp
      rw [ItemParam.piece, h1, h2, h3, hmem, hmem]
      refine ⟨Iff.rfl, Iff.rfl, ?_⟩
      by_cases hk : k.val = lit "key"
      · have hsome : ItemParam.keyValue (.valued k v) = some v.content := if_pos hk
        rw [if_pos hk, filterMap_cons_some hsome, getLast?_cons]
        rfl
      · have hnone : ItemParam.keyValue (.valued k v) = none := if_neg hk
        rw [if_neg hk, filterMap_cons_none hnone]

theorem Item.consistent_iff (it : Item) :
    it.Consistent ↔ ¬ (it.parsed.bs && (it.parsed.sf || it.parsed.key ≠ [])) = true := by
  obtain ⟨hbs, hsf, hkey⟩ := foldl_record_flags it.params { raw := it.text, name := it.name.val }
  have hbs : it.parsed.bs = true ↔ it.HasFlag "bs" := hbs.trans (or_iff_left Bool.false_ne_true)
  have hsf : it.parsed.sf = true ↔ it.HasFlag "sf" := hsf.trans (or_iff_left Bool.false_ne_true)
  have hkey : it.parsed.key = it.keyParam := hkey
  rw [Item.Consistent, ← hbs, ← hsf, ← hkey]
  simp

/-! ## 6. Members -/

/-- A member that is serialised as it was received. -/
structure Member.Canonical (m : Member) : Prop where
  plain : ∀ it ∈ m.items, it.Plain
  consistent : ∀ it ∈ m.items, it.Consistent
  params : CanonicalParams m.params

theorem serializedIdentifiers_plain : ∀ {its : List Item}, (∀ it ∈ its, it.Plain) →
    ((∀ it ∈ its, it.Consistent) ∧ serializedIdentifiers U (its.map Item.text) =
      .ok (its.map Item.text)) ∨
    (¬ (∀ it ∈ its, it.Consistent) ∧ ∃ e, serializedIdentifiers U (its.map Item.text) = .error e)
  | [], _ => .inl ⟨by simp, rfl⟩
  | it :: its, h => by
    have ih := serializedIdentifiers_plain (forall_mem_cons.mp h).2
    have hparse := parse_plain U (h it mem_cons_self)
    rw [map_cons, serializedIdentifiers, hparse]
    by_cases hc : it.Consistent
    · rw [if_neg (it.consistent_iff.mp hc)]
      rcases ih with ⟨hall, hids⟩ | ⟨hsome, e, hids⟩
      · left
        refine ⟨forall_mem_cons.mpr ⟨hc, hall⟩, ?_⟩
        rw [hids]
        rfl
      · right
        refine ⟨fun hall => hsome (forall_mem_cons.mp hall).2, e, ?_⟩
        rw [hids]
        rfl
    · right
      rw [if_pos (not_not.mp fun hn => hc (it.consistent_iff.mpr hn))]
      exact ⟨fun hall => hc (hall it mem_cons_self), _, rfl⟩

theorem parse_plain_serialized {it : Item} (h : it.Plain) {q : ParsedComponent}
    (hq : parseComponentIdentifier U it.text = .ok q) : q.serialized = it.text := by
  rw [parse_plain U h] at hq
  split at hq
  · cases hq
  · rw [← Except.ok.inj hq]
    rfl

theorem serializedIdentifiers_before {t : Bytes} {more : List Bytes} :
    ∀ {pre : List Item} {ids : List Bytes}, (∀ i ∈ pre, i.Plain) →
      serializedIdentifiers U (pre.map Item.text ++ t :: more) = .ok ids →
      ∃ q more', parseComponentIdentifier U t = .ok q ∧ ids = pre.map Item.text ++ q.serialized :: more'
  | [], ids, _, h => by
    rw [map_nil, nil_append, serializedIdentifiers] at h
    obtain ⟨q, hq, h⟩ := bind_eq_ok.mp h
    obtain ⟨tail, -, h⟩ := bind_eq_ok.mp h
    exact ⟨q, tail, hq, (Except.ok.inj h).symm⟩
  | i :: pre, ids, hpre, h => by
    rw [map_cons, cons_append, serializedIdentifiers] at h
    obtain ⟨qi, hi, h⟩ := bind_eq_ok.mp h
    obtain ⟨tail, hr, h⟩ := bind_eq_ok.mp h
    obtain ⟨q, more', hq, rfl⟩ := serializedIdentifiers_before (forall_mem_cons.mp hpre).2 hr
    refine ⟨q, more', hq, ?_⟩
    rw [← Except.ok.inj h, parse_plain_serialized U (hpre i mem_cons_self) hi]
    rfl

theorem serialize_misread {pre post : List Item} {it : Item}
    (hm : m.items = pre ++ it :: post) (hpre : ∀ i ∈ pre, i.Plain)
    (h : Misread U pre it p.components) : serializeSignatureParams U p ≠ .ok m.text := by
  obtain ⟨t, more, hcomps, hdiv⟩ := h
  intro hser
  rw [serializeSignatureParams, hcomps] at hser
  obtain ⟨ids, hids, hser⟩ := bind_eq_ok.mp hser
  obtain ⟨q, more', hq, rfl⟩ := serializedIdentifiers_before U hpre hids
  have hbefore : (pre.map Item.text).flatMap (fun x => x ++ [space]) = itemsBefore pre := by
    rw [flatMap_map, itemsBefore]
  have hne := (((hdiv q hq).append
    (more'.flatMap (fun x => space :: x) ++ rparen :: paramsText p)
    (post.flatMap (fun i => space :: i.text) ++ rparen :: m.paramsText)).prepend
      (lparen :: itemsBefore pre)).ne
  rw [join_append_cons, hbefore, Member.text, inner_eq hm] at hser
  exact hne (by simpa using Except.ok.inj hser)

theorem serialize_canonical (h : m.Canonical)
    (hp : parseSignatureParams U m.text = .ok p) : serializeSignatureParams U p = .ok m.text := by
  rw [parse_member_plain U h.plain] at hp
  obtain rfl := Except.ok.inj hp
  have hcomps := foldl_readParam_components U
    (m.params.flatMap (fun q => q.body.splitOn semicolon)) { components := m.items.map Item.text }
  rcases serializedIdentifiers_plain U h.plain with ⟨-, hids⟩ | ⟨hcons, -⟩
  · rw [serializeSignatureParams, hcomps, hids]
    simp only [bind, Except.bind, Except.ok.injEq]
    rw [paramsText_canonical U h.params]
    simp [Member.text, Member.inner, Member.paramsText]
  · exact absurd h.consistent hcons

theorem canonical_of_serialize (hp : parseSignatureParams U m.text = .ok p)
    (h : serializeSignatureParams U p = .ok m.text) : m.Canonical := by
  by_cases hplain : ∀ it ∈ m.items, it.Plain
  · rw [parse_member_plain U hplain] at hp
    obtain rfl := Except.ok.inj hp
    have hcomps := foldl_readParam_components U
      (m.params.flatMap (fun q => q.body.splitOn semicolon)) { components := m.items.map Item.text }
    rcases serializedIdentifiers_plain U hplain with ⟨hcons, hids⟩ | ⟨-, e, hids⟩
    · -- the lists agree, so the parameters decide
      rw [serializeSignatureParams, hcomps, hids] at h
      simp only [bind, Except.bind, Except.ok.injEq] at h
      have hparams : paramsText ((m.params.flatMap (fun q => q.body.splitOn semicolon)).foldl
          (readParam U) { components := m.items.map Item.text }) =
          m.params.flatMap (fun q => semicolon :: q.body) := by
        simpa [Member.text, Member.inner, Member.paramsText] using h
      exact ⟨hplain, hcons, canonical_of_paramsText U hparams⟩
    · rw [serializeSignatureParams, hcomps, hids] at h
      cases h
  · obtain ⟨pre, it, post, hm, hpre, hit⟩ := exists_first_not hplain
    obtain ⟨q, hq, hcomps⟩ := parse_member U m
    rw [hp] at hq
    obtain rfl := Except.ok.inj hq
    have hmis := components_of_defect U hm hpre hit
    rw [← hcomps] at hmis
    exact absurd h (serialize_misread U hm hpre hmis)

/-- **When what is verified is what was received.** -/
theorem serialize_parsed_iff (m : Member) :
    (∀ p, parseSignatureParams U m.text = .ok p → serializeSignatureParams U p = .ok m.text) ↔
      m.Canonical := by
  constructor
  · intro h
    obtain ⟨p, hp, -⟩ := parse_member U m
    exact canonical_of_serialize U hp (h p hp)
  · intro hcan p hp
    exact serialize_canonical U hcan hp

/-! ## 7. A member with its parameters in another order -/

namespace Example

def keyTag : SfKey := ⟨lit "tag", ⟨0x74, rfl, by decide⟩, by decide +kernel⟩
def keyKeyid : SfKey := ⟨lit "keyid", ⟨0x6b, rfl, by decide⟩, by decide +kernel⟩

def tagFirst : Member where
  items := [⟨⟨compMethod, by decide +kernel⟩, []⟩]
  params := [⟨keyTag, .str ⟨lit "app", by decide +kernel⟩⟩,
    ⟨keyKeyid, .str ⟨lit "k", by decide +kernel⟩⟩]

def tagFirstParams : SignatureParams :=
  { components := [lit "\"@method\""], keyID := lit "k", tag := lit "app" }

end Example

open Example in
/-- A tag before the key id is received in that order and verified in the other. -/
theorem serialize_tagFirst : tagFirst.text = lit "(\"@method\");tag=\"app\";keyid=\"k\"" ∧
      parseSignatureParams .ascii tagFirst.text = .ok tagFirstParams ∧
      serializeSignatureParams .ascii tagFirstParams =
        .ok (lit "(\"@method\");keyid=\"k\";tag=\"app\"") ∧
      serializeSignatureParams .ascii tagFirstParams ≠ .ok tagFirst.text := by
  decide

end AoniContrib.HttpSig
