/-
# Required components: what `Verify` enforces

`VerifyConfig.RequiredComponents` lists component IDENTIFIERS, a name with its parameters.
`Verify` collects the serialized identifiers AND the bare names of the covered components in
one set, and is content when it finds either form of a required component there.  So what it
enforces is coverage of the NAME: a required `"@query-param";name="amount"` is satisfied by a
signature over `"@query-param";name="id"`.

`verify_required_iff` says exactly when an accepted signature does cover every required
identifier: when none of them is covered by its name only.  The two readings never cross,
since no name starts with a quote and every serialized identifier does (`name_head`).
-/
import AoniContrib.HttpSig.Identifier

namespace AoniContrib.HttpSig

open Go List

variable (U : Unicode)

/-! ## 1. Coverage by identifier and by name -/

/-- Some listed component has the canonical identifier of `c`. -/
def CoveredExactly (comps : List Bytes) (c : Bytes) : Prop :=
  ∃ d ∈ comps, (identifierOf U d).isSome ∧ identifierOf U d = identifierOf U c

/-- Some listed component has the name of `c`, but none its identifier. -/
def CoveredByNameOnly (comps : List Bytes) (c : Bytes) : Prop :=
  (∃ d ∈ comps, (nameOf U d).isSome ∧ nameOf U d = nameOf U c) ∧ ¬ CoveredExactly U comps c

instance (comps : List Bytes) (c : Bytes) : Decidable (CoveredExactly U comps c) :=
  inferInstanceAs (Decidable (∃ d ∈ comps, _))

instance (comps : List Bytes) (c : Bytes) : Decidable (CoveredByNameOnly U comps c) :=
  inferInstanceAs (Decidable (_ ∧ ¬ CoveredExactly U comps c))

/-! ## 2. The check -/

theorem mem_coveredSet_iff {comps : List Bytes} {x : Bytes} : x ∈ coveredSet U comps ↔
      ∃ d ∈ comps, ∃ q, parseComponentIdentifier U d = .ok q ∧ (x = q.serialized ∨ x = q.name) := by
  simp only [coveredSet, mem_flatMap]
  refine exists_congr fun d => and_congr_right fun _ => ?_
  cases hq : parseComponentIdentifier U d with
  | error e | ok q => simp

theorem checkRequired_ok {covered : List Bytes} :
    ∀ {required : List Bytes}, checkRequired U covered required = .ok () →
      ∀ c ∈ required, ∃ p, parseComponentIdentifier U c = .ok p ∧
        (p.serialized ∈ covered ∨ p.name ∈ covered)
  | [], _, c, hc => by cases hc
  | r :: rest, h, c, hc => by
    rw [checkRequired] at h
    obtain ⟨p, hp, h⟩ := bind_eq_ok.mp h
    rcases ite_eq_iff.mp h with ⟨-, h⟩ | ⟨hin, h⟩
    · cases h
    · rcases mem_cons.mp hc with rfl | hc
      · refine ⟨p, hp, ?_⟩
        by_contra hno
        rw [not_or] at hno
        exact hin hno
      · exact checkRequired_ok h c hc

/-- **What the check enforces**: every required identifier is covered exactly, or its name
is. -/
theorem checkRequired_covers {comps required : List Bytes}
    (h : checkRequired U (coveredSet U comps) required = .ok ()) :
    ∀ c ∈ required, (identifierOf U c).isSome ∧
      (CoveredExactly U comps c ∨ ∃ d ∈ comps, (nameOf U d).isSome ∧ nameOf U d = nameOf U c) := by
  intro c hc
  obtain ⟨p, hp, hin⟩ := checkRequired_ok U h c hc
  refine ⟨by simp [identifierOf_ok U hp], ?_⟩
  rcases hin with hin | hin
  · obtain ⟨d, hd, q, hq, he | he⟩ := (mem_coveredSet_iff U).mp hin
    · exact .inl ⟨d, hd, by simp [identifierOf_ok U hq],
        by rw [identifierOf_ok U hq, identifierOf_ok U hp, he]⟩
    · -- a serialized identifier starts with a quote, a name does not
      have h1 := serialized_head U hp
      rw [he] at h1
      exact absurd h1 (name_head U hq)
  · obtain ⟨d, hd, q, hq, he | he⟩ := (mem_coveredSet_iff U).mp hin
    · have h1 := serialized_head U hq
      rw [← he] at h1
      exact absurd h1 (name_head U hp)
    · exact .inr ⟨d, hd, by simp [nameOf_ok U hq], by rw [nameOf_ok U hq, nameOf_ok U hp, he]⟩

/-! ## 3. Accepted signatures -/

/-- The components listed in the `Signature-Input` member that `Verify` works on. -/
def listedComponents (ctx : RequestContext) (label : Bytes) : List Bytes :=
  match targetLabel ctx label with
  | none => []
  | some target =>
    match parseSignatureParams U (inputMemberValue ctx target) with
    | .ok params => params.components
    | .error _ => []

variable {ctx : RequestContext} {params : SignatureParams}

theorem readSignature_components {label sig : Bytes} (h : readSignature U ctx label = .ok (params, sig)) :
    params.components = listedComponents U ctx label := by
  unfold readSignature at h
  split at h
  · cases h
  · split at h
    · cases h
    · rename_i target ht
      simp only at h
      split at h
      · cases h
      · split at h
        · cases h
        · split at h
          · cases h
          · rename_i params' hp
            split at h
            · cases h
            · cases h
              simp [listedComponents, ht, hp]

theorem line_mem_base {ord : Nat → MapOrder}
    {base : Bytes} (h : buildSignatureBase U ord ctx params = .ok base) {d : Bytes}
    (hd : d ∈ params.components) :
    ∃ i, ∃ l : Line, l.Reads U (ord i) ctx d ∧ ∃ pre post, base = pre ++ l.text ++ post := by
  obtain ⟨ls, text, hall, -, -, rfl, -⟩ := (buildSignatureBase_ok_iff U).mp h
  obtain ⟨i, hi, rfl⟩ := getElem_of_mem hd
  have hlen := hall.length_eq
  have hread := hall.getElem i hi (by omega)
  refine ⟨i, ls[i], hread, (ls.take i).flatMap Line.text,
    (ls.drop (i + 1)).flatMap Line.text ++ paramsLineHead ++ text, ?_⟩
  have hsplit : ls = ls.take i ++ ls[i] :: ls.drop (i + 1) := by
    rw [← drop_eq_getElem_cons (by omega), take_append_drop]
  have hflat : ls.flatMap Line.text =
      (ls.take i).flatMap Line.text ++ (ls[i].text ++ (ls.drop (i + 1)).flatMap Line.text) := by
    conv_lhs => rw [hsplit]
    rw [flatMap_append, flatMap_cons]
  rw [hflat]
  simp only [append_assoc]

/-- The required identifiers are covered by the verified base: the verifier accepted a base
in which each of them has its own line. -/
def RequiredCoverage (ord : Nat → MapOrder) (ctx : RequestContext) (cfg : VerifyConfig)
    (params : SignatureParams) : Prop :=
  ∃ verifier sig base, cfg.verifier = some verifier ∧
    readSignature U ctx cfg.label = .ok (params, sig) ∧
    buildSignatureBase U ord ctx params = .ok base ∧ verifier.verify base sig = none ∧
    ∀ c ∈ cfg.requiredComponents, ∃ p, parseComponentIdentifier U c = .ok p ∧
      ∃ d ∈ params.components, ∃ i, ∃ l : Line, l.Reads U (ord i) ctx d ∧ l.comp.serialized = p.serialized ∧
        ∃ pre post, base = pre ++ l.text ++ post

/-- **When an accepted signature covers every required identifier.**  Exactly when no
required identifier shares its name with a listed component without sharing its parameters
with any. -/
theorem verify_required_iff {ord : Nat → MapOrder} {ctx : RequestContext} {cfg : VerifyConfig}
    {now : Time} {params : SignatureParams} (h : verify U ord ctx cfg now = .ok params) :
    RequiredCoverage U ord ctx cfg params ↔
      ∀ c ∈ cfg.requiredComponents, ¬ CoveredByNameOnly U (listedComponents U ctx cfg.label) c := by
  obtain ⟨verifier, sig, base, hv, hr, -, hq, hb, hver⟩ := verify_ok U h
  have hcomps := readSignature_components U hr
  rw [← hcomps]
  constructor
  · rintro ⟨_, _, _, _, _, _, _, hcov⟩ c hc ⟨-, hnot⟩
    obtain ⟨p, hp, d, hd, _, l, hl, hid, -⟩ := hcov c hc
    refine hnot ⟨d, hd, by simp [identifierOf_ok U hl.1], ?_⟩
    rw [identifierOf_ok U hl.1, identifierOf_ok U hp, hid]
  · intro hno
    refine ⟨verifier, sig, base, hv, hr, hb, hver, ?_⟩
    intro c hc
    obtain ⟨hsome, hcov⟩ := checkRequired_covers U hq c hc
    obtain ⟨d, hd, hds, hid⟩ : CoveredExactly U params.components c := by
      rcases hcov with hcov | hname
      · exact hcov
      · by_contra hnot
        exact hno c hc ⟨hname, hnot⟩
    obtain ⟨id, hcid⟩ := Option.isSome_iff_exists.mp hsome
    obtain ⟨p, hp, hpid⟩ := parse_of_identifierOf U hcid
    obtain ⟨i, l, hl, hbase⟩ := line_mem_base U hb hd
    refine ⟨p, hp, d, hd, i, l, hl, ?_, hbase⟩
    rw [identifierOf_ok U hl.1, hcid] at hid
    rw [hpid, ← Option.some.inj hid]

/-! ## 4. A signature over one query parameter, required over another -/

namespace Example

def payURL : URL :=
  { scheme := lit "https", host := lit "bank.example", path := lit "/pay",
    rawQuery := lit "amount=9&id=1" }

def payContext : RequestContext :=
  { method := lit "POST", url := some payURL,
    header := some ⟨[(headerSignatureInput, [lit "sig1=(\"@query-param\";name=\"id\")"]),
      (headerSignature, [lit "sig1=:" ++ stdEncoding.encode
        (lit "\"@query-param\";name=\"id\": 1\n\"@signature-params\": (\"@query-param\";name=\"id\")") ++
        [colon]])], by decide⟩ }

def requiring (param : String) : VerifyConfig :=
  { verifier := some (.transparent []),
    requiredComponents := [lit "\"@query-param\";name=\"" ++ lit param ++ [dquote]] }

def payParams : SignatureParams :=
  { label := lit "sig1", components := [lit "\"@query-param\";name=\"id\""] }

end Example

open Example in
/-- The server asks for `amount`, the signature covers `id`, and `Verify` accepts. -/
theorem verify_accepts_name_only :
    verify .ascii (fun _ => .listed) payContext (requiring "amount") ⟨0, 0⟩ = .ok payParams ∧
      ¬ RequiredCoverage .ascii (fun _ => .listed) payContext (requiring "amount") payParams := by
  refine ⟨by decide +kernel, ?_⟩
  rintro ⟨_, _, _, _, _, _, _, hcov⟩
  obtain ⟨p, hp, d, hd, _, l, hl, hid, -⟩ := hcov _ (mem_singleton.mpr rfl)
  have hcov : CoveredExactly .ascii payParams.components
      (lit "\"@query-param\";name=\"" ++ lit "amount" ++ [dquote]) := by
    refine ⟨d, hd, by simp [identifierOf_ok _ hl.1], ?_⟩
    rw [identifierOf_ok _ hl.1, identifierOf_ok _ hp, hid]
  exact absurd hcov (by decide)

open Example in
/-- Asked for `id`, the same request is covered exactly. -/
theorem verify_required_id :
    verify .ascii (fun _ => .listed) payContext (requiring "id") ⟨0, 0⟩ = .ok payParams ∧
      RequiredCoverage .ascii (fun _ => .listed) payContext (requiring "id") payParams := by
  have h : verify .ascii (fun _ => .listed) payContext (requiring "id") ⟨0, 0⟩ = .ok payParams := by
    decide +kernel
  exact ⟨h, (verify_required_iff .ascii h).mpr (by decide)⟩

end AoniContrib.HttpSig
