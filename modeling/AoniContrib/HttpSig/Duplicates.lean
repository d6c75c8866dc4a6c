/-
# No component twice

RFC 9421 does not allow a component to be covered twice, whatever the order of its parameters.
`BuildSignatureBase` keeps a set of the identifiers it has seen, in the text it writes for them, and
that text has the parameters in the order and as often as the caller wrote them.  So it refuses two
spellings of one LIST of parameters, and lets pass two lists of one SET (`none_twice_iff`).
-/
import AoniContrib.HttpSig.RoundTrip

namespace AoniContrib.HttpSig

open Go

variable (U : Unicode)

def parametersOf (c : Bytes) : List Piece :=
  match splitName c (trimSpace c) with
  | .ok (_, remainder) => readPieces U remainder
  | .error _ => []

theorem serialized_eq {c : Bytes} {p : ParsedComponent}
    (h : parseComponentIdentifier U c = .ok p) :
    p.serialized = identifierText p.name (parametersOf U c) := by
  obtain ⟨namePart, remainder, hsplit, hp, -⟩ := parseComponentIdentifier_ok U h
  rw [parse_name U hsplit h, parametersOf, hsplit, hp]

/-- Two identifiers denote the same component: they have the same name in lower case, and the same
parameters with the same values, in whatever order and however often. -/
def SameComponent (c d : Bytes) : Prop :=
  (∃ p q, parseComponentIdentifier U c = .ok p ∧ parseComponentIdentifier U d = .ok q ∧
    p.name = q.name) ∧ ∀ x, x ∈ parametersOf U c ↔ x ∈ parametersOf U d

/-- They do so, but list the parameters in another order or another number. -/
def Rearranged (c d : Bytes) : Prop :=
  SameComponent U c d ∧ parametersOf U c ≠ parametersOf U d

theorem rearranged_of_same {c d : Bytes} (h : SameComponent U c d)
    (hne : identifierOf U c ≠ identifierOf U d) : Rearranged U c d := by
  refine ⟨h, fun hlist => hne ?_⟩
  obtain ⟨⟨p, q, hp, hq, hname⟩, -⟩ := h
  rw [identifierOf_ok U hp, identifierOf_ok U hq, serialized_eq U hp, serialized_eq U hq, hname, hlist]

theorem identifiers_differ {ord : Nat → MapOrder} {ctx : RequestContext} {params : SignatureParams}
    {base : Bytes} (h : buildSignatureBase U ord ctx params = .ok base) :
    params.components.Pairwise (fun c d => ∀ p q, parseComponentIdentifier U c = .ok p →
      parseComponentIdentifier U d = .ok q → identifierOf U c ≠ identifierOf U d) := by
  obtain ⟨ls, hsent⟩ := (sent_iff U).mp h
  have hnodup := hsent.nodup
  rw [← (hsent.reading.filterMap_eq U).1, List.Nodup, List.pairwise_filterMap] at hnodup
  refine hnodup.imp fun {c d} hcd p q hp hq he => ?_
  have hc := identifierOf_ok U hp
  have hd := identifierOf_ok U hq
  exact hcd _ hc _ hd (Option.some.inj (hc.symm.trans (he.trans hd)))

/-- **A signature base covers no component twice exactly if no two of the identifiers list the same
parameters in another order or another number.** -/
theorem none_twice_iff {ord : Nat → MapOrder} {ctx : RequestContext} {params : SignatureParams}
    {base : Bytes} (h : buildSignatureBase U ord ctx params = .ok base) :
    params.components.Pairwise (fun c d => ¬ SameComponent U c d) ↔
      params.components.Pairwise (fun c d => ¬ Rearranged U c d) := by
  constructor
  · intro hnone
    exact hnone.imp fun hcd hre => hcd hre.1
  · intro hnone
    refine (hnone.and (identifiers_differ U h)).imp ?_
    rintro c d ⟨hre, hdiffer⟩ hsame
    obtain ⟨p, q, hp, hq, -⟩ := hsame.1
    exact hre (rearranged_of_same U hsame (hdiffer p q hp hq))

namespace Example

theorem dictionary_nodup : ([(lit "X-Dict", [lit "a=1, b=2"])].map Prod.fst).Nodup := by decide

def dictionaryMessage : RequestContext :=
  { method := lit "GET", header := some ⟨[(lit "X-Dict", [lit "a=1, b=2"])], dictionary_nodup⟩ }

end Example

open Example in
/-- Two members of one dictionary are two components. -/
theorem none_twice_iff_members : ([lit "\"x-dict\";key=\"a\"", lit "\"x-dict\";key=\"b\""].Pairwise
      fun c d => ¬ SameComponent .ascii c d) := by
  have hbuild : buildSignatureBase .ascii (fun _ => .listed) dictionaryMessage
      { components := [lit "\"x-dict\";key=\"a\"", lit "\"x-dict\";key=\"b\""] } =
      .ok (lit "\"x-dict\";key=\"a\": 1\n\"x-dict\";key=\"b\": 2\n\"@signature-params\": (\"x-dict\";key=\"a\" \"x-dict\";key=\"b\")") := by
    decide +kernel
  refine (none_twice_iff .ascii hbuild).mpr ?_
  rw [List.pairwise_pair]
  rintro ⟨⟨-, hset⟩, -⟩
  have hmem := (hset (.param (lit "key") (lit "a"))).mp (by decide)
  exact absurd hmem (by decide)

open Example in
/-- **One member is covered twice**, with its two parameters in either order. -/
theorem covered_twice : ∃ base, buildSignatureBase .ascii (fun _ => .listed) dictionaryMessage
        { components := [lit "\"x-dict\";sf;key=\"a\"", lit "\"x-dict\";key=\"a\";sf"] } = .ok base ∧
      SameComponent .ascii (lit "\"x-dict\";sf;key=\"a\"") (lit "\"x-dict\";key=\"a\";sf") := by
  refine ⟨lit "\"x-dict\";sf;key=\"a\": 1\n\"x-dict\";key=\"a\";sf: 1\n\"@signature-params\": (\"x-dict\";sf;key=\"a\" \"x-dict\";key=\"a\";sf)", by decide +kernel, ⟨⟨_, _, rfl, rfl, by decide⟩, ?_⟩⟩
  have h₁ : parametersOf .ascii (lit "\"x-dict\";sf;key=\"a\"") =
      [.flag (lit "sf"), .param (lit "key") (lit "a")] := by decide
  have h₂ : parametersOf .ascii (lit "\"x-dict\";key=\"a\";sf") =
      [.param (lit "key") (lit "a"), .flag (lit "sf")] := by decide
  intro x
  rw [h₁, h₂]
  simp [or_comm]

end AoniContrib.HttpSig
