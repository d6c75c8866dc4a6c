/-
# What `ParseComponentIdentifier` and `BuildSignatureBase` return

One inversion lemma for each of the two functions, so that no later proof unfolds them: a
parsed identifier is a lower-cased name, the parameters read behind it and the text written
for both (`parseComponentIdentifier_ok`), and the lines of a signature base are one per covered
component (`baseLines_ok_iff`).
-/
import AoniContrib.HttpSig.Verify

namespace AoniContrib.HttpSig

open Go List

variable {c raw : Bytes} {comps : List Bytes} {ord : Nat → MapOrder} {p : ParsedComponent} {u : URL}

variable (U : Unicode)

/-! ## 1. Identifiers -/

@[simp] theorem Piece.record_name (comp : ParsedComponent) (p : Piece) :
    (p.record comp).name = comp.name := by
  cases p <;> simp only [Piece.record] <;> split_ifs <;> rfl

@[simp] theorem foldl_record_name (pieces : List Piece) (comp : ParsedComponent) :
    (pieces.foldl Piece.record comp).name = comp.name := by
  induction pieces generalizing comp with
  | nil => rfl
  | cons p ps ih => rw [foldl_cons, ih, Piece.record_name]

theorem parseComponentIdentifier_ok (h : parseComponentIdentifier U raw = .ok p) :
    ∃ namePart remainder, splitName raw (trimSpace raw) = .ok (namePart, remainder) ∧
      p = { (readPieces U remainder).foldl Piece.record { raw := raw, name := toLower U namePart } with
        serialized := identifierText (toLower U namePart) (readPieces U remainder) } ∧
      ¬ (p.bs = true ∧ (p.sf = true ∨ p.key ≠ [])) := by
  unfold parseComponentIdentifier at h
  simp only at h
  split at h
  · cases h
  · obtain ⟨⟨namePart, remainder⟩, hs, h⟩ := bind_eq_ok.mp h
    rcases ite_eq_iff.mp h with ⟨-, h⟩ | ⟨hv, h⟩
    · cases h
    · obtain rfl := Except.ok.inj h
      exact ⟨namePart, remainder, hs, rfl, by simpa using hv⟩

theorem parse_of_splitName {namePart remainder : Bytes}
    (hne : trimSpace raw ≠ []) (hs : splitName raw (trimSpace raw) = .ok (namePart, remainder))
    (hp : p = { (readPieces U remainder).foldl Piece.record { raw := raw, name := toLower U namePart } with
      serialized := identifierText (toLower U namePart) (readPieces U remainder) })
    (hcons : ¬ (p.bs = true ∧ (p.sf = true ∨ p.key ≠ []))) :
    parseComponentIdentifier U raw = .ok p := by
  subst hp
  simp only [parseComponentIdentifier, if_neg hne, hs, bind, Except.bind]
  rw [if_neg]
  simpa using hcons

theorem parse_name {namePart remainder : Bytes}
    (hs : splitName raw (trimSpace raw) = .ok (namePart, remainder))
    (h : parseComponentIdentifier U raw = .ok p) : p.name = toLower U namePart := by
  obtain ⟨n, r, hnr, rfl, -⟩ := parseComponentIdentifier_ok U h
  rw [hs] at hnr
  cases hnr
  simp

theorem serialized_head (h : parseComponentIdentifier U raw = .ok p) : p.serialized.head? = some dquote := by
  obtain ⟨n, r, -, rfl, -⟩ := parseComponentIdentifier_ok U h
  rfl

/-- **No name starts with a quote**, so a name is never mistaken for a serialized
identifier: a quoted name ends at its second quote, and a bare one starts where the trimmed
text starts. -/
theorem name_head (h : parseComponentIdentifier U raw = .ok p) : p.name.head? ≠ some dquote := by
  obtain ⟨n, r, hnr, -, -⟩ := parseComponentIdentifier_ok U h
  rw [parse_name U hnr h]
  apply head_toLower_ne_dquote
  intro hd
  unfold splitName at hnr
  split at hnr
  · split at hnr
    · cases hnr
    · rename_i _ x y hc
      cases hnr
      exact (cut_eq_some hc).2 (mem_of_head? hd)
  · rename_i hp
    split at hnr
    · rename_i _ x y hc
      cases hnr
      obtain ⟨hx, -⟩ := cut_eq_some hc
      -- the part before the semicolon starts like the whole, so trimming removes nothing there
      have hpre : x <+: trimSpace raw := ⟨semicolon :: y, hx.symm⟩
      have hleft := trimLeftSpace_of_prefix (trimLeftSpace_trimSpace raw) hpre
      have htrim : trimSpace x <+: trimSpace raw := by
        rw [trimSpace, hleft]
        exact (trimRightSpace_initial x).trans hpre
      obtain ⟨r, hr⟩ := htrim
      cases ht : trimSpace x with
      | nil => rw [ht] at hd; cases hd
      | cons b t =>
        rw [ht] at hd hr
        refine hp ?_
        rw [← hr]
        simpa [hasPrefix] using hd
    · cases hnr
      exact hp (by simpa [hasPrefix] using hd)

/-- The canonical identifier of a raw one, and its name; `none` when it does not parse. -/
def identifierOf (c : Bytes) : Option Bytes :=
  (parseComponentIdentifier U c).toOption.map ParsedComponent.serialized

def nameOf (c : Bytes) : Option Bytes :=
  (parseComponentIdentifier U c).toOption.map ParsedComponent.name

theorem identifierOf_ok (h : parseComponentIdentifier U c = .ok p) : identifierOf U c = some p.serialized := by
  simp [identifierOf, h, Except.toOption]

theorem nameOf_ok (h : parseComponentIdentifier U c = .ok p) : nameOf U c = some p.name := by
  simp [nameOf, h, Except.toOption]

theorem parse_of_identifierOf {id : Bytes} (h : identifierOf U c = some id) :
    ∃ p, parseComponentIdentifier U c = .ok p ∧ p.serialized = id := by
  cases hp : parseComponentIdentifier U c with
  | error e => simp [identifierOf, hp, Except.toOption] at h
  | ok p => exact ⟨p, rfl, by simpa [identifierOf, hp, Except.toOption] using h⟩

/-! ## 2. Derived components -/

def querySuffix (u : URL) : Bytes := if u.rawQuery ≠ [] then question :: u.rawQuery else []

section
variable {ctx : RequestContext} {comp : ParsedComponent}

theorem derive_method (hn : comp.name = compMethod) (hm : ctx.method ≠ []) :
    deriveDerivedComponent U ctx comp = .ok ctx.method := by
  simp only [deriveDerivedComponent, hn, if_true, if_neg hm]

theorem derive_authority_empty (hn : comp.name = compAuthority) (hu : ctx.url = some u)
    (hh : u.host = []) :
    deriveDerivedComponent U ctx comp =
      .error (.wrap .errMissingComponent "@authority unavailable" []) := by
  simp +decide only [deriveDerivedComponent, hn, hu, hh, if_true, if_false]

theorem derive_requestTarget (hn : comp.name = compRequestTarget)
    (hu : ctx.url = some u) :
    deriveDerivedComponent U ctx comp = .ok (pathOrRoot u ++ querySuffix u) := by
  simp +decide only [deriveDerivedComponent, hn, hu, if_true, if_false, querySuffix]
  split <;> simp

theorem derive_path (hn : comp.name = compPath) (hu : ctx.url = some u) :
    deriveDerivedComponent U ctx comp = .ok (pathOrRoot u) := by
  simp +decide only [deriveDerivedComponent, hn, hu, if_true, if_false]

theorem derive_query (hn : comp.name = compQuery) (hu : ctx.url = some u) :
    deriveDerivedComponent U ctx comp = .ok (question :: u.rawQuery) := by
  simp +decide only [deriveDerivedComponent, hn, hu, if_true, if_false]
  split
  · rfl
  · rename_i hq
    rw [not_not.mp hq]

end

/-- **What a derived component is**: the method, the status, or one of the readings of the
URL. -/
theorem deriveDerivedComponent_ok {ctx : RequestContext} {comp : ParsedComponent} {val : Bytes}
    (h : deriveDerivedComponent U ctx comp = .ok val) :
    comp.name = compMethod ∧ val = ctx.method ∧ ctx.method ≠ [] ∨
    comp.name = compStatus ∧ val = formatInt ctx.statusCode ∨
    ∃ u, ctx.url = some u ∧
      (comp.name = compTargetURI ∧ val = u.string ∨
      comp.name = compAuthority ∧ u.host ≠ [] ∧ val = normalizeAuthority U u ∨
      comp.name = compScheme ∧ u.scheme ≠ [] ∧ val = toLower U u.scheme ∨
      comp.name = compRequestTarget ∧ val = pathOrRoot u ++ querySuffix u ∨
      comp.name = compPath ∧ val = pathOrRoot u ∨
      comp.name = compQuery ∧ val = question :: u.rawQuery ∨
      comp.name = compQueryParam ∧ deriveQueryParam u.rawQuery comp.nameParam = .ok val) := by
  unfold deriveDerivedComponent at h
  generalize ctx.url = url at h ⊢
  rcases ite_eq_iff.mp h with ⟨hm, h⟩ | ⟨-, h⟩
  · rcases ite_eq_iff.mp h with ⟨-, h⟩ | ⟨hne, h⟩
    · cases h
    · exact .inl ⟨hm, (Except.ok.inj h).symm, hne⟩
  rcases ite_eq_iff.mp h with ⟨ht, h⟩ | ⟨-, h⟩
  · obtain _ | u := url
    · cases h
    exact .inr (.inr ⟨u, rfl, .inl ⟨ht, (Except.ok.inj h).symm⟩⟩)
  rcases ite_eq_iff.mp h with ⟨ha, h⟩ | ⟨-, h⟩
  · obtain _ | u := url
    · cases h
    rcases ite_eq_iff.mp h with ⟨-, h⟩ | ⟨hne, h⟩
    · cases h
    · exact .inr (.inr ⟨u, rfl, .inr (.inl ⟨ha, hne, (Except.ok.inj h).symm⟩)⟩)
  rcases ite_eq_iff.mp h with ⟨hs, h⟩ | ⟨-, h⟩
  · obtain _ | u := url
    · cases h
    rcases ite_eq_iff.mp h with ⟨-, h⟩ | ⟨hne, h⟩
    · cases h
    · exact .inr (.inr ⟨u, rfl, .inr (.inr (.inl ⟨hs, hne, (Except.ok.inj h).symm⟩))⟩)
  rcases ite_eq_iff.mp h with ⟨hr, h⟩ | ⟨-, h⟩
  · obtain _ | u := url
    · cases h
    refine .inr (.inr ⟨u, rfl, .inr (.inr (.inr (.inl ⟨hr, ?_⟩)))⟩)
    rcases ite_eq_iff.mp h with ⟨hq, h⟩ | ⟨hq, h⟩
    · rw [querySuffix, if_pos hq, Except.ok.inj h]
    · rw [querySuffix, if_neg hq, append_nil, Except.ok.inj h]
  rcases ite_eq_iff.mp h with ⟨hp, h⟩ | ⟨-, h⟩
  · obtain _ | u := url
    · cases h
    exact .inr (.inr ⟨u, rfl, .inr (.inr (.inr (.inr (.inl ⟨hp, (Except.ok.inj h).symm⟩))))⟩)
  rcases ite_eq_iff.mp h with ⟨hquery, h⟩ | ⟨-, h⟩
  · obtain _ | u := url
    · cases h
    refine .inr (.inr ⟨u, rfl, .inr (.inr (.inr (.inr (.inr (.inl ⟨hquery, ?_⟩)))))⟩)
    rcases ite_eq_iff.mp h with ⟨-, h⟩ | ⟨hq, h⟩
    · exact (Except.ok.inj h).symm
    · rw [not_not.mp hq, Except.ok.inj h]
  rcases ite_eq_iff.mp h with ⟨hparam, h⟩ | ⟨-, h⟩
  · obtain _ | u := url
    · cases h
    rcases ite_eq_iff.mp h with ⟨-, h⟩ | ⟨-, h⟩
    · cases h
    · exact .inr (.inr ⟨u, rfl, .inr (.inr (.inr (.inr (.inr (.inr ⟨hparam, h⟩)))))⟩)
  rcases ite_eq_iff.mp h with ⟨hstatus, h⟩ | ⟨-, h⟩
  · split_ifs at h
    exact .inr (.inl ⟨hstatus, (Except.ok.inj h).symm⟩)
  · cases h

/-! ## 3. The lines of a signature base -/

/-- A line of a signature base: the component and the value written for it. -/
structure Line where
  comp : ParsedComponent
  val : Bytes

abbrev Line.id (l : Line) : Bytes := l.comp.serialized

variable {ls : List Line}

def Line.text (l : Line) : Bytes := l.comp.serialized ++ lit ": " ++ l.val ++ [newline]

/-- The line `l` is what the raw identifier `c` stands for in the message `ctx`, its headers
visited in the order `ord`. -/
def Line.Reads (ord : MapOrder) (ctx : RequestContext) (c : Bytes) (l : Line) : Prop :=
  parseComponentIdentifier U c = .ok l.comp ∧ ∃ target, targetContext ctx l.comp = .ok target ∧
      deriveComponentValue U ord target l.comp = .ok l.val

/-- The lines are what the covered components stand for, the `i`-th read under `ord i`. -/
inductive Reading (ctx : RequestContext) : (Nat → MapOrder) → List Bytes → List Line → Prop where
  | nil {ord : Nat → MapOrder} : Reading ctx ord [] []
  | cons {ord : Nat → MapOrder} {c : Bytes} {comps : List Bytes} {l : Line} {ls : List Line} :
      l.Reads U (ord 0) ctx c → Reading ctx (fun i => ord (i + 1)) comps ls →
      Reading ctx ord (c :: comps) (l :: ls)

section
variable {U} {ctx : RequestContext}

theorem Reading.length_eq (h : Reading U ctx ord comps ls) : ls.length = comps.length := by
  induction h with
  | nil => rfl
  | cons _ _ ih => rw [length_cons, length_cons, ih]

theorem Reading.getElem (h : Reading U ctx ord comps ls) :
    ∀ i (hc : i < comps.length) (hl : i < ls.length), ls[i].Reads U (ord i) ctx comps[i] := by
  induction h with
  | nil => intro i hc; cases hc
  | cons hr _ ih =>
    intro i hc hl
    cases i with
    | zero => exact hr
    | succ i => exact ih i (by simpa using hc) (by simpa using hl)

theorem Reading.exists_reads (h : Reading U ctx ord comps ls) (hc : c ∈ comps) :
    ∃ i, ∃ l : Line, l.Reads U (ord i) ctx c := by
  obtain ⟨i, hi, rfl⟩ := getElem_of_mem hc
  exact ⟨i, _, h.getElem i hi (by rw [h.length_eq]; exact hi)⟩

end

/-- **What the loop writes**: one line for each covered component, no two of them with the
same identifier. -/
theorem baseLines_ok_iff {ctx : RequestContext} :
    ∀ {comps : List Bytes} {ord : Nat → MapOrder} {seen : List Bytes} {text : Bytes},
      baseLines U ord ctx seen comps = .ok text ↔
      ∃ ls : List Line, Reading U ctx ord comps ls ∧
        (ls.map Line.id).Nodup ∧
        (∀ l ∈ ls, l.comp.serialized ∉ seen) ∧ text = ls.flatMap Line.text
  | [], _, _, _ => by
    constructor
    · rintro ⟨⟩
      exact ⟨[], .nil, .nil, by simp, rfl⟩
    · rintro ⟨_, ⟨⟩, -, -, rfl⟩
      rfl
  | c :: rest, ord, seen, text => by
    rw [baseLines]
    constructor
    · intro h
      obtain ⟨p, hp, h⟩ := bind_eq_ok.mp h
      rcases ite_eq_iff.mp h with ⟨-, h⟩ | ⟨hnew, h⟩
      · cases h
      · obtain ⟨target, ht, h⟩ := bind_eq_ok.mp h
        obtain ⟨val, hv, h⟩ := bind_eq_ok.mp h
        obtain ⟨tail, hr, h⟩ := bind_eq_ok.mp h
        obtain ⟨ls, hls, hnodup, hseen, rfl⟩ := baseLines_ok_iff.mp hr
        refine ⟨⟨p, val⟩ :: ls, .cons ⟨hp, target, ht, hv⟩ hls, ?_, ?_, ?_⟩
        · refine nodup_cons.mpr ⟨?_, hnodup⟩
          intro hm
          obtain ⟨l, hl, he⟩ := mem_map.mp hm
          exact hseen l hl (mem_cons.mpr (.inl he))
        · intro l hl
          rcases mem_cons.mp hl with rfl | hl
          · exact hnew
          · exact fun hm => hseen l hl (mem_cons_of_mem _ hm)
        · rw [← Except.ok.inj h]
          simp [Line.text]
    · rintro ⟨_, hread, hnodup, hseen, rfl⟩
      obtain _ | ⟨hread, hls⟩ := hread
      rename_i l ls
      obtain ⟨hp, target, ht, hv⟩ := hread
      obtain ⟨hfresh, hnodup⟩ := nodup_cons.mp hnodup
      have hnew : l.comp.serialized ∉ seen := hseen l mem_cons_self
      have htail : baseLines U (fun i => ord (i + 1)) ctx (l.comp.serialized :: seen) rest =
          .ok (ls.flatMap Line.text) := by
        refine baseLines_ok_iff.mpr ⟨ls, hls, hnodup, ?_, rfl⟩
        intro k hk hm
        rcases mem_cons.mp hm with he | hm
        · exact hfresh (mem_map.mpr ⟨k, hk, he⟩)
        · exact hseen k (mem_cons_of_mem _ hk) hm
      simp [hp, bind, Except.bind, if_neg hnew, ht, hv, htail, Line.text]

/-- **What a signature base is**: a line for each component, no identifier twice, the line of
the parameters, and ASCII throughout. -/
theorem buildSignatureBase_ok_iff {ctx : RequestContext}
    {params : SignatureParams} {base : Bytes} :
    buildSignatureBase U ord ctx params = .ok base ↔ ∃ ls text, Reading U ctx ord params.components ls ∧
        (ls.map Line.id).Nodup ∧
        serializeSignatureParams U params = .ok text ∧
        base = ls.flatMap Line.text ++ paramsLineHead ++ text ∧ ∀ b ∈ base, b < 0x80 := by
  unfold buildSignatureBase
  constructor
  · intro h
    obtain ⟨lines, hl, h⟩ := bind_eq_ok.mp h
    obtain ⟨text, ht, h⟩ := bind_eq_ok.mp h
    rcases ite_eq_iff.mp h with ⟨hall, h⟩ | ⟨-, h⟩
    · obtain rfl := Except.ok.inj h
      obtain ⟨ls, hread, hnodup, -, rfl⟩ := (baseLines_ok_iff U).mp hl
      refine ⟨ls, text, hread, hnodup, ht, rfl, ?_⟩
      simpa only [all_eq_true, decide_eq_true_eq] using hall
    · cases h
  · rintro ⟨ls, text, hread, hnodup, ht, rfl, hascii⟩
    have hl : baseLines U ord ctx [] params.components = .ok (ls.flatMap Line.text) :=
      (baseLines_ok_iff U).mpr ⟨ls, hread, hnodup, by simp, rfl⟩
    simp only [hl, ht, bind, Except.bind]
    refine if_pos ?_
    simpa only [all_eq_true, decide_eq_true_eq] using hascii

theorem Reading.congr {ctx ctx' : RequestContext} {ord' : Nat → MapOrder}
    (h : Reading U ctx ord comps ls)
    (hc : ∀ i, ∀ c ∈ comps, ∀ l : Line, l.Reads U (ord i) ctx c → l.Reads U (ord' i) ctx' c) :
    Reading U ctx' ord' comps ls := by
  induction h generalizing ord' with
  | nil => exact .nil
  | cons hr _ ih =>
    refine .cons (hc 0 _ mem_cons_self _ hr) (ih ?_)
    intro i c hmem l hl
    exact hc (i + 1) c (mem_cons_of_mem _ hmem) l hl

end AoniContrib.HttpSig
