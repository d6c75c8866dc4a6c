/-
# The lines of a signature base

A signature base is read line by line, so it is unambiguous only if nothing written into it
holds a newline.  Header values are cleaned, query parameters and the escaped parts of
`@target-uri` are percent-encoded, and a `bs` field is base64; everything else (`rawSources`) is
written as it stands in the message, and `URL.Path` is DECODED: a `%0A` in the request target
becomes a line break in `@path` and `@request-target`.

`lineUnambiguous_iff` says exactly when a base reads back as its lines: when no identifier, no
parameter and none of the raw sources holds a newline.  The count of lines alone decides it.
-/
import AoniContrib.Data.Split
import AoniContrib.HttpSig.Identifier

namespace AoniContrib.HttpSig

open Go Data List

variable {text val : Bytes} {ls : List Line} {ord : Nat → MapOrder} {comp : ParsedComponent}
  {ctx : RequestContext}

variable (U : Unicode)

/-! ## 1. The property and the condition -/

/-- Split at newlines, the base is one line for each component, headed by its identifier, and
the line of the parameters. -/
def LineUnambiguous (params : SignatureParams) (base : Bytes) : Prop :=
  (base.splitOn newline).length = params.components.length + 1 ∧
    (∀ (i : Nat) (hi : i < params.components.length),
      ∃ id ∈ identifierOf U params.components[i], ∃ line ∈ (base.splitOn newline)[i]?,
        (id ++ lit ": ") <+: line) ∧
    ∃ line ∈ (base.splitOn newline)[params.components.length]?, paramsLineHead <+: line

instance (params : SignatureParams) (base : Bytes) : Decidable (LineUnambiguous U params base) :=
  inferInstanceAs (Decidable (_ ∧ _ ∧ _))

/-- The parts of a URL that a derived component writes as they are. -/
def urlSources (name : Bytes) (u : URL) : List Bytes :=
  if name = compTargetURI then [u.scheme, u.opaq, u.rawQuery]
  else if name = compAuthority then [u.host]
  else if name = compScheme then [u.scheme]
  else if name = compRequestTarget then [u.path, u.rawQuery]
  else if name = compPath then [u.path]
  else if name = compQuery then [u.rawQuery]
  else []

section
variable (u : URL)

@[simp] theorem urlSources_targetURI :
    urlSources compTargetURI u = [u.scheme, u.opaq, u.rawQuery] := rfl
@[simp] theorem urlSources_authority : urlSources compAuthority u = [u.host] := rfl
@[simp] theorem urlSources_scheme : urlSources compScheme u = [u.scheme] := rfl
@[simp] theorem urlSources_requestTarget : urlSources compRequestTarget u = [u.path, u.rawQuery] := rfl
@[simp] theorem urlSources_path : urlSources compPath u = [u.path] := rfl
@[simp] theorem urlSources_query : urlSources compQuery u = [u.rawQuery] := rfl
@[simp] theorem urlSources_queryParam : urlSources compQueryParam u = [] := rfl
@[simp] theorem urlSources_status : urlSources compStatus u = [] := rfl

end

/-- The item of a dictionary field is the member `key`. -/
def isMember (key item : Bytes) : Bool :=
  trimSpace item ≠ [] &&
    match cut equals (trimSpace item) with
    | none => equalFold U (trimSpace item) key
    | some (k, _) => equalFold U (trimSpace k) key

def memberValue (item : Bytes) : Bytes :=
  match cut equals (trimSpace item) with
  | none => lit "?1"
  | some (_, val) => trimSpace val

/-- The parts of a message that a component writes as they are. -/
def rawSources (ord : MapOrder) (ctx : RequestContext) (comp : ParsedComponent) : List Bytes :=
  if hasPrefix atSign comp.name then
    if comp.name = compMethod then [ctx.method]
    else match ctx.url with
      | none => []
      | some u => urlSources comp.name u
  else if comp.bs || comp.key = [] then []
  else match if comp.tr then ctx.trailers else ctx.header with
    | none => []
    | some headers =>
      (((join (lit ", ") (matchValues U ord headers comp.name)).splitOn comma).find?
        (isMember U comp.key)).toList.map memberValue

/-- No identifier, no raw source of a component and no string parameter holds a newline. -/
def NewlineFree (ord : Nat → MapOrder) (ctx : RequestContext) (params : SignatureParams) : Prop :=
  (∀ c ∈ params.components, ∀ id ∈ identifierOf U c, newline ∉ id) ∧
    (∀ (i : Nat) (hi : i < params.components.length),
      ∀ p ∈ (parseComponentIdentifier U params.components[i]).toOption,
        ∀ target ∈ (targetContext ctx p).toOption, ∀ s ∈ rawSources U (ord i) target p, newline ∉ s) ∧
    ∀ v ∈ [params.keyID, params.alg, params.nonce, params.tag], newline ∉ v

instance (ord : Nat → MapOrder) (ctx : RequestContext) (params : SignatureParams) :
    Decidable (NewlineFree U ord ctx params) :=
  inferInstanceAs (Decidable (_ ∧ _ ∧ _))

/-! ## 2. Where a newline in a value comes from -/

theorem newline_not_mem_cleanHeaderValue (v : Bytes) : newline ∉ cleanHeaderValue v :=
  not_mem_replaceByte (by decide) (old_not_mem_replaceByte (by decide) _)

theorem newline_not_mem_formatInt (n : Int64) : newline ∉ formatInt n := by
  intro h
  rcases mem_formatInt h with h | h
  · exact absurd h (by decide)
  · exact absurd h (by decide)

theorem newline_not_mem_stdEncode (s : Bytes) : newline ∉ stdEncoding.encode s := by
  intro h
  rcases mem_stdEncode h with h | h
  · exact absurd h (by decide)
  · exact absurd h (by decide)

theorem newline_mem_toLower_iff (s : Bytes) : newline ∈ toLower U s ↔ newline ∈ s :=
  mem_toLower_iff U (by decide) (by decide) s

theorem newline_mem_pathOrRoot_iff (u : URL) : newline ∈ pathOrRoot u ↔ newline ∈ u.path := by
  unfold pathOrRoot
  split
  · rename_i h
    simp [h]
  · rfl

theorem newline_mem_normalizeAuthority_iff (u : URL) :
    newline ∈ normalizeAuthority U u ↔ newline ∈ u.host := by
  have hhost : newline ∈ toLower U u.hostname ↔ newline ∈ u.host := by
    rw [newline_mem_toLower_iff]
    exact u.mem_hostname_iff (by decide) (by decide) (by decide) (by decide)
  have hport : newline ∉ u.port := fun h => absurd (u.digit_of_mem_port h) (by decide)
  unfold normalizeAuthority
  simp only
  split
  · exact hhost
  · split
    · exact hhost
    · rw [mem_append, hhost, mem_cons]
      simp only [hport, or_false]
      exact or_iff_left (by decide)

theorem newline_not_mem_deriveQueryParam {rawQuery paramName : Bytes}
    (h : deriveQueryParam rawQuery paramName = .ok val) : newline ∉ val := by
  unfold deriveQueryParam at h
  split at h
  · cases h
  · split at h
    · cases h
    · split at h
      · cases h
      · obtain rfl := Except.ok.inj h
        exact URL.newline_not_mem_escape _ _
      · cases h

theorem findMember_eq (key : Bytes) :
    ∀ items : List Bytes, findMember U key items = (items.find? (isMember U key)).map memberValue
  | [] => rfl
  | item :: items => by
    have ih := findMember_eq key items
    rw [findMember, find?_cons]
    by_cases hi : trimSpace item = []
    · simp [isMember, hi, ih]
    · simp only [hi, if_false]
      cases hc : cut equals (trimSpace item) with
      | none =>
        have hm : isMember U key item = equalFold U (trimSpace item) key := by simp [isMember, hi, hc]
        have hv : memberValue item = lit "?1" := by simp [memberValue, hc]
        rw [hm, ih]
        cases equalFold U (trimSpace item) key <;> simp [hv]
      | some kv =>
        obtain ⟨k, v⟩ := kv
        have hm : isMember U key item = equalFold U (trimSpace k) key := by simp [isMember, hi, hc]
        have hv : memberValue item = trimSpace v := by simp [memberValue, hc]
        rw [hm, ih]
        cases hf : equalFold U (trimSpace k) key <;> simp [hf, hv]

theorem newline_mem_derived_iff (ord : MapOrder) (h : deriveDerivedComponent U ctx comp = .ok val) :
    newline ∈ val ↔ ∃ s ∈ rawSources U ord ctx comp, newline ∈ s := by
  -- the sources of a component that reads the URL, by its name
  have hsrc : ∀ {name : Bytes} {u : URL}, comp.name = name → hasPrefix atSign name = true →
      name ≠ compMethod → ctx.url = some u → rawSources U ord ctx comp = urlSources name u := by
    intro name u hn hat hm hu
    rw [rawSources, hn, if_pos hat, if_neg hm, hu]
  rcases deriveDerivedComponent_ok U h with ⟨hn, rfl, -⟩ | ⟨hn, rfl⟩ | ⟨u, hu, h⟩
  · have hat : hasPrefix atSign comp.name = true := by rw [hn]; decide
    rw [rawSources, if_pos hat, if_pos hn]
    simp
  · have hat : hasPrefix atSign comp.name = true := by rw [hn]; decide
    have hm : comp.name ≠ compMethod := by rw [hn]; decide
    have hempty : rawSources U ord ctx comp = [] := by
      rw [rawSources, if_pos hat, if_neg hm]
      cases ctx.url with
      | none => rfl
      | some u => simp [hn]
    simp [hempty, newline_not_mem_formatInt]
  · rcases h with ⟨hn, rfl⟩ | ⟨hn, -, rfl⟩ | ⟨hn, -, rfl⟩ | ⟨hn, rfl⟩ | ⟨hn, rfl⟩ | ⟨hn, rfl⟩ | ⟨hn, hq⟩
    · rw [hsrc hn (by decide) (by decide) hu, URL.newline_mem_string_iff]
      simp
    · rw [hsrc hn (by decide) (by decide) hu, newline_mem_normalizeAuthority_iff]
      simp
    · rw [hsrc hn (by decide) (by decide) hu, newline_mem_toLower_iff]
      simp
    · rw [hsrc hn (by decide) (by decide) hu, mem_append, newline_mem_pathOrRoot_iff, querySuffix]
      split
      · simp
      · rename_i hq
        simp [not_not.mp hq]
    · rw [hsrc hn (by decide) (by decide) hu, newline_mem_pathOrRoot_iff]
      simp
    · rw [hsrc hn (by decide) (by decide) hu]
      simp
    · rw [hsrc hn (by decide) (by decide) hu]
      simp [newline_not_mem_deriveQueryParam hq]

theorem newline_mem_field_iff {ord : MapOrder}
    (hat : ¬ hasPrefix atSign comp.name = true)
    (h : deriveHTTPField U ord ctx comp = .ok val) :
    newline ∈ val ↔ ∃ s ∈ rawSources U ord ctx comp, newline ∈ s := by
  have hsep : newline ∉ lit ", " := by decide
  unfold deriveHTTPField at h
  split at h
  · cases h
  · rename_i headers hh
    simp only at h
    split at h
    · cases h
    · split at h
      · rename_i hbs
        obtain rfl := Except.ok.inj h
        rw [mem_join_iff hsep, rawSources, if_neg hat, if_pos (by simp [hbs])]
        simp [newline_not_mem_stdEncode]
      · rename_i hbs
        split at h
        · rename_i hkey
          rw [rawSources, if_neg hat, if_neg (by simp [hbs, hkey]), hh]
          unfold extractDictionaryKey at h
          rw [findMember_eq] at h
          split at h
          · rename_i v hv
            obtain rfl := Except.ok.inj h
            obtain ⟨item, hi, rfl⟩ := Option.map_eq_some_iff.mp hv
            simp only [hi]
            simp
          · cases h
        · rename_i hkey
          obtain rfl := Except.ok.inj h
          rw [mem_join_iff hsep, rawSources, if_neg hat, if_pos (by simp [not_not.mp hkey])]
          simp [newline_not_mem_cleanHeaderValue]

/-- **Where a newline in a value comes from.** -/
theorem newline_mem_value_iff {ord : MapOrder}
    (h : deriveComponentValue U ord ctx comp = .ok val) :
    newline ∈ val ↔ ∃ s ∈ rawSources U ord ctx comp, newline ∈ s := by
  unfold deriveComponentValue at h
  split at h
  · exact newline_mem_derived_iff U ord h
  · rename_i hat
    exact newline_mem_field_iff U hat h

/-! ## 3. The line of the parameters -/

theorem newline_not_mem_intParam {name : String} (hname : newline ∉ lit name) (n : Int64) :
    newline ∉ intParam name n := by
  unfold intParam
  split
  · rw [mem_append, not_or]
    exact ⟨hname, newline_not_mem_formatInt n⟩
  · simp

theorem newline_mem_stringParam_iff {name : String} (hname : newline ∉ lit name) (v : Bytes) :
    newline ∈ stringParam name v ↔ newline ∈ v := by
  unfold stringParam
  split
  · rw [mem_append, mem_append]
    simp only [hname, false_or]
    exact or_iff_left (by decide)
  · rename_i hv
    simp [not_not.mp hv]

theorem newline_mem_paramsText_iff (params : SignatureParams) : newline ∈ paramsText params ↔
      ∃ v ∈ [params.keyID, params.alg, params.nonce, params.tag], newline ∈ v := by
  have hcreated : newline ∉ intParam ";created=" params.created :=
    newline_not_mem_intParam (by decide) _
  have hexpires : newline ∉ intParam ";expires=" params.expires :=
    newline_not_mem_intParam (by decide) _
  unfold paramsText
  simp only [mem_append, hcreated, hexpires, false_or]
  rw [newline_mem_stringParam_iff (by decide), newline_mem_stringParam_iff (by decide),
    newline_mem_stringParam_iff (by decide), newline_mem_stringParam_iff (by decide)]
  simp [or_assoc]

theorem serializedIdentifiers_of_reading {comps : List Bytes} (h : Reading U ctx ord comps ls) :
    serializedIdentifiers U comps = .ok (ls.map Line.id) := by
  induction h with
  | nil => rfl
  | cons hr _ ih => simp [serializedIdentifiers, hr.1, ih, bind, Except.bind]

theorem newline_mem_serialized_iff {params : SignatureParams}
    (hread : Reading U ctx ord params.components ls)
    (ht : serializeSignatureParams U params = .ok text) :
    newline ∈ text ↔ (∃ l ∈ ls, newline ∈ l.comp.serialized) ∨
      ∃ v ∈ [params.keyID, params.alg, params.nonce, params.tag], newline ∈ v := by
  have hsep : newline ∉ [space] := by decide
  simp only [serializeSignatureParams, serializedIdentifiers_of_reading U hread, bind,
    Except.bind, Except.ok.injEq] at ht
  rw [← ht, mem_append, newline_mem_paramsText_iff, mem_append, mem_append, mem_join_iff hsep]
  simp

/-! ## 4. The exact condition -/

def Line.body (l : Line) : Bytes := l.comp.serialized ++ lit ": " ++ l.val

theorem Line.text_eq (l : Line) : l.text = l.body ++ [newline] := rfl

theorem Line.newline_not_mem_body_iff (l : Line) :
    newline ∉ l.body ↔ newline ∉ l.comp.serialized ∧ newline ∉ l.val := by
  have hsep : newline ∉ lit ": " := by decide
  rw [Line.body, mem_append, mem_append, not_or, not_or]
  simp only [hsep, not_false_eq_true, and_true]

theorem count_flatMap_text (ls : List Line) : (ls.flatMap Line.text).count newline =
      ls.length + (ls.map (fun l => l.body.count newline)).sum := by
  induction ls with
  | nil => rfl
  | cons l ls ih =>
    rw [flatMap_cons, count_append, ih, Line.text_eq, count_append, map_cons,
      sum_cons, length_cons, count_singleton_self]
    omega

theorem length_splitOn_base_iff (ls : List Line) (text : Bytes) :
    ((ls.flatMap Line.text ++ paramsLineHead ++ text).splitOn newline).length = ls.length + 1 ↔
      (∀ l ∈ ls, newline ∉ l.body) ∧ newline ∉ text := by
  have hhead : paramsLineHead.count newline = 0 := by decide
  rw [length_splitOn, count_append, count_append, hhead, count_flatMap_text,
    ← count_eq_zero (l := text)]
  have hsum : (ls.map (fun l => l.body.count newline)).sum = 0 ↔ ∀ l ∈ ls, newline ∉ l.body := by
    rw [sum_eq_zero_iff]
    simp only [mem_map, forall_exists_index, and_imp, forall_apply_eq_imp_iff₂, count_eq_zero]
  rw [← hsum]
  omega

theorem splitOn_base (hls : ∀ l ∈ ls, newline ∉ l.body)
    (ht : newline ∉ text) :
    (ls.flatMap Line.text ++ paramsLineHead ++ text).splitOn newline =
      ls.map Line.body ++ [paramsLineHead ++ text] := by
  have hhead : newline ∉ paramsLineHead := by decide
  have hlast : newline ∉ paramsLineHead ++ text := by
    rw [mem_append, not_or]
    exact ⟨hhead, ht⟩
  have hbody : ∀ l ∈ ls.map Line.body, newline ∉ l := by
    intro l hl
    obtain ⟨k, hk, rfl⟩ := mem_map.mp hl
    exact hls k hk
  have h := splitOn_lines newline hlast hbody
  rw [flatMap_map] at h
  rw [append_assoc]
  exact h

theorem lineUnambiguous_iff_bodies {params : SignatureParams}
    (hread : Reading U ctx ord params.components ls) :
    LineUnambiguous U params (ls.flatMap Line.text ++ paramsLineHead ++ text) ↔
      (∀ l ∈ ls, newline ∉ l.body) ∧ newline ∉ text := by
  have hlen := hread.length_eq
  constructor
  · rintro ⟨hcount, -, -⟩
    rw [← hlen] at hcount
    exact (length_splitOn_base_iff ls text).mp hcount
  · rintro ⟨hls, ht⟩
    rw [LineUnambiguous, splitOn_base hls ht]
    refine ⟨by simp [hlen], fun i hi => ?_, paramsLineHead ++ text, ?_, prefix_append _ _⟩
    · have hil : i < ls.length := by omega
      refine ⟨ls[i].comp.serialized, ?_, ls[i].body, ?_, prefix_append _ _⟩
      · exact identifierOf_ok U (hread.getElem i hi hil).1
      · rw [getElem?_append_left (by simpa using hil), getElem?_map, getElem?_eq_getElem hil]
        rfl
    · rw [← hlen, getElem?_append_right (by simp)]
      simp

/-- **When a signature base is line-unambiguous.** -/
theorem lineUnambiguous_iff {ord : Nat → MapOrder} {ctx : RequestContext}
    {params : SignatureParams} {base : Bytes} (h : buildSignatureBase U ord ctx params = .ok base) :
    LineUnambiguous U params base ↔ NewlineFree U ord ctx params := by
  obtain ⟨ls, text, hread, -, ht, rfl, -⟩ := (buildSignatureBase_ok_iff U).mp h
  have hlen := hread.length_eq
  rw [lineUnambiguous_iff_bodies U hread, newline_mem_serialized_iff U hread ht]
  simp only [Line.newline_not_mem_body_iff]
  constructor
  · rintro ⟨hbody, htext⟩
    rw [not_or] at htext
    refine ⟨?_, ?_, fun v hv hm => htext.2 ⟨v, hv, hm⟩⟩
    · intro c hc id hid
      obtain ⟨i, hi, rfl⟩ := getElem_of_mem hc
      have hil : i < ls.length := by omega
      rw [identifierOf_ok U (hread.getElem i hi hil).1] at hid
      obtain rfl := Option.some.inj hid
      exact (hbody ls[i] (getElem_mem hil)).1
    · intro i hi p hp target htarget s hs hm
      have hil : i < ls.length := by omega
      obtain ⟨hparse, t, ht, hval⟩ := hread.getElem i hi hil
      rw [hparse] at hp
      obtain rfl := Option.some.inj hp
      rw [ht] at htarget
      obtain rfl := Option.some.inj htarget
      exact (hbody ls[i] (getElem_mem hil)).2 ((newline_mem_value_iff U hval).mpr ⟨s, hs, hm⟩)
  · rintro ⟨hid, hsrc, hparam⟩
    have hser : ∀ l ∈ ls, newline ∉ l.comp.serialized := by
      intro l hl
      obtain ⟨i, hil, rfl⟩ := getElem_of_mem hl
      have hi : i < params.components.length := by omega
      exact hid _ (getElem_mem hi) _ (identifierOf_ok U (hread.getElem i hi hil).1)
    refine ⟨fun l hl => ⟨hser l hl, fun hm => ?_⟩, ?_⟩
    · obtain ⟨i, hil, rfl⟩ := getElem_of_mem hl
      have hi : i < params.components.length := by omega
      obtain ⟨hparse, t, ht, hval⟩ := hread.getElem i hi hil
      obtain ⟨s, hs, hms⟩ := (newline_mem_value_iff U hval).mp hm
      exact hsrc i hi _ (by rw [hparse]; rfl) t (by rw [ht]; rfl) s hs hms
    · rintro (⟨l, hl, hm⟩ | ⟨v, hv, hm⟩)
      · exact hser l hl hm
      · exact hparam v hv hm

/-! ## 5. A forged line -/

namespace Example

def pathContext (target : String) : RequestContext :=
  { method := lit "GET", url := parseOriginForm (lit target) }

def pathParams : SignatureParams := { components := [compPath], keyID := lit "k" }

end Example

open Example in
/-- A `%0A` in the path: one component, three lines, the second of them forged. -/
theorem lineUnambiguous_forged :
    buildSignatureBase .ascii (fun _ => .listed) (pathContext "/a%0A%22@method%22:%20DELETE")
        pathParams =
      .ok (lit "\"@path\": /a\n\"@method\": DELETE\n\"@signature-params\": (\"@path\");keyid=\"k\"") ∧
    ¬ LineUnambiguous .ascii pathParams
      (lit "\"@path\": /a\n\"@method\": DELETE\n\"@signature-params\": (\"@path\");keyid=\"k\"") := by
  decide

open Example in
theorem lineUnambiguous_plain : LineUnambiguous .ascii pathParams
      (lit "\"@path\": /a%20b\n\"@signature-params\": (\"@path\");keyid=\"k\"") := by
  have h : buildSignatureBase .ascii (fun _ => .listed) (pathContext "/a%2520b") pathParams =
      .ok (lit "\"@path\": /a%20b\n\"@signature-params\": (\"@path\");keyid=\"k\"") := by
    decide
  exact (lineUnambiguous_iff .ascii h).mpr (by decide)

end AoniContrib.HttpSig
