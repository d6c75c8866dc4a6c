/-
# The order in which header maps are visited

`deriveHTTPField` collects the values of a field with a `range` over the header map, from every key
that folds to the name.  Go leaves the order of a `range` open, so a map with the keys `X-Tag` and
`x-tag` gives the values in one order or the other, and a signature base that depends on it is
verified or not by chance.

`base_order_iff` says for which messages the order does not matter.  Of the values under two such keys
the one text joined from them must read the same in either order, and of the members selected with
`key` there must not be two different ones.
-/
import AoniContrib.Data.Rearrange
import AoniContrib.HttpSig.RoundTrip

namespace AoniContrib.HttpSig

open Go Data List

variable (U : Unicode)

/-! ## 1. The values under the keys of one field -/

/-- The key folds to the name and has values. -/
def carries (name : Bytes) (e : Bytes × List Bytes) : Bool := equalFold U e.1 name && !e.2.isEmpty

def fieldEntries (headers : Header) (name : Bytes) : List (Bytes × List Bytes) :=
  headers.entries.filter (carries U name)

theorem fieldEntries_ne_nil {headers : Header} {name : Bytes} {e : Bytes × List Bytes}
    (h : e ∈ fieldEntries U headers name) : e.2 ≠ [] := by
  have hcarries := (mem_filter.mp h).2
  rw [carries, Bool.and_eq_true, Bool.not_eq_true', isEmpty_eq_false_iff] at hcarries
  exact hcarries.2

theorem matchValues_visit (ord : MapOrder) (headers : Header) (name : Bytes) :
    matchValues U ord headers name = ((ord.visit headers).filter (carries U name)).flatMap Prod.snd := by
  rw [← flatMap_ite, matchValues]
  refine flatMap_congr fun e _ => ?_
  unfold carries
  cases he : e.2 with
  | nil | cons v vs => simp

/-- **The arrangements of the entries of a field are the orders in which they are visited.** -/
theorem exists_visit {headers : Header} {name : Bytes} {l : List (Bytes × List Bytes)}
    (h : l.Perm (fieldEntries U headers name)) :
    ∃ ord : MapOrder, matchValues U ord headers name = l.flatMap Prod.snd := by
  let visited := l ++ headers.entries.filter (fun e => !carries U name e)
  have hperm : visited.Perm headers.entries :=
    (h.append_right _).trans (filter_append_perm (carries U name) headers.entries)
  refine ⟨⟨fun x => if x = headers then visited else x.entries, fun x => ?_⟩, ?_⟩
  · split
    · rename_i hx
      rw [hx]
      exact hperm
    · exact List.Perm.refl _
  · have hkeep : l.filter (carries U name) = l := by
      rw [filter_eq_self]
      exact fun e he => (mem_filter.mp (h.subset he)).2
    rw [matchValues_visit]
    dsimp only
    rw [if_pos rfl, filter_append, hkeep, filter_filter]
    simp

/-! ## 2. What a field component makes of them -/

/-- What `deriveHTTPField` does with the values it has collected. -/
def fieldValue (p : ParsedComponent) (values : List Bytes) : Except Err Bytes :=
  if values = [] then .error (.wrap .errMissingComponent "header %q not found in message" [p.name])
  else if p.bs then
    .ok (join (lit ", ") (values.map (fun v =>
      colon :: stdEncoding.encode (cleanHeaderValue v) ++ [colon])))
  else if p.key ≠ [] then extractDictionaryKey U (join (lit ", ") values) p.key
  else .ok (join (lit ", ") (values.map cleanHeaderValue))

theorem deriveHTTPField_eq (ord : MapOrder) (ctx : RequestContext) (p : ParsedComponent) :
    deriveHTTPField U ord ctx p =
      match if p.tr then ctx.trailers else ctx.header with
      | none => .error (.wrap .errMissingComponent "header %q not found" [p.name])
      | some headers => fieldValue U p (matchValues U ord headers p.name) := rfl

/-- The text written for the values under one key. -/
def keyText (p : ParsedComponent) (vs : List Bytes) : Bytes :=
  join (lit ", ") (vs.map fun v => if p.bs then colon :: stdEncoding.encode (cleanHeaderValue v) ++ [colon]
    else cleanHeaderValue v)

/-- The member that is selected from the values under one key. -/
def keyMember (key : Bytes) (vs : List Bytes) : Option Bytes :=
  findMember U key (vs.flatMap (List.splitOn comma))

theorem findMember_append (key : Bytes) (xs ys : List Bytes) :
    findMember U key (xs ++ ys) = (findMember U key xs).or (findMember U key ys) := by
  induction xs with
  | nil => rfl
  | cons x xs ih =>
    rw [cons_append, findMember, findMember, ih]
    split
    · rfl
    · split
      · split <;> rfl
      · split <;> rfl

theorem findMember_blank (key x : Bytes) (xs : List Bytes) :
    findMember U key ((space :: x) :: xs) = findMember U key (x :: xs) := by
  rw [findMember, findMember, trimSpace_cons_space (by decide)]

theorem findMember_join (key : Bytes) : ∀ vs : List Bytes, vs ≠ [] →
    findMember U key ((join (lit ", ") vs).splitOn comma) = keyMember U key vs
  | [], h => absurd rfl h
  | [v], _ => by simp [keyMember, join, List.intercalate]
  | v :: w :: vs, _ => by
    have ih := findMember_join key (w :: vs) (cons_ne_nil _ _)
    have hsep : lit ", " = [comma, space] := by decide
    have hjoin : join (lit ", ") (v :: w :: vs) =
        v ++ comma :: (space :: join (lit ", ") (w :: vs)) := by
      rw [join, intercalate_cons (cons_ne_nil _ _), hsep, join]
      simp
    have hblank : findMember U key ((space :: join (lit ", ") (w :: vs)).splitOn comma) =
        findMember U key ((join (lit ", ") (w :: vs)).splitOn comma) := by
      rw [splitOn_cons_eq_if_modifyHead, if_neg (by decide)]
      cases hs : (join (lit ", ") (w :: vs)).splitOn comma with
      | nil => rfl
      | cons x xs => rw [modifyHead_cons, findMember_blank]
    rw [hjoin, splitOn_append_cons_self, findMember_append, hblank, ih]
    simp only [keyMember, flatMap_cons, findMember_append]

theorem keyMember_flatMap (key : Bytes) (l : List (Bytes × List Bytes)) :
    keyMember U key (l.flatMap Prod.snd) = l.findSome? fun e => keyMember U key e.2 := by
  induction l with
  | nil => rfl
  | cons e l ih =>
    rw [flatMap_cons, findSome?_cons, ← ih, keyMember, flatMap_append,
      findMember_append, ← keyMember, ← keyMember]
    cases keyMember U key e.2 <;> rfl

/-- The values under two keys may be visited in either order. -/
def Swappable (p : ParsedComponent) (e e' : Bytes × List Bytes) : Prop :=
  if p.bs = false ∧ p.key ≠ [] then
    ∀ x y, keyMember U p.key e.2 = some x → keyMember U p.key e'.2 = some y → x = y
  else keyText p e.2 ++ lit ", " ++ keyText p e'.2 = keyText p e'.2 ++ lit ", " ++ keyText p e.2

section
variable {l : List (Bytes × List Bytes)} {p : ParsedComponent}

theorem flatMap_snd_eq_nil (hl : ∀ e ∈ l, e.2 ≠ []) : l.flatMap Prod.snd = [] ↔ l = [] := by
  cases l with
  | nil => simp
  | cons e l => simpa using fun h => absurd h (hl e mem_cons_self)

theorem fieldValue_member (h : p.bs = false ∧ p.key ≠ []) (hl : ∀ e ∈ l, e.2 ≠ []) (hne : l ≠ []) :
    fieldValue U p (l.flatMap Prod.snd) = (l.findSome? fun e => keyMember U p.key e.2).elim
      (.error (.wrap .errMissingComponent "dictionary key %q not found in header" [p.key])) .ok := by
  have hvalues : l.flatMap Prod.snd ≠ [] := mt (flatMap_snd_eq_nil hl).mp hne
  rw [fieldValue, if_neg hvalues, if_neg (by simp [h.1]), if_pos h.2, extractDictionaryKey,
    findMember_join U _ _ hvalues, keyMember_flatMap]
  cases l.findSome? fun e => keyMember U p.key e.2 <;> rfl

theorem fieldValue_text (h : ¬ (p.bs = false ∧ p.key ≠ [])) (hl : ∀ e ∈ l, e.2 ≠ []) (hne : l ≠ []) :
    fieldValue U p (l.flatMap Prod.snd) =
      .ok ((lit ", ").intercalate (l.map fun e => keyText p e.2)) := by
  have hvalues : l.flatMap Prod.snd ≠ [] := mt (flatMap_snd_eq_nil hl).mp hne
  have hjoin : ∀ g : Bytes → Bytes, join (lit ", ") ((l.flatMap Prod.snd).map g) =
      (lit ", ").intercalate (l.map fun e => join (lit ", ") (e.2.map g)) := by
    intro g
    rw [map_flatMap, join, intercalate_flatMap fun e he => by simpa using hl e he]
    rfl
  rw [fieldValue, if_neg hvalues]
  cases hbs : p.bs with
  | true =>
    rw [if_pos rfl, hjoin]
    simp [keyText, hbs]
  | false =>
    have hkey : p.key = [] := by simpa [hbs] using h
    rw [if_neg (by simp), if_neg (by simp [hkey]), hjoin]
    simp [keyText, hbs]

/-- **The value of a field does not depend on the order of its keys exactly if any two of them may
be visited in either order.** -/
theorem fieldValue_rearrange_iff (hl : ∀ e ∈ l, e.2 ≠ []) :
    (∀ l' : List (Bytes × List Bytes), l'.Perm l →
      fieldValue U p (l'.flatMap Prod.snd) = fieldValue U p (l.flatMap Prod.snd)) ↔
      l.Pairwise (Swappable U p) := by
  by_cases hne : l = []
  · subst hne
    refine iff_of_true (fun l' hp => ?_) List.Pairwise.nil
    rw [perm_nil.mp hp]
  have hperm : ∀ {l' : List (Bytes × List Bytes)}, l'.Perm l → (∀ e ∈ l', e.2 ≠ []) ∧ l' ≠ [] := by
    intro l' hp
    refine ⟨fun e he => hl e (hp.subset he), ?_⟩
    rintro rfl
    exact hne (nil_perm.mp hp)
  by_cases hmode : p.bs = false ∧ p.key ≠ []
  · have hswap : Swappable U p = fun e e' =>
        ∀ x y, keyMember U p.key e.2 = some x → keyMember U p.key e'.2 = some y → x = y := by
      funext e e'
      rw [Swappable, if_pos hmode]
    rw [hswap, ← findSome?_rearrange_iff fun e : Bytes × List Bytes => keyMember U p.key e.2]
    refine forall_congr' fun l' => imp_congr_right fun hp => ?_
    rw [fieldValue_member U hmode (hperm hp).1 (hperm hp).2, fieldValue_member U hmode hl hne]
    cases l'.findSome? fun e => keyMember U p.key e.2 <;>
      cases l.findSome? fun e => keyMember U p.key e.2 <;> simp
  · have hswap : Swappable U p = fun e e' =>
        keyText p e.2 ++ lit ", " ++ keyText p e'.2 = keyText p e'.2 ++ lit ", " ++ keyText p e.2 := by
      funext e e'
      rw [Swappable, if_neg hmode]
    rw [hswap, ← intercalate_rearrange_iff (lit ", ") fun e : Bytes × List Bytes => keyText p e.2]
    refine forall_congr' fun l' => imp_congr_right fun hp => ?_
    rw [fieldValue_text U hmode (hperm hp).1 (hperm hp).2, fieldValue_text U hmode hl hne,
      Except.ok.injEq]

theorem fieldValue_error {l' : List (Bytes × List Bytes)} (hl : ∀ e ∈ l, e.2 ≠ []) (hp : l'.Perm l)
    {err : Err} (h : fieldValue U p (l'.flatMap Prod.snd) = .error err) :
    fieldValue U p (l.flatMap Prod.snd) = .error err := by
  by_cases hne : l = []
  · subst hne
    rwa [perm_nil.mp hp] at h
  have hl' : ∀ e ∈ l', e.2 ≠ [] := fun e he => hl e (hp.subset he)
  have hne' : l' ≠ [] := by
    rintro rfl
    exact hne (nil_perm.mp hp)
  by_cases hmode : p.bs = false ∧ p.key ≠ []
  · rw [fieldValue_member U hmode hl' hne'] at h
    rw [fieldValue_member U hmode hl hne]
    cases hfind : l'.findSome? fun e => keyMember U p.key e.2 with
    | some val => rw [hfind] at h; cases h
    | none =>
      have hnone : l.findSome? (fun e => keyMember U p.key e.2) = none := by
        rw [findSome?_eq_none_iff] at hfind ⊢
        exact fun e he => hfind e (hp.symm.subset he)
      rw [hfind] at h
      rw [hnone]
      exact h
  · rw [fieldValue_text U hmode hl' hne'] at h
    cases h

end

/-! ## 3. Components -/

/-- The values of the component may be visited in any order. -/
def AnyOrder (ctx : RequestContext) (p : ParsedComponent) : Prop :=
  hasPrefix atSign p.name = false → ∀ target headers, targetContext ctx p = .ok target →
    (if p.tr then target.trailers else target.header) = some headers →
    (fieldEntries U headers p.name).Pairwise (Swappable U p)

section
variable {ctx : RequestContext} {p : ParsedComponent}

theorem componentValue_cases (ctx : RequestContext) (p : ParsedComponent) :
    (∃ r, ∀ ord, componentValue U ord ctx p = r) ∧ AnyOrder U ctx p ∨
    ∃ headers, (∀ ord, componentValue U ord ctx p =
        fieldValue U p (((ord.visit headers).filter (carries U p.name)).flatMap Prod.snd)) ∧
      (AnyOrder U ctx p ↔ (fieldEntries U headers p.name).Pairwise (Swappable U p)) := by
  cases ht : targetContext ctx p with
  | error e =>
    refine .inl ⟨⟨.error e, fun ord => by rw [componentValue, ht]; rfl⟩, ?_⟩
    intro _ target headers htarget
    rw [ht] at htarget
    cases htarget
  | ok target =>
    cases hat : hasPrefix atSign p.name with
    | true =>
      refine .inl ⟨⟨deriveDerivedComponent U target p, fun ord => ?_⟩, ?_⟩
      · rw [componentValue, ht]
        exact if_pos hat
      · intro h
        rw [hat] at h
        cases h
    | false =>
      have hvalue : ∀ ord, componentValue U ord ctx p = deriveHTTPField U ord target p := by
        intro ord
        rw [componentValue, ht]
        exact if_neg (by rw [hat]; simp)
      cases hm : if p.tr then target.trailers else target.header with
      | none =>
        refine .inl ⟨⟨.error (.wrap .errMissingComponent "header %q not found" [p.name]),
          fun ord => by rw [hvalue, deriveHTTPField_eq, hm]⟩, ?_⟩
        intro _ target' headers htarget hmap
        rw [ht] at htarget
        cases htarget
        rw [hm] at hmap
        cases hmap
      | some headers =>
        refine .inr ⟨headers, fun ord => by rw [hvalue, deriveHTTPField_eq, hm, ← matchValues_visit], ?_⟩
        constructor
        · intro h
          exact h hat target headers ht hm
        · intro h _ target' headers' htarget hmap
          rw [ht] at htarget
          cases htarget
          rw [hm] at hmap
          cases hmap
          exact h

/-- **The value of a component does not depend on the order exactly if its values may be visited in
any order.** -/
theorem componentValue_order_iff :
    (∀ ord ord', componentValue U ord ctx p = componentValue U ord' ctx p) ↔ AnyOrder U ctx p := by
  rcases componentValue_cases U ctx p with ⟨⟨r, hr⟩, hany⟩ | ⟨headers, hvalue, hany⟩
  · exact iff_of_true (fun ord ord' => by rw [hr, hr]) hany
  · rw [hany, ← fieldValue_rearrange_iff U fun e he => fieldEntries_ne_nil U he]
    constructor
    · intro h l' hp
      obtain ⟨ord', hord'⟩ := exists_visit U hp
      obtain ⟨ord, hord⟩ := exists_visit U (List.Perm.refl (fieldEntries U headers p.name))
      rw [matchValues_visit] at hord hord'
      rw [← hord', ← hord, ← hvalue, ← hvalue]
      exact h ord' ord
    · intro h ord ord'
      have hvisit : ∀ ord : MapOrder, ((ord.visit headers).filter (carries U p.name)).Perm
          (fieldEntries U headers p.name) := fun ord => (ord.perm headers).filter _
      rw [hvalue, hvalue, h _ (hvisit ord), h _ (hvisit ord')]

theorem componentValue_error {ord : MapOrder} {err : Err}
    (h : componentValue U ord ctx p = .error err) (ord' : MapOrder) :
    componentValue U ord' ctx p = .error err := by
  rcases componentValue_cases U ctx p with ⟨⟨r, hr⟩, -⟩ | ⟨headers, hvalue, -⟩
  · rw [hr] at h ⊢
    exact h
  · rw [hvalue] at h ⊢
    have hentries : ∀ e ∈ (ord'.visit headers).filter (carries U p.name), e.2 ≠ [] := by
      intro e he
      exact fieldEntries_ne_nil U (((ord'.perm headers).filter _).subset he)
    exact fieldValue_error U hentries (((ord.perm headers).trans (ord'.perm headers).symm).filter _) h

end

/-! ## 4. The signature base -/

section
variable {ctx : RequestContext}

theorem baseLines_cons (ord : Nat → MapOrder) (seen : List Bytes) (c : Bytes) (rest : List Bytes) :
    baseLines U ord ctx seen (c :: rest) = (do
      let parsed ← parseComponentIdentifier U c
      if parsed.serialized ∈ seen then
        .error (.wrap .errDuplicateComponent "%s" [parsed.serialized])
      else
        let val ← componentValue U (ord 0) ctx parsed
        let tail ← baseLines U (fun i => ord (i + 1)) ctx (parsed.serialized :: seen) rest
        .ok (parsed.serialized ++ lit ": " ++ val ++ [newline] ++ tail)) := by
  simp only [baseLines, componentValue, bind_assoc]

theorem baseLines_congr : ∀ {comps seen : List Bytes} {ord ord' : Nat → MapOrder},
    (∀ c ∈ comps, ∀ p, parseComponentIdentifier U c = .ok p → AnyOrder U ctx p) →
      baseLines U ord ctx seen comps = baseLines U ord' ctx seen comps
  | [], _, _, _, _ => rfl
  | c :: rest, seen, ord, ord', h => by
    rw [baseLines_cons, baseLines_cons]
    cases hp : parseComponentIdentifier U c with
    | error e => rfl
    | ok p =>
      have hvalue := (componentValue_order_iff U).mpr (h c mem_cons_self p hp) (ord 0) (ord' 0)
      have htail : baseLines U (fun i => ord (i + 1)) ctx (p.serialized :: seen) rest =
          baseLines U (fun i => ord' (i + 1)) ctx (p.serialized :: seen) rest :=
        baseLines_congr (forall_mem_cons.mp h).2
      simp only [bind, Except.bind, hvalue, htail]

theorem baseLines_error : ∀ {comps seen : List Bytes} {ord : Nat → MapOrder} {err : Err},
    baseLines U ord ctx seen comps = .error err → ∀ ord', baseLines U ord' ctx seen comps = .error err
  | [], _, _, _, h, _ => by cases h
  | c :: rest, seen, ord, err, h, ord' => by
    rw [baseLines_cons] at h ⊢
    cases hp : parseComponentIdentifier U c with
    | error e => rw [hp] at h; exact h
    | ok p =>
      rw [hp] at h
      simp only [bind, Except.bind] at h ⊢
      by_cases hseen : p.serialized ∈ seen
      · rw [if_pos hseen] at h ⊢
        exact h
      · rw [if_neg hseen] at h ⊢
        cases hv : componentValue U (ord 0) ctx p with
        | error e =>
          rw [hv] at h
          rw [componentValue_error U hv (ord' 0)]
          exact h
        | ok val =>
          rw [hv] at h
          cases ht : baseLines U (fun i => ord (i + 1)) ctx (p.serialized :: seen) rest with
          | ok tail => rw [ht] at h; cases h
          | error e =>
            rw [ht] at h
            have htail := baseLines_error ht fun i => ord' (i + 1)
            cases hv' : componentValue U (ord' 0) ctx p with
            | error e' =>
              rw [componentValue_error U hv' (ord 0)] at hv
              cases hv
            | ok val' =>
              simp only [htail]
              exact h

end

/-- Every covered component can be read, none is refused as a duplicate, and what is written is
ASCII. -/
def Signable (ctx : RequestContext) (params : SignatureParams) : Prop :=
  ∃ ord base ls, Sent U ord ctx params base ls

/-- **The signature base does not depend on the order in which maps are visited exactly if, where
there is one, the values of every covered component may be visited in any order.** -/
theorem base_order_iff (ctx : RequestContext) (params : SignatureParams) :
    (∀ ord ord', buildSignatureBase U ord ctx params = buildSignatureBase U ord' ctx params) ↔
      (Signable U ctx params → ∀ c ∈ params.components, ∀ p, parseComponentIdentifier U c = .ok p →
        AnyOrder U ctx p) := by
  constructor
  · rintro h ⟨ord, base, ls, hsent⟩ c hc p hp
    obtain ⟨i, hi⟩ := getElem?_of_mem hc
    obtain ⟨l, hl, hread⟩ := hsent.reading.comp_at U hi
    obtain ⟨hlp, hval⟩ := (reads_iff U).mp hread
    obtain rfl : l.comp = p := Except.ok.inj (hlp.symm.trans hp)
    -- visit the header of this one component in the order `o`
    have hone : ∀ o, componentValue U o ctx l.comp = .ok l.val := by
      intro o
      have hbuild := (h (Function.update ord i o) ord).trans ((sent_iff U).mpr ⟨ls, hsent⟩)
      obtain ⟨ls', hsent'⟩ := (sent_iff U).mp hbuild
      have hids : ls'.map Line.id = ls.map Line.id := by
        rw [← (hsent'.reading.filterMap_eq U).1, (hsent.reading.filterMap_eq U).1]
      have hbases := hsent'.base_eq.symm.trans hsent.base_eq
      rw [hids, append_assoc, append_assoc] at hbases
      have hlines := hsent.reading.eq_of_text U hsent'.reading
        (fun j hj => Function.update_of_ne hj _ _) hbases
      obtain ⟨d, -, hread'⟩ := hsent'.reading.line_at U (hlines ▸ hl)
      have hval' := ((reads_iff U).mp hread').2
      rwa [Function.update_self] at hval'
    exact (componentValue_order_iff U).mp fun ord ord' => (hone ord).trans (hone ord').symm
  · intro h ord ord'
    by_cases hs : Signable U ctx params
    · rw [buildSignatureBase, buildSignatureBase, baseLines_congr U (h hs)]
    · -- what is reported does not depend on the order either
      have hfail : ∀ ord base, buildSignatureBase U ord ctx params ≠ .ok base := by
        intro ord base hbuild
        obtain ⟨ls, hsent⟩ := (sent_iff U).mp hbuild
        exact hs ⟨ord, base, ls, hsent⟩
      have h₁ := hfail ord
      have h₂ := hfail ord'
      unfold buildSignatureBase at h₁ h₂ ⊢
      cases hl : baseLines U ord ctx [] params.components with
      | error e => rw [baseLines_error U hl ord']
      | ok lines =>
        cases hl' : baseLines U ord' ctx [] params.components with
        | error e =>
          rw [baseLines_error U hl' ord] at hl
          cases hl
        | ok lines' =>
          cases ht : serializeSignatureParams U params with
          | error e => rfl
          | ok text =>
            rw [hl, ht] at h₁
            rw [hl', ht] at h₂
            simp only [bind, Except.bind] at h₁ h₂ ⊢
            split at h₁
            · exact absurd rfl (h₁ _)
            · rename_i hno
              split at h₂
              · exact absurd rfl (h₂ _)
              · rename_i hno'
                rw [if_neg hno, if_neg hno']

namespace Example

theorem twoKeys_nodup : ([(lit "X-Tag", [lit "a"]), (lit "x-tag", [lit "b"])].map Prod.fst).Nodup := by
  decide

def twoKeys : RequestContext :=
  { method := lit "POST",
    header := some ⟨[(lit "X-Tag", [lit "a"]), (lit "x-tag", [lit "b"])], twoKeys_nodup⟩ }

def backwards : MapOrder := ⟨fun h => h.entries.reverse, fun h => reverse_perm h.entries⟩

end Example

open Example in
/-- **The base of one message is `a, b` in one order and `b, a` in the other.** -/
theorem base_depends_on_order :
    ¬ ∀ ord ord', buildSignatureBase .ascii ord twoKeys { components := [lit "x-tag"] } =
      buildSignatureBase .ascii ord' twoKeys { components := [lit "x-tag"] } := by
  intro h
  have h₁ : buildSignatureBase .ascii (fun _ => .listed) twoKeys { components := [lit "x-tag"] } =
      .ok (lit "\"x-tag\": a, b\n\"@signature-params\": (\"x-tag\")") := by decide +kernel
  have h₂ : buildSignatureBase .ascii (fun _ => backwards) twoKeys { components := [lit "x-tag"] } =
      .ok (lit "\"x-tag\": b, a\n\"@signature-params\": (\"x-tag\")") := by decide +kernel
  have he := h₁.symm.trans ((h _ _).trans h₂)
  exact absurd (Except.ok.inj he) (by decide)

end AoniContrib.HttpSig
