/-
# Payload trees: `hasBinary`, `deconstructBinary`, `reconstructBinary` in `socketio/packet.go`

A payload is a tree of Go values: byte slices, slices, string maps, and leaves of an arbitrary type
`S`, which stands for nil, booleans, numbers and strings.  A map is the list of its entries in the
order in which `range` visits them; what it IS is its lookup function, so two trees are the `Same`
when their maps have the same entries in any order.

Package `encoding/json` is a PARAMETER (`Codec`).  It is assumed to tell `true` and the numbers of
attachments from other leaves, and to decode what it encoded to the same tree, if the tree has no
byte slices, is nested no deeper than the decoder goes, and has valid UTF-8 for keys (`Nested`).
`Codec.json` is one, for the JSON of `Data.Json`.

The two directions of the substitution are inverse to each other: replacing the placeholders of a
deconstructed tree gives the tree back (`reconstructBinary_deconstructBinary`), unless the tree had a
map that looks like a placeholder.
-/
import AoniContrib.Go.Base64
import AoniContrib.Go.Quote

namespace AoniContrib.SocketIO

open Go List

/-! ## 1. Trees and the codec -/

inductive Value (S : Type) where
  | scalar (x : S)
  | bytes (b : Bytes)
  | array (items : List (Value S))
  | map (entries : List (Bytes × Value S))

variable {S : Type}

/-- `m[key]`. -/
def lookup (key : Bytes) : List (Bytes × Value S) → Option (Value S)
  | [] => none
  | (k, v) :: es => if k = key then some v else lookup key es

mutual

/-- `hasBinary`.  A `map[string]json.RawMessage`, which it also looks into, never has a byte slice:
JSON is not decoded to one. -/
def hasBinary : Value S → Bool
  | .scalar _ => false
  | .bytes _ => true
  | .array vs => hasBinaryItems vs
  | .map es => hasBinaryEntries es

def hasBinaryItems : List (Value S) → Bool
  | [] => false
  | v :: vs => hasBinary v || hasBinaryItems vs

def hasBinaryEntries : List (Bytes × Value S) → Bool
  | [] => false
  | (_, v) :: es => hasBinary v || hasBinaryEntries es

end

/-- The same tree up to the order of the entries of maps, and up to `same` on the leaves. -/
inductive Same (same : S → S → Prop) : Value S → Value S → Prop where
  | scalar {x y : S} : same x y → Same same (.scalar x) (.scalar y)
  | bytes (b : Bytes) : Same same (.bytes b) (.bytes b)
  | array {vs ws : List (Value S)} : vs.length = ws.length →
      (∀ (i : Nat) (v w : Value S), vs[i]? = some v → ws[i]? = some w → Same same v w) →
      Same same (.array vs) (.array ws)
  | map {es es' : List (Bytes × Value S)} :
      (∀ k, (lookup k es).isSome = (lookup k es').isSome) →
      (∀ k v v', lookup k es = some v → lookup k es' = some v' → Same same v v') →
      Same same (.map es) (.map es')

/-- A tree of at most `n` levels whose maps have distinct keys of valid UTF-8.  A byte slice counts
as the map that stands for it. -/
inductive Nested : Nat → Value S → Prop where
  | scalar (n : Nat) (x : S) : Nested n (.scalar x)
  | bytes (n : Nat) (b : Bytes) : Nested (n + 1) (.bytes b)
  | array {n : Nat} {vs : List (Value S)} : (∀ v ∈ vs, Nested n v) → Nested (n + 1) (.array vs)
  | map {n : Nat} {es : List (Bytes × Value S)} : (∀ e ∈ es, utf8Valid e.1 = true) →
      (es.map Prod.fst).Nodup → (∀ e ∈ es, Nested n e.2) → Nested (n + 1) (.map es)

/-- The nesting that the decoder of `encoding/json` accepts. -/
def maxNestingDepth : Nat := 10000

/-- What the client uses of `encoding/json`, and of the leaves. -/
structure Codec (S : Type) where
  /-- `x == true`. -/
  isTrue : S → Bool
  /-- The type switch of `resolvePlaceholderBuffer`: -1 for a leaf that is no number. -/
  index : S → Int
  /-- The leaves that `deconstructBinary` and `emitNS` make. -/
  yes : S
  int : Nat → S
  str : Bytes → S
  /-- Two leaves that are the same in JSON, such as the `int` 1 and the `float64` 1. -/
  same : S → S → Prop
  /-- `json.Unmarshal` into `[]json.RawMessage`, into `any`, and into a string. -/
  array : Bytes → Option (List Bytes)
  any : Bytes → Option (Value S)
  string : Bytes → Option Bytes
  marshal : Value S → Option Bytes
  same_refl : ∀ x, same x x
  isTrue_yes : isTrue yes = true
  isTrue_same : ∀ x y, same x y → isTrue x = isTrue y
  /-- The numbers that a `float64` holds exactly. -/
  index_int : ∀ n < 2 ^ 53, ∀ y, same (int n) y → index y = n
  marshal_head : ∀ vs text, marshal (.array vs) = some text → text.head? = some 0x5b
  any_marshal : ∀ vs text, Nested maxNestingDepth (.array vs) → hasBinary (.array vs) = false →
    marshal (.array vs) = some text → ∃ raws ws, array text = some raws ∧
      raws.mapM any = some ws ∧ Same same (.array vs) (.array ws)

section

variable (J : Codec S)

def isPlaceholder (es : List (Bytes × Value S)) : Bool :=
  match lookup (lit "_placeholder") es with
  | some (.scalar x) => J.isTrue x
  | _ => false

def placeholderIndex (es : List (Bytes × Value S)) : Int :=
  match lookup (lit "num") es with
  | some (.scalar x) => J.index x
  | _ => -1

/-- `resolvePlaceholderBuffer`: a placeholder without a buffer stays. -/
def resolvePlaceholderBuffer (es : List (Bytes × Value S)) (buffers : List Bytes) : Value S :=
  if 0 ≤ placeholderIndex J es then
    match buffers[(placeholderIndex J es).toNat]? with
    | some b => .bytes b
    | none => .map es
  else .map es

mutual

/-- `deconstructBinaryWithOffset`: the tree with placeholders, and the buffers so far. -/
def deconstructBinaryWithOffset (buffers : List Bytes) : Value S → Value S × List Bytes
  | .scalar x => (.scalar x, buffers)
  | .bytes b =>
    (.map [(lit "_placeholder", .scalar J.yes), (lit "num", .scalar (J.int buffers.length))],
      buffers ++ [b])
  | .array vs =>
    let (vs, buffers) := deconstructItems buffers vs
    (.array vs, buffers)
  | .map es =>
    let (es, buffers) := deconstructEntries buffers es
    (.map es, buffers)

def deconstructItems (buffers : List Bytes) : List (Value S) → List (Value S) × List Bytes
  | [] => ([], buffers)
  | v :: vs =>
    let (v, buffers) := deconstructBinaryWithOffset buffers v
    let (vs, buffers) := deconstructItems buffers vs
    (v :: vs, buffers)

def deconstructEntries (buffers : List Bytes) :
    List (Bytes × Value S) → List (Bytes × Value S) × List Bytes
  | [] => ([], buffers)
  | (k, v) :: es =>
    let (v, buffers) := deconstructBinaryWithOffset buffers v
    let (es, buffers) := deconstructEntries buffers es
    ((k, v) :: es, buffers)

end

def deconstructBinary (v : Value S) : Value S × List Bytes := deconstructBinaryWithOffset J [] v

variable (buffers : List Bytes)

mutual

def reconstructBinary : Value S → Value S
  | .scalar x => .scalar x
  | .bytes b => .bytes b
  | .array vs => .array (reconstructItems vs)
  | .map es =>
    if isPlaceholder J es then resolvePlaceholderBuffer J es buffers
    else .map (reconstructEntries es)

def reconstructItems : List (Value S) → List (Value S)
  | [] => []
  | v :: vs => reconstructBinary v :: reconstructItems vs

def reconstructEntries : List (Bytes × Value S) → List (Bytes × Value S)
  | [] => []
  | (k, v) :: es => (k, reconstructBinary v) :: reconstructEntries es

end

end

/-! ## 2. What `reconstructBinary` replaces -/

section

variable {J : Codec S}

theorem reconstructItems_eq (buffers : List Bytes) : ∀ vs : List (Value S),
    reconstructItems J buffers vs = vs.map (reconstructBinary J buffers)
  | [] => rfl
  | v :: vs => by rw [reconstructItems, reconstructItems_eq buffers vs, map_cons]

theorem reconstructEntries_eq (buffers : List Bytes) : ∀ es : List (Bytes × Value S),
    reconstructEntries J buffers es = es.map fun e => (e.1, reconstructBinary J buffers e.2)
  | [] => rfl
  | (k, v) :: es => by rw [reconstructEntries, reconstructEntries_eq buffers es, map_cons]

end

section

variable (J : Codec S)

/-- Every placeholder of a tree has a number below `k`. -/
inductive WellPlaced (k : Nat) : Value S → Prop where
  | scalar (x : S) : WellPlaced k (.scalar x)
  | bytes (b : Bytes) : WellPlaced k (.bytes b)
  | array {vs : List (Value S)} : (∀ v ∈ vs, WellPlaced k v) → WellPlaced k (.array vs)
  | placeholder {es : List (Bytes × Value S)} {i : Nat} : isPlaceholder J es = true →
      placeholderIndex J es = i → i < k → WellPlaced k (.map es)
  | map {es : List (Bytes × Value S)} : isPlaceholder J es = false →
      (∀ e ∈ es, WellPlaced k e.2) → WellPlaced k (.map es)

/-- A tree and the one in which each placeholder is the buffer of its number. -/
inductive Replaced (buffers : List Bytes) : Value S → Value S → Prop where
  | scalar (x : S) : Replaced buffers (.scalar x) (.scalar x)
  | bytes (b : Bytes) : Replaced buffers (.bytes b) (.bytes b)
  | array {vs ws : List (Value S)} : vs.length = ws.length →
      (∀ (i : Nat) (v w : Value S), vs[i]? = some v → ws[i]? = some w → Replaced buffers v w) →
      Replaced buffers (.array vs) (.array ws)
  | placeholder {es : List (Bytes × Value S)} {i : Nat} {b : Bytes} : isPlaceholder J es = true →
      placeholderIndex J es = i → buffers[i]? = some b → Replaced buffers (.map es) (.bytes b)
  | map {es es' : List (Bytes × Value S)} : isPlaceholder J es = false →
      es.map Prod.fst = es'.map Prod.fst →
      (∀ (i : Nat) (e e' : Bytes × Value S), es[i]? = some e → es'[i]? = some e' →
        Replaced buffers e.2 e'.2) → Replaced buffers (.map es) (.map es')

end

variable {J : Codec S}

theorem replaced_reconstructBinary {buffers : List Bytes} {v : Value S}
    (h : WellPlaced J buffers.length v) : Replaced J buffers v (reconstructBinary J buffers v) := by
  induction h with
  | scalar x => exact .scalar x
  | bytes b => exact .bytes b
  | array _ ih =>
    rw [reconstructBinary, reconstructItems_eq]
    refine .array (length_map _).symm fun i v w hv hw => ?_
    rw [getElem?_map, hv] at hw
    cases hw
    exact ih v (mem_of_getElem? hv)
  | placeholder hp hi hlt =>
    have hget := getElem?_eq_getElem hlt
    rw [reconstructBinary, if_pos hp, resolvePlaceholderBuffer, hi, if_pos (Int.natCast_nonneg _),
      Int.toNat_natCast, hget]
    exact .placeholder hp hi hget
  | map hp _ ih =>
    rw [reconstructBinary, if_neg (by simp [hp]), reconstructEntries_eq]
    refine .map hp (by rw [map_map]; rfl) fun i e e' he he' => ?_
    rw [getElem?_map, he] at he'
    cases he'
    exact ih e (mem_of_getElem? he)

/-! ## 3. Deconstruction and back -/

section

variable (J : Codec S)

/-- No map of a tree is mistaken for a placeholder. -/
inductive NoPlaceholder : Value S → Prop where
  | scalar (x : S) : NoPlaceholder (.scalar x)
  | bytes (b : Bytes) : NoPlaceholder (.bytes b)
  | array {vs : List (Value S)} : (∀ v ∈ vs, NoPlaceholder v) → NoPlaceholder (.array vs)
  | map {es : List (Bytes × Value S)} : isPlaceholder J es = false →
      (∀ e ∈ es, NoPlaceholder e.2) → NoPlaceholder (.map es)

end

/-! ### Deconstruction adds a buffer for each byte slice -/

mutual

def byteLeaves : Value S → Nat
  | .scalar _ => 0
  | .bytes _ => 1
  | .array vs => byteLeavesItems vs
  | .map es => byteLeavesEntries es

def byteLeavesItems : List (Value S) → Nat
  | [] => 0
  | v :: vs => byteLeaves v + byteLeavesItems vs

def byteLeavesEntries : List (Bytes × Value S) → Nat
  | [] => 0
  | (_, v) :: es => byteLeaves v + byteLeavesEntries es

end

mutual

theorem deconstruct_spec : ∀ (v : Value S) (buffers : List Bytes),
    ∃ more, (deconstructBinaryWithOffset J buffers v).2 = buffers ++ more ∧
      more.length = byteLeaves v ∧ hasBinary (deconstructBinaryWithOffset J buffers v).1 = false
  | .scalar _, _ => ⟨[], (append_nil _).symm, rfl, rfl⟩
  | .bytes b, _ => ⟨[b], rfl, rfl, rfl⟩
  | .array vs, buffers => deconstructItems_spec vs buffers
  | .map es, buffers => deconstructEntries_spec es buffers

theorem deconstructItems_spec : ∀ (vs : List (Value S)) (buffers : List Bytes),
    ∃ more, (deconstructItems J buffers vs).2 = buffers ++ more ∧
      more.length = byteLeavesItems vs ∧ hasBinaryItems (deconstructItems J buffers vs).1 = false
  | [], _ => ⟨[], (append_nil _).symm, rfl, rfl⟩
  | v :: vs, buffers => by
    obtain ⟨more, hv, hlen, hno⟩ := deconstruct_spec v buffers
    obtain ⟨more', hvs, hlens, hnone⟩ :=
      deconstructItems_spec vs (deconstructBinaryWithOffset J buffers v).2
    refine ⟨more ++ more', by rw [deconstructItems, hvs, hv, append_assoc], ?_, ?_⟩
    · rw [length_append, hlen, hlens, byteLeavesItems]
    · rw [deconstructItems, hasBinaryItems, hno, hnone, Bool.or_self]

theorem deconstructEntries_spec : ∀ (es : List (Bytes × Value S)) (buffers : List Bytes),
    ∃ more, (deconstructEntries J buffers es).2 = buffers ++ more ∧
      more.length = byteLeavesEntries es ∧
      hasBinaryEntries (deconstructEntries J buffers es).1 = false
  | [], _ => ⟨[], (append_nil _).symm, rfl, rfl⟩
  | (_, v) :: es, buffers => by
    obtain ⟨more, hv, hlen, hno⟩ := deconstruct_spec v buffers
    obtain ⟨more', hes, hlens, hnone⟩ :=
      deconstructEntries_spec es (deconstructBinaryWithOffset J buffers v).2
    refine ⟨more ++ more', by rw [deconstructEntries, hes, hv, append_assoc], ?_, ?_⟩
    · rw [length_append, hlen, hlens, byteLeavesEntries]
    · rw [deconstructEntries, hasBinaryEntries, hno, hnone, Bool.or_self]

end

theorem hasBinary_deconstructBinary (v : Value S) (buffers : List Bytes) :
    hasBinary (deconstructBinaryWithOffset J buffers v).1 = false := by
  obtain ⟨-, -, -, hno⟩ := deconstruct_spec (J := J) v buffers
  exact hno

theorem length_deconstruct (v : Value S) (buffers : List Bytes) :
    (deconstructBinaryWithOffset J buffers v).2.length = buffers.length + byteLeaves v := by
  obtain ⟨more, hmore, hlen, -⟩ := deconstruct_spec (J := J) v buffers
  rw [hmore, length_append, hlen]

theorem deconstructItems_getElem : ∀ (vs : List (Value S)) (buffers : List Bytes),
    (deconstructItems J buffers vs).1.length = vs.length ∧
    ∀ (i : Nat) (v d : Value S), vs[i]? = some v → (deconstructItems J buffers vs).1[i]? = some d →
      ∃ start later, d = (deconstructBinaryWithOffset J start v).1 ∧
        (deconstructItems J buffers vs).2 = (deconstructBinaryWithOffset J start v).2 ++ later
  | [], _ => ⟨rfl, fun i v d hv => by simp at hv⟩
  | v :: vs, buffers => by
    obtain ⟨hlen, hget⟩ := deconstructItems_getElem vs (deconstructBinaryWithOffset J buffers v).2
    refine ⟨by rw [deconstructItems, length_cons, length_cons, hlen], ?_⟩
    intro i w d hw hd
    cases i with
    | zero =>
      obtain ⟨more, hmore, -⟩ := deconstructItems_spec vs (deconstructBinaryWithOffset J buffers v).2
      cases hw
      cases hd
      exact ⟨buffers, more, rfl, hmore⟩
    | succ i => exact hget i w d hw hd

theorem deconstructEntries_lookup (k : Bytes) : ∀ (es : List (Bytes × Value S))
    (buffers : List Bytes),
    (lookup k (deconstructEntries J buffers es).1).isSome = (lookup k es).isSome ∧
    ∀ v, lookup k es = some v → ∃ start later, lookup k (deconstructEntries J buffers es).1 =
          some (deconstructBinaryWithOffset J start v).1 ∧
        (deconstructEntries J buffers es).2 = (deconstructBinaryWithOffset J start v).2 ++ later
  | [], _ => ⟨rfl, fun v hv => by cases hv⟩
  | (k', v) :: es, buffers => by
    obtain ⟨hsome, hget⟩ := deconstructEntries_lookup k es (deconstructBinaryWithOffset J buffers v).2
    rw [deconstructEntries, lookup, lookup]
    split
    · refine ⟨rfl, fun w hw => ?_⟩
      obtain ⟨more, hmore, -⟩ := deconstructEntries_spec es (deconstructBinaryWithOffset J buffers v).2
      cases hw
      exact ⟨buffers, more, rfl, hmore⟩
    · exact ⟨hsome, hget⟩

/-! ### And reconstruction puts them back -/

theorem lookup_map (f : Value S → Value S) (k : Bytes) : ∀ es : List (Bytes × Value S),
    lookup k (es.map fun e => (e.1, f e.2)) = (lookup k es).map f
  | [] => rfl
  | (k', v) :: es => by
    rw [map_cons, lookup, lookup, lookup_map f k es]
    split <;> rfl

theorem mem_of_lookup {k : Bytes} {v : Value S} : ∀ {es : List (Bytes × Value S)},
    lookup k es = some v → (k, v) ∈ es
  | (k', w) :: es, h => by
    rw [lookup] at h
    split at h
    · rename_i hk
      cases h
      exact hk ▸ mem_cons_self
    · exact mem_cons_of_mem _ (mem_of_lookup h)

section

variable {same : S → S → Prop}

mutual

theorem Same.refl (hsame : ∀ x, same x x) : ∀ v : Value S, Same same v v
  | .scalar x => .scalar (hsame x)
  | .bytes b => .bytes b
  | .array vs => by
    refine .array rfl fun i v w hv hw => ?_
    rw [hv] at hw
    cases hw
    exact Same.refl_items hsame vs v (mem_of_getElem? hv)
  | .map es => by
    refine .map (fun _ => rfl) fun k v w hv hw => ?_
    rw [hv] at hw
    cases hw
    exact Same.refl_entries hsame es (k, v) (mem_of_lookup hv)

theorem Same.refl_items (hsame : ∀ x, same x x) : ∀ vs : List (Value S), ∀ v ∈ vs, Same same v v
  | v :: vs, w, h => by
    rcases mem_cons.mp h with hw | h
    · exact hw ▸ Same.refl hsame v
    · exact Same.refl_items hsame vs w h

theorem Same.refl_entries (hsame : ∀ x, same x x) : ∀ es : List (Bytes × Value S),
    ∀ e ∈ es, Same same e.2 e.2
  | (k, v) :: es, e, h => by
    rcases mem_cons.mp h with he | h
    · exact he ▸ Same.refl hsame v
    · exact Same.refl_entries hsame es e h

end

end

variable {es es' : List (Bytes × Value S)}

theorem Same.exists_scalar {k : Bytes} {x : S}
    (hsome : ∀ k, (lookup k es).isSome = (lookup k es').isSome)
    (hsame : ∀ k v v', lookup k es = some v → lookup k es' = some v' → Same J.same v v')
    (hx : lookup k es = some (.scalar x)) :
    ∃ y, lookup k es' = some (.scalar y) ∧ J.same x y := by
  have h := hsome k
  rw [hx] at h
  obtain ⟨v', hv'⟩ := Option.isSome_iff_exists.mp h.symm
  cases hsame k _ v' hx hv' with
  | scalar hxy => exact ⟨_, hv', hxy⟩

/-- The indices below `n` are read back. -/
def Counts (J : Codec S) (n : Nat) : Prop := ∀ i < n, ∀ y, J.same (J.int i) y → J.index y = i

theorem Counts.mono {n m : Nat} (h : Counts J m) (hle : n ≤ m) : Counts J n :=
  fun i hi => h i (Nat.lt_of_lt_of_le hi hle)

theorem Codec.counts (J : Codec S) {n : Nat} (h : n ≤ 2 ^ 53) : Counts J n :=
  fun i hi => J.index_int i (Nat.lt_of_lt_of_le hi h)

theorem reconstruct_placeholder {start later : List Bytes} {b : Bytes} (hcount : Counts J (start.length + 1))
    (hsame : Same J.same (deconstructBinaryWithOffset J start (.bytes b)).1 (.map es')) :
    reconstructBinary J ((start ++ [b]) ++ later) (.map es') = .bytes b := by
  rw [deconstructBinaryWithOffset] at hsame
  cases hsame with
  | map hsome hsame =>
    obtain ⟨y, hy, hyes⟩ := Same.exists_scalar hsome hsame
      (rfl : lookup (lit "_placeholder") _ = some (.scalar J.yes))
    obtain ⟨z, hz, hnum⟩ := Same.exists_scalar hsome hsame
      (rfl : lookup (lit "num") _ = some (.scalar (J.int start.length)))
    have hplaceholder : isPlaceholder J es' = true := by
      rw [isPlaceholder, hy]
      exact (J.isTrue_same _ _ hyes).symm.trans J.isTrue_yes
    have hindex : placeholderIndex J es' = start.length := by
      rw [placeholderIndex, hz]
      exact hcount _ (Nat.lt_succ_self _) _ hnum
    have hget : ((start ++ [b]) ++ later)[start.length]? = some b := by simp
    rw [reconstructBinary, if_pos hplaceholder, resolvePlaceholderBuffer, hindex,
      if_pos (Int.natCast_nonneg _), Int.toNat_natCast, hget]

theorem isPlaceholder_deconstructed {start : List Bytes}
    (hes : isPlaceholder J es = false)
    (hsome : ∀ k, (lookup k (deconstructEntries J start es).1).isSome = (lookup k es').isSome)
    (hsame : ∀ k v v', lookup k (deconstructEntries J start es).1 = some v →
      lookup k es' = some v' → Same J.same v v') : isPlaceholder J es' = false := by
  obtain ⟨hkeys, hget⟩ := deconstructEntries_lookup (J := J) (lit "_placeholder") es start
  rw [isPlaceholder]
  split
  · rename_i x hx
    have hin : (lookup (lit "_placeholder") es).isSome = true := by
      rw [← hkeys, hsome, hx]
      rfl
    obtain ⟨v, hv⟩ := Option.isSome_iff_exists.mp hin
    obtain ⟨start', -, hd, -⟩ := hget v hv
    have h := hsame _ _ _ hd hx
    -- only a leaf is deconstructed to a leaf
    cases v with
    | scalar y =>
      cases h with
      | scalar hyx =>
        rw [isPlaceholder, hv] at hes
        exact (J.isTrue_same _ _ hyx).symm.trans hes
    | bytes b | array vs | map es => cases h
  · rfl

/-- **Reconstruction undoes deconstruction**: a tree without maps that look like placeholders is
reconstructed from anything that is the same in JSON as what it was deconstructed to. -/
theorem reconstructBinary_deconstructBinary {v : Value S} (hv : NoPlaceholder J v) :
    ∀ (start later : List Bytes) (d' : Value S),
      Counts J (deconstructBinaryWithOffset J start v).2.length →
      Same J.same (deconstructBinaryWithOffset J start v).1 d' →
      Same J.same v (reconstructBinary J ((deconstructBinaryWithOffset J start v).2 ++ later) d') := by
  induction hv with
  | scalar x =>
    intro start later d' _ h
    cases h with
    | scalar h => exact .scalar h
  | bytes b =>
    intro start later d' hcount h
    cases d' with
    | map es' =>
      rw [deconstructBinaryWithOffset, length_append, length_singleton] at hcount
      rw [deconstructBinaryWithOffset, reconstruct_placeholder hcount h]
      exact .bytes b
    | scalar x => cases h
    | bytes b => cases h
    | array vs => cases h
  | @array vs _ ih =>
    intro start later d' hcount h
    rw [deconstructBinaryWithOffset] at hcount h ⊢
    obtain ⟨hlen, hget⟩ := deconstructItems_getElem (J := J) vs start
    cases h with
    | @array _ ws hws hsame =>
      rw [reconstructBinary, reconstructItems_eq]
      refine .array (by rw [length_map, ← hws, hlen]) fun i v w hi hw => ?_
      obtain ⟨w', hw', rfl⟩ := Option.map_eq_some_iff.mp (getElem?_map ▸ hw)
      have hd : ∃ d, (deconstructItems J start vs).1[i]? = some d := by
        have hlt := (List.getElem?_eq_some_iff.mp hi).1
        exact ⟨_, getElem?_eq_getElem (by omega)⟩
      obtain ⟨d, hd⟩ := hd
      obtain ⟨start', later', rfl, hbuffers⟩ := hget i v d hi hd
      simp only [hbuffers, length_append] at hcount
      rw [hbuffers, append_assoc]
      exact ih v (mem_of_getElem? hi) start' (later' ++ later) w'
        (hcount.mono (Nat.le_add_right _ _)) (hsame i _ w' hd hw')
  | @map es hes _ ih =>
    intro start later d' hcount h
    rw [deconstructBinaryWithOffset] at hcount h ⊢
    cases h with
    | @map _ es' hsome hsame =>
      rw [reconstructBinary, if_neg (by rw [isPlaceholder_deconstructed hes hsome hsame]; simp),
        reconstructEntries_eq]
      refine .map (fun k => ?_) fun k v w hv hw => ?_
      · rw [lookup_map, Option.isSome_map, ← hsome k, (deconstructEntries_lookup k es start).1]
      · obtain ⟨start', later', hd, hbuffers⟩ := (deconstructEntries_lookup (J := J) k es start).2 v hv
        rw [lookup_map] at hw
        obtain ⟨w', hw', rfl⟩ := Option.map_eq_some_iff.mp hw
        simp only [hbuffers, length_append] at hcount
        rw [hbuffers, append_assoc]
        exact ih (k, v) (mem_of_lookup hv) start' (later' ++ later) w'
          (hcount.mono (Nat.le_add_right _ _)) (hsame k _ w' hd hw')

mutual

theorem hasBinary_iff : ∀ v : Value S, hasBinary v = true ↔ 0 < byteLeaves v
  | .scalar _ => by simp [hasBinary, byteLeaves]
  | .bytes _ => by simp [hasBinary, byteLeaves]
  | .array vs => by
    rw [hasBinary, byteLeaves]
    exact hasBinaryItems_iff vs
  | .map es => by
    rw [hasBinary, byteLeaves]
    exact hasBinaryEntries_iff es

theorem hasBinaryItems_iff : ∀ vs : List (Value S), hasBinaryItems vs = true ↔ 0 < byteLeavesItems vs
  | [] => by simp [hasBinaryItems, byteLeavesItems]
  | v :: vs => by
    rw [hasBinaryItems, byteLeavesItems, Bool.or_eq_true, hasBinary_iff v, hasBinaryItems_iff vs]
    omega

theorem hasBinaryEntries_iff : ∀ es : List (Bytes × Value S),
    hasBinaryEntries es = true ↔ 0 < byteLeavesEntries es
  | [] => by simp [hasBinaryEntries, byteLeavesEntries]
  | (_, v) :: es => by
    rw [hasBinaryEntries, byteLeavesEntries, Bool.or_eq_true, hasBinary_iff v, hasBinaryEntries_iff es]
    omega

end

/-! ### What is sent instead of the tree -/

theorem mem_deconstructItems {d : Value S} : ∀ {vs : List (Value S)} {buffers : List Bytes},
    d ∈ (deconstructItems J buffers vs).1 →
    ∃ v ∈ vs, ∃ start, d = (deconstructBinaryWithOffset J start v).1
  | v :: vs, buffers, h => by
    rw [deconstructItems] at h
    rcases mem_cons.mp h with rfl | h
    · exact ⟨v, mem_cons_self, buffers, rfl⟩
    · obtain ⟨w, hw, start, hd⟩ := mem_deconstructItems h
      exact ⟨w, mem_cons_of_mem v hw, start, hd⟩

theorem mem_deconstructEntries {d : Bytes × Value S} :
    ∀ {es : List (Bytes × Value S)} {buffers : List Bytes},
    d ∈ (deconstructEntries J buffers es).1 →
    ∃ e ∈ es, ∃ start, d = (e.1, (deconstructBinaryWithOffset J start e.2).1)
  | (k, v) :: es, buffers, h => by
    rw [deconstructEntries] at h
    rcases mem_cons.mp h with rfl | h
    · exact ⟨(k, v), mem_cons_self, buffers, rfl⟩
    · obtain ⟨e, he, start, hd⟩ := mem_deconstructEntries h
      exact ⟨e, mem_cons_of_mem _ he, start, hd⟩

theorem deconstructEntries_keys : ∀ (es : List (Bytes × Value S)) (buffers : List Bytes),
    (deconstructEntries J buffers es).1.map Prod.fst = es.map Prod.fst
  | [], _ => rfl
  | (k, v) :: es, buffers => by
    rw [deconstructEntries, map_cons, map_cons, deconstructEntries_keys es]

theorem nested_deconstructBinary {n : Nat} {v : Value S} (h : Nested n v) :
    ∀ start, Nested n (deconstructBinaryWithOffset J start v).1 := by
  induction h with
  | scalar n x => exact fun _ => .scalar n x
  | bytes n b =>
    intro start
    have hplaceholder : utf8Valid (lit "_placeholder") = true := by decide
    have hnum : utf8Valid (lit "num") = true := by decide
    have hkeys : [lit "_placeholder", lit "num"].Nodup := by decide
    refine .map ?_ hkeys ?_
    · simp only [mem_cons, not_mem_nil, or_false]
      rintro e (rfl | rfl)
      · exact hplaceholder
      · exact hnum
    · simp only [mem_cons, not_mem_nil, or_false]
      rintro e (rfl | rfl)
      · exact .scalar _ _
      · exact .scalar _ _
  | array _ ih =>
    intro start
    refine .array fun d hd => ?_
    obtain ⟨v, hv, start', rfl⟩ := mem_deconstructItems hd
    exact ih v hv start'
  | map hutf hnodup _ ih =>
    intro start
    refine .map (fun d hd => ?_) (by rw [deconstructEntries_keys]; exact hnodup) fun d hd => ?_
    · obtain ⟨e, he, start', rfl⟩ := mem_deconstructEntries hd
      exact hutf e he
    · obtain ⟨e, he, start', rfl⟩ := mem_deconstructEntries hd
      exact ih e he start'

/-! ## 4. A codec -/

inductive Leaf where
  | null
  | bool (b : Bool)
  | num (n : Nat)
  | str (s : Bytes)
  deriving DecidableEq, Repr

namespace Value

/-- The number a text stands for, if it is written as `strconv` writes it. -/
def numberOf (text : Bytes) : Option Nat :=
  let n := text.foldl (fun a b => a * 10 + (b.toNat - 0x30)) 0
  if text = decimal n then some n else none

mutual

def ofJson : Json → Option (Value Leaf)
  | .null => some (.scalar .null)
  | .bool b => some (.scalar (.bool b))
  | .num text => (numberOf text).map fun n => .scalar (.num n)
  | .str s => some (.scalar (.str s))
  | .arr vs => (ofItems vs).map .array
  | .obj ms => (ofMembers ms).map .map

def ofItems : List Json → Option (List (Value Leaf))
  | [] => some []
  | v :: vs => do some ((← ofJson v) :: (← ofItems vs))

def ofMembers : List (Bytes × Json) → Option (List (Bytes × Value Leaf))
  | [] => some []
  | (k, v) :: ms => do some ((k, ← ofJson v) :: (← ofMembers ms))

end

def leafJson : Leaf → Json
  | .null => .null
  | .bool b => .bool b
  | .num n => .num (decimal n)
  | .str s => .str s

mutual

/-- What a tree is encoded as; a byte slice is a string in base 64. -/
def toJson : Value Leaf → Json
  | .scalar x => leafJson x
  | .bytes b => .str (stdEncoding.encode b)
  | .array vs => .arr (toItems vs)
  | .map es => .obj (toMembers es)

def toItems : List (Value Leaf) → List Json
  | [] => []
  | v :: vs => toJson v :: toItems vs

def toMembers : List (Bytes × Value Leaf) → List (Bytes × Json)
  | [] => []
  | (k, v) :: es => (k, toJson v) :: toMembers es

end

theorem numberOf_decimal (n : Nat) : numberOf (decimal n) = some n := by
  simp only [numberOf, foldl_decimal, if_true]

mutual

theorem ofJson_toJson : ∀ v : Value Leaf, hasBinary v = false → ofJson (toJson v) = some v
  | .scalar .null, _ | .scalar (.bool _), _ | .scalar (.str _), _ => by
    rw [toJson, leafJson, ofJson]
  | .scalar (.num n), _ => by rw [toJson, leafJson, ofJson, numberOf_decimal, Option.map_some]
  | .array vs, h => by
    rw [toJson, ofJson, ofItems_toItems vs (by simpa [hasBinary] using h), Option.map_some]
  | .map es, h => by
    rw [toJson, ofJson, ofMembers_toMembers es (by simpa [hasBinary] using h), Option.map_some]

theorem ofItems_toItems : ∀ vs : List (Value Leaf), hasBinaryItems vs = false →
    ofItems (toItems vs) = some vs
  | [], _ => rfl
  | v :: vs, h => by
    rw [hasBinaryItems, Bool.or_eq_false_iff] at h
    rw [toItems, ofItems, ofJson_toJson v h.1, ofItems_toItems vs h.2]
    rfl

theorem ofMembers_toMembers : ∀ es : List (Bytes × Value Leaf), hasBinaryEntries es = false →
    ofMembers (toMembers es) = some es
  | [], _ => rfl
  | (k, v) :: es, h => by
    rw [hasBinaryEntries, Bool.or_eq_false_iff] at h
    rw [toMembers, ofMembers, ofJson_toJson v h.1, ofMembers_toMembers es h.2]
    rfl

end

mutual

theorem isNumber_toJson : ∀ v : Value Leaf, ∀ t ∈ (toJson v).numbers, Json.IsNumber t
  | .scalar .null, t, h | .scalar (.bool _), t, h | .scalar (.str _), t, h | .bytes _, t, h => by
    simp [toJson, leafJson, Json.numbers] at h
  | .scalar (.num n), t, h => by
    rw [toJson, leafJson, Json.numbers, mem_singleton] at h
    exact h ▸ Json.isNumber_decimal n
  | .array vs, t, h => isNumber_toItems vs t (by simpa [toJson, Json.numbers] using h)
  | .map es, t, h => isNumber_toMembers es t (by simpa [toJson, Json.numbers] using h)

theorem isNumber_toItems : ∀ vs : List (Value Leaf), ∀ t ∈ Json.numbersItems (toItems vs),
    Json.IsNumber t
  | [], t, h => by simp [toItems, Json.numbersItems] at h
  | v :: vs, t, h => by
    rw [toItems, Json.numbersItems] at h
    rcases mem_append.mp h with h | h
    · exact isNumber_toJson v t h
    · exact isNumber_toItems vs t h

theorem isNumber_toMembers : ∀ es : List (Bytes × Value Leaf),
    ∀ t ∈ Json.numbersMembers (toMembers es), Json.IsNumber t
  | [], t, h => by simp [toMembers, Json.numbersMembers] at h
  | (k, v) :: es, t, h => by
    rw [toMembers, Json.numbersMembers] at h
    rcases mem_append.mp h with h | h
    · exact isNumber_toJson v t h
    · exact isNumber_toMembers es t h

end

end Value

namespace Codec

def jsonArray (text : Bytes) : Option (List Bytes) :=
  match Json.parse text with
  | some (.arr vs) => some (vs.map (Json.render (quote .asciiOnly)))
  | _ => none

def jsonAny (text : Bytes) : Option (Value Leaf) := (Json.parse text).bind Value.ofJson

def jsonMarshal (v : Value Leaf) : Option Bytes :=
  if v.toJson.strings.all (quotable .asciiOnly) then some (v.toJson.render (quote .asciiOnly))
  else none

variable {v : Value Leaf}

theorem parse_toJson (h : v.toJson.strings.all (quotable .asciiOnly) = true) :
    Json.parse (v.toJson.render (quote .asciiOnly)) = some v.toJson := by
  rw [Json.parse_render quote_reads _ v.isNumber_toJson, if_pos h]

theorem jsonAny_toJson (hq : v.toJson.strings.all (quotable .asciiOnly) = true)
    (hb : hasBinary v = false) : jsonAny (v.toJson.render (quote .asciiOnly)) = some v := by
  rw [jsonAny, parse_toJson hq, Option.bind_some, v.ofJson_toJson hb]

theorem mapM_jsonAny : ∀ vs : List (Value Leaf),
    (Json.stringsItems (Value.toItems vs)).all (quotable .asciiOnly) = true →
    hasBinaryItems vs = false →
    ((Value.toItems vs).map (Json.render (quote .asciiOnly))).mapM jsonAny = some vs
  | [], _, _ => rfl
  | v :: vs, hq, hb => by
    rw [Value.toItems, Json.stringsItems, all_append, Bool.and_eq_true] at hq
    rw [hasBinaryItems, Bool.or_eq_false_iff] at hb
    rw [Value.toItems, map_cons, mapM_cons, jsonAny_toJson hq.1 hb.1, mapM_jsonAny vs hq.2 hb.2]
    rfl

/-- JSON as `Data.Json` reads it, written without white space. -/
def json : Codec Leaf where
  isTrue
    | .bool true => true
    | _ => false
  index
    | .num n => n
    | _ => -1
  yes := .bool true
  int := .num
  str := .str
  same := Eq
  array := jsonArray
  any := jsonAny
  string text :=
    match Json.parse text with
    | some (.str s) => some s
    | _ => none
  marshal := jsonMarshal
  same_refl _ := rfl
  isTrue_yes := rfl
  isTrue_same := by
    rintro x _ rfl
    rfl
  index_int := by
    rintro n _ _ rfl
    rfl
  marshal_head := by
    intro vs text h
    rw [jsonMarshal, Value.toJson] at h
    split at h
    · cases h
      cases Value.toItems vs <;> rw [Json.render] <;> rfl
    · cases h
  any_marshal := by
    intro vs text _ hb h
    rw [jsonMarshal] at h
    split at h
    · rename_i hq
      cases h
      have hparse := parse_toJson hq
      rw [Value.toJson, Json.strings] at hq
      refine ⟨_, vs, ?_, mapM_jsonAny vs hq (by simpa [hasBinary] using hb), Same.refl (fun _ => rfl) _⟩
      rw [jsonArray, hparse, Value.toJson]
    · cases h

theorem json_any : json.any = jsonAny := rfl

end Codec

end AoniContrib.SocketIO
