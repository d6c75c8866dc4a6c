/-
# The placeholders of a payload: `deconstructBinary` and back

`deconstructBinary` walks a tree, a map in whatever order `range` gives its entries, and leaves a
numbered placeholder for every byte slice.  So the numbers are those from zero on, each of them once
(`placeholders_deconstruct`), there is one for each byte slice, and `hasBinary` says whether there
is any.  `reconstructBinary` may visit the maps in another order; it finds every buffer again
(`deconstructBinary_reversible`).

JSON plays no part here: the number of a placeholder is the `int` that `deconstructBinary` stored.
The leaves are those of Go (`Scalar`), and the type switch of `resolvePlaceholderBuffer` is spelled
out in `Scalar.index`.
-/
import AoniContrib.SocketIO.Value

namespace AoniContrib.SocketIO

open Go List

/-! ## 1. Numbers of placeholders -/

section

variable {S : Type} (J : Codec S)

mutual

def placeholders : Value S → List Int
  | .scalar _ => []
  | .bytes _ => []
  | .array vs => placeholdersItems vs
  | .map es => if isPlaceholder J es then [placeholderIndex J es] else placeholdersEntries es

def placeholdersItems : List (Value S) → List Int
  | [] => []
  | v :: vs => placeholders v ++ placeholdersItems vs

def placeholdersEntries : List (Bytes × Value S) → List Int
  | [] => []
  | (_, v) :: es => placeholders v ++ placeholdersEntries es

end

end

variable {S : Type}

/-! ## 2. Deconstruction numbers them -/

variable {J : Codec S}

theorem isPlaceholder_deconstructEntries {es : List (Bytes × Value S)} (start : List Bytes)
    (h : isPlaceholder J es = false) : isPlaceholder J (deconstructEntries J start es).1 = false := by
  refine isPlaceholder_deconstructed h (fun _ => rfl) fun k v v' hv hv' => ?_
  rw [hv] at hv'
  cases hv'
  exact Same.refl J.same_refl v

def numbersFrom (start n : Nat) : List Int := (List.range' start n).map Int.ofNat

theorem numbersFrom_add (start n m : Nat) :
    numbersFrom start (n + m) = numbersFrom start n ++ numbersFrom (start + n) m := by
  rw [numbersFrom, numbersFrom, numbersFrom, ← map_append, List.range'_append_1]

mutual

/-- **Deconstruction numbers the byte slices** one after the other, in the order of the walk. -/
theorem placeholders_deconstruct (hindex : ∀ n, J.index (J.int n) = n) :
    ∀ (v : Value S) (start : List Bytes), NoPlaceholder J v →
      placeholders J (deconstructBinaryWithOffset J start v).1 = numbersFrom start.length (byteLeaves v)
  | .scalar _, _, _ => rfl
  | .bytes b, start, _ => by
    have hyes : isPlaceholder J [(lit "_placeholder", .scalar J.yes),
        (lit "num", .scalar (J.int start.length))] = true := J.isTrue_yes
    rw [deconstructBinaryWithOffset, placeholders, if_pos hyes]
    exact congrArg (· :: []) (hindex start.length)
  | .array vs, start, h => by
    rw [deconstructBinaryWithOffset, placeholders, byteLeaves]
    cases h with
    | array hvs => exact placeholders_deconstructItems hindex vs start hvs
  | .map es, start, h => by
    rw [deconstructBinaryWithOffset, placeholders, byteLeaves]
    cases h with
    | map hes hall =>
      rw [if_neg (by simp [isPlaceholder_deconstructEntries start hes])]
      exact placeholders_deconstructEntries hindex es start hall

theorem placeholders_deconstructItems (hindex : ∀ n, J.index (J.int n) = n) :
    ∀ (vs : List (Value S)) (start : List Bytes), (∀ v ∈ vs, NoPlaceholder J v) →
      placeholdersItems J (deconstructItems J start vs).1 =
        numbersFrom start.length (byteLeavesItems vs)
  | [], _, _ => rfl
  | v :: vs, start, h => by
    have hv := placeholders_deconstruct hindex v start (h v mem_cons_self)
    have hvs := placeholders_deconstructItems hindex vs (deconstructBinaryWithOffset J start v).2
      fun w hw => h w (mem_cons_of_mem v hw)
    rw [length_deconstruct] at hvs
    rw [deconstructItems, placeholdersItems, byteLeavesItems, numbersFrom_add, hv, hvs]

theorem placeholders_deconstructEntries (hindex : ∀ n, J.index (J.int n) = n) :
    ∀ (es : List (Bytes × Value S)) (start : List Bytes), (∀ e ∈ es, NoPlaceholder J e.2) →
      placeholdersEntries J (deconstructEntries J start es).1 =
        numbersFrom start.length (byteLeavesEntries es)
  | [], _, _ => rfl
  | (k, v) :: es, start, h => by
    have hv := placeholders_deconstruct hindex v start (h (k, v) mem_cons_self)
    have hes := placeholders_deconstructEntries hindex es (deconstructBinaryWithOffset J start v).2
      (forall_mem_cons.mp h).2
    rw [length_deconstruct] at hes
    rw [deconstructEntries, placeholdersEntries, byteLeavesEntries, numbersFrom_add, hv, hes]

end

/-! ## 3. The leaves of Go -/

/-- The leaves of a tree.  `F` has the `float64`s and whatever else is neither a boolean, a string
nor one of the other two types of numbers. -/
inductive Scalar (F : Type) where
  | nil
  | bool (b : Bool)
  | int (n : Int)
  | number (text : Bytes)
  | str (s : Bytes)
  | other (x : F)
  deriving DecidableEq, Repr

variable {F : Type}

/-- The type switch of `resolvePlaceholderBuffer`.  `truncate` is the conversion of a `float64`,
and -1 for what is none. -/
def Scalar.index (truncate : F → Int) : Scalar F → Int
  | .int n => n
  | .number text => (parseInt text).1.toInt
  | .other x => truncate x
  | _ => -1

def leaves (truncate : F → Int) : Codec (Scalar F) where
  isTrue
    | .bool true => true
    | _ => false
  index := Scalar.index truncate
  yes := .bool true
  int n := .int n
  str := .str
  same := Eq
  array _ := none
  any _ := none
  string _ := none
  marshal _ := none
  same_refl _ := rfl
  isTrue_yes := rfl
  isTrue_same := by
    rintro x _ rfl
    rfl
  index_int := by
    rintro n _ _ rfl
    rfl
  marshal_head _ _ h := by cases h
  any_marshal _ _ _ _ h := by cases h

/-- **Binary deconstruction is reversible.**  Let no map of a tree have the key `_placeholder` bound
to true.  Then the tree is reconstructed from what it was deconstructed to, in whatever order the
maps are visited; the numbers of the placeholders are those below the number of byte slices, each of
them once; and `hasBinary` holds exactly if there is a byte slice. -/
theorem deconstructBinary_reversible (truncate : F → Int) {v : Value (Scalar F)}
    (h : NoPlaceholder (leaves truncate) v) :
    (∀ d, Same Eq (deconstructBinary (leaves truncate) v).1 d →
      Same Eq v (reconstructBinary (leaves truncate) (deconstructBinary (leaves truncate) v).2 d)) ∧
    placeholders (leaves truncate) (deconstructBinary (leaves truncate) v).1 =
      (List.range (byteLeaves v)).map Int.ofNat ∧
    (hasBinary v = true ↔ 0 < byteLeaves v) := by
  refine ⟨fun d hd => ?_, ?_, hasBinary_iff v⟩
  · have hcount : Counts (leaves truncate) (deconstructBinary (leaves truncate) v).2.length := by
      rintro i _ _ rfl
      rfl
    have hback := reconstructBinary_deconstructBinary h [] [] d hcount hd
    rw [append_nil] at hback
    exact hback
  · rw [range_eq_range']
    exact placeholders_deconstruct (fun _ => rfl) v [] h

/-- A list of nil and a map of two byte slices, one of them under the key `_placeholder`. -/
def pairTree : Value (Scalar Unit) :=
  .array [.scalar .nil, .map [(lit "_placeholder", .bytes [1]), (lit "b", .bytes [2])]]

theorem deconstructBinary_reversible_pair : NoPlaceholder (leaves fun _ => -1) pairTree ∧
      placeholders (leaves fun _ => -1) (deconstructBinary (leaves fun _ => -1) pairTree).1 = [0, 1] ∧
      Same Eq pairTree (reconstructBinary (leaves fun _ => -1)
        (deconstructBinary (leaves fun _ => -1) pairTree).2
        (deconstructBinary (leaves fun _ => -1) pairTree).1) := by
  have hno : NoPlaceholder (leaves fun _ => -1) pairTree := by
    refine .array fun v hv => ?_
    rcases mem_pair.mp hv with rfl | rfl
    · exact .scalar _
    · refine .map rfl fun e he => ?_
      rcases mem_pair.mp he with rfl | rfl
      · exact .bytes _
      · exact .bytes _
  obtain ⟨hback, hnumbers, -⟩ := deconstructBinary_reversible (fun _ => -1) hno
  exact ⟨hno, hnumbers, hback _ (Same.refl (fun _ => rfl) _)⟩

end AoniContrib.SocketIO
