/-
# Go strings as byte lists, and the part of package `strings` the repository calls

A Go string is a sequence of bytes, not of characters: `URL.Path` may hold any byte, a
header value may be invalid UTF-8, and every hand-written splitter of the repository walks
bytes.  So the model's string is `List UInt8`, and only the functions that Go documents as
working on runes (`ToLower`, `EqualFold`, `TrimSpace`) ever decode UTF-8.

The letter-case tables of package `unicode` are a PARAMETER (`Unicode`): they change with
every Unicode release, and no proof needs more of them than what the structure carries,
namely that they agree with ASCII on ASCII and that no other rune lower-cases to an ASCII
byte that is not a lower-case letter (`İ` goes to `i` and the Kelvin sign to `k`).
-/
import Mathlib
import AoniContrib.Data.Trims

namespace AoniContrib.Go

open Data List

/-- A Go `string` or `[]byte`. -/
abbrev Bytes := List UInt8

variable {s t : Bytes} {r : Nat} {p : Nat × Nat} {b c x : UInt8}

theorem bind_eq_ok {ε α β : Type} {x : Except ε α} {f : α → Except ε β} {b : β} :
    (x >>= f) = .ok b ↔ ∃ a, x = .ok a ∧ f a = .ok b := by
  cases x <;> simp [bind, Except.bind]

instance : LawfulBEq Bytes := List.instLawfulBEq

/-- The bytes of an ASCII literal of the source. -/
def lit (s : String) : Bytes := s.toList.map (fun c => c.val.toUInt8)

@[simp] abbrev dquote : UInt8 := 0x22
@[simp] abbrev percent : UInt8 := 0x25
@[simp] abbrev lparen : UInt8 := 0x28
@[simp] abbrev rparen : UInt8 := 0x29
@[simp] abbrev plus : UInt8 := 0x2b
@[simp] abbrev comma : UInt8 := 0x2c
@[simp] abbrev minus : UInt8 := 0x2d
@[simp] abbrev slash : UInt8 := 0x2f
@[simp] abbrev colon : UInt8 := 0x3a
@[simp] abbrev semicolon : UInt8 := 0x3b
@[simp] abbrev equals : UInt8 := 0x3d
@[simp] abbrev question : UInt8 := 0x3f
@[simp] abbrev atSign : UInt8 := 0x40
@[simp] abbrev backslash : UInt8 := 0x5c
@[simp] abbrev underscore : UInt8 := 0x5f
@[simp] abbrev space : UInt8 := 0x20
@[simp] abbrev newline : UInt8 := 0x0a
@[simp] abbrev carriageReturn : UInt8 := 0x0d

/-! ## 1. Runes -/

/-- `utf8.RuneError`, what an invalid byte decodes to. -/
def runeError : Nat := 0xFFFD

def isCont (b : UInt8) : Bool := 0x80 ≤ b && b ≤ 0xBF

def decodeTwo (b0 : UInt8) : Bytes → Option (Nat × Nat)
  | b1 :: _ =>
    if 0xC2 ≤ b0 ∧ b0 ≤ 0xDF ∧ isCont b1 then
      some ((b0.toNat - 0xC0) * 64 + (b1.toNat - 0x80), 2)
    else none
  | _ => none

/-- A three-byte sequence.  `E0` and `ED` narrow the second byte: no overlong forms and no
surrogates. -/
def decodeThree (b0 : UInt8) : Bytes → Option (Nat × Nat)
  | b1 :: b2 :: _ =>
    if 0xE0 ≤ b0 ∧ b0 ≤ 0xEF ∧ isCont b1 ∧ isCont b2 ∧ (b0 = 0xE0 → 0xA0 ≤ b1) ∧
        (b0 = 0xED → b1 ≤ 0x9F) then
      some ((b0.toNat - 0xE0) * 4096 + (b1.toNat - 0x80) * 64 + (b2.toNat - 0x80), 3)
    else none
  | _ => none

def decodeFour (b0 : UInt8) : Bytes → Option (Nat × Nat)
  | b1 :: b2 :: b3 :: _ =>
    if 0xF0 ≤ b0 ∧ b0 ≤ 0xF4 ∧ isCont b1 ∧ isCont b2 ∧ isCont b3 ∧ (b0 = 0xF0 → 0x90 ≤ b1) ∧
        (b0 = 0xF4 → b1 ≤ 0x8F) then
      some ((b0.toNat - 0xF0) * 262144 + (b1.toNat - 0x80) * 4096 + (b2.toNat - 0x80) * 64 +
        (b3.toNat - 0x80), 4)
    else none
  | _ => none

/-- `utf8.DecodeRune` on a non-empty string: the rune and its width.  An invalid or cut off
sequence is `RuneError` of width one. -/
def decodeRune (b0 : UInt8) (rest : Bytes) : Nat × Nat :=
  if b0 < 0x80 then (b0.toNat, 1)
  else (decodeTwo b0 rest <|> decodeThree b0 rest <|> decodeFour b0 rest).getD (runeError, 1)

/-- `range` over the runes of a string, at most `n` of them. -/
def runesUpTo : Nat → Bytes → List Nat
  | 0, _ => []
  | _ + 1, [] => []
  | n + 1, b :: s => (decodeRune b s).1 :: runesUpTo n ((b :: s).drop (decodeRune b s).2)

/-- The runes that `for _, r := range s` yields. -/
def runes (s : Bytes) : List Nat := runesUpTo s.length s

/-- `utf8.AppendRune`. -/
def encodeRune (r : Nat) : Bytes :=
  if r < 0x80 then [r.toUInt8]
  else if r < 0x800 then [(0xC0 + r / 64).toUInt8, (0x80 + r % 64).toUInt8]
  else if 0x10FFFF < r || (0xD800 ≤ r && r ≤ 0xDFFF) then [0xEF, 0xBF, 0xBD]
  else if r < 0x10000 then
    [(0xE0 + r / 4096).toUInt8, (0x80 + r / 64 % 64).toUInt8, (0x80 + r % 64).toUInt8]
  else [(0xF0 + r / 262144).toUInt8, (0x80 + r / 4096 % 64).toUInt8,
    (0x80 + r / 64 % 64).toUInt8, (0x80 + r % 64).toUInt8]

/-- `lower(c)` of package `strings` on an ASCII byte. -/
def asciiLower (b : UInt8) : UInt8 := if 0x41 ≤ b && b ≤ 0x5a then b + 32 else b

theorem toNat_asciiLower (b : UInt8) : (asciiLower b).toNat =
    if 0x41 ≤ b.toNat ∧ b.toNat ≤ 0x5a then b.toNat + 32 else b.toNat := by
  have hle : (0x41 ≤ b && b ≤ 0x5a) = true ↔ 0x41 ≤ b.toNat ∧ b.toNat ≤ 0x5a := by
    simp [UInt8.le_iff_toNat_le]
  unfold asciiLower
  split_ifs with h h' h'
  · rw [UInt8.toNat_add]
    exact Nat.mod_eq_of_lt (by simp; omega)
  · exact absurd (hle.mp h) h'
  · exact absurd (hle.mpr h') h
  · rfl

/-- The letter-case tables of package `unicode`.  `fold` picks one rune of each
`SimpleFold` orbit, so two runes fold together iff their representatives are equal. -/
structure Unicode where
  lower : Nat → Nat
  fold : Nat → Nat
  lower_ascii : ∀ b : UInt8, b < 0x80 → lower b.toNat = (asciiLower b).toNat
  lower_other : ∀ r, 0x80 ≤ r → lower r < 0x80 → 0x61 ≤ lower r ∧ lower r ≤ 0x7a
  fold_ascii : ∀ b : UInt8, b < 0x80 → fold b.toNat = (asciiLower b).toNat

/-- The tables on ASCII, and on the three other runes whose case forms meet ASCII: `İ`, the
long s and the Kelvin sign.  Every other rune is its own form. -/
def Unicode.ascii : Unicode where
  lower r := if 0x41 ≤ r && r ≤ 0x5a then r + 32 else if r = 0x130 then 0x69
    else if r = 0x212A then 0x6b else r
  fold r := if 0x41 ≤ r && r ≤ 0x5a then r + 32 else if r = 0x17F then 0x73
    else if r = 0x212A then 0x6b else r
  lower_ascii := by
    intro b _
    have hb := b.toNat_lt
    rw [toNat_asciiLower]
    simp only [Bool.and_eq_true, decide_eq_true_eq]
    split_ifs <;> omega
  lower_other := by
    intro r hr
    simp only [Bool.and_eq_true, decide_eq_true_eq]
    split_ifs <;> omega
  fold_ascii := by
    intro b _
    have hb := b.toNat_lt
    rw [toNat_asciiLower]
    simp only [Bool.and_eq_true, decide_eq_true_eq]
    split_ifs <;> omega

/-! ## 2. Package `strings` -/

variable (U : Unicode)

/-- `strings.ToLower`: every rune through `unicode.ToLower`, invalid bytes re-encoded as
`RuneError`. -/
def toLower (s : Bytes) : Bytes := (runes s).flatMap (fun r => encodeRune (U.lower r))

def equalFold (s t : Bytes) : Bool := (runes s).map U.fold == (runes t).map U.fold

/-- `\t \n \v \f \r` and the blank, the ASCII bytes `unicode.IsSpace` accepts. -/
def isSpace (b : UInt8) : Bool := b == 0x20 || (0x09 ≤ b && b ≤ 0x0d)

/-- Strip white space on the left: the ASCII blanks and the UTF-8 forms of U+0085, U+00A0,
U+1680, U+2000 to U+200A, U+2028, U+2029, U+202F, U+205F and U+3000. -/
def trimLeftSpace : Bytes → Bytes
  | [] => []
  | [b] => if isSpace b then [] else [b]
  | [b, c] =>
    if isSpace b then trimLeftSpace [c]
    else if b == 0xC2 && (c == 0x85 || c == 0xA0) then []
    else [b, c]
  | b :: c :: d :: s =>
    if isSpace b then trimLeftSpace (c :: d :: s)
    else if b == 0xC2 && (c == 0x85 || c == 0xA0) then trimLeftSpace (d :: s)
    else if (b == 0xE1 && c == 0x9A && d == 0x80) ||
        (b == 0xE2 && c == 0x80 && ((0x80 ≤ d && d ≤ 0x8A) || d == 0xA8 || d == 0xA9 || d == 0xAF)) ||
        (b == 0xE2 && c == 0x81 && d == 0x9F) || (b == 0xE3 && c == 0x80 && d == 0x80) then
      trimLeftSpace s
    else b :: c :: d :: s

/-- The same on a reversed string, so that the bytes of a wide blank come last first. -/
def trimRightRev : Bytes → Bytes
  | [] => []
  | [b] => if isSpace b then [] else [b]
  | [b, c] =>
    if isSpace b then trimRightRev [c]
    else if c == 0xC2 && (b == 0x85 || b == 0xA0) then []
    else [b, c]
  | b :: c :: d :: s =>
    if isSpace b then trimRightRev (c :: d :: s)
    else if c == 0xC2 && (b == 0x85 || b == 0xA0) then trimRightRev (d :: s)
    else if (d == 0xE1 && c == 0x9A && b == 0x80) ||
        (d == 0xE2 && c == 0x80 && ((0x80 ≤ b && b ≤ 0x8A) || b == 0xA8 || b == 0xA9 || b == 0xAF)) ||
        (d == 0xE2 && c == 0x81 && b == 0x9F) || (d == 0xE3 && c == 0x80 && b == 0x80) then
      trimRightRev s
    else b :: c :: d :: s

def trimRightSpace (s : Bytes) : Bytes := (trimRightRev s.reverse).reverse

def trimSpace (s : Bytes) : Bytes := trimRightSpace (trimLeftSpace s)

/-- `i := strings.IndexByte(s, b)` followed by the slices `s[:i]` and `s[i+1:]`; `none` is
the answer `-1`. -/
def cut (b : UInt8) : Bytes → Option (Bytes × Bytes)
  | [] => none
  | c :: s => if c = b then some ([], s) else (cut b s).map (fun p => (c :: p.1, p.2))

/-- `strings.HasPrefix` and `strings.HasSuffix` for a one-byte affix. -/
def hasPrefix (b : UInt8) (s : Bytes) : Bool := s.head? == some b
def hasSuffix (b : UInt8) (s : Bytes) : Bool := s.getLast? == some b

/-- `if len(v) >= 2 && HasPrefix(v, q) && HasSuffix(v, q) { v = v[1:len(v)-1] }`. -/
def stripPair (q : UInt8) (v : Bytes) : Bytes :=
  if 2 ≤ v.length && hasPrefix q v && hasSuffix q v then v.tail.dropLast else v

/-- `strings.Join` with a separator of the source. -/
def join (sep : Bytes) (parts : List Bytes) : Bytes := sep.intercalate parts

/-- `strings.ReplaceAll(s, "\r\n", " ")`. -/
def replaceCRLF : Bytes → Bytes
  | [] => []
  | [b] => [b]
  | b :: c :: s =>
    if b = carriageReturn ∧ c = newline then space :: replaceCRLF s
    else b :: replaceCRLF (c :: s)

/-- `strings.ReplaceAll` of one byte by another. -/
def replaceByte (old new : UInt8) (s : Bytes) : Bytes := s.map (fun b => if b = old then new else b)

/-! ## 3. Lower case

`toLower` moves no byte that is not a letter: outside ASCII it can only produce bytes from
`0x80` up and lower-case letters. -/

def isAlpha (b : UInt8) : Bool := (0x41 ≤ b && b ≤ 0x5a) || (0x61 ≤ b && b ≤ 0x7a)

theorem isCont_le (h : isCont b = true) : 0x80 ≤ b := by
  grind [isCont]

theorem decodeTwo_other (h : decodeTwo b s = some p) :
    0x80 ≤ p.1 ∧ 0 < p.2 ∧ ∀ x ∈ s.take (p.2 - 1), 0x80 ≤ x := by
  unfold decodeTwo at h
  split at h
  · split at h
    · rename_i b1 _ hc
      obtain rfl := Option.some.inj h
      have h0 := UInt8.le_iff_toNat_le.mp hc.1
      refine ⟨?_, by simp, by simp [isCont_le hc.2.2]⟩
      simp at h0 ⊢
      omega
    · cases h
  · cases h

theorem decodeThree_other (h : decodeThree b s = some p) :
    0x80 ≤ p.1 ∧ 0 < p.2 ∧ ∀ x ∈ s.take (p.2 - 1), 0x80 ≤ x := by
  unfold decodeThree at h
  split at h
  · split at h
    · rename_i b1 b2 _ hc
      obtain rfl := Option.some.inj h
      obtain ⟨hlo, -, h1, h2, h3, -⟩ := hc
      refine ⟨?_, by simp, by simp [isCont_le h1, isCont_le h2]⟩
      -- an E0 lead has a second byte from A0 up; any later lead is large enough by itself
      by_cases he : b = 0xE0
      · subst he
        have := UInt8.le_iff_toNat_le.mp (h3 rfl)
        simp at this ⊢
        omega
      · have hlo' := UInt8.le_iff_toNat_le.mp hlo
        have hne : b.toNat ≠ 0xE0 := fun e => he (UInt8.toNat_inj.mp e)
        simp at hlo' ⊢
        omega
    · cases h
  · cases h

theorem decodeFour_other (h : decodeFour b s = some p) :
    0x80 ≤ p.1 ∧ 0 < p.2 ∧ ∀ x ∈ s.take (p.2 - 1), 0x80 ≤ x := by
  unfold decodeFour at h
  split at h
  · split at h
    · rename_i b1 b2 b3 _ hc
      obtain rfl := Option.some.inj h
      obtain ⟨hlo, -, h1, h2, h3, h4, -⟩ := hc
      refine ⟨?_, by simp, by simp [isCont_le h1, isCont_le h2, isCont_le h3]⟩
      by_cases he : b = 0xF0
      · subst he
        have := UInt8.le_iff_toNat_le.mp (h4 rfl)
        simp at this ⊢
        omega
      · have hlo' := UInt8.le_iff_toNat_le.mp hlo
        have hne : b.toNat ≠ 0xF0 := fun e => he (UInt8.toNat_inj.mp e)
        simp at hlo' ⊢
        omega
    · cases h
  · cases h

theorem decodeRune_ascii (h : b < 0x80) (s : Bytes) : decodeRune b s = (b.toNat, 1) := by
  rw [decodeRune, if_pos h]

theorem decodeRune_other (h : ¬ b < 0x80) (s : Bytes) :
    0x80 ≤ (decodeRune b s).1 ∧ 0 < (decodeRune b s).2 ∧
      ∀ x ∈ s.take ((decodeRune b s).2 - 1), 0x80 ≤ x := by
  rw [decodeRune, if_neg h]
  cases h2 : decodeTwo b s with
  | some p => exact decodeTwo_other h2
  | none =>
    cases h3 : decodeThree b s with
    | some p => exact decodeThree_other h3
    | none =>
      cases h4 : decodeFour b s with
      | some p => exact decodeFour_other h4
      | none => simp [runeError]

theorem runes_cons_ascii (h : b < 0x80) (s : Bytes) : runes (b :: s) = b.toNat :: runes s := by
  simp [runes, runesUpTo, decodeRune_ascii h]

theorem encodeRune_other (h : 0x80 ≤ r) : ∀ x ∈ encodeRune r, 0x80 ≤ x := by
  have hbig : ∀ n : Nat, 0x80 ≤ n → n < 256 → (0x80 : UInt8) ≤ n.toUInt8 := by
    intro n h1 h2
    rw [UInt8.le_iff_toNat_le]
    simpa [Nat.mod_eq_of_lt h2] using h1
  intro x hx
  unfold encodeRune at hx
  rw [if_neg (by omega)] at hx
  split_ifs at hx with h1 h2 h3
  all_goals simp only [mem_cons, not_mem_nil, or_false] at hx
  · rcases hx with rfl | rfl <;> exact hbig _ (by omega) (by omega)
  · rcases hx with rfl | rfl | rfl <;> decide
  · rcases hx with rfl | rfl | rfl <;> exact hbig _ (by omega) (by omega)
  · simp only [Bool.or_eq_true, decide_eq_true_eq, Bool.and_eq_true, not_or] at h2
    rcases hx with rfl | rfl | rfl | rfl <;> exact hbig _ (by omega) (by omega)

theorem encodeRune_lower_other (h : 0x80 ≤ r) :
    ∀ x ∈ encodeRune (U.lower r), 0x80 ≤ x ∨ isAlpha x = true := by
  intro x hx
  by_cases hl : U.lower r < 0x80
  · have hr := U.lower_other r h hl
    rw [encodeRune, if_pos hl, mem_singleton] at hx
    have hmod : (U.lower r).toUInt8.toNat = U.lower r := by simp; omega
    have h1 : (0x61 : UInt8) ≤ x := by
      rw [hx, UInt8.le_iff_toNat_le, hmod]; exact hr.1
    have h2 : x ≤ 0x7a := by rw [hx, UInt8.le_iff_toNat_le, hmod]; exact hr.2
    exact .inr (by simp [isAlpha, h1, h2])
  · exact .inl (encodeRune_other (by omega) x hx)

theorem encodeRune_ascii (b : UInt8) (h : b < 0x80) : encodeRune b.toNat = [b] := by
  have hlt : b.toNat < 0x80 := h
  rw [encodeRune, if_pos hlt, Nat.toUInt8_eq, UInt8.ofNat_toNat]

theorem encodeRune_lower_ascii (h : b < 0x80) : encodeRune (U.lower b.toNat) = [asciiLower b] := by
  have hb : b.toNat < 0x80 := h
  have hlt : (asciiLower b).toNat < 0x80 := by
    rw [toNat_asciiLower]
    split_ifs <;> omega
  rw [U.lower_ascii b h, encodeRune_ascii _ hlt]

theorem toLower_cons_ascii (h : b < 0x80) (s : Bytes) :
    toLower U (b :: s) = asciiLower b :: toLower U s := by
  rw [toLower, runes_cons_ascii h, flatMap_cons, encodeRune_lower_ascii U h]
  rfl

theorem toLower_append_ascii : ∀ {s : Bytes}, (∀ b ∈ s, b < 0x80) → ∀ t : Bytes,
    toLower U (s ++ t) = s.map asciiLower ++ toLower U t
  | [], _, _ => rfl
  | b :: s, h, t => by
    rw [cons_append, toLower_cons_ascii U (h b (by simp)),
      toLower_append_ascii (fun c hc => h c (by simp [hc])) t, map_cons, cons_append]

theorem toLower_of_ascii (h : ∀ b ∈ s, b < 0x80) : toLower U s = s.map asciiLower := by
  have happ := toLower_append_ascii U h []
  have hnil : toLower U [] = [] := rfl
  rwa [append_nil, hnil, append_nil] at happ

theorem asciiLower_of_not_alpha (h : isAlpha b = false) : asciiLower b = b := by
  grind [asciiLower, isAlpha]

theorem isAlpha_asciiLower (h : isAlpha b = true) : isAlpha (asciiLower b) = true := by
  grind [asciiLower, isAlpha]

theorem eq_asciiLower_iff (h : isAlpha x = false) : x = asciiLower b ↔ x = b := by
  cases hb : isAlpha b with
  | true =>
    have hl := isAlpha_asciiLower hb
    refine ⟨fun e => ?_, fun e => ?_⟩
    · rw [← e, h] at hl; cases hl
    · rw [e, hb] at h; cases h
  | false => rw [asciiLower_of_not_alpha hb]

/-- **A byte that is no letter survives lower-casing, and none appears.** -/
theorem mem_toLower_iff (hx : x < 0x80) (hl : isAlpha x = false) (s : Bytes) :
    x ∈ toLower U s ↔ x ∈ s := by
  have hkey : ∀ (n : Nat) (s : Bytes), s.length ≤ n →
      (x ∈ (runesUpTo n s).flatMap (fun r => encodeRune (U.lower r)) ↔ x ∈ s) := by
    intro n
    induction n with
    | zero =>
      intro s hs
      rw [length_eq_zero_iff.mp (by omega : s.length = 0)]
      simp [runesUpTo]
    | succ n ih =>
      intro s hs
      cases s with
      | nil => simp [runesUpTo]
      | cons b s =>
        simp only [length_cons] at hs
        rw [runesUpTo, flatMap_cons, mem_append]
        by_cases hb : b < 0x80
        · rw [decodeRune_ascii hb, encodeRune_lower_ascii U hb, drop_one, tail_cons,
            ih s (by omega), mem_singleton, mem_cons, eq_asciiLower_iff hl]
        · obtain ⟨hr, hw, htake⟩ := decodeRune_other hb s
          have hbig : ∀ y : UInt8, 0x80 ≤ y → y ≠ x := fun y hy e => by
            subst e; exact absurd hx (by simpa using hy)
          obtain ⟨w, hwe⟩ := Nat.exists_eq_succ_of_ne_zero hw.ne'
          rw [hwe] at htake ⊢
          have hhead : x ∉ encodeRune (U.lower (decodeRune b s).1) := by
            intro hm
            rcases encodeRune_lower_other U hr x hm with h | h
            · exact hbig x h rfl
            · rw [hl] at h; cases h
          have hsplit : x ∈ s ↔ x ∈ s.drop w := by
            conv_lhs => rw [← take_append_drop w s, mem_append]
            exact ⟨fun h => h.elim (fun h => absurd rfl (hbig x (htake x (by simpa using h)))) id, .inr⟩
          have hne : b ≠ x := hbig b (by simpa using hb)
          rw [drop_succ_cons, ih (s.drop w) (by simp; omega), mem_cons, ← hsplit]
          simp [hhead, hne.symm]
  exact hkey s.length s le_rfl

def Ascii (s : Bytes) : Prop := ∀ b ∈ s, b < 0x80

instance (s : Bytes) : Decidable (Ascii s) := inferInstanceAs (Decidable (∀ b ∈ s, b < 0x80))

theorem Ascii.not_mem (hs : Ascii s) (hb : ¬ b < 0x80) : b ∉ s := fun h => hb (hs b h)

theorem ascii_nil : Ascii [] := fun _ h => absurd h not_mem_nil

theorem ascii_lit {s : String} (h : ∀ c ∈ s.toList, c.toNat < 0x80) : Ascii (lit s) := by
  intro b hb
  obtain ⟨c, hc, rfl⟩ := mem_map.mp hb
  have hlt : c.val.toNat < 0x80 := h c hc
  rw [UInt8.lt_iff_toNat_lt, UInt32.toNat_toUInt8]
  exact lt_of_le_of_lt (Nat.mod_le _ _) hlt

theorem ascii_cons_iff : Ascii (b :: s) ↔ b < 0x80 ∧ Ascii s := by
  simp [Ascii]

theorem ascii_append_iff : Ascii (s ++ t) ↔ Ascii s ∧ Ascii t := by
  simp [Ascii, or_imp, forall_and]

theorem asciiLower_of_mem_toLower (hx : x < 0x80) (h : x ∈ toLower U s) : asciiLower x = x := by
  obtain ⟨r, -, hr⟩ := mem_flatMap.mp h
  by_cases hlow : U.lower r < 0x80
  · rw [encodeRune, if_pos hlow, mem_singleton] at hr
    by_cases hascii : r < 0x80
    · have hb : r.toUInt8.toNat = r := by simp; omega
      have hr80 : r.toUInt8 < 0x80 := by
        rw [UInt8.lt_iff_toNat_lt, hb]
        exact hascii
      have hl := U.lower_ascii _ hr80
      rw [hb] at hl
      have hidem : ∀ c : UInt8, asciiLower (asciiLower c) = asciiLower c := by grind [asciiLower]
      have hxe : x = asciiLower r.toUInt8 := by
        rw [hr, hl]
        simp
      rw [hxe, hidem]
    · obtain ⟨h1, h2⟩ := U.lower_other r (by omega) hlow
      have hmod : x.toNat = U.lower r := by
        rw [hr]
        simp
        omega
      rw [← UInt8.toNat_inj, toNat_asciiLower, if_neg (by omega)]
  · exact absurd hx (by simpa using encodeRune_other (by omega) x hr)

theorem toLower_toLower (h : Ascii (toLower U s)) : toLower U (toLower U s) = toLower U s := by
  rw [toLower_of_ascii U h]
  conv_rhs => rw [← map_id (toLower U s)]
  exact map_congr_left fun x hx => asciiLower_of_mem_toLower U (h x hx) hx

theorem encodeRune_ne_nil (r : Nat) : encodeRune r ≠ [] := by
  unfold encodeRune
  split_ifs <;> simp

theorem toLower_ne_nil (h : s ≠ []) : toLower U s ≠ [] := by
  cases s with
  | nil => exact absurd rfl h
  | cons b s =>
    rw [toLower, runes, length_cons, runesUpTo, flatMap_cons]
    exact append_ne_nil_of_left_ne_nil (encodeRune_ne_nil _) _

theorem getLast?_runes (h : s.getLast? = some c) :
    ∃ r, (runes s).getLast? = some r ∧ (r = c.toNat ∧ c < 0x80 ∨ 0x80 ≤ r) := by
  have hkey : ∀ (n : Nat) (s : Bytes), s.length ≤ n → s.getLast? = some c →
      ∃ r, (runesUpTo n s).getLast? = some r ∧ (r = c.toNat ∧ c < 0x80 ∨ 0x80 ≤ r) := by
    intro n
    induction n with
    | zero =>
      intro s hs hc
      rw [length_eq_zero_iff.mp (by omega : s.length = 0)] at hc
      cases hc
    | succ n ih =>
      intro s hs hc
      cases s with
      | nil => cases hc
      | cons b s =>
        rw [length_cons] at hs
        have hw : 0 < (decodeRune b s).2 := by
          by_cases hb : b < 0x80
          · rw [decodeRune_ascii hb]
            exact Nat.one_pos
          · exact (decodeRune_other hb s).2.1
        rw [runesUpTo]
        cases hd : (b :: s).drop (decodeRune b s).2 with
        | nil =>
          -- the first rune is the last one
          refine ⟨(decodeRune b s).1, by cases n <;> rfl, ?_⟩
          by_cases hb : b < 0x80
          · rw [decodeRune_ascii hb] at hd ⊢
            have hs : s = [] := by simpa using hd
            subst hs
            obtain rfl := Option.some.inj hc
            exact .inl ⟨rfl, hb⟩
          · exact .inr (decodeRune_other hb s).1
        | cons d t =>
          have hlast : (d :: t).getLast? = some c := by
            rw [← hd, getLast?_drop, if_neg, hc]
            intro hle
            rw [drop_eq_nil_of_le hle] at hd
            cases hd
          have hlen : (d :: t).length ≤ n := by
            rw [← hd, length_drop, length_cons]
            omega
          obtain ⟨r, hr, hcase⟩ := ih (d :: t) hlen hlast
          refine ⟨r, ?_, hcase⟩
          rw [getLast?_cons, hr]
          rfl
  exact hkey s.length s le_rfl h

theorem encodeRune_lower_cases (h : r = c.toNat ∧ c < 0x80 ∨ 0x80 ≤ r)
    (hx : x ∈ encodeRune (U.lower r)) :
    x = asciiLower c ∧ c < 0x80 ∨ 0x80 ≤ x ∨ isAlpha x = true := by
  rcases h with ⟨rfl, hc⟩ | hr
  · rw [encodeRune_lower_ascii U hc, mem_singleton] at hx
    exact .inl ⟨hx, hc⟩
  · exact .inr (encodeRune_lower_other U hr x hx)

theorem head?_toLower (hb : s.head? = some b)
    (hx : (toLower U s).head? = some x) :
    x = asciiLower b ∧ b < 0x80 ∨ 0x80 ≤ x ∨ isAlpha x = true := by
  cases s with
  | nil => cases hb
  | cons c s =>
    obtain rfl := Option.some.inj hb
    have hrune : (decodeRune c s).1 = c.toNat ∧ c < 0x80 ∨ 0x80 ≤ (decodeRune c s).1 := by
      by_cases hc : c < 0x80
      · exact .inl ⟨by rw [decodeRune_ascii hc], hc⟩
      · exact .inr (decodeRune_other hc s).1
    rw [toLower, runes, length_cons, runesUpTo, flatMap_cons,
      head?_append_of_ne_nil _ (encodeRune_ne_nil _)] at hx
    exact encodeRune_lower_cases U hrune (mem_of_head? hx)

theorem getLast?_toLower (hb : s.getLast? = some b)
    (hx : (toLower U s).getLast? = some x) :
    x = asciiLower b ∧ b < 0x80 ∨ 0x80 ≤ x ∨ isAlpha x = true := by
  obtain ⟨r, hr, hrune⟩ := getLast?_runes hb
  obtain ⟨rs, hrs⟩ := getLast?_eq_some_iff.mp hr
  rw [toLower, hrs, flatMap_append, flatMap_singleton,
    getLast?_append_of_ne_nil _ (encodeRune_ne_nil _)] at hx
  exact encodeRune_lower_cases U hrune (mem_of_getLast? hx)

theorem head_toLower_ne_dquote (h : s.head? ≠ some dquote) : (toLower U s).head? ≠ some dquote := by
  intro hx
  cases s with
  | nil => cases hx
  | cons b s =>
    have hlow : ∀ c : UInt8, dquote = asciiLower c → c = dquote := by grind [asciiLower]
    rcases head?_toLower U rfl hx with ⟨hb, -⟩ | hbig | halpha
    · exact h (by rw [head?_cons, hlow b hb])
    · exact absurd hbig (by decide)
    · exact absurd halpha (by decide)

/-! ## 4. Trimming

A visible ASCII byte at an end stops the trimming there; what is trimmed on the left stays
trimmed under any cut on the right. -/

/-- A byte that `TrimSpace` never removes: ASCII and no blank. -/
def isSolid (b : UInt8) : Bool := b < 0x80 && !isSpace b

theorem isSolid_iff : isSolid b = true ↔ b < 0x80 ∧ isSpace b = false := by
  simp [isSolid]

/-- The texts that the two trimming loops remove in one step. -/
inductive Blank : Bytes → Prop where
  | one {b : UInt8} : isSpace b = true → Blank [b]
  | two {b c : UInt8} : (b == 0xC2 && (c == 0x85 || c == 0xA0)) = true → Blank [b, c]
  | three {b c d : UInt8} : ((b == 0xE1 && c == 0x9A && d == 0x80) ||
      (b == 0xE2 && c == 0x80 && ((0x80 ≤ d && d ≤ 0x8A) || d == 0xA8 || d == 0xA9 || d == 0xAF)) ||
      (b == 0xE2 && c == 0x81 && d == 0x9F) || (b == 0xE3 && c == 0x80 && d == 0x80)) = true →
      Blank [b, c, d]

theorem not_mem_blank (hb : isSolid b = true) (w : Bytes) (h : Blank w) : b ∉ w := by
  cases h with
  | one h | two h | three h => grind [isSolid, isSpace]

theorem not_mem_blank_reverse (hb : isSolid b = true) (w : Bytes) (h : Blank w.reverse) :
    b ∉ w := fun hm => not_mem_blank hb _ h (mem_reverse.mpr hm)

theorem trimLeftSpace_skip {w : Bytes} (h : Blank w) (s : Bytes) :
    trimLeftSpace (w ++ s) = trimLeftSpace s := by
  cases h with
  | @one b hb =>
    match s with
    | [] => exact if_pos hb
    | [c] => exact if_pos hb
    | c :: d :: s => exact if_pos hb
  | @two b c h =>
    have hb : ¬ isSpace b = true := by grind [isSpace]
    cases s with
    | nil => exact (if_neg hb).trans (if_pos h)
    | cons d s => exact (if_neg hb).trans (if_pos h)
  | @three b c d h =>
    have hb : ¬ isSpace b = true := by grind [isSpace]
    have hc : ¬ (b == 0xC2 && (c == 0x85 || c == 0xA0)) = true := by grind
    exact ((if_neg hb).trans (if_neg hc)).trans (if_pos h)

theorem trimLeftSpace_stop {s : Bytes} (h : ∀ w, Blank w → ¬ w <+: s) : trimLeftSpace s = s := by
  fun_cases trimLeftSpace s
  case case1 => rfl
  case case2 b hb => exact absurd ⟨[], rfl⟩ (h _ (.one hb))
  case case3 => rfl
  case case4 b c hb => exact absurd ⟨[c], rfl⟩ (h _ (.one hb))
  case case5 b c hb hc => exact absurd ⟨[], rfl⟩ (h _ (.two hc))
  case case6 => rfl
  case case7 b c d t hb => exact absurd ⟨c :: d :: t, rfl⟩ (h _ (.one hb))
  case case8 b c d t hb hc => exact absurd ⟨d :: t, rfl⟩ (h _ (.two hc))
  case case9 b c d t hb hc hd => exact absurd ⟨t, rfl⟩ (h _ (.three hd))
  case case10 => rfl

/-- **`trimLeftSpace` removes blanks** as long as there are any. -/
theorem trims_left : Trims Blank trimLeftSpace :=
  ⟨fun h => (by cases h <;> exact cons_ne_nil _ _), trimLeftSpace_skip, trimLeftSpace_stop⟩

theorem trimRightRev_skip {w : Bytes} (h : Blank w.reverse) (s : Bytes) :
    trimRightRev (w ++ s) = trimRightRev s := by
  obtain ⟨v, rfl⟩ := reverse_surjective w
  rw [reverse_reverse] at h
  cases h with
  | @one b hb =>
    match s with
    | [] => exact if_pos hb
    | [c] => exact if_pos hb
    | c :: d :: s => exact if_pos hb
  | @two b c h =>
    have hc : ¬ isSpace c = true := by grind [isSpace]
    cases s with
    | nil => exact (if_neg hc).trans (if_pos h)
    | cons d s => exact (if_neg hc).trans (if_pos h)
  | @three b c d h =>
    have hd : ¬ isSpace d = true := by grind [isSpace]
    have hc : ¬ (c == 0xC2 && (d == 0x85 || d == 0xA0)) = true := by grind
    exact ((if_neg hd).trans (if_neg hc)).trans (if_pos h)

theorem trimRightRev_stop {s : Bytes} (h : ∀ w : Bytes, Blank w.reverse → ¬ w <+: s) :
    trimRightRev s = s := by
  fun_cases trimRightRev s
  case case1 => rfl
  case case2 b hb => exact absurd ⟨[], rfl⟩ (h [b] (.one hb))
  case case3 => rfl
  case case4 b c hb => exact absurd ⟨[c], rfl⟩ (h [b] (.one hb))
  case case5 b c hb hc => exact absurd ⟨[], rfl⟩ (h [b, c] (.two hc))
  case case6 => rfl
  case case7 b c d t hb => exact absurd ⟨c :: d :: t, rfl⟩ (h [b] (.one hb))
  case case8 b c d t hb hc => exact absurd ⟨d :: t, rfl⟩ (h [b, c] (.two hc))
  case case9 b c d t hb hc hd => exact absurd ⟨t, rfl⟩ (h [b, c, d] (.three hd))
  case case10 => rfl

theorem trims_right : Trims (fun w => Blank w.reverse) trimRightRev :=
  ⟨fun h hw => (by subst hw; cases h), trimRightRev_skip, trimRightRev_stop⟩

theorem trimLeftSpace_cons_solid (h : isSolid b = true) (s : Bytes) :
    trimLeftSpace (b :: s) = b :: s := trims_left.cons (not_mem_blank h) s

theorem trimRightSpace_append (h : isSolid b = true) (s x : Bytes) :
    trimRightSpace (s ++ b :: x) = s ++ b :: trimRightSpace x := by
  rw [trimRightSpace, trimRightSpace, reverse_append, reverse_cons, append_assoc,
    singleton_append, trims_right.append_cons (not_mem_blank_reverse h)]
  simp

theorem trimRightSpace_append_solid (h : isSolid b = true) (s : Bytes) :
    trimRightSpace (s ++ [b]) = s ++ [b] := trimRightSpace_append h s []

@[simp] theorem trimSpace_nil : trimSpace [] = [] := rfl

theorem trimSpace_solid (h0 : ∀ b, s.head? = some b → isSolid b = true)
    (h1 : ∀ b, s.getLast? = some b → isSolid b = true) : trimSpace s = s := by
  cases s with
  | nil => rfl
  | cons b s =>
    rw [trimSpace, trimLeftSpace_cons_solid (h0 b rfl)]
    obtain ⟨t, c, hc⟩ : ∃ t c, b :: s = t ++ [c] :=
      ⟨_, _, (dropLast_append_getLast (cons_ne_nil b s)).symm⟩
    rw [hc] at h1 ⊢
    exact trimRightSpace_append_solid (h1 c (by simp)) t

theorem trimLeftSpace_suffix (s : Bytes) : trimLeftSpace s <:+ s := trims_left.suffix s

theorem trimRightSpace_initial (s : Bytes) : trimRightSpace s <+: s := by
  have h := trims_right.suffix s.reverse
  rw [← reverse_prefix] at h
  simpa [trimRightSpace] using h

theorem trimLeftSpace_of_prefix (hs : trimLeftSpace s = s) (ht : t <+: s) :
    trimLeftSpace t = t := trims_left.of_initial hs ht

theorem trimLeftSpace_trimSpace (s : Bytes) : trimLeftSpace (trimSpace s) = trimSpace s :=
  trimLeftSpace_of_prefix (trims_left.idem s) (trimRightSpace_initial _)

theorem trimRightSpace_cons (h : isSolid b = true) (x : Bytes) :
    trimRightSpace (b :: x) = b :: trimRightSpace x := trimRightSpace_append h [] x

theorem trimSpace_cons_solid (hb : isSolid b = true) (u : Bytes) :
    trimSpace (b :: u) = b :: trimRightSpace u := by
  rw [trimSpace, trimLeftSpace_cons_solid hb, trimRightSpace_cons hb]

theorem trimSpace_of_head (h : ∀ b, s.head? = some b → isSolid b = true) :
    trimSpace s = trimRightSpace s := by
  cases s with
  | nil => rfl
  | cons b s => rw [trimSpace_cons_solid (h b rfl), trimRightSpace_cons (h b rfl)]

theorem trimSpace_append_cons (hs : ∀ b, s.head? = some b → isSolid b = true)
    (hc : isSolid c = true) (t : Bytes) : trimSpace (s ++ c :: t) = s ++ c :: trimRightSpace t := by
  cases s with
  | nil => exact trimSpace_cons_solid hc t
  | cons b s =>
    rw [cons_append, trimSpace_cons_solid (hs b rfl), trimRightSpace_append hc, cons_append]

theorem trimRightRev_ascii : ∀ {s : Bytes}, Ascii s → trimRightRev s = s.dropWhile isSpace
  | [], _ => rfl
  | b :: s, h => by
    have hb : b < 0x80 := h b mem_cons_self
    by_cases hs : isSpace b = true
    · have hskip : trimRightRev (b :: s) = trimRightRev s := trims_right.skip (w := [b]) (.one hs) s
      rw [hskip, dropWhile_cons_of_pos hs, trimRightRev_ascii (forall_mem_cons.mp h).2]
    · have hsolid := isSolid_iff.mpr ⟨hb, by simpa using hs⟩
      rw [trims_right.cons (not_mem_blank_reverse hsolid), dropWhile_cons_of_neg hs]

theorem head?_trimSpace (h : (trimSpace s).head? = some b) : isSpace b = false := by
  obtain ⟨t, ht⟩ := head?_eq_some_iff.mp h
  have hno := trims_left.eq_self_iff.mp (trimLeftSpace_trimSpace s) [b]
  rw [ht] at hno
  exact Bool.eq_false_of_not_eq_true fun hb => hno (.one hb) ⟨t, rfl⟩

theorem getLast?_trimSpace (h : (trimSpace s).getLast? = some b) : isSpace b = false := by
  rw [trimSpace, trimRightSpace, getLast?_reverse] at h
  obtain ⟨t, ht⟩ := head?_eq_some_iff.mp h
  have hno := trims_right.eq_self_iff.mp (trims_right.idem (trimLeftSpace s).reverse) [b]
  rw [ht] at hno
  exact Bool.eq_false_of_not_eq_true fun hb => hno (.one hb) ⟨t, rfl⟩

theorem trimRightSpace_idem (s : Bytes) : trimRightSpace (trimRightSpace s) = trimRightSpace s := by
  rw [trimRightSpace, trimRightSpace, reverse_reverse, trims_right.idem]

theorem trimSpace_idem (s : Bytes) : trimSpace (trimSpace s) = trimSpace s := by
  rw [trimSpace, trimLeftSpace_trimSpace, trimSpace, trimRightSpace_idem]

theorem trimRightSpace_ascii (h : Ascii s) :
    ∃ y, s = trimRightSpace s ++ y ∧ ∀ b ∈ y, isSpace b = true := by
  have hrev : Ascii s.reverse := fun b hb => h b (mem_reverse.mp hb)
  refine ⟨(s.reverse.takeWhile isSpace).reverse, ?_, fun b hb => ?_⟩
  · rw [trimRightSpace, trimRightRev_ascii hrev, ← reverse_append,
      takeWhile_append_dropWhile, reverse_reverse]
  · exact mem_takeWhile_imp (mem_reverse.mp hb)

theorem trimSpace_cons_space (hb : isSpace b = true) (s : Bytes) :
    trimSpace (b :: s) = trimSpace s := congrArg trimRightSpace (trims_left.skip (.one hb) s)

theorem trimSpace_blanks {y : Bytes} (hy : ∀ b ∈ y, isSpace b = true) (s : Bytes) :
    trimSpace (y ++ s) = trimSpace s := by
  induction y with
  | nil => rfl
  | cons b y ih =>
    rw [cons_append, trimSpace_cons_space (hy b mem_cons_self)]
    exact ih (forall_mem_cons.mp hy).2

theorem trimSpace_subset (s : Bytes) : trimSpace s ⊆ s :=
  fun _ h => (trimLeftSpace_suffix s).subset ((trimRightSpace_initial _).subset h)

theorem stripPair_subset (q : UInt8) (v : Bytes) : stripPair q v ⊆ v := by
  unfold stripPair
  split
  · exact fun _ h => mem_of_mem_tail (dropLast_subset _ h)
  · exact List.Subset.refl v

/-! ## 5. Cutting -/

theorem cut_eq_none_iff {b : UInt8} : ∀ {s : Bytes}, cut b s = none ↔ b ∉ s
  | [] => by simp [cut]
  | c :: s => by
    by_cases h : c = b
    · simp [cut, h]
    · rw [cut, if_neg h, Option.map_eq_none_iff, cut_eq_none_iff, mem_cons, not_or]
      exact ⟨fun hs => ⟨fun e => h e.symm, hs⟩, And.right⟩

theorem cut_append {b : UInt8} : ∀ {x : Bytes} (_ : b ∉ x) (y : Bytes),
    cut b (x ++ b :: y) = some (x, y)
  | [], _, y => by simp [cut]
  | c :: x, h, y => by
    rw [mem_cons, not_or] at h
    rw [cons_append, cut, if_neg (fun e => h.1 e.symm), cut_append h.2 y]
    rfl

theorem cut_append_left {b : UInt8} : ∀ {x : Bytes} (_ : b ∉ x) (y : Bytes),
    cut b (x ++ y) = (cut b y).map (fun p => (x ++ p.1, p.2))
  | [], _, y => by simp
  | c :: x, h, y => by
    rw [mem_cons, not_or] at h
    rw [cons_append, cut, if_neg (fun e => h.1 e.symm), cut_append_left h.2 y, Option.map_map]
    rfl

theorem cut_eq_some {b : UInt8} : ∀ {s x y : Bytes}, cut b s = some (x, y) → s = x ++ b :: y ∧ b ∉ x
  | [], _, _, h => by cases h
  | c :: s, x, y, h => by
    rw [cut] at h
    by_cases hc : c = b
    · rw [if_pos hc] at h
      cases h
      simp [hc]
    · rw [if_neg hc, Option.map_eq_some_iff] at h
      obtain ⟨⟨x', y'⟩, hp, he⟩ := h
      obtain ⟨h1, h2⟩ := cut_eq_some hp
      cases he
      refine ⟨by simp [h1], ?_⟩
      rw [mem_cons, not_or]
      exact ⟨fun e => hc e.symm, h2⟩

/-! ## 6. Joining and replacing -/

theorem mem_join_iff {sep : Bytes} {x : UInt8} (hx : x ∉ sep) :
    ∀ {parts : List Bytes}, x ∈ join sep parts ↔ ∃ p ∈ parts, x ∈ p
  | [] => by simp [join]
  | [p] => by simp [join]
  | p :: q :: parts => by
    have ih : x ∈ join sep (q :: parts) ↔ _ := mem_join_iff hx
    rw [join] at ih ⊢
    rw [intercalate_cons_cons, mem_append, mem_append, ih]
    simp [hx]

theorem old_not_mem_replaceByte {old new : UInt8} (h : old ≠ new) (s : Bytes) :
    old ∉ replaceByte old new s := by
  intro hm
  obtain ⟨b, -, hb⟩ := mem_map.mp hm
  split at hb
  · exact h hb.symm
  · rename_i hne
    exact hne hb

theorem not_mem_replaceByte {old new : UInt8} (h : x ≠ new) (hs : x ∉ s) :
    x ∉ replaceByte old new s := by
  intro hm
  obtain ⟨b, hb, he⟩ := mem_map.mp hm
  split at he
  · exact h he.symm
  · exact hs (he ▸ hb)

/-! ### Comparing ASCII texts -/

theorem runes_of_ascii : ∀ {s : Bytes}, Ascii s → runes s = s.map UInt8.toNat
  | [], _ => rfl
  | b :: s, h => by
    obtain ⟨hb, hs⟩ := ascii_cons_iff.mp h
    rw [runes_cons_ascii hb, runes_of_ascii hs, map_cons]

theorem equalFold_ascii_iff (hs : Ascii s) (ht : Ascii t) :
    equalFold U s t = true ↔ s.map asciiLower = t.map asciiLower := by
  have hfold : ∀ {s : Bytes}, Ascii s → (runes s).map U.fold = (s.map asciiLower).map UInt8.toNat := by
    intro s hs
    rw [runes_of_ascii hs, map_map, map_map]
    exact map_congr_left fun b hb => U.fold_ascii b (hs b hb)
  rw [equalFold, hfold hs, hfold ht, beq_iff_eq]
  exact ⟨fun h => map_injective_iff.mpr (fun _ _ => UInt8.toNat_inj.mp) h, fun h => by rw [h]⟩

end AoniContrib.Go
