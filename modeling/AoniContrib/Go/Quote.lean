/-
# Go string literals: `strconv.Quote`, and what JSON makes of them

`Quote` writes a Go literal.  Most of it is also a JSON string, but not its escapes `\a`, `\v`,
`\x..` and `\U........`: a string whose literal has one of them is not `quotable`, and its literal
is no JSON string.  `quote_reads` says that this is all.

`unicode.IsPrint` is a PARAMETER, like the tables of `Unicode`: on ASCII it is the range from the
blank to the tilde.
-/
import AoniContrib.Data.Json

namespace AoniContrib.Go

open List

variable {s : Bytes} {r : Nat} {b : UInt8}

/-- `strconv.IsPrint`. -/
structure PrintTable where
  isPrint : Nat → Bool
  ascii : ∀ r < 0x80, isPrint r = decide (0x20 ≤ r ∧ r < 0x7f)

/-- The table in which the ASCII characters are all there is to print. -/
def PrintTable.asciiOnly : PrintTable where
  isPrint r := decide (0x20 ≤ r ∧ r < 0x7f)
  ascii _ _ := rfl

/-! ## 1. `Quote` -/

def lowerHex (n : Nat) : UInt8 := if n < 10 then (0x30 + n).toUInt8 else (0x61 + (n - 10)).toUInt8

def escapeLetter : Nat → Option UInt8
  | 0x07 => some 0x61
  | 0x08 => some 0x62
  | 0x0c => some 0x66
  | 0x0a => some 0x6e
  | 0x0d => some 0x72
  | 0x09 => some 0x74
  | 0x0b => some 0x76
  | _ => none

def hexDigits : Nat → Nat → Bytes
  | 0, _ => []
  | n + 1, r => lowerHex (r / 16 ^ n % 16) :: hexDigits n r

variable (P : PrintTable)

/-- `appendEscapedRune`, with the double quote as the quote. -/
def appendEscapedRune (r : Nat) : Bytes :=
  if r = 0x22 ∨ r = 0x5c then [backslash, r.toUInt8]
  else if P.isPrint r then encodeRune r
  else
    match escapeLetter r with
    | some c => [backslash, c]
    | none =>
      if r < 0x20 ∨ r = 0x7f then backslash :: 0x78 :: hexDigits 2 r
      else if 0x10FFFF < r ∨ (0xD800 ≤ r ∧ r ≤ 0xDFFF) then backslash :: 0x75 :: hexDigits 4 0xFFFD
      else if r < 0x10000 then backslash :: 0x75 :: hexDigits 4 r
      else backslash :: 0x55 :: hexDigits 8 r

/-- The loop of `appendQuotedWith`, over at most `n` runes. -/
def quoteUpTo : Nat → Bytes → Bytes
  | _, [] => []
  | 0, _ :: _ => []
  | n + 1, b :: s =>
    (if decodeRune b s = (runeError, 1) then backslash :: 0x78 :: hexDigits 2 b.toNat
      else appendEscapedRune P (decodeRune b s).1) ++
    quoteUpTo n ((b :: s).drop (decodeRune b s).2)

def quote (s : Bytes) : Bytes := dquote :: quoteUpTo P s.length s ++ [dquote]

/-! ## 2. The strings whose literal is a JSON string -/

/-- The runes that `Quote` writes raw, or with an escape that JSON has as well. -/
def quotableRune (r : Nat) : Bool :=
  r == 0x22 || r == 0x5c || P.isPrint r || [0x08, 0x09, 0x0a, 0x0c, 0x0d].contains r ||
    decide (0x80 ≤ r ∧ r < 0x10000)

def quotableUpTo : Nat → Bytes → Bool
  | _, [] => true
  | 0, _ :: _ => false
  | n + 1, b :: s =>
    decodeRune b s ≠ (runeError, 1) && quotableRune P (decodeRune b s).1 &&
      quotableUpTo n ((b :: s).drop (decodeRune b s).2)

/-- A string of valid UTF-8 without the runes that need a Go escape. -/
def quotable (s : Bytes) : Bool := quotableUpTo P s.length s

variable {P}

/-! ### One rune -/

theorem unhex_lowerHex : ∀ n < 16, unhex (lowerHex n) = some n := by decide

theorem hex4_hexDigits (hr : r < 0x10000) (s : Bytes) :
    Json.hex4 (hexDigits 4 r ++ s) = some (r, s) := by
  simp only [hexDigits, cons_append, nil_append, Json.hex4,
    unhex_lowerHex _ (Nat.mod_lt _ (by decide : 0 < 16)), Option.bind_eq_bind, Option.bind_some]
  congr 2
  omega

theorem parseEscape_unicode (hr : r < 0x10000) (hs : ¬ (0xD800 ≤ r ∧ r ≤ 0xDFFF))
    (s : Bytes) : Json.parseEscape (0x75 :: (hexDigits 4 r ++ s)) = some (r, s) := by
  have hletter : Json.simpleEscape 0x75 = none := rfl
  rw [Json.parseEscape, hletter]
  simp only [if_true, hex4_hexDigits hr, Option.bind_eq_bind, Option.bind_some]
  rw [if_neg (by omega)]

theorem parseEscape_letter {c : UInt8} (h : Json.simpleEscape c = some r) (s : Bytes) :
    Json.parseEscape (c :: s) = some (r, s) := by
  rw [Json.parseEscape, h]

theorem parseEscape_go {c : UInt8} (h : c ∈ [0x61, 0x76, 0x78, 0x55]) (s : Bytes) :
    Json.parseEscape (c :: s) = none := by
  have hletter : ∀ c ∈ ([0x61, 0x76, 0x78, 0x55] : Bytes),
      Json.simpleEscape c = none ∧ c ≠ 0x75 := by decide +kernel
  rw [Json.parseEscape, (hletter c h).1]
  exact if_neg (hletter c h).2

/-- What the characters of a string become when `t` is written in front of them. -/
abbrev prepend (t : Bytes) (p : Option (Bytes × Bytes)) : Option (Bytes × Bytes) :=
  p.map fun q => (t ++ q.1, q.2)

theorem parseChars_backslash (n : Nat) (s : Bytes) : Json.parseChars (n + 1) (backslash :: s) =
    (Json.parseEscape s).bind fun p => prepend (encodeRune p.1) (Json.parseChars n p.2) := by
  rw [Json.parseChars, if_neg (by decide), if_pos rfl]
  cases Json.parseEscape s with
  | none => rfl
  | some p => cases h : Json.parseChars n p.2 <;> simp [h]

theorem parseChars_raw (n : Nat) (tail : Bytes) {rest : Bytes}
    (hq : b ≠ dquote) (hs : b ≠ backslash) (hc : ¬ b < 0x20)
    (hd : decodeRune b (tail ++ rest) = (r, tail.length + 1))
    (hne : decodeRune b (tail ++ rest) ≠ (runeError, 1)) :
    Json.parseChars (n + 1) (b :: tail ++ rest) = prepend (b :: tail) (Json.parseChars n rest) := by
  rw [cons_append, Json.parseChars, if_neg hq, if_neg hs, if_neg (by simp [hc, hne]), hd]
  simp only [drop_succ_cons, drop_left, take_succ_cons, take_left]
  cases Json.parseChars n rest <;> rfl

theorem appendEscapedRune_ascii (hb : b < 0x80) :
    (appendEscapedRune P b.toNat = [b] ∧ quotableRune P b.toNat = true ∧
      b ≠ dquote ∧ b ≠ backslash ∧ ¬ b < 0x20) ∨
    (∃ c ∈ ([0x22, 0x5c, 0x62, 0x66, 0x6e, 0x72, 0x74] : Bytes),
      appendEscapedRune P b.toNat = [backslash, c] ∧ quotableRune P b.toNat = true ∧
      Json.simpleEscape c = some b.toNat) ∨
    (∃ c ∈ ([0x61, 0x76, 0x78, 0x55] : Bytes),
      (appendEscapedRune P b.toNat).take 2 = [backslash, c] ∧
      quotableRune P b.toNat = false) := by
  have htable : P.isPrint b.toNat = PrintTable.asciiOnly.isPrint b.toNat :=
    P.ascii _ (by simpa [UInt8.lt_iff_toNat_lt] using hb)
  have happend : appendEscapedRune P b.toNat = appendEscapedRune .asciiOnly b.toNat := by
    rw [appendEscapedRune, htable, appendEscapedRune]
  have hquotable : quotableRune P b.toNat = quotableRune .asciiOnly b.toNat := by
    rw [quotableRune, htable, quotableRune]
  rw [happend, hquotable]
  clear happend hquotable htable
  revert b
  decide +kernel

theorem parseChars_ascii (n : Nat) (hb : b < 0x80) (rest : Bytes) :
    Json.parseChars (n + 1) (appendEscapedRune P b.toNat ++ rest) =
      if quotableRune P b.toNat then prepend [b] (Json.parseChars n rest) else none := by
  rcases appendEscapedRune_ascii (P := P) hb with
    ⟨ha, hq, h1, h2, h3⟩ | ⟨c, -, ha, hq, hc⟩ | ⟨c, hc, ha, hq⟩
  · have hd := decodeRune_ascii hb rest
    rw [ha, hq, if_pos rfl]
    exact parseChars_raw n [] h1 h2 h3 hd (decodeRune_ascii_ne hb rest)
  · rw [ha, hq, if_pos rfl, cons_append, parseChars_backslash, cons_append,
      parseEscape_letter hc, Option.bind_some, encodeRune_ascii b hb]
    rfl
  · have hsplit : appendEscapedRune P b.toNat =
        backslash :: c :: (appendEscapedRune P b.toNat).drop 2 := by
      conv_lhs => rw [← take_append_drop 2 (appendEscapedRune P b.toNat), ha]
      rfl
    rw [hsplit, hq, cons_append, parseChars_backslash, cons_append, parseEscape_go hc]
    rfl

theorem escapeLetter_big (h : 0x80 ≤ r) : escapeLetter r = none := by
  unfold escapeLetter
  split <;> first | omega | rfl

theorem not_ascii_raw (h : ¬ b < 0x80) : b ≠ dquote ∧ b ≠ backslash ∧ ¬ b < 0x20 := by
  grind

theorem parseChars_sequence (n : Nat) {tail : Bytes} (h : Sequence b tail r)
    (rest : Bytes) :
    Json.parseChars (n + 1) (appendEscapedRune P r ++ rest) =
      if quotableRune P r then prepend (b :: tail) (Json.parseChars n rest) else none := by
  obtain ⟨hlow, hhigh, hsurrogate, henc⟩ := h.rune
  have hsimple : ¬ (r = 0x22 ∨ r = 0x5c) := by omega
  have hq : quotableRune P r = (P.isPrint r || decide (r < 0x10000)) := by
    have h1 : (r == 0x22) = false := beq_eq_false_iff_ne.mpr (by omega)
    have h2 : (r == 0x5c) = false := beq_eq_false_iff_ne.mpr (by omega)
    have h3 : [0x08, 0x09, 0x0a, 0x0c, 0x0d].contains r = false := by
      simp only [contains_eq_mem, mem_cons, not_mem_nil, or_false, decide_eq_false_iff_not]
      omega
    rw [quotableRune, h1, h2, h3]
    simp [hlow]
  rw [appendEscapedRune, if_neg hsimple, hq]
  cases hp : P.isPrint r with
  | true =>
    have hhead := h.not_ascii
    have hd := h.decodeRune_append rest
    have hlen : 0 < tail.length := by cases h <;> simp
    obtain ⟨h1, h2, h3⟩ := not_ascii_raw hhead
    simp only [if_true, Bool.true_or, henc]
    exact parseChars_raw n tail h1 h2 h3 hd (by rw [hd, Ne, Prod.mk.injEq]; omega)
  | false =>
    rw [if_neg Bool.false_ne_true, escapeLetter_big hlow, Bool.false_or]
    simp only [if_neg (by omega : ¬ (r < 0x20 ∨ r = 0x7f)),
      if_neg (by omega : ¬ (0x10FFFF < r ∨ (0xD800 ≤ r ∧ r ≤ 0xDFFF))), decide_eq_true_eq]
    split
    · rename_i hbmp
      rw [cons_append, parseChars_backslash, cons_append,
        parseEscape_unicode hbmp hsurrogate, Option.bind_some, henc]
    · rw [cons_append, parseChars_backslash, cons_append, parseEscape_go (by decide)]
      rfl

theorem parseChars_escaped (n : Nat)
    (hne : decodeRune b s ≠ (runeError, 1)) (rest : Bytes) :
    Json.parseChars (n + 1) (appendEscapedRune P (decodeRune b s).1 ++ rest) =
      if quotableRune P (decodeRune b s).1 then
        prepend ((b :: s).take (decodeRune b s).2) (Json.parseChars n rest)
      else none := by
  rcases decodeRune_cases b s with ⟨hb, hd⟩ | ⟨tail, rest', r, rfl, hseq, hd⟩ | hd
  · rw [hd]
    exact parseChars_ascii n hb rest
  · rw [hd, take_succ_cons, take_left]
    exact parseChars_sequence n hseq rest
  · exact absurd hd hne

/-! ### The string -/

theorem appendEscapedRune_ne_nil (r : Nat) : appendEscapedRune P r ≠ [] := by
  unfold appendEscapedRune
  split
  · exact cons_ne_nil _ _
  split
  · exact encodeRune_ne_nil r
  split
  · exact cons_ne_nil _ _
  · split_ifs <;> exact cons_ne_nil _ _

theorem parseChars_quoteUpTo (rest : Bytes) : ∀ (n m : Nat) (s : Bytes), s.length ≤ n →
    (quoteUpTo P n s).length < m →
    Json.parseChars m (quoteUpTo P n s ++ dquote :: rest) =
      if quotableUpTo P n s then some (s, rest) else none
  | n, m + 1, [], _, _ => by
    cases n <;> simp [quoteUpTo, quotableUpTo, Json.parseChars]
  | n + 1, m + 1, b :: s, hn, hm => by
    have hwidth := decodeRune_width b s
    have hdrop : ((b :: s).drop (decodeRune b s).2).length ≤ n := by
      rw [length_drop]
      omega
    rw [quoteUpTo] at hm ⊢
    rw [quotableUpTo, append_assoc]
    by_cases hd : decodeRune b s = (runeError, 1)
    · rw [if_pos hd, cons_append, parseChars_backslash, cons_append, parseEscape_go (by decide)]
      simp [hd]
    · have hpos := length_pos_iff.mpr (appendEscapedRune_ne_nil (P := P) (decodeRune b s).1)
      rw [if_neg hd] at hm ⊢
      rw [length_append] at hm
      rw [parseChars_escaped m hd, parseChars_quoteUpTo rest n m _ hdrop (by omega)]
      simp only [ne_eq, hd, not_false_eq_true, decide_true, Bool.true_and]
      cases quotableRune P (decodeRune b s).1 with
      | false => rfl
      | true =>
        cases quotableUpTo P n ((b :: s).drop (decodeRune b s).2) with
        | false => rfl
        | true => exact congrArg (fun t => some (t, rest)) (take_append_drop _ _)

/-- **The literals of Go as JSON strings**: those of the quotable strings are read back, the others
are no JSON strings. -/
theorem quote_reads : Json.Reads (quote P) (quotable P) where
  quoted s := ⟨_, rfl⟩
  read s rest := by
    rw [quote, cons_append, cons_append, append_assoc, singleton_append, Json.parseString, if_pos rfl]
    exact parseChars_quoteUpTo rest _ _ s le_rfl (by simp)

/-! ### Plain strings -/

/-- The characters that are written raw whatever the table says. -/
def isPlain (b : UInt8) : Bool := 0x20 ≤ b && b < 0x7f && b != dquote && b != backslash

theorem isPlain_rune (h : isPlain b = true) : b < 0x80 ∧
    appendEscapedRune P b.toNat = [b] ∧ quotableRune P b.toNat = true := by
  have hbyte : ∀ b : UInt8, isPlain b = true → b < 0x80 ∧ 0x20 ≤ b.toNat ∧ b.toNat < 0x7f ∧
      b.toNat ≠ 0x22 ∧ b.toNat ≠ 0x5c := by
    intro b hb
    simp only [isPlain, dquote, backslash, Bool.and_eq_true, decide_eq_true_eq, bne_iff_ne, ne_eq,
      UInt8.lt_iff_toNat_lt, UInt8.le_iff_toNat_le, ← UInt8.toNat_inj, UInt8.reduceToNat] at hb ⊢
    omega
  obtain ⟨hb, h20, h7f, h22, h5c⟩ := hbyte b h
  have henc := encodeRune_ascii b hb
  have hprint : P.isPrint b.toNat = true := by
    rw [P.ascii _ (by omega)]
    exact decide_eq_true ⟨h20, h7f⟩
  refine ⟨hb, ?_, by simp [quotableRune, hprint]⟩
  rw [appendEscapedRune, if_neg (by omega), if_pos hprint, henc]

theorem quoteUpTo_plain : ∀ (n : Nat) (s : Bytes), s.length ≤ n → (∀ b ∈ s, isPlain b = true) →
    quoteUpTo P n s = s ∧ quotableUpTo P n s = true
  | n, [], _, _ => by cases n <;> exact ⟨rfl, rfl⟩
  | n + 1, b :: s, hn, h => by
    obtain ⟨hb, happend, hquotable⟩ := isPlain_rune (P := P) (h b mem_cons_self)
    obtain ⟨hq, hs⟩ := quoteUpTo_plain n s (by simpa using hn) fun c hc => h c (mem_cons_of_mem b hc)
    have hne := decodeRune_ascii_ne hb s
    rw [quoteUpTo, quotableUpTo, if_neg hne]
    simp only [ne_eq, hne, not_false_eq_true, decide_true, Bool.true_and]
    rw [decodeRune_ascii hb s, happend, hquotable, drop_succ_cons, drop_zero, hq, hs]
    exact ⟨rfl, rfl⟩

theorem quote_plain (h : ∀ b ∈ s, isPlain b = true) : quote P s = dquote :: s ++ [dquote] := by
  rw [quote, (quoteUpTo_plain s.length s le_rfl h).1]

theorem quotable_plain (h : ∀ b ∈ s, isPlain b = true) : quotable P s = true :=
  (quoteUpTo_plain s.length s le_rfl h).2

end AoniContrib.Go
