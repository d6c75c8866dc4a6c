/-
# JSON strings as `encoding/json` writes them

`json.Marshal` writes a string rune by rune, and an invalid byte as U+FFFD.  Here the two are apart:
`toValidUTF8` replaces the invalid bytes, and `jsonQuote` writes what is valid.  `jsonQuote_reads` says
that a valid string is read back, so a string comes out of a document as `toValidUTF8` of itself
(`toValidUTF8_eq_self_iff`: as itself exactly if it is valid).
-/
import AoniContrib.Go.Quote

namespace AoniContrib.Go

open List

variable {s : Bytes} {r : Nat} {b : UInt8}

/-! ## 1. Invalid bytes -/

def toValidUTF8 (s : Bytes) : Bytes := (runes s).flatMap encodeRune

theorem toValidUTF8_cons (b : UInt8) (s : Bytes) : toValidUTF8 (b :: s) =
    encodeRune (decodeRune b s).1 ++ toValidUTF8 ((b :: s).drop (decodeRune b s).2) := by
  rw [toValidUTF8, runes_cons, flatMap_cons, toValidUTF8]

theorem validUpTo_of_le : ∀ {n m : Nat} {s : Bytes}, s.length ≤ n → s.length ≤ m →
    validUpTo n s = validUpTo m s
  | 0, 0, _, _, _ => rfl
  | n + 1, 0, [], _, _ => rfl
  | 0, m + 1, [], _, _ => rfl
  | n + 1, m + 1, [], _, _ => rfl
  | n + 1, m + 1, b :: s, hn, hm => by
    have hdrop := drop_lt b s
    rw [validUpTo, validUpTo, validUpTo_of_le (Nat.le_of_lt_succ (hdrop.trans_le hn))
      (Nat.le_of_lt_succ (hdrop.trans_le hm))]

theorem utf8Valid_cons (b : UInt8) (s : Bytes) : utf8Valid (b :: s) =
    (decide (decodeRune b s ≠ (runeError, 1)) && utf8Valid ((b :: s).drop (decodeRune b s).2)) := by
  rw [utf8Valid, length_cons, validUpTo, utf8Valid,
    validUpTo_of_le (Nat.le_of_lt_succ (drop_lt b s)) le_rfl]

theorem utf8Valid_cons_ascii (hb : b < 0x80) (s : Bytes) : utf8Valid (b :: s) = utf8Valid s := by
  rw [utf8Valid_cons, decide_eq_true (decodeRune_ascii_ne hb s), decodeRune_ascii hb]
  rfl

theorem utf8Valid_sequence {tail : Bytes} (h : Sequence b tail r) (s : Bytes) :
    utf8Valid (b :: tail ++ s) = utf8Valid s := by
  have hlen : 0 < tail.length := by cases h <;> simp
  have hd := h.decodeRune_append s
  have hne : decodeRune b (tail ++ s) ≠ (runeError, 1) := by
    rw [hd, Ne, Prod.mk.injEq]
    omega
  rw [cons_append, utf8Valid_cons, decide_eq_true hne, hd, Bool.true_and, drop_succ_cons, drop_left]

theorem utf8Valid_encodeRune (b : UInt8) (s t : Bytes) :
    utf8Valid (encodeRune (decodeRune b s).1 ++ t) = utf8Valid t := by
  rcases decodeRune_cases b s with ⟨hb, hd⟩ | ⟨tail, rest, r, -, hseq, hd⟩ | hd
  · rw [hd, encodeRune_ascii b hb]
    exact utf8Valid_cons_ascii hb t
  · rw [hd, hseq.rune.2.2.2]
    exact utf8Valid_sequence hseq t
  · obtain ⟨b', tail, he, hseq⟩ := encodeRune_runeError
    rw [hd, he]
    exact utf8Valid_sequence hseq t

theorem utf8Valid_toValidUTF8 : ∀ s : Bytes, utf8Valid (toValidUTF8 s) = true
  | [] => rfl
  | b :: s => by
    rw [toValidUTF8_cons, utf8Valid_encodeRune]
    exact utf8Valid_toValidUTF8 _
termination_by s => s.length
decreasing_by exact drop_lt b s

theorem toValidUTF8_of_valid : ∀ {s : Bytes}, utf8Valid s = true → toValidUTF8 s = s
  | [], _ => rfl
  | b :: s, h => by
    rw [utf8Valid_cons, Bool.and_eq_true, decide_eq_true_eq] at h
    have hrest := toValidUTF8_of_valid h.2
    rw [toValidUTF8_cons, hrest]
    rcases decodeRune_cases b s with ⟨hb, hd⟩ | ⟨tail, rest, r, rfl, hseq, hd⟩ | hd
    · rw [hd, encodeRune_ascii b hb]
      rfl
    · rw [hd, hseq.rune.2.2.2, drop_succ_cons, drop_left, cons_append]
    · exact absurd hd h.1
termination_by s => s.length
decreasing_by exact drop_lt b s

theorem toValidUTF8_eq_self_iff : toValidUTF8 s = s ↔ utf8Valid s = true := by
  constructor
  · intro h
    rw [← h]
    exact utf8Valid_toValidUTF8 s
  · exact toValidUTF8_of_valid

/-- The first `k` characters of a string. -/
def firstRunes (k : Nat) (s : Bytes) : Bytes := ((runes s).take k).flatMap encodeRune

theorem firstRunes_cons (k : Nat) (b : UInt8) (s : Bytes) : firstRunes (k + 1) (b :: s) =
    encodeRune (decodeRune b s).1 ++ firstRunes k ((b :: s).drop (decodeRune b s).2) := by
  rw [firstRunes, runes_cons, take_succ_cons, flatMap_cons, firstRunes]

theorem utf8Valid_firstRunes : ∀ (k : Nat) (s : Bytes), utf8Valid (firstRunes k s) = true
  | 0, _ => rfl
  | _ + 1, [] => rfl
  | k + 1, b :: s => by
    rw [firstRunes_cons, utf8Valid_encodeRune]
    exact utf8Valid_firstRunes k _

theorem firstRunes_isPrefix (h : utf8Valid s = true) (k : Nat) : firstRunes k s <+: s := by
  have hall : firstRunes k s ++ ((runes s).drop k).flatMap encodeRune = s := by
    rw [firstRunes, ← flatMap_append, take_append_drop]
    exact toValidUTF8_of_valid h
  exact ⟨_, hall⟩

theorem exists_firstRunes (q : Bytes) : ∀ {p : Bytes}, utf8Valid p = true → ∃ k, p = firstRunes k (p ++ q)
  | [], _ => ⟨0, rfl⟩
  | b :: s, h => by
    rcases decodeRune_cases b s with ⟨hb, -⟩ | ⟨tail, rest, r, hs, hseq, -⟩ | hd
    · rw [utf8Valid_cons_ascii hb] at h
      obtain ⟨k, hk⟩ := exists_firstRunes q h
      refine ⟨k + 1, ?_⟩
      rw [cons_append, firstRunes_cons, decodeRune_ascii hb, encodeRune_ascii b hb, drop_one, tail_cons,
        ← hk]
      rfl
    · rw [hs, ← cons_append, utf8Valid_sequence hseq] at h
      obtain ⟨k, hk⟩ := exists_firstRunes q h
      refine ⟨k + 1, ?_⟩
      rw [hs, cons_append, append_assoc, firstRunes_cons, hseq.decodeRune_append, hseq.rune.2.2.2,
        drop_succ_cons, drop_left, ← hk, cons_append]
    · rw [utf8Valid_cons, hd, decide_eq_false (not_not.mpr rfl)] at h
      cases h
termination_by p => p.length
decreasing_by
  · simp
  · simp [hs]

theorem utf8Valid_of_ascii : ∀ {s : Bytes}, Ascii s → utf8Valid s = true
  | [], _ => rfl
  | b :: s, h => by
    obtain ⟨hb, hs⟩ := ascii_cons_iff.mp h
    rw [utf8Valid_cons_ascii hb]
    exact utf8Valid_of_ascii hs

theorem decodeRune_append_ascii {t : Bytes} (ht : Ascii t)
    (h : decodeRune b s = (runeError, 1)) : decodeRune b (s ++ t) = (runeError, 1) := by
  have hb : ¬ b < 0x80 := fun hb => decodeRune_ascii_ne hb s h
  rcases decodeRune_cases b (s ++ t) with ⟨hb', -⟩ | ⟨tail, rest, r, heq, hseq, -⟩ | hd
  · exact absurd hb' hb
  · -- the bytes of the sequence are not ASCII, so they are all in `s`
    exfalso
    rcases append_eq_append_iff.mp heq with ⟨a, htail, ha⟩ | ⟨a, hs, ha⟩
    · have hall : ∀ x ∈ tail, ¬ x < 0x80 := hseq.tail_not_ascii
      cases a with
      | nil =>
        rw [append_nil] at htail
        have := hseq.decodeRune_append []
        rw [append_nil, htail, h, Prod.mk.injEq] at this
        have hlen : 0 < tail.length := by cases hseq <;> simp
        rw [htail] at hlen
        omega
      | cons x a =>
        exact hall x (by rw [htail]; simp) (ht x (by rw [ha]; simp))
    · have := hseq.decodeRune_append a
      rw [← hs, h, Prod.mk.injEq] at this
      have hlen : 0 < tail.length := by cases hseq <;> simp
      omega
  · exact hd

theorem utf8Valid_append_ascii {t : Bytes} (ht : Ascii t) : ∀ s : Bytes,
    utf8Valid (s ++ t) = utf8Valid s
  | [] => by
    rw [nil_append, utf8Valid_of_ascii ht]
    rfl
  | b :: s => by
    rcases decodeRune_cases b s with ⟨hb, -⟩ | ⟨tail, rest, r, hs, hseq, -⟩ | hd
    · rw [cons_append, utf8Valid_cons_ascii hb, utf8Valid_cons_ascii hb]
      exact utf8Valid_append_ascii ht s
    · rw [hs, cons_append, append_assoc, ← cons_append, utf8Valid_sequence hseq,
        ← cons_append, utf8Valid_sequence hseq]
      exact utf8Valid_append_ascii ht rest
    · have hd' := decodeRune_append_ascii ht hd
      rw [cons_append, utf8Valid_cons, utf8Valid_cons, hd, hd', decide_eq_false (not_not.mpr rfl)]
      rfl
termination_by s => s.length
decreasing_by
  · simp
  · simp [hs]

theorem utf8Valid_ascii_append (hs : Ascii s) (t : Bytes) : utf8Valid (s ++ t) = utf8Valid t := by
  induction s with
  | nil => rfl
  | cons b s ih =>
    obtain ⟨hb, hs⟩ := ascii_cons_iff.mp hs
    rw [cons_append, utf8Valid_cons_ascii hb]
    exact ih hs

/-! ## 2. The writer -/

/-- The letter of a one-letter escape of JSON. -/
def jsonLetter : Nat → Option UInt8
  | 0x22 => some 0x22
  | 0x5c => some 0x5c
  | 0x08 => some 0x62
  | 0x0c => some 0x66
  | 0x0a => some 0x6e
  | 0x0d => some 0x72
  | 0x09 => some 0x74
  | _ => none

/-- A rune: control characters, the marks of HTML and the line separators are escaped. -/
def jsonRune (r : Nat) : Bytes :=
  match jsonLetter r with
  | some c => [backslash, c]
  | none =>
    if r < 0x20 ∨ r = 0x3c ∨ r = 0x3e ∨ r = 0x26 ∨ r = 0x2028 ∨ r = 0x2029 then
      backslash :: 0x75 :: hexDigits 4 r
    else encodeRune r

/-- The string up to its closing quote.  An invalid byte, which `toValidUTF8` leaves none of, is
written as in a literal of Go. -/
def jsonUpTo : Nat → Bytes → Bytes
  | _, [] => []
  | 0, _ :: _ => []
  | n + 1, b :: s =>
    (if decodeRune b s = (runeError, 1) then backslash :: 0x78 :: hexDigits 2 b.toNat
      else jsonRune (decodeRune b s).1) ++
    jsonUpTo n ((b :: s).drop (decodeRune b s).2)

def jsonQuote (s : Bytes) : Bytes := dquote :: jsonUpTo s.length s ++ [dquote]

/-! ## 3. The reader -/

theorem parseChars_unicode (n : Nat) (hr : r < 0x10000)
    (hs : ¬ (0xD800 ≤ r ∧ r ≤ 0xDFFF)) (rest : Bytes) :
    Json.parseChars (n + 1) (backslash :: 0x75 :: hexDigits 4 r ++ rest) =
      prepend (encodeRune r) (Json.parseChars n rest) := by
  rw [cons_append, parseChars_backslash, cons_append, parseEscape_unicode hr hs, Option.bind_some]

theorem jsonRune_ascii : ∀ b : UInt8, b < 0x80 →
    (jsonRune b.toNat = [b] ∧ b ≠ dquote ∧ b ≠ backslash ∧ ¬ b < 0x20) ∨
    (∃ c ∈ ([0x22, 0x5c, 0x62, 0x66, 0x6e, 0x72, 0x74] : Bytes),
      jsonRune b.toNat = [backslash, c] ∧ Json.simpleEscape c = some b.toNat) ∨
    jsonRune b.toNat = backslash :: 0x75 :: hexDigits 4 b.toNat := by
  decide +kernel

theorem parseChars_jsonRune_ascii (n : Nat) (hb : b < 0x80) (rest : Bytes) :
    Json.parseChars (n + 1) (jsonRune b.toNat ++ rest) = prepend [b] (Json.parseChars n rest) := by
  have hlt : b.toNat < 0x80 := by simpa [UInt8.lt_iff_toNat_lt] using hb
  rcases jsonRune_ascii b hb with ⟨ha, h1, h2, h3⟩ | ⟨c, -, ha, hc⟩ | ha
  · rw [ha]
    exact parseChars_raw n [] h1 h2 h3 (decodeRune_ascii hb rest) (decodeRune_ascii_ne hb rest)
  · rw [ha, cons_append, parseChars_backslash, cons_append, parseEscape_letter hc,
      Option.bind_some, encodeRune_ascii b hb]
    rfl
  · rw [ha, parseChars_unicode n (by omega) (by omega), encodeRune_ascii b hb]

theorem jsonLetter_big (h : 0x80 ≤ r) : jsonLetter r = none := by
  unfold jsonLetter
  split <;> first | omega | rfl

theorem parseChars_jsonRune_sequence (n : Nat) {tail : Bytes}
    (h : Sequence b tail r) (rest : Bytes) :
    Json.parseChars (n + 1) (jsonRune r ++ rest) = prepend (b :: tail) (Json.parseChars n rest) := by
  obtain ⟨hlow, hhigh, hsurrogate, henc⟩ := h.rune
  unfold jsonRune
  rw [jsonLetter_big hlow]
  dsimp only
  split_ifs with hmark
  · rw [parseChars_unicode n (by omega) hsurrogate, henc]
  · obtain ⟨h1, h2, h3⟩ := not_ascii_raw h.not_ascii
    have hd := h.decodeRune_append rest
    have hlen : 0 < tail.length := by cases h <;> simp
    rw [henc]
    exact parseChars_raw n tail h1 h2 h3 hd (by rw [hd, Ne, Prod.mk.injEq]; omega)

theorem parseChars_jsonRune (n : Nat)
    (hne : decodeRune b s ≠ (runeError, 1)) (rest : Bytes) :
    Json.parseChars (n + 1) (jsonRune (decodeRune b s).1 ++ rest) =
      prepend ((b :: s).take (decodeRune b s).2) (Json.parseChars n rest) := by
  rcases decodeRune_cases b s with ⟨hb, hd⟩ | ⟨tail, rest', r, rfl, hseq, hd⟩ | hd
  · rw [hd]
    exact parseChars_jsonRune_ascii n hb rest
  · rw [hd, take_succ_cons, take_left]
    exact parseChars_jsonRune_sequence n hseq rest
  · exact absurd hd hne

theorem jsonRune_ne_nil (r : Nat) : jsonRune r ≠ [] := by
  unfold jsonRune
  split
  · exact cons_ne_nil _ _
  · split_ifs
    · exact cons_ne_nil _ _
    · exact encodeRune_ne_nil r

theorem parseChars_jsonUpTo (rest : Bytes) : ∀ (n m : Nat) (s : Bytes), s.length ≤ n →
    (jsonUpTo n s).length < m →
    Json.parseChars m (jsonUpTo n s ++ dquote :: rest) = if validUpTo n s then some (s, rest) else none
  | n, m + 1, [], _, _ => by
    cases n <;> simp [jsonUpTo, validUpTo, Json.parseChars]
  | n + 1, m + 1, b :: s, hn, hm => by
    have hdrop := drop_lt b s
    rw [jsonUpTo] at hm ⊢
    rw [validUpTo, append_assoc]
    by_cases hd : decodeRune b s = (runeError, 1)
    · rw [if_pos hd, cons_append, parseChars_backslash, cons_append, parseEscape_go (by decide)]
      simp [hd]
    · have hpos := length_pos_iff.mpr (jsonRune_ne_nil (decodeRune b s).1)
      rw [if_neg hd] at hm ⊢
      rw [length_append] at hm
      rw [parseChars_jsonRune m hd,
        parseChars_jsonUpTo rest n m _ (Nat.le_of_lt_succ (hdrop.trans_le hn)) (by omega)]
      simp only [ne_eq, hd, not_false_eq_true, decide_true, Bool.true_and]
      cases validUpTo n ((b :: s).drop (decodeRune b s).2) with
      | false => rfl
      | true => exact congrArg (fun t => some (t, rest)) (take_append_drop _ _)

theorem jsonQuote_reads : Json.Reads jsonQuote utf8Valid where
  quoted s := ⟨_, rfl⟩
  read s rest := by
    rw [jsonQuote, cons_append, cons_append, append_assoc, singleton_append,
      Json.parseString, if_pos rfl]
    exact parseChars_jsonUpTo rest _ _ s le_rfl (by simp)

/-! ## 4. Structs

A struct is written as an object with a member for each of its fields, except those that are empty and
marked `omitempty`.  The reader takes the last member of a name; a member that is missing or `null`
leaves the field empty. -/

/-- The members of a struct, from its fields in order. -/
def structMembers (fields : List (Bytes × Option Json)) : List (Bytes × Json) :=
  fields.filterMap fun f => f.2.map fun v => (f.1, v)

/-- A field that is marked `omitempty`. -/
def omitEmpty (s : Bytes) : Option Json := if s = [] then none else some (.str s)

def lastMember (name : Bytes) (members : List (Bytes × Json)) : Option Json :=
  ((members.filter fun m => m.1 = name).getLast?).map Prod.snd

def asString : Option Json → Option Bytes
  | none => some []
  | some .null => some []
  | some (.str s) => some s
  | some _ => none

theorem asString_omitEmpty (s : Bytes) : asString (omitEmpty s) = some s := by
  unfold omitEmpty
  split_ifs with h
  · rw [h]
    rfl
  · rfl

theorem filter_structMembers_nil {name : Bytes} : ∀ {fields : List (Bytes × Option Json)},
    name ∉ fields.map Prod.fst →
    (structMembers fields).filter (fun m => m.1 = name) = []
  | [], _ => rfl
  | (k, none) :: fields, h => by
    have hcons : structMembers ((k, none) :: fields) = structMembers fields := rfl
    rw [hcons, filter_structMembers_nil fun hmem => h (mem_cons_of_mem _ hmem)]
  | (k, some v) :: fields, h => by
    rw [map_cons, mem_cons, not_or] at h
    have hrest := filter_structMembers_nil h.2
    have hcons : structMembers ((k, some v) :: fields) = (k, v) :: structMembers fields := rfl
    rw [hcons, filter_cons_of_neg (by simpa using Ne.symm h.1), hrest]

theorem lastMember_structMembers {name : Bytes} {value : Option Json} :
    ∀ {fields : List (Bytes × Option Json)}, (fields.map Prod.fst).Nodup → (name, value) ∈ fields →
    lastMember name (structMembers fields) = value
  | (k, v) :: fields, hnodup, hmem => by
    rw [map_cons, nodup_cons] at hnodup
    rcases mem_cons.mp hmem with heq | hmem
    · obtain ⟨rfl, rfl⟩ := Prod.mk.inj heq
      have hrest := filter_structMembers_nil hnodup.1
      cases value with
      | none =>
        have hcons : structMembers ((name, none) :: fields) = structMembers fields := rfl
        rw [lastMember, hcons, hrest]
        rfl
      | some v =>
        have hcons : structMembers ((name, some v) :: fields) = (name, v) :: structMembers fields := rfl
        rw [lastMember, hcons, filter_cons_of_pos (by simp), hrest]
        rfl
    · have hne : k ≠ name := by
        rintro rfl
        exact hnodup.1 (mem_map.mpr ⟨_, hmem, rfl⟩)
      have hfound := lastMember_structMembers hnodup.2 hmem
      cases v with
      | none => exact hfound
      | some v =>
        have hcons : structMembers ((k, some v) :: fields) = (k, v) :: structMembers fields := rfl
        rw [lastMember, hcons, filter_cons_of_neg (by simpa using hne)]
        exact hfound

theorem asString_member {fields : List (Bytes × Option Json)} {name : Bytes} {value : Option Json}
    (hnodup : (fields.map Prod.fst).Nodup) (i : Nat) (hi : fields[i]? = some (name, value))
    (hvalue : asString value = some s) : asString (lastMember name (structMembers fields)) = some s := by
  rw [lastMember_structMembers hnodup (mem_of_getElem? hi), hvalue]

end AoniContrib.Go
