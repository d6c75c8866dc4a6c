/-
# JSON texts

The grammar of RFC 8259 as a parser over bytes: white space, the three literals, numbers by their
text, strings in UTF-8 with their escapes, arrays and objects with their members in order.  Beside
it a printer, `Json.render q`, for an arbitrary writer `q` of strings.

`Json.parse_render` is the rule for printers: if the parser reads what `q` writes exactly for the
strings that are `good`, then a rendered document is read back if all its strings are good, and is
no JSON text otherwise.
-/
import AoniContrib.Go.Strconv
import AoniContrib.Go.Url
import AoniContrib.Go.Utf8

namespace AoniContrib

open Go List

/-- A JSON document.  A number is kept as its text. -/
inductive Json where
  | null
  | bool (b : Bool)
  | num (text : Bytes)
  | str (s : Bytes)
  | arr (items : List Json)
  | obj (members : List (Bytes × Json))

namespace Json

@[simp] abbrev lbracket : UInt8 := 0x5b
@[simp] abbrev rbracket : UInt8 := 0x5d
@[simp] abbrev lbrace : UInt8 := 0x7b
@[simp] abbrev rbrace : UInt8 := 0x7d

/-! ## 1. The parser -/

def isWs (b : UInt8) : Bool := b == 0x20 || b == 0x09 || b == 0x0a || b == 0x0d

def skipWs (s : Bytes) : Bytes := s.dropWhile isWs

def simpleEscape : UInt8 → Option Nat
  | 0x22 => some 0x22
  | 0x5c => some 0x5c
  | 0x2f => some 0x2f
  | 0x62 => some 0x08
  | 0x66 => some 0x0c
  | 0x6e => some 0x0a
  | 0x72 => some 0x0d
  | 0x74 => some 0x09
  | _ => none

def hex4 : Bytes → Option (Nat × Bytes)
  | a :: b :: c :: d :: s => do
    some ((((← unhex a) * 16 + (← unhex b)) * 16 + (← unhex c)) * 16 + (← unhex d), s)
  | _ => none

def lowSurrogate : Bytes → Option (Nat × Bytes)
  | 0x5c :: 0x75 :: s => (hex4 s).filter (fun p => 0xDC00 ≤ p.1 ∧ p.1 ≤ 0xDFFF)
  | _ => none

/-- What follows a backslash: the rune, and the text behind the escape.  A surrogate without its
other half is passed on; it has no encoding and becomes U+FFFD. -/
def parseEscape : Bytes → Option (Nat × Bytes)
  | [] => none
  | c :: s =>
    match simpleEscape c with
    | some r => some (r, s)
    | none =>
      if c = 0x75 then do
        let (u, s) ← hex4 s
        if 0xD800 ≤ u ∧ u ≤ 0xDBFF then
          match lowSurrogate s with
          | some (v, s) => some (0x10000 + (u - 0xD800) * 1024 + (v - 0xDC00), s)
          | none => some (u, s)
        else some (u, s)
      else none

/-- The characters of a string up to its closing quote, at most `n` of them: the string, and the
text behind it. -/
def parseChars : Nat → Bytes → Option (Bytes × Bytes)
  | 0, _ => none
  | _ + 1, [] => none
  | n + 1, b :: s =>
    if b = dquote then some ([], s)
    else if b = backslash then do
      let (r, s) ← parseEscape s
      let (t, s) ← parseChars n s
      some (encodeRune r ++ t, s)
    else if b < 0x20 ∨ decodeRune b s = (runeError, 1) then none
    else do
      let (t, s') ← parseChars n ((b :: s).drop (decodeRune b s).2)
      some ((b :: s).take (decodeRune b s).2 ++ t, s')

def parseString : Bytes → Option (Bytes × Bytes)
  | [] => none
  | b :: s => if b = dquote then parseChars s.length s else none

def parseFrac : Bytes → Option (Bytes × Bytes)
  | 0x2e :: s =>
    if s.takeWhile isDigit = [] then none
    else some (0x2e :: s.takeWhile isDigit, s.dropWhile isDigit)
  | s => some ([], s)

def parseExp : Bytes → Option (Bytes × Bytes)
  | [] => some ([], [])
  | e :: s =>
    if e = 0x65 ∨ e = 0x45 then
      let sign := (s.take 1).filter (fun c => c = plus ∨ c = minus)
      let digits := s.drop sign.length
      if digits.takeWhile isDigit = [] then none
      else some (e :: sign ++ digits.takeWhile isDigit, digits.dropWhile isDigit)
    else some ([], e :: s)

/-- A number: its text, and what is behind it.  No digit may follow a leading zero. -/
def parseNumber (s : Bytes) : Option (Bytes × Bytes) :=
  let sign := (s.take 1).filter (· = minus)
  let body := s.drop sign.length
  let digits := body.takeWhile isDigit
  if digits = [] ∨ (digits.head? = some 0x30 ∧ digits ≠ [0x30]) then none
  else do
    let (frac, s) ← parseFrac (body.dropWhile isDigit)
    let (exp, s) ← parseExp s
    some (sign ++ digits ++ frac ++ exp, s)

def parseLiteral (s : Bytes) : Option (Json × Bytes) :=
  if s.take 4 = lit "null" then some (.null, s.drop 4)
  else if s.take 4 = lit "true" then some (.bool true, s.drop 4)
  else if s.take 5 = lit "false" then some (.bool false, s.drop 5)
  else none

/-- A byte that is a token by itself, after white space. -/
def expect (c : UInt8) (s : Bytes) : Option Bytes :=
  match skipWs s with
  | [] => none
  | b :: s => if b = c then some s else none

mutual

/-- A value and the text behind it.  `n` bounds the calls: each of them has a byte of its own, so the
length of the text is enough. -/
def parseValue : Nat → Bytes → Option (Json × Bytes)
  | 0, _ => none
  | n + 1, s =>
    match skipWs s with
    | [] => none
    | c :: s =>
      if c = dquote then do
        let (t, s) ← parseString (c :: s)
        some (.str t, s)
      else if c = lbracket then
        match expect rbracket s with
        | some s => some (.arr [], s)
        | none => do
          let (v, s) ← parseValue n s
          let (vs, s) ← parseItems n s
          some (.arr (v :: vs), s)
      else if c = lbrace then
        match expect rbrace s with
        | some s => some (.obj [], s)
        | none => do
          let (m, s) ← parseMember n s
          let (ms, s) ← parseMembers n s
          some (.obj (m :: ms), s)
      else if c = minus ∨ isDigit c then do
        let (t, s) ← parseNumber (c :: s)
        some (.num t, s)
      else parseLiteral (c :: s)

/-- The items of an array behind one of them, to its closing bracket. -/
def parseItems : Nat → Bytes → Option (List Json × Bytes)
  | 0, _ => none
  | n + 1, s =>
    match expect rbracket s with
    | some s => some ([], s)
    | none => do
      let s ← expect comma s
      let (v, s) ← parseValue n s
      let (vs, s) ← parseItems n s
      some (v :: vs, s)

def parseMember : Nat → Bytes → Option ((Bytes × Json) × Bytes)
  | 0, _ => none
  | n + 1, s => do
    let (k, s) ← parseString (skipWs s)
    let s ← expect colon s
    let (v, s) ← parseValue n s
    some ((k, v), s)

/-- The members of an object behind one of them, to its closing brace. -/
def parseMembers : Nat → Bytes → Option (List (Bytes × Json) × Bytes)
  | 0, _ => none
  | n + 1, s =>
    match expect rbrace s with
    | some s => some ([], s)
    | none => do
      let s ← expect comma s
      let (m, s) ← parseMember n s
      let (ms, s) ← parseMembers n s
      some (m :: ms, s)

end

/-- A JSON text: one value, and nothing but white space around it. -/
def parse (s : Bytes) : Option Json := do
  let (v, s) ← parseValue s.length s
  if skipWs s = [] then some v else none

example :
    (parse (lit "\x7b \"a\" : [1, -2.5e3], \"b\" : \"\\ud83d\\ude00\" \x7d")).isSome = true ∧
    (parse (lit "[1,]")).isNone = true ∧ (parse (lit "\"\\x07\"")).isNone = true := by
  decide +kernel

/-! ## 2. A printer -/

section

variable (q : Bytes → Bytes)

mutual

/-- The text of a document without white space, its strings written by `q`. -/
def render : Json → Bytes
  | .null => lit "null"
  | .bool true => lit "true"
  | .bool false => lit "false"
  | .num text => text
  | .str s => q s
  | .arr [] => [lbracket, rbracket]
  | .arr (v :: vs) => lbracket :: v.render ++ renderItems vs
  | .obj [] => [lbrace, rbrace]
  | .obj ((k, v) :: ms) => lbrace :: q k ++ colon :: v.render ++ renderMembers ms

def renderItems : List Json → Bytes
  | [] => [rbracket]
  | v :: vs => comma :: v.render ++ renderItems vs

def renderMembers : List (Bytes × Json) → Bytes
  | [] => [rbrace]
  | (k, v) :: ms => comma :: q k ++ colon :: v.render ++ renderMembers ms

end

theorem renderItems_eq : ∀ vs : List Json,
    renderItems q vs = (vs.flatMap fun v => comma :: v.render q) ++ [rbracket]
  | [] => rfl
  | v :: vs => by
    rw [renderItems, renderItems_eq vs, flatMap_cons, append_assoc]

theorem render_str (s : Bytes) : (Json.str s).render q = q s := by rw [render]

theorem render_num (text : Bytes) : (Json.num text).render q = text := by rw [render]

/-- The text of a member with the comma in front of it. -/
def renderMember (m : Bytes × Json) : Bytes := comma :: q m.1 ++ colon :: m.2.render q

theorem renderMembers_eq : ∀ ms : List (Bytes × Json),
    renderMembers q ms = ms.flatMap (renderMember q) ++ [rbrace]
  | [] => rfl
  | (k, v) :: ms => by
    simp only [renderMembers, renderMembers_eq ms, flatMap_cons, renderMember, append_assoc]

theorem render_obj (k : Bytes) (v : Json) (ms : List (Bytes × Json)) :
    (Json.obj ((k, v) :: ms)).render q =
      lbrace :: q k ++ colon :: v.render q ++ ms.flatMap (renderMember q) ++ [rbrace] := by
  simp only [render, renderMembers_eq, append_assoc]

end

mutual

def strings : Json → List Bytes
  | .str s => [s]
  | .arr vs => stringsItems vs
  | .obj ms => stringsMembers ms
  | _ => []

def stringsItems : List Json → List Bytes
  | [] => []
  | v :: vs => v.strings ++ stringsItems vs

def stringsMembers : List (Bytes × Json) → List Bytes
  | [] => []
  | (k, v) :: ms => k :: v.strings ++ stringsMembers ms

end

mutual

def numbers : Json → List Bytes
  | .num text => [text]
  | .arr vs => numbersItems vs
  | .obj ms => numbersMembers ms
  | _ => []

def numbersItems : List Json → List Bytes
  | [] => []
  | v :: vs => v.numbers ++ numbersItems vs

def numbersMembers : List (Bytes × Json) → List Bytes
  | [] => []
  | (_, v) :: ms => v.numbers ++ numbersMembers ms

end

theorem stringsItems_eq : ∀ vs : List Json, stringsItems vs = vs.flatMap strings
  | [] => rfl
  | v :: vs => by rw [stringsItems, stringsItems_eq vs, flatMap_cons]

theorem stringsMembers_eq : ∀ ms : List (Bytes × Json),
    stringsMembers ms = ms.flatMap fun m => m.1 :: m.2.strings
  | [] => rfl
  | (k, v) :: ms => by rw [stringsMembers, stringsMembers_eq ms, flatMap_cons]

theorem stringsMembers_append (ms ms' : List (Bytes × Json)) :
    stringsMembers (ms ++ ms') = stringsMembers ms ++ stringsMembers ms' := by
  rw [stringsMembers_eq, stringsMembers_eq, stringsMembers_eq, flatMap_append]

theorem numbersItems_eq : ∀ vs : List Json, numbersItems vs = vs.flatMap numbers
  | [] => rfl
  | v :: vs => by rw [numbersItems, numbersItems_eq vs, flatMap_cons]

theorem numbersMembers_eq : ∀ ms : List (Bytes × Json),
    numbersMembers ms = ms.flatMap fun m => m.2.numbers
  | [] => rfl
  | (k, v) :: ms => by rw [numbersMembers, numbersMembers_eq ms, flatMap_cons]

theorem numbersMembers_append (ms ms' : List (Bytes × Json)) :
    numbersMembers (ms ++ ms') = numbersMembers ms ++ numbersMembers ms' := by
  rw [numbersMembers_eq, numbersMembers_eq, numbersMembers_eq, flatMap_append]

/-! ## 3. What is rendered is read back -/

/-- What may stand behind a value inside a rendered document. -/
def Stops (rest : Bytes) : Prop := ∀ b ∈ rest.head?, b = comma ∨ b = rbracket ∨ b = rbrace

/-- A text that is read as a number as a whole. -/
structure IsNumber (text : Bytes) : Prop where
  head : ∃ c t, text = c :: t ∧ (c = minus ∨ isDigit c = true)
  read : ∀ rest, Stops rest → parseNumber (text ++ rest) = some (text, rest)

/-- `q` writes quoted strings, of which exactly the good ones are read back. -/
structure Reads (q : Bytes → Bytes) (good : Bytes → Bool) : Prop where
  quoted : ∀ s, ∃ t, q s = dquote :: t
  read : ∀ s rest, parseString (q s ++ rest) = if good s then some (s, rest) else none

theorem isNumber_decimal (n : Nat) : IsNumber (decimal n) := by
  obtain ⟨c, t, hct⟩ := exists_cons_of_ne_nil (decimal_ne_nil n)
  have hdigits : ∀ b ∈ decimal n, isDigit b = true := fun b hb => isDigit_of_mem_decimal hb
  have hc : isDigit c = true := hdigits c (by rw [hct]; exact mem_cons_self)
  refine ⟨⟨c, t, hct, .inr hc⟩, fun rest hs => ?_⟩
  have hsign : ((decimal n ++ rest).take 1).filter (· = minus) = [] := by
    have hno : ∀ c : UInt8, isDigit c = true → c ≠ minus := by grind [isDigit]
    simp [hct, hno c hc]
  have hnodigit : ∀ b ∈ rest.head?, isDigit b = false ∧ b ≠ 0x2e ∧ ¬ (b = 0x65 ∨ b = 0x45) := by
    have hno : ∀ b : UInt8, b = comma ∨ b = rbracket ∨ b = rbrace →
        isDigit b = false ∧ b ≠ 0x2e ∧ ¬ (b = 0x65 ∨ b = 0x45) := by grind [isDigit]
    exact fun b hb => hno b (hs b hb)
  have htake : (decimal n ++ rest).takeWhile isDigit = decimal n := by
    rw [takeWhile_append_of_pos hdigits]
    cases rest with
    | nil => simp
    | cons b rest => simp [(hnodigit b rfl).1]
  have hdrop : (decimal n ++ rest).dropWhile isDigit = rest := by
    rw [dropWhile_append_of_pos hdigits]
    cases rest with
    | nil => rfl
    | cons b rest => simp [(hnodigit b rfl).1]
  have hzero : ¬ (decimal n = [] ∨ ((decimal n).head? = some 0x30 ∧ decimal n ≠ [0x30])) := by
    rintro (hnil | ⟨hhead, hlong⟩)
    · exact decimal_ne_nil n hnil
    · by_cases hn : n = 0
      · exact hlong (by rw [decimal, if_pos hn])
      · exact decimal_head hn hhead
  have hfrac : parseFrac rest = some ([], rest) := by
    unfold parseFrac
    split
    · exact absurd rfl (hnodigit _ rfl).2.1
    · rfl
  have hexp : parseExp rest = some ([], rest) := by
    cases rest with
    | nil => rfl
    | cons b rest => exact if_neg (hnodigit b rfl).2.2
  simp only [parseNumber, hsign, length_nil, drop_zero, htake, hdrop, if_neg hzero, hfrac,
    hexp, Option.bind_eq_bind, Option.bind_some, nil_append, append_nil]

theorem parseNumber_minus {s : Bytes} (h : s.head? ≠ some minus) :
    parseNumber (minus :: s) = (parseNumber s).map fun p => (minus :: p.1, p.2) := by
  have hsign : (s.take 1).filter (· = minus) = [] := by
    cases s with
    | nil => rfl
    | cons c s => simpa using h
  have hminus : ((minus :: s).take 1).filter (· = minus) = [minus] := rfl
  simp only [parseNumber, hsign, hminus, length_nil, length_singleton, drop_zero, drop_succ_cons]
  split_ifs with hzero
  · rfl
  · cases parseFrac (s.dropWhile isDigit) with
    | none => rfl
    | some p =>
      simp only [Option.bind_eq_bind, Option.bind_some]
      cases parseExp p.2 <;> rfl

theorem isNumber_formatInt (n : Int64) : IsNumber (formatInt n) := by
  have hnat := isNumber_decimal n.toInt.natAbs
  unfold formatInt
  split_ifs
  · refine ⟨⟨_, _, rfl, .inl rfl⟩, fun rest hs => ?_⟩
    have hhead : (decimal n.toInt.natAbs ++ rest).head? ≠ some minus := by
      obtain ⟨c, t, hct⟩ := exists_cons_of_ne_nil (decimal_ne_nil n.toInt.natAbs)
      have hc : isDigit c = true := isDigit_of_mem_decimal (hct ▸ mem_cons_self)
      rw [hct, cons_append, head?_cons, Ne, Option.some.injEq]
      rintro rfl
      exact absurd hc (by decide)
    rw [cons_append, parseNumber_minus hhead, hnat.read rest hs]
    rfl
  · exact hnat

theorem skipWs_cons {b : UInt8} (h : isWs b = false) (s : Bytes) : skipWs (b :: s) = b :: s := by
  rw [skipWs, dropWhile_cons_of_neg (by simp [h])]

theorem expect_self {c : UInt8} (h : isWs c = false) (s : Bytes) : expect c (c :: s) = some s := by
  rw [expect, skipWs_cons h]
  exact if_pos rfl

theorem expect_other {b c : UInt8} (h : isWs b = false) (hbc : b ≠ c) (s : Bytes) :
    expect c (b :: s) = none := by
  rw [expect, skipWs_cons h]
  exact if_neg hbc

section

variable {q : Bytes → Bytes} {good : Bytes → Bool}

theorem render_head (hq : Reads q good) : ∀ d : Json, (∀ t ∈ d.numbers, IsNumber t) →
    ∃ c t, d.render q = c :: t ∧ isWs c = false ∧ c ≠ rbracket
  | .null, _ | .bool true, _ | .bool false, _ | .arr [], _ | .obj [], _ =>
    ⟨_, _, rfl, by decide, by decide⟩
  | .arr (_ :: _), _ | .obj ((_, _) :: _), _ => by
    rw [render]
    exact ⟨_, _, rfl, by decide, by decide⟩
  | .str s, _ => by
    obtain ⟨t, ht⟩ := hq.quoted s
    rw [render]
    exact ⟨_, t, ht, by decide, by decide⟩
  | .num text, hnum => by
    obtain ⟨c, t, rfl, hc⟩ := (hnum text mem_cons_self).head
    have hno : ∀ c : UInt8, c = minus ∨ isDigit c = true → isWs c = false ∧ c ≠ rbracket := by
      grind [isDigit, isWs]
    rw [render]
    exact ⟨c, t, rfl, hno c hc⟩

theorem stops_items (vs : List Json) (rest : Bytes) : Stops (renderItems q vs ++ rest) := by
  cases vs <;> simp [Stops, renderItems]

theorem stops_members (ms : List (Bytes × Json)) (rest : Bytes) :
    Stops (renderMembers q ms ++ rest) := by
  cases ms <;> simp [Stops, renderMembers]

theorem parseMember_render (hq : Reads q good) {k : Bytes} {v : Json} {n : Nat} {rest : Bytes}
    (hn : (q k ++ colon :: v.render q).length ≤ n)
    (hv : ∀ m, (v.render q).length ≤ m → parseValue m (v.render q ++ rest) =
      if v.strings.all good then some (v, rest) else none) :
    parseMember n (q k ++ colon :: v.render q ++ rest) =
      if good k && v.strings.all good then some ((k, v), rest) else none := by
  obtain ⟨t, ht⟩ := hq.quoted k
  have hlen : (q k).length = t.length + 1 := by rw [ht, length_cons]
  rw [length_append, length_cons] at hn
  obtain ⟨m, rfl⟩ : ∃ m, n = m + 1 := ⟨n - 1, by omega⟩
  have hskip : skipWs (q k ++ colon :: v.render q ++ rest) =
      q k ++ (colon :: (v.render q ++ rest)) := by
    rw [ht, cons_append, cons_append, skipWs_cons (by decide), append_assoc]
    rfl
  rw [parseMember, hskip, hq.read]
  cases good k with
  | false => rfl
  | true =>
    simp only [if_true, Option.bind_eq_bind, Option.bind_some,
      expect_self (by decide : isWs colon = false), hv m (by omega), Bool.true_and]
    cases v.strings.all good <;> rfl

mutual

theorem parseValue_render (hq : Reads q good) : ∀ (d : Json) (n : Nat) (rest : Bytes),
    (d.render q).length ≤ n → (∀ t ∈ d.numbers, IsNumber t) → Stops rest →
    parseValue n (d.render q ++ rest) = if d.strings.all good then some (d, rest) else none
  | .null, n + 1, rest, _, _, _ => rfl
  | .bool true, n + 1, rest, _, _, _ => rfl
  | .bool false, n + 1, rest, _, _, _ => rfl
  | .num text, n, rest, hn, hnum, hs => by
    have htext := hnum text mem_cons_self
    obtain ⟨c, t, rfl, hc⟩ := htext.head
    have hno : ∀ c : UInt8, c = minus ∨ isDigit c = true →
        isWs c = false ∧ c ≠ dquote ∧ c ≠ lbracket ∧ c ≠ lbrace := by grind [isDigit, isWs]
    obtain ⟨hws, h1, h2, h3⟩ := hno c hc
    obtain ⟨m, rfl⟩ : ∃ m, n = m + 1 := ⟨n - 1, by simp [render] at hn; omega⟩
    have hread := htext.read rest hs
    rw [cons_append] at hread
    rw [render, cons_append, parseValue, skipWs_cons hws]
    simp only [if_neg h1, if_neg h2, if_neg h3, if_pos hc, hread]
    rfl
  | .str s, n, rest, hn, _, _ => by
    obtain ⟨t, ht⟩ := hq.quoted s
    have hread := hq.read s rest
    rw [render, ht] at hn
    obtain ⟨m, rfl⟩ : ∃ m, n = m + 1 := ⟨n - 1, by simp at hn; omega⟩
    rw [ht, cons_append] at hread
    rw [render, ht, cons_append, parseValue, skipWs_cons (by decide)]
    simp only [if_true, hread, strings, all_cons, all_nil, Bool.and_true]
    cases good s <;> rfl
  | .arr [], n + 1, rest, _, _, _ => rfl
  | .arr (v :: vs), n + 1, rest, hn, hnum, hs => by
    rw [numbers, numbersItems] at hnum
    obtain ⟨hv, hvs⟩ := forall_mem_append.mp hnum
    rw [render, cons_append, length_cons, length_append] at hn
    obtain ⟨c, t, hc, hws, hne⟩ := render_head hq v hv
    have hfirst := parseValue_render hq v n (renderItems q vs ++ rest) (by omega) hv
      (stops_items vs rest)
    have hrest := parseItems_render hq vs n rest (by omega) hvs
    have hnext : expect rbracket (v.render q ++ (renderItems q vs ++ rest)) = none := by
      rw [hc, cons_append]
      exact expect_other hws hne _
    rw [render, cons_append, cons_append, append_assoc, parseValue, skipWs_cons (by decide)]
    simp only [if_neg (by decide : lbracket ≠ dquote), if_true, hnext, hfirst, strings,
      stringsItems, all_append]
    cases v.strings.all good with
    | false => rfl
    | true =>
      simp only [if_true, Option.bind_eq_bind, Option.bind_some, hrest, Bool.true_and]
      cases (stringsItems vs).all good <;> rfl
  | .obj [], n + 1, rest, _, _, _ => rfl
  | .obj ((k, v) :: ms), n + 1, rest, hn, hnum, hs => by
    rw [numbers, numbersMembers] at hnum
    obtain ⟨hv, hms⟩ := forall_mem_append.mp hnum
    rw [render, cons_append, cons_append, length_cons, length_append] at hn
    obtain ⟨t, ht⟩ := hq.quoted k
    have hfirst := parseMember_render (k := k) (n := n) hq (by omega)
      (fun m hm => parseValue_render hq v m (renderMembers q ms ++ rest) hm hv (stops_members ms rest))
    have hrest := parseMembers_render hq ms n rest (by omega) hms
    have hnext : expect rbrace (q k ++ colon :: v.render q ++ (renderMembers q ms ++ rest)) = none := by
      rw [ht, cons_append, cons_append]
      exact expect_other (by decide) (by decide) _
    rw [render, cons_append, cons_append, cons_append, append_assoc,
      parseValue, skipWs_cons (by decide)]
    simp only [if_neg (by decide : lbrace ≠ dquote), if_neg (by decide : lbrace ≠ lbracket),
      if_true, hnext, hfirst, strings, stringsMembers, cons_append, all_cons,
      all_append]
    rw [← Bool.and_assoc]
    cases good k && v.strings.all good with
    | false => rfl
    | true =>
      simp only [if_true, Option.bind_eq_bind, Option.bind_some, hrest, Bool.true_and]
      cases (stringsMembers ms).all good <;> rfl

theorem parseItems_render (hq : Reads q good) : ∀ (vs : List Json) (n : Nat) (rest : Bytes),
    (renderItems q vs).length ≤ n → (∀ t ∈ numbersItems vs, IsNumber t) →
    parseItems n (renderItems q vs ++ rest) =
      if (stringsItems vs).all good then some (vs, rest) else none
  | [], n + 1, rest, _, _ => rfl
  | v :: vs, n + 1, rest, hn, hnum => by
    rw [numbersItems] at hnum
    obtain ⟨hv, hvs⟩ := forall_mem_append.mp hnum
    rw [renderItems, cons_append, length_cons, length_append] at hn
    have hfirst := parseValue_render hq v n (renderItems q vs ++ rest) (by omega) hv
      (stops_items vs rest)
    have hrest := parseItems_render hq vs n rest (by omega) hvs
    rw [renderItems, cons_append, cons_append, append_assoc, parseItems,
      expect_other (by decide) (by decide), expect_self (by decide)]
    simp only [Option.bind_eq_bind, Option.bind_some, hfirst, stringsItems, all_append]
    cases v.strings.all good with
    | false => rfl
    | true =>
      simp only [if_true, Option.bind_some, hrest, Bool.true_and]
      cases (stringsItems vs).all good <;> rfl

theorem parseMembers_render (hq : Reads q good) : ∀ (ms : List (Bytes × Json)) (n : Nat)
    (rest : Bytes), (renderMembers q ms).length ≤ n → (∀ t ∈ numbersMembers ms, IsNumber t) →
    parseMembers n (renderMembers q ms ++ rest) =
      if (stringsMembers ms).all good then some (ms, rest) else none
  | [], n + 1, rest, _, _ => rfl
  | (k, v) :: ms, n + 1, rest, hn, hnum => by
    rw [numbersMembers] at hnum
    obtain ⟨hv, hms⟩ := forall_mem_append.mp hnum
    rw [renderMembers, cons_append, cons_append, length_cons, length_append] at hn
    have hfirst := parseMember_render (k := k) (n := n) hq (by omega)
      (fun m hm => parseValue_render hq v m (renderMembers q ms ++ rest) hm hv (stops_members ms rest))
    have hrest := parseMembers_render hq ms n rest (by omega) hms
    rw [renderMembers, cons_append, cons_append, cons_append, append_assoc,
      parseMembers, expect_other (by decide) (by decide), expect_self (by decide)]
    simp only [Option.bind_eq_bind, Option.bind_some, hfirst, stringsMembers, cons_append,
      all_cons, all_append]
    rw [← Bool.and_assoc]
    cases good k && v.strings.all good with
    | false => rfl
    | true =>
      simp only [if_true, Option.bind_some, hrest, Bool.true_and]
      cases (stringsMembers ms).all good <;> rfl

end

/-- **A rendered document is read back** if all its strings are good, and is no JSON text
otherwise. -/
theorem parse_render (hq : Reads q good) (d : Json) (hnum : ∀ t ∈ d.numbers, IsNumber t) :
    parse (d.render q) = if d.strings.all good then some d else none := by
  have h := parseValue_render hq d (d.render q).length [] le_rfl hnum (by simp [Stops])
  rw [append_nil] at h
  rw [parse, h]
  cases d.strings.all good <;> rfl

end

end Json

end AoniContrib
