/-
# IP addresses as text: `net.IP.String` and `net.JoinHostPort`

An IPv4 address is written in dotted decimals, also where it comes mapped into 16 bytes.  An IPv6
address is written as eight hexadecimal groups, with `::` for the longest run of at least two zeros.
`readIP` reads such a text, and `readIP_ipString` says that the text names the address and no other.
-/
import AoniContrib.Data.Split
import AoniContrib.Go.Quote

namespace AoniContrib.Go

open Data List

def dotByte : UInt8 := 0x2e
def colonByte : UInt8 := 0x3a

def joinWith (sep : UInt8) : List Bytes → Bytes
  | [] => []
  | x :: xs => x ++ xs.flatMap fun y => sep :: y

theorem splitOn_joinWith {sep : UInt8} {x : Bytes} {xs : List Bytes} (h : ∀ y ∈ x :: xs, sep ∉ y) :
    (joinWith sep (x :: xs)).splitOn sep = x :: xs := by
  have htail : xs.flatMap (fun y => y.splitOn sep) = xs := by
    rw [flatMap_splitOn_eq_map (forall_mem_cons.mp h).2]
    exact map_id xs
  rw [joinWith, splitOn_flatMap_cons sep (fun y => y), htail,
    splitOn_eq_singleton (h x mem_cons_self), singleton_append]

theorem mem_joinWith {sep b : UInt8} : ∀ {xs : List Bytes}, b ∈ joinWith sep xs →
    b = sep ∨ ∃ x ∈ xs, b ∈ x
  | [], h => by cases h
  | x :: xs, h => by
    rcases mem_append.mp h with h | h
    · exact .inr ⟨x, mem_cons_self, h⟩
    · obtain ⟨y, hy, hb⟩ := mem_flatMap.mp h
      rcases mem_cons.mp hb with hb | hb
      · exact .inl hb
      · exact .inr ⟨y, mem_cons_of_mem _ hy, hb⟩

/-- All values, or none where one of them fails to read. -/
def readAll {β : Type*} (read : Bytes → Option β) : List Bytes → Option (List β)
  | [] => some []
  | x :: xs =>
    match read x, readAll read xs with
    | some v, some vs => some (v :: vs)
    | _, _ => none

theorem readAll_map {β : Type*} (read : Bytes → Option β) (text : β → Bytes) {vs : List β}
    (h : ∀ v ∈ vs, read (text v) = some v) : readAll read (vs.map text) = some vs := by
  induction vs with
  | nil => rfl
  | cons v vs ih =>
    have htail := ih (forall_mem_cons.mp h).2
    simp only [map_cons, readAll, h v mem_cons_self, htail]

/-! ## 1. Dotted decimals -/

def dotted (p4 : Bytes) : Bytes := joinWith dotByte (p4.map fun b => decimal b.toNat)

def readDecimal (s : Bytes) : Option UInt8 :=
  if s ≠ [] ∧ s.all isDigit then
    let n := s.foldl (fun a b => a * 10 + (b.toNat - 0x30)) 0
    if n < 256 then some n.toUInt8 else none
  else none

theorem readDecimal_decimal (b : UInt8) : readDecimal (decimal b.toNat) = some b := by
  have hdigits : (decimal b.toNat).all isDigit = true :=
    all_eq_true.mpr fun c hc => isDigit_of_mem_decimal hc
  rw [readDecimal, if_pos ⟨decimal_ne_nil _, hdigits⟩, foldl_decimal]
  simp only [if_pos b.toNat_lt, Nat.toUInt8_eq, UInt8.ofNat_toNat]

theorem not_mem_decimal {c : UInt8} (hc : isDigit c = false) (n : Nat) : c ∉ decimal n := by
  intro h
  rw [isDigit_of_mem_decimal h] at hc
  cases hc

/-! ## 2. Hexadecimal groups -/

def appendHex (x : Nat) : Bytes :=
  if x < 0x10 then [lowerHex x]
  else if x < 0x100 then [lowerHex (x / 0x10), lowerHex (x % 0x10)]
  else if x < 0x1000 then [lowerHex (x / 0x100), lowerHex (x / 0x10 % 0x10), lowerHex (x % 0x10)]
  else [lowerHex (x / 0x1000), lowerHex (x / 0x100 % 0x10), lowerHex (x / 0x10 % 0x10),
    lowerHex (x % 0x10)]

def readHexFrom (acc : Nat) : Bytes → Option Nat
  | [] => some acc
  | c :: s =>
    match unhex c with
    | none => none
    | some d => readHexFrom (acc * 16 + d) s

def readHex (s : Bytes) : Option Nat := if s = [] then none else readHexFrom 0 s

theorem readHexFrom_nil (acc : Nat) : readHexFrom acc [] = some acc := rfl

theorem readHexFrom_lowerHex {d : Nat} (hd : d < 16) (acc : Nat) (s : Bytes) :
    readHexFrom acc (lowerHex d :: s) = readHexFrom (acc * 16 + d) s := by
  rw [readHexFrom, unhex_lowerHex d hd]

theorem readHex_appendHex {x : Nat} (hx : x < 0x10000) : readHex (appendHex x) = some x := by
  unfold appendHex
  split_ifs with h1 h2 h3
  all_goals
    rw [readHex, if_neg (cons_ne_nil _ _)]
    simp (disch := omega) only [readHexFrom_lowerHex, readHexFrom_nil, Option.some.injEq]
    omega

theorem appendHex_ne_nil (x : Nat) : appendHex x ≠ [] := by
  unfold appendHex
  split_ifs <;> exact cons_ne_nil _ _

theorem colon_not_mem_appendHex {x : Nat} (hx : x < 0x10000) : colonByte ∉ appendHex x := by
  have hdigit : ∀ d < 16, colonByte ≠ lowerHex d := by decide
  unfold appendHex
  split_ifs
  all_goals simp only [mem_cons, not_mem_nil, or_false, not_or]
  · exact hdigit _ (by omega)
  · exact ⟨hdigit _ (by omega), hdigit _ (by omega)⟩
  · exact ⟨hdigit _ (by omega), hdigit _ (by omega), hdigit _ (by omega)⟩
  · exact ⟨hdigit _ (by omega), hdigit _ (by omega), hdigit _ (by omega), hdigit _ (by omega)⟩

def groups : Bytes → List Nat
  | hi :: lo :: s => (hi.toNat * 256 + lo.toNat) :: groups s
  | _ => []

def ungroup (gs : List Nat) : Bytes := gs.flatMap fun g => [(g / 256).toUInt8, (g % 256).toUInt8]

theorem ungroup_groups : ∀ {s : Bytes}, s.length % 2 = 0 → ungroup (groups s) = s
  | [], _ => rfl
  | [_], h => by cases h
  | hi :: lo :: s, h => by
    have hlo := lo.toNat_lt
    have hdiv : (hi.toNat * 256 + lo.toNat) / 256 = hi.toNat := by omega
    have hmod : (hi.toNat * 256 + lo.toNat) % 256 = lo.toNat := by omega
    have ih := ungroup_groups (s := s) (by simp only [length_cons] at h; omega)
    rw [ungroup] at ih ⊢
    simp only [groups, flatMap_cons, hdiv, hmod, ih, Nat.toUInt8_eq, UInt8.ofNat_toNat,
      cons_append, nil_append]

theorem groups_lt : ∀ {s : Bytes}, ∀ g ∈ groups s, g < 0x10000
  | [], _, h => by cases h
  | [_], _, h => by cases h
  | hi :: lo :: s, g, h => by
    have hhi := hi.toNat_lt
    have hlo := lo.toNat_lt
    rcases mem_cons.mp h with rfl | h
    · omega
    · exact groups_lt g h

theorem length_groups : ∀ s : Bytes, (groups s).length = s.length / 2
  | [] => rfl
  | [_] => by simp [groups]
  | hi :: lo :: s => by
    rw [groups, length_cons, length_groups s, length_cons, length_cons]
    omega

/-! ## 3. The run of zeros -/

/-- The longest run of at least two zeros, the first of the longest ones, from its start to behind its
end; `(255, 255)` where there is none. -/
def zeroRun (gs : List Nat) : Nat × Nat :=
  (List.range 8).foldl (fun z i =>
    let j := i + ((gs.drop i).takeWhile (· == 0)).length
    if 2 ≤ j - i ∧ z.2 - z.1 < j - i then (i, j) else z) (255, 255)

def IsRun (gs : List Nat) (z : Nat × Nat) : Prop :=
  z.1 ≤ z.2 ∧ z.2 ≤ gs.length ∧ gs = gs.take z.1 ++ (List.replicate (z.2 - z.1) 0 ++ gs.drop z.2)

theorem isRun_takeWhile {gs : List Nat} {i : Nat} (hi : i ≤ gs.length) :
    IsRun gs (i, i + ((gs.drop i).takeWhile (· == 0)).length) := by
  have hsplit := takeWhile_append_dropWhile (p := (· == 0)) (l := gs.drop i)
  have hzeros : (gs.drop i).takeWhile (· == 0) =
      List.replicate ((gs.drop i).takeWhile (· == 0)).length 0 :=
    eq_replicate_of_mem fun g hg => by simpa using mem_takeWhile_imp hg
  have hdrop : gs.drop (i + ((gs.drop i).takeWhile (· == 0)).length) =
      (gs.drop i).dropWhile (· == 0) := by
    rw [← drop_drop]
    conv_lhs => rw [← hsplit]
    exact drop_left' (by rw [hsplit])
  have hlen := congrArg List.length hsplit
  rw [length_append, length_drop] at hlen
  refine ⟨Nat.le_add_right _ _, by dsimp only; omega, ?_⟩
  dsimp only
  rw [hdrop, Nat.add_sub_cancel_left, ← hzeros, hsplit, take_append_drop]

theorem zeroRun_spec {gs : List Nat} (hlen : gs.length = 8) :
    zeroRun gs = (255, 255) ∨ IsRun gs (zeroRun gs) := by
  have hloop : ∀ (is : List Nat), (∀ i ∈ is, i < 8) → ∀ z, (z = (255, 255) ∨ IsRun gs z) →
      let w := is.foldl (fun (z : Nat × Nat) i =>
        let j := i + ((gs.drop i).takeWhile (· == 0)).length
        if 2 ≤ j - i ∧ z.2 - z.1 < j - i then (i, j) else z) z
      w = (255, 255) ∨ IsRun gs w := by
    intro is
    induction is with
    | nil => exact fun _ z hz => hz
    | cons i is ih =>
      intro his z hz
      refine ih (forall_mem_cons.mp his).2 _ ?_
      dsimp only
      split_ifs
      · exact .inr (isRun_takeWhile (by have := his i mem_cons_self; omega))
      · exact hz
  exact hloop (List.range 8) (fun i hi => mem_range.mp hi) _ (.inl rfl)

/-! ## 4. Addresses -/

def hexGroups (gs : List Nat) : Bytes := joinWith colonByte (gs.map appendHex)

/-- `appendTo6` of `netip`. -/
def text6 (gs : List Nat) : Bytes :=
  let z := zeroRun gs
  if z = (255, 255) then hexGroups gs
  else hexGroups (gs.take z.1) ++ (lit "::" ++ hexGroups (gs.drop z.2))

def to4 (ip : Bytes) : Option Bytes :=
  if ip.length = 4 then some ip
  else if ip.length = 16 ∧ ip.take 12 = List.replicate 10 0 ++ [0xff, 0xff] then some (ip.drop 12)
  else none

def to16 (ip : Bytes) : Bytes := if ip.length = 4 then List.replicate 10 0 ++ [0xff, 0xff] ++ ip else ip

/-- `IP.String` of an address of 4 or 16 bytes. -/
def ipString (ip : Bytes) : Bytes :=
  match to4 ip with
  | some p4 => dotted p4
  | none => text6 (groups ip)

def joinHostPort (host port : Bytes) : Bytes :=
  if colonByte ∈ host then lit "[" ++ host ++ lit "]:" ++ port else host ++ lit ":" ++ port

/-! ## 5. Reading an address -/

/-- The text before the first `::`, and the text behind it. -/
def cutDouble : Bytes → Option (Bytes × Bytes)
  | [] => none
  | b :: s =>
    if b = colonByte ∧ s.head? = some colonByte then some ([], s.tail)
    else (cutDouble s).map fun p => (b :: p.1, p.2)

def readGroups (s : Bytes) : Option (List Nat) :=
  if s = [] then some [] else readAll readHex (s.splitOn colonByte)

/-- Eight groups, with `::` for those that are missing. -/
def read6 (s : Bytes) : Option (List Nat) :=
  match cutDouble s with
  | none => readGroups s
  | some (l, r) =>
    match readGroups l, readGroups r with
    | some gs, some hs => some (gs ++ (List.replicate (8 - gs.length - hs.length) 0 ++ hs))
    | _, _ => none

def readIP (s : Bytes) : Option Bytes :=
  if colonByte ∈ s then (read6 s).map ungroup
  else (readAll readDecimal (s.splitOn dotByte)).map to16

theorem cutDouble_cons {b : UInt8} {s : Bytes} (h : b ≠ colonByte ∨ s.head? ≠ some colonByte) :
    cutDouble (b :: s) = (cutDouble s).map fun p => (b :: p.1, p.2) := by
  rw [cutDouble, if_neg (by rcases h with h | h <;> simp [h])]

theorem cutDouble_append {x : Bytes} (hx : colonByte ∉ x) (s : Bytes) :
    cutDouble (x ++ s) = (cutDouble s).map fun p => (x ++ p.1, p.2) := by
  induction x with
  | nil => simp
  | cons b x ih =>
    have hb : b ≠ colonByte := fun h => hx (h ▸ mem_cons_self)
    rw [cons_append, cutDouble_cons (.inl hb), ih fun h => hx (mem_cons_of_mem _ h), Option.map_map]
    rfl

theorem cutDouble_joinWith (tail : Bytes) : ∀ xs : List Bytes,
    (∀ x ∈ xs, x ≠ [] ∧ colonByte ∉ x) → cutDouble (joinWith colonByte xs ++ tail) =
      (cutDouble tail).map fun p => (joinWith colonByte xs ++ p.1, p.2)
  | [], _ => by simp [joinWith]
  | [x], h => by
    rw [joinWith, flatMap_nil, append_nil]
    exact cutDouble_append (h x mem_cons_self).2 tail
  | x :: y :: xs, h => by
    have ih := cutDouble_joinWith tail (y :: xs) (forall_mem_cons.mp h).2
    have hjoin : ∀ t, joinWith colonByte (x :: y :: xs) ++ t =
        x ++ (colonByte :: (joinWith colonByte (y :: xs) ++ t)) := by
      intro t
      simp [joinWith]
    obtain ⟨hne, hy⟩ := h y (mem_cons_of_mem _ mem_cons_self)
    have hhead : (joinWith colonByte (y :: xs) ++ tail).head? ≠ some colonByte := by
      obtain ⟨c, y, rfl⟩ := exists_cons_of_ne_nil hne
      intro hc
      exact hy (Option.some.inj hc ▸ mem_cons_self)
    rw [hjoin, cutDouble_append (h x mem_cons_self).2, cutDouble_cons (.inr hhead), ih,
      Option.map_map, Option.map_map]
    simp only [hjoin]
    rfl

section
variable {gs : List Nat} (hgs : ∀ g ∈ gs, g < 0x10000)
include hgs

theorem mem_map_appendHex : ∀ x ∈ gs.map appendHex, x ≠ [] ∧ colonByte ∉ x := by
  intro x hx
  obtain ⟨g, hg, rfl⟩ := mem_map.mp hx
  exact ⟨appendHex_ne_nil g, colon_not_mem_appendHex (hgs g hg)⟩

theorem readGroups_hexGroups : readGroups (hexGroups gs) = some gs := by
  have hread := readAll_map readHex appendHex fun g hg => readHex_appendHex (hgs g hg)
  cases gs with
  | nil => rfl
  | cons g gs =>
    have hne : hexGroups (g :: gs) ≠ [] := append_ne_nil_of_left_ne_nil (appendHex_ne_nil g) _
    rw [readGroups, if_neg hne, hexGroups, map_cons,
      splitOn_joinWith fun x hx => (mem_map_appendHex hgs x hx).2, ← map_cons, hread]

theorem cutDouble_hexGroups (tail : Bytes) : cutDouble (hexGroups gs ++ tail) =
      (cutDouble tail).map fun p => (hexGroups gs ++ p.1, p.2) :=
  cutDouble_joinWith tail _ (mem_map_appendHex hgs)

end

theorem read6_text6 {gs : List Nat} (hlen : gs.length = 8) (hgs : ∀ g ∈ gs, g < 0x10000) :
    read6 (text6 gs) = some gs := by
  have htake : ∀ k, ∀ g ∈ gs.take k, g < 0x10000 := fun k g hg => hgs g (mem_of_mem_take hg)
  have hdrop : ∀ k, ∀ g ∈ gs.drop k, g < 0x10000 := fun k g hg => hgs g (mem_of_mem_drop hg)
  rcases zeroRun_spec hlen with hnone | ⟨hle, hend, hrun⟩
  · have hcut := cutDouble_hexGroups hgs []
    rw [append_nil, cutDouble, Option.map_none] at hcut
    rw [text6, hnone, if_pos rfl, read6, hcut]
    exact readGroups_hexGroups hgs
  · have hsome : zeroRun gs ≠ (255, 255) := by
      intro h
      rw [h, hlen] at hend
      exact absurd hend (by decide)
    have htext : text6 gs = _ := if_neg hsome
    generalize zeroRun gs = z at hle hend hrun htext
    have hcut := cutDouble_hexGroups (htake z.1) (lit "::" ++ hexGroups (gs.drop z.2))
    have hdouble : cutDouble (lit "::" ++ hexGroups (gs.drop z.2)) =
      some ([], hexGroups (gs.drop z.2)) := rfl
    rw [hdouble, Option.map_some, append_nil] at hcut
    have hmissing : 8 - (gs.take z.1).length - (gs.drop z.2).length = z.2 - z.1 := by
      rw [length_take, length_drop]
      omega
    rw [htext, read6, hcut]
    simp only [readGroups_hexGroups (htake z.1), readGroups_hexGroups (hdrop z.2), hmissing]
    rw [← hrun]

theorem colon_mem_text6 {gs : List Nat} (hlen : gs.length = 8) : colonByte ∈ text6 gs := by
  simp only [text6]
  split_ifs
  · obtain ⟨g, h, rest, rfl⟩ : ∃ g h rest, gs = g :: h :: rest := by
      match gs, hlen with
      | g :: h :: rest, _ => exact ⟨g, h, rest, rfl⟩
    simp [hexGroups, joinWith]
  · exact mem_append_right _ (mem_append_left _ (by decide))

theorem readIP_dotted {p4 : Bytes} (h4 : p4.length = 4) : readIP (dotted p4) = some (to16 p4) := by
  have hno : colonByte ∉ dotted p4 := by
    intro h
    rcases mem_joinWith h with h | ⟨x, hx, h⟩
    · cases h
    · obtain ⟨b, -, rfl⟩ := mem_map.mp hx
      exact not_mem_decimal rfl b.toNat h
  have hdots : ∀ x ∈ p4.map (fun b => decimal b.toNat), dotByte ∉ x := by
    intro x hx
    obtain ⟨b, -, rfl⟩ := mem_map.mp hx
    exact not_mem_decimal rfl b.toNat
  have hread : readAll readDecimal (p4.map fun b => decimal b.toNat) = some p4 :=
    readAll_map readDecimal _ fun b _ => readDecimal_decimal b
  have hsplit : (dotted p4).splitOn dotByte = p4.map fun b => decimal b.toNat := by
    cases p4 with
    | nil => cases h4
    | cons b p4 => exact splitOn_joinWith hdots
  rw [readIP, if_neg hno, hsplit, hread, Option.map_some]

theorem readIP_ipString {ip : Bytes} (hlen : ip.length = 4 ∨ ip.length = 16) :
    readIP (ipString ip) = some (to16 ip) := by
  unfold ipString to4
  split_ifs with h4 hmapped
  · exact readIP_dotted h4
  · have h16 := hlen.resolve_left h4
    have hlast : (ip.drop 12).length = 4 := by rw [length_drop, h16]
    dsimp only
    rw [readIP_dotted hlast, to16, if_pos hlast, to16, if_neg h4, ← hmapped.2, take_append_drop]
  · have h16 := hlen.resolve_left h4
    have hg : (groups ip).length = 8 := by rw [length_groups, h16]
    dsimp only
    rw [readIP, if_pos (colon_mem_text6 hg), read6_text6 hg groups_lt, Option.map_some,
      ungroup_groups (by rw [h16]), to16, if_neg h4]

end AoniContrib.Go
