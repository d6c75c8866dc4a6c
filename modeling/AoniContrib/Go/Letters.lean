/-
# Strings up to letter case

`strings.ToLower` goes through the runes of a string; a byte that is not part of a rune is replaced by
`RuneError`.  Here such a byte is kept (`Letter`), and two strings are the same up to letter case if
they are so letter by letter (`SameLetters`).  `AppendRune` is a code whose words can be told apart, so
strings with one lower-case form are the same up to letter case unless a stray byte was replaced
(`sameLetters_of_toLower_eq`).
-/
import AoniContrib.Go.Utf8

namespace AoniContrib.Go

open List

/-! ## 1. The words of `AppendRune` -/

theorem encodeRune_cases (r : Nat) : (∃ b, b < 0x80 ∧ encodeRune r = [b]) ∨
    ∃ b tail r', encodeRune r = b :: tail ∧ Sequence b tail r' := by
  unfold encodeRune
  split_ifs with h1 h2 h3 h4
  · exact .inl ⟨_, by simp [UInt8.lt_iff_toNat_lt, Nat.mod_eq_of_lt (show r < 256 by omega), h1], rfl⟩
  · refine .inr ⟨_, _, _, rfl, .two ?_ ?_ ?_⟩ <;>
      simp only [isCont_iff, UInt8.le_iff_toNat_le, Nat.toUInt8, UInt8.toNat_ofNat', UInt8.reduceToNat] <;>
      omega
  · obtain ⟨b, tail, h, hseq⟩ := encodeRune_runeError
    exact .inr ⟨b, tail, runeError, by rw [← h]; rfl, hseq⟩
  · simp only [Bool.or_eq_true, Bool.and_eq_true, decide_eq_true_eq, not_or, not_and] at h3
    refine .inr ⟨_, _, _, rfl, .three ?_ ?_ ?_ ?_ ?_ ?_⟩ <;>
      simp only [isCont_iff, UInt8.le_iff_toNat_le, Nat.toUInt8, UInt8.toNat_ofNat', UInt8.reduceToNat,
        ← UInt8.toNat_inj] <;>
      omega
  · simp only [Bool.or_eq_true, Bool.and_eq_true, decide_eq_true_eq, not_or, not_and] at h3
    refine .inr ⟨_, _, _, rfl, .four ?_ ?_ ?_ ?_ ?_ ?_ ?_⟩ <;>
      simp only [isCont_iff, UInt8.le_iff_toNat_le, Nat.toUInt8, UInt8.toNat_ofNat', UInt8.reduceToNat,
        ← UInt8.toNat_inj] <;>
      omega

theorem decodeRune_encodeRune (r : Nat) : ∃ b tail v, encodeRune r = b :: tail ∧
    ∀ s, decodeRune b (tail ++ s) = (v, tail.length + 1) := by
  rcases encodeRune_cases r with ⟨b, hb, h⟩ | ⟨b, tail, v, h, hseq⟩
  · exact ⟨b, [], b.toNat, h, fun s => decodeRune_ascii hb s⟩
  · exact ⟨b, tail, v, h, hseq.decodeRune_append⟩

theorem encodeRune_append_inj {r r' : Nat} {s t : Bytes} (h : encodeRune r ++ s = encodeRune r' ++ t) :
    encodeRune r = encodeRune r' ∧ s = t := by
  obtain ⟨b, tail, v, he, hd⟩ := decodeRune_encodeRune r
  obtain ⟨b', tail', v', he', hd'⟩ := decodeRune_encodeRune r'
  rw [he, he', cons_append, cons_append] at h
  obtain ⟨rfl, hrest⟩ := List.cons.inj h
  have hdecode := hd s
  rw [hrest, hd'] at hdecode
  have hlength : tail.length = tail'.length := by
    have := (Prod.mk.inj hdecode).2
    omega
  obtain ⟨rfl, rfl⟩ := append_inj hrest hlength
  exact ⟨he.trans he'.symm, rfl⟩

theorem forall₂_of_flatMap_encodeRune {α : Type} {f : α → Nat} : ∀ {xs ys : List α},
    xs.flatMap (fun x => encodeRune (f x)) = ys.flatMap (fun y => encodeRune (f y)) →
    List.Forall₂ (fun x y => encodeRune (f x) = encodeRune (f y)) xs ys
  | [], [], _ => .nil
  | [], y :: ys, h => by
    rw [flatMap_nil, flatMap_cons] at h
    exact absurd (append_eq_nil_iff.mp h.symm).1 (encodeRune_ne_nil _)
  | x :: xs, [], h => by
    rw [flatMap_nil, flatMap_cons] at h
    exact absurd (append_eq_nil_iff.mp h).1 (encodeRune_ne_nil _)
  | x :: xs, y :: ys, h => by
    rw [flatMap_cons, flatMap_cons] at h
    obtain ⟨hhead, htail⟩ := encodeRune_append_inj h
    exact .cons hhead (forall₂_of_flatMap_encodeRune htail)

/-! ## 2. Letters -/

/-- What `range` finds in a string: a rune, or a byte that is not part of one. -/
inductive Letter where
  | rune (r : Nat)
  | stray (b : UInt8)
  deriving DecidableEq

/-- What `range` yields for it. -/
def Letter.value : Letter → Nat
  | .rune r => r
  | .stray _ => runeError

def Letter.isStray : Letter → Bool
  | .rune _ => false
  | .stray _ => true

def firstLetter (b : UInt8) (s : Bytes) : Letter :=
  if decodeRune b s = (runeError, 1) then .stray b else .rune (decodeRune b s).1

def lettersUpTo : Nat → Bytes → List Letter
  | 0, _ => []
  | _ + 1, [] => []
  | n + 1, b :: s => firstLetter b s :: lettersUpTo n ((b :: s).drop (decodeRune b s).2)

def letters (s : Bytes) : List Letter := lettersUpTo s.length s

theorem value_firstLetter (b : UInt8) (s : Bytes) : (firstLetter b s).value = (decodeRune b s).1 := by
  unfold firstLetter
  split_ifs with h
  · rw [h]
    rfl
  · rfl

theorem map_value_lettersUpTo : ∀ (n : Nat) (s : Bytes),
    (lettersUpTo n s).map Letter.value = runesUpTo n s
  | 0, _ => rfl
  | _ + 1, [] => rfl
  | n + 1, b :: s => by
    rw [lettersUpTo, runesUpTo, map_cons, value_firstLetter, map_value_lettersUpTo n]

variable (U : Unicode)

theorem toLower_eq_letters (s : Bytes) :
    toLower U s = (letters s).flatMap fun x => encodeRune (U.lower x.value) := by
  rw [toLower, runes, ← map_value_lettersUpTo, flatMap_map]
  rfl

/-! ## 3. Up to letter case -/

/-- Two runes with one lower-case form, or the same byte. -/
def Letter.Same : Letter → Letter → Prop
  | .rune r, .rune r' => encodeRune (U.lower r) = encodeRune (U.lower r')
  | .stray b, .stray b' => b = b'
  | .rune _, .stray _ | .stray _, .rune _ => False

def SameLetters (s t : Bytes) : Prop := List.Forall₂ (Letter.Same U) (letters s) (letters t)

/-- Somewhere one text has a stray byte and the other one has something else. -/
def StrayDiffer (s t : Bytes) : Prop :=
  ∃ p ∈ (letters s).zip (letters t), p.1 ≠ p.2 ∧ (p.1.isStray = true ∨ p.2.isStray = true)

section
variable {U}

theorem Letter.Same.not_stray {x y : Letter} (h : Letter.Same U x y) :
    ¬ (x ≠ y ∧ (x.isStray = true ∨ y.isStray = true)) := by
  cases x with
  | rune r =>
    cases y with
    | rune r' => simp [isStray]
    | stray b' => exact h.elim
  | stray b =>
    cases y with
    | rune r' => exact h.elim
    | stray b' =>
      obtain rfl : b = b' := h
      simp

theorem Letter.same_of_not_stray {x y : Letter}
    (h : encodeRune (U.lower x.value) = encodeRune (U.lower y.value))
    (hstray : ¬ (x ≠ y ∧ (x.isStray = true ∨ y.isStray = true))) : Letter.Same U x y := by
  cases x with
  | rune r =>
    cases y with
    | rune r' => exact h
    | stray b' => simp [isStray] at hstray
  | stray b =>
    cases y with
    | rune r' => simp [isStray] at hstray
    | stray b' => simpa [isStray, Same] using hstray

theorem SameLetters.not_strayDiffer {s t : Bytes} (h : SameLetters U s t) : ¬ StrayDiffer s t := by
  rintro ⟨p, hp, hdiffer⟩
  exact Letter.Same.not_stray ((List.forall₂_iff_zip.mp h).2 hp) hdiffer

/-- **Texts with one lower-case form** are the same up to letter case, stray bytes apart. -/
theorem sameLetters_of_toLower_eq {s t : Bytes} (h : toLower U s = toLower U t)
    (hstray : ¬ StrayDiffer s t) : SameLetters U s t := by
  rw [toLower_eq_letters, toLower_eq_letters] at h
  obtain ⟨hlength, hzip⟩ := List.forall₂_iff_zip.mp (forall₂_of_flatMap_encodeRune h)
  refine List.forall₂_iff_zip.mpr ⟨hlength, ?_⟩
  intro x y hp
  exact Letter.same_of_not_stray (hzip hp) fun hdiffer => hstray ⟨(x, y), hp, hdiffer⟩

end

end AoniContrib.Go
