/-
# Well-formed UTF-8

`utf8.Valid`, and what the valid part of `DecodeRune` is like: an ASCII byte or one of the sequences
of `Sequence`, which is read back whatever is behind it and which `AppendRune` writes again.
-/
import AoniContrib.Go.Bytes

namespace AoniContrib.Go

open List

/-- The loop of `utf8.Valid`, over at most `n` runes. -/
def validUpTo : Nat → Bytes → Bool
  | _, [] => true
  | 0, _ :: _ => false
  | n + 1, b :: s =>
    decodeRune b s ≠ (runeError, 1) && validUpTo n ((b :: s).drop (decodeRune b s).2)

/-- `utf8.Valid`: no byte decodes to `RuneError` of width one. -/
def utf8Valid (s : Bytes) : Bool := validUpTo s.length s

/-! ## Sequences -/

/-- The well-formed sequences of more than one byte: the lead byte, the others, and the rune. -/
inductive Sequence : UInt8 → Bytes → Nat → Prop where
  | two {b0 b1 : UInt8} : 0xC2 ≤ b0 → b0 ≤ 0xDF → isCont b1 = true →
      Sequence b0 [b1] ((b0.toNat - 0xC0) * 64 + (b1.toNat - 0x80))
  | three {b0 b1 b2 : UInt8} : 0xE0 ≤ b0 → b0 ≤ 0xEF → isCont b1 = true → isCont b2 = true →
      (b0 = 0xE0 → 0xA0 ≤ b1) → (b0 = 0xED → b1 ≤ 0x9F) →
      Sequence b0 [b1, b2] ((b0.toNat - 0xE0) * 4096 + (b1.toNat - 0x80) * 64 + (b2.toNat - 0x80))
  | four {b0 b1 b2 b3 : UInt8} : 0xF0 ≤ b0 → b0 ≤ 0xF4 → isCont b1 = true → isCont b2 = true →
      isCont b3 = true → (b0 = 0xF0 → 0x90 ≤ b1) → (b0 = 0xF4 → b1 ≤ 0x8F) →
      Sequence b0 [b1, b2, b3]
        ((b0.toNat - 0xF0) * 262144 + (b1.toNat - 0x80) * 4096 + (b2.toNat - 0x80) * 64 +
          (b3.toNat - 0x80))

section
variable {b : UInt8} {s : Bytes} {v : Nat × Nat}

theorem exists_of_decodeTwo (h : decodeTwo b s = some v) :
    ∃ tail rest r, s = tail ++ rest ∧ Sequence b tail r ∧ v = (r, tail.length + 1) := by
  unfold decodeTwo at h
  split at h
  · split_ifs at h with hc
    exact ⟨[_], _, _, rfl, .two hc.1 hc.2.1 hc.2.2, (Option.some.inj h).symm⟩
  · cases h

theorem exists_of_decodeThree
    (h : decodeThree b s = some v) :
    ∃ tail rest r, s = tail ++ rest ∧ Sequence b tail r ∧ v = (r, tail.length + 1) := by
  unfold decodeThree at h
  split at h
  · split_ifs at h with hc
    obtain ⟨h0, h0', h1, h2, hE0, hED⟩ := hc
    exact ⟨[_, _], _, _, rfl, .three h0 h0' h1 h2 hE0 hED, (Option.some.inj h).symm⟩
  · cases h

theorem exists_of_decodeFour
    (h : decodeFour b s = some v) :
    ∃ tail rest r, s = tail ++ rest ∧ Sequence b tail r ∧ v = (r, tail.length + 1) := by
  unfold decodeFour at h
  split at h
  · split_ifs at h with hc
    obtain ⟨h0, h0', h1, h2, h3, hF0, hF4⟩ := hc
    exact ⟨[_, _, _], _, _, rfl, .four h0 h0' h1 h2 h3 hF0 hF4, (Option.some.inj h).symm⟩
  · cases h

end

section
variable (b : UInt8) (s : Bytes)

theorem decodeRune_cases : (b < 0x80 ∧ decodeRune b s = (b.toNat, 1)) ∨
      (∃ tail rest r, s = tail ++ rest ∧ Sequence b tail r ∧ decodeRune b s = (r, tail.length + 1)) ∨
      decodeRune b s = (runeError, 1) := by
  by_cases hb : b < 0x80
  · exact .inl ⟨hb, decodeRune_ascii hb s⟩
  · right
    rw [decodeRune, if_neg hb]
    cases h2 : decodeTwo b s with
    | some v => exact .inl (exists_of_decodeTwo h2)
    | none =>
      cases h3 : decodeThree b s with
      | some v => exact .inl (exists_of_decodeThree h3)
      | none =>
        cases h4 : decodeFour b s with
        | some v => exact .inl (exists_of_decodeFour h4)
        | none => exact .inr rfl

theorem decodeRune_width : 0 < (decodeRune b s).2 := by
  rcases decodeRune_cases b s with ⟨_, hd⟩ | ⟨_, _, _, _, _, hd⟩ | hd <;> rw [hd] <;> omega

theorem drop_lt : ((b :: s).drop (decodeRune b s).2).length < (b :: s).length := by
  have hwidth := decodeRune_width b s
  rw [length_drop, length_cons]
  omega

theorem runesUpTo_of_le : ∀ {n m : Nat} {s : Bytes}, s.length ≤ n → s.length ≤ m →
    runesUpTo n s = runesUpTo m s
  | 0, 0, _, _, _ => rfl
  | n + 1, 0, [], _, _ => rfl
  | 0, m + 1, [], _, _ => rfl
  | n + 1, m + 1, [], _, _ => rfl
  | n + 1, m + 1, b :: s, hn, hm => by
    have hdrop := drop_lt b s
    rw [runesUpTo, runesUpTo, runesUpTo_of_le (Nat.le_of_lt_succ (hdrop.trans_le hn))
      (Nat.le_of_lt_succ (hdrop.trans_le hm))]

theorem runes_cons :
    runes (b :: s) = (decodeRune b s).1 :: runes ((b :: s).drop (decodeRune b s).2) := by
  rw [runes, length_cons, runesUpTo, runes, runesUpTo_of_le (Nat.le_of_lt_succ (drop_lt b s)) le_rfl]

end

theorem decodeRune_ascii_ne {b : UInt8} (hb : b < 0x80) (s : Bytes) :
    decodeRune b s ≠ (runeError, 1) := by
  have hlt : b.toNat < 0x80 := by simpa [UInt8.lt_iff_toNat_lt] using hb
  rw [decodeRune_ascii hb, Ne, Prod.mk.injEq, runeError]
  omega

theorem isCont_iff {b : UInt8} : isCont b = true ↔ 0x80 ≤ b.toNat ∧ b.toNat ≤ 0xBF := by
  simp [isCont, UInt8.le_iff_toNat_le]

namespace Sequence

variable {b : UInt8} {tail : Bytes} {r : Nat}

theorem not_ascii (h : Sequence b tail r) : ¬ b < 0x80 := by
  cases h with
  | two h0 | three h0 | four h0 =>
    rw [UInt8.lt_iff_toNat_lt]
    simp only [UInt8.le_iff_toNat_le, UInt8.reduceToNat] at h0 ⊢
    omega

theorem tail_not_ascii (h : Sequence b tail r) : ∀ x ∈ tail, ¬ x < 0x80 := by
  have hcont : ∀ x : UInt8, isCont x = true → ¬ x < 0x80 := by grind [isCont]
  intro x hx
  cases h with
  | two _ _ h1 =>
    rw [mem_singleton.mp hx]
    exact hcont _ h1
  | three _ _ h1 h2 =>
    simp only [mem_cons, not_mem_nil, or_false] at hx
    rcases hx with rfl | rfl
    · exact hcont _ h1
    · exact hcont _ h2
  | four _ _ h1 h2 h3 =>
    simp only [mem_cons, not_mem_nil, or_false] at hx
    rcases hx with rfl | rfl | rfl
    · exact hcont _ h1
    · exact hcont _ h2
    · exact hcont _ h3

theorem decodeRune_append (h : Sequence b tail r) (rest : Bytes) :
    decodeRune b (tail ++ rest) = (r, tail.length + 1) := by
  rw [decodeRune, if_neg h.not_ascii]
  cases h with
  | @two b1 h0 h0' h1 =>
    have h2 : decodeTwo b ([b1] ++ rest) =
        some ((b.toNat - 0xC0) * 64 + (b1.toNat - 0x80), 2) := if_pos ⟨h0, h0', h1⟩
    rw [h2]
    rfl
  | @three b1 b2 h0 h0' h1 h2 hE0 hED =>
    have hne : decodeTwo b ([b1, b2] ++ rest) = none := by
      refine if_neg fun hc => ?_
      have := hc.2.1
      simp only [UInt8.le_iff_toNat_le, UInt8.reduceToNat] at h0 this
      omega
    have h3 : decodeThree b ([b1, b2] ++ rest) =
        some ((b.toNat - 0xE0) * 4096 + (b1.toNat - 0x80) * 64 + (b2.toNat - 0x80), 3) :=
      if_pos ⟨h0, h0', h1, h2, hE0, hED⟩
    rw [hne, h3]
    rfl
  | @four b1 b2 b3 h0 h0' h1 h2 h3 hF0 hF4 =>
    have hne : decodeTwo b ([b1, b2, b3] ++ rest) = none := by
      refine if_neg fun hc => ?_
      have := hc.2.1
      simp only [UInt8.le_iff_toNat_le, UInt8.reduceToNat] at h0 this
      omega
    have hne' : decodeThree b ([b1, b2, b3] ++ rest) = none := by
      refine if_neg fun hc => ?_
      have := hc.2.1
      simp only [UInt8.le_iff_toNat_le, UInt8.reduceToNat] at h0 this
      omega
    have h4 : decodeFour b ([b1, b2, b3] ++ rest) =
        some ((b.toNat - 0xF0) * 262144 + (b1.toNat - 0x80) * 4096 + (b2.toNat - 0x80) * 64 +
          (b3.toNat - 0x80), 4) := if_pos ⟨h0, h0', h1, h2, h3, hF0, hF4⟩
    rw [hne, hne', h4]
    rfl

theorem rune (h : Sequence b tail r) : 0x80 ≤ r ∧ r ≤ 0x10FFFF ∧ ¬ (0xD800 ≤ r ∧ r ≤ 0xDFFF) ∧
    encodeRune r = b :: tail := by
  cases h with
  | two h0 h0' h1 =>
    rw [isCont_iff] at h1
    simp only [UInt8.le_iff_toNat_le, UInt8.reduceToNat] at h0 h0'
    refine ⟨by omega, by omega, by omega, ?_⟩
    rw [encodeRune, if_neg (by omega), if_pos (by omega)]
    simp only [List.cons.injEq, and_true, ← UInt8.toNat_inj, Nat.toUInt8, UInt8.toNat_ofNat']
    omega
  | three h0 h0' h1 h2 hE0 hED =>
    rw [isCont_iff] at h1 h2
    simp only [UInt8.le_iff_toNat_le, UInt8.reduceToNat, ← UInt8.toNat_inj] at h0 h0' hE0 hED
    refine ⟨by omega, by omega, by omega, ?_⟩
    rw [encodeRune, if_neg (by omega), if_neg (by omega),
      if_neg (by simp only [Bool.or_eq_true, Bool.and_eq_true, decide_eq_true_eq]; omega),
      if_pos (by omega)]
    simp only [List.cons.injEq, and_true, ← UInt8.toNat_inj, Nat.toUInt8, UInt8.toNat_ofNat']
    omega
  | four h0 h0' h1 h2 h3 hF0 hF4 =>
    rw [isCont_iff] at h1 h2 h3
    simp only [UInt8.le_iff_toNat_le, UInt8.reduceToNat, ← UInt8.toNat_inj] at h0 h0' hF0 hF4
    refine ⟨by omega, by omega, by omega, ?_⟩
    rw [encodeRune, if_neg (by omega), if_neg (by omega),
      if_neg (by simp only [Bool.or_eq_true, Bool.and_eq_true, decide_eq_true_eq]; omega),
      if_neg (by omega)]
    simp only [List.cons.injEq, and_true, ← UInt8.toNat_inj, Nat.toUInt8, UInt8.toNat_ofNat']
    omega

end Sequence

theorem encodeRune_runeError : ∃ b tail, encodeRune runeError = b :: tail ∧ Sequence b tail runeError :=
  ⟨0xEF, [0xBF, 0xBD], by decide, .three (by decide) (by decide) (by decide) (by decide) (by decide)
    (by decide)⟩

end AoniContrib.Go
