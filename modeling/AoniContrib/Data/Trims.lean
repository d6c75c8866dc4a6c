/-
# Removing words from the start of a text

`Trims B f` says that `f` removes words of `B` from the start of a text as long as there are any.  This
determines `f`: what it leaves is a suffix, needs no further trimming, and has every element that
is in no word of `B`.
-/
import Mathlib.Data.List.Basic
import Mathlib.Data.List.Infix
import Mathlib.Tactic.Push

namespace AoniContrib.Data

open List

variable {α : Type*} {B : List α → Prop} {f : List α → List α}

/-- `f` removes words of `B` from the start of a text as long as there are any. -/
structure Trims (B : List α → Prop) (f : List α → List α) : Prop where
  ne_nil : ∀ {w}, B w → w ≠ []
  skip : ∀ {w}, B w → ∀ s, f (w ++ s) = f s
  stop : ∀ {s}, (∀ w, B w → ¬ w <+: s) → f s = s

namespace Trims

/-- A text starts with a word behind which the claim holds, or with none. -/
@[elab_as_elim]
theorem induction (h : Trims B f) {P : List α → Prop} (stop : ∀ s, (∀ w, B w → ¬ w <+: s) → P s)
    (skip : ∀ w s, B w → P s → P (w ++ s)) (s : List α) : P s := by
  induction hn : s.length using Nat.strong_induction_on generalizing s with
  | _ n ih =>
    by_cases hs : ∀ w, B w → ¬ w <+: s
    · exact stop s hs
    · push Not at hs
      obtain ⟨w, hw, t, rfl⟩ := hs
      have hpos := length_pos_iff.mpr (h.ne_nil hw)
      rw [length_append] at hn
      exact skip w t hw (ih t.length (by omega) t rfl)

section
variable (h : Trims B f)
include h

theorem suffix (s : List α) : f s <:+ s := by
  induction s using h.induction with
  | stop s hs => rw [h.stop hs]
  | skip w s hw ih =>
    rw [h.skip hw]
    exact ih.trans (suffix_append w s)

theorem idem (s : List α) : f (f s) = f s := by
  induction s using h.induction with
  | stop s hs => rw [h.stop hs, h.stop hs]
  | skip w s hw ih => rw [h.skip hw, ih]

theorem eq_self_iff {s : List α} : f s = s ↔ ∀ w, B w → ¬ w <+: s := by
  refine ⟨?_, h.stop⟩
  rintro hs w hw ⟨t, rfl⟩
  rw [h.skip hw] at hs
  have hlen := (h.suffix t).length_le
  have hpos := length_pos_iff.mpr (h.ne_nil hw)
  rw [hs, length_append] at hlen
  omega

theorem of_initial {s t : List α} (hs : f s = s) (ht : t <+: s) : f t = t :=
  h.stop fun w hw hpre => h.eq_self_iff.mp hs w hw (hpre.trans ht)

theorem append_cons {c : α} (hc : ∀ w, B w → c ∉ w) (s x : List α) :
    f (x ++ c :: s) = f x ++ c :: s := by
  induction x using h.induction with
  | stop x hx =>
    rw [h.stop hx]
    rw [h.eq_self_iff]
    rintro w hw ⟨t, ht⟩
    rcases append_eq_append_iff.mp ht with ⟨u, hu, -⟩ | ⟨u, rfl, hu⟩
    · exact hx w hw ⟨u, hu.symm⟩
    · cases u with
      | nil => exact hx _ hw (by simp)
      | cons d u =>
        obtain ⟨rfl, -⟩ := List.cons.inj hu
        exact hc _ hw (by simp)
  | skip w x hw ih => rw [append_assoc, h.skip hw, h.skip hw, ih]

theorem cons {c : α} (hc : ∀ w, B w → c ∉ w) (s : List α) : f (c :: s) = c :: s := by
  have hnil : f [] = [] := suffix_nil.mp (h.suffix [])
  rw [← nil_append (c :: s), h.append_cons hc, hnil]

theorem mem_iff {c : α} (hc : ∀ w, B w → c ∉ w) (s : List α) : c ∈ f s ↔ c ∈ s := by
  induction s using h.induction with
  | stop s hs => rw [h.stop hs]
  | skip w s hw ih => rw [h.skip hw, ih, mem_append, or_iff_right (hc w hw)]

end

end Trims

end AoniContrib.Data
