/-
# Texts that diverge

Two lists DIVERGE when, after a common start, both go on with different elements.  Unlike
`≠`, this survives whatever is appended on either side, so a difference found in one part of
two texts is a difference of the whole.
-/
import Mathlib

namespace AoniContrib.Data

variable {α : Type*}

def Diverge (xs ys : List α) : Prop :=
  ∃ c a b xs' ys', a ≠ b ∧ xs = c ++ a :: xs' ∧ ys = c ++ b :: ys'

namespace Diverge

variable {xs ys : List α}

theorem of_heads {a b : α} (h : a ≠ b) (xs ys : List α) : Diverge (a :: xs) (b :: ys) :=
  ⟨[], a, b, xs, ys, h, rfl, rfl⟩

theorem prepend (h : Diverge xs ys) (l : List α) : Diverge (l ++ xs) (l ++ ys) := by
  obtain ⟨c, a, b, xs', ys', hab, rfl, rfl⟩ := h
  exact ⟨l ++ c, a, b, xs', ys', hab, by simp, by simp⟩

theorem append (h : Diverge xs ys) (s t : List α) : Diverge (xs ++ s) (ys ++ t) := by
  obtain ⟨c, a, b, xs', ys', hab, rfl, rfl⟩ := h
  exact ⟨c, a, b, xs' ++ s, ys' ++ t, hab, by simp, by simp⟩

theorem ne (h : Diverge xs ys) : xs ≠ ys := by
  obtain ⟨c, a, b, xs', ys', hab, rfl, rfl⟩ := h
  intro he
  have := List.append_cancel_left he
  exact hab (List.cons.inj this).1

end Diverge

theorem diverge_map_of_ne {f : α → α} : ∀ {xs : List α}, xs.map f ≠ xs → Diverge (xs.map f) xs
  | [], h => absurd rfl h
  | x :: xs, h => by
    by_cases hx : f x = x
    · have ht : xs.map f ≠ xs := by
        intro he
        exact h (by rw [List.map_cons, hx, he])
      have := (diverge_map_of_ne ht).prepend [x]
      simpa [hx] using this
    · exact Diverge.of_heads hx _ _

end AoniContrib.Data
