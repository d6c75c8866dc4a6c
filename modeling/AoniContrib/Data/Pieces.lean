/-
# Cutting a text where a reader allows it

A reader goes over a text with a state of its own, and the state says which elements END a piece: a
comma does outside of a string and not inside one.  `pieces` are the parts between those elements.
-/
import Mathlib.Data.List.Basic

namespace AoniContrib.Data

open List

section
variable {α σ : Type*} (next : σ → α → σ) (ends : σ → α → Bool)

def pieces : σ → List α → List (List α)
  | _, [] => [[]]
  | m, c :: s =>
    if ends m c then [] :: pieces (next m c) s
    else (pieces (next m c) s).modifyHead (c :: ·)

theorem exists_pieces (m : σ) (s : List α) : ∃ p ps, pieces next ends m s = p :: ps := by
  cases s with
  | nil => exact ⟨[], [], rfl⟩
  | cons c s =>
    rw [pieces]
    split
    · exact ⟨_, _, rfl⟩
    · obtain ⟨p, ps, hp⟩ := exists_pieces (next m c) s
      exact ⟨c :: p, ps, by rw [hp]; rfl⟩

theorem pieces_append {x : α} (t : List α) : ∀ {m : σ} {s : List α}, ends (s.foldl next m) x = true →
    pieces next ends m (s ++ x :: t) =
      pieces next ends m s ++ pieces next ends (next (s.foldl next m) x) t
  | m, [], h => if_pos h
  | m, c :: s, h => by
    have ih : pieces next ends (next m c) (s ++ x :: t) = _ := pieces_append t h
    rw [cons_append, pieces, pieces, ih]
    split
    · rfl
    · obtain ⟨p, ps, hp⟩ := exists_pieces next ends (next m c) s
      rw [hp]
      rfl

theorem length_add_length_le {p : List α} : ∀ {m : σ} {s : List α}, p ∈ pieces next ends m s →
    p.length + (pieces next ends m s).length ≤ s.length + 1
  | m, [], h => by
    rw [mem_singleton.mp h]
    exact Nat.le_refl 1
  | m, c :: s, h => by
    obtain ⟨q, qs, hq⟩ := exists_pieces next ends (next m c) s
    have ih : ∀ x ∈ q :: qs, x.length + (q :: qs).length ≤ s.length + 1 := by
      intro x hx
      rw [← hq] at hx ⊢
      exact length_add_length_le hx
    have hq' := ih q mem_cons_self
    rw [pieces, hq] at h ⊢
    split at h
    · rename_i hends
      rw [if_pos hends]
      rcases mem_cons.mp h with rfl | h
      · simp only [length_cons, length_nil] at hq' ⊢
        omega
      · have hp := ih p h
        simp only [length_cons] at hp ⊢
        omega
    · rename_i hends
      rw [if_neg hends]
      rcases mem_cons.mp h with rfl | h
      · simp only [modifyHead_cons, length_cons] at hq' ⊢
        omega
      · have hp := ih p (mem_cons_of_mem _ h)
        simp only [modifyHead_cons, length_cons] at hp ⊢
        omega

theorem exists_first_piece : ∀ (m : σ) (s : List α), pieces next ends m s = [s] ∨
    ∃ y x t, s = y ++ x :: t ∧ pieces next ends m y = [y] ∧ ends (y.foldl next m) x = true
  | m, [] => .inl rfl
  | m, c :: s => by
    by_cases h : ends m c = true
    · exact .inr ⟨[], c, s, rfl, rfl, h⟩
    · rcases exists_first_piece (next m c) s with hs | ⟨y, x, t, rfl, hy, hx⟩
      · exact .inl (by rw [pieces, if_neg h, hs]; rfl)
      · exact .inr ⟨c :: y, x, t, rfl, by rw [pieces, if_neg h, hy]; rfl, hx⟩

theorem pieces_eq_singleton {s : List α} (h : ∀ x ∈ s, ∀ m, ends m x = false) (m : σ) :
    pieces next ends m s = [s] := by
  induction s generalizing m with
  | nil => rfl
  | cons c s ih =>
    rw [pieces, h c mem_cons_self m, ih (forall_mem_cons.mp h).2]
    rfl

theorem pieces_replace {t u : List α} (hu : ∀ x ∈ u, ∀ m, ends m x = false) :
    ∀ {m : σ} {s : List α}, pieces next ends m (s ++ t) = [s ++ t] →
      pieces next ends m (s ++ u) = [s ++ u]
  | m, [], _ => pieces_eq_singleton next ends hu m
  | m, c :: s, h => by
    obtain ⟨q, qs, hq⟩ := exists_pieces next ends (next m c) (s ++ t)
    rw [cons_append, pieces] at h ⊢
    split at h
    · cases h
    · rename_i hends
      rw [hq, modifyHead_cons, List.cons.injEq, List.cons.injEq] at h
      obtain ⟨⟨-, rfl⟩, rfl⟩ := h
      rw [if_neg hends, pieces_replace hu hq]
      rfl

end

end AoniContrib.Data
