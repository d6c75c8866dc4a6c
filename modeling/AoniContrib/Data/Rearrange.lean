/-
# Results that do not depend on the order of a list

A function of a list that reacts to a swap of its first two elements only through a relation between
them gives the same result for all arrangements of a list exactly if any two of its elements are so
related (`rearrange_iff`).
-/
import Mathlib

namespace AoniContrib.Data

open List

variable {α β : Type*} {f : List α → β} {R : α → α → Prop}

section
variable (hcons : ∀ a {l l' : List α}, l.Perm l' → f l = f l' → f (a :: l) = f (a :: l'))
include hcons

theorem eq_of_perm
    (hswap : ∀ a b l, R a b → f (a :: b :: l) = f (b :: a :: l)) (hsymm : ∀ a b, R a b → R b a)
    {l l' : List α} (h : l.Perm l') (hR : l.Pairwise R) : f l = f l' := by
  induction h with
  | nil => rfl
  | cons a hp ih => exact hcons a hp (ih (pairwise_cons.mp hR).2)
  | swap a b l => exact hswap b a l ((pairwise_cons.mp hR).1 a mem_cons_self)
  | trans hp _ ih₁ ih₂ => exact (ih₁ hR).trans (ih₂ ((hp.pairwise_iff (hsymm _ _)).mp hR))

/-- **All arrangements give one result exactly if any two elements may be swapped.** -/
theorem rearrange_iff
    (hswap : ∀ a b l, f (a :: b :: l) = f (b :: a :: l) ↔ R a b) {l : List α} :
    (∀ l', l'.Perm l → f l' = f l) ↔ l.Pairwise R := by
  have hsymm : ∀ a b, R a b → R b a := by
    intro a b h
    rw [← hswap b a []]
    exact ((hswap a b []).mpr h).symm
  constructor
  · intro h
    rw [pairwise_iff_forall_sublist]
    intro a b hab
    obtain ⟨rest, hrest⟩ := hab.exists_perm_append
    have h₁ := h (a :: b :: rest) hrest.symm
    have h₂ := h (b :: a :: rest) ((List.Perm.swap a b rest).trans hrest.symm)
    exact (hswap a b rest).mp (h₁.trans h₂.symm)
  · intro h l' hp
    exact (eq_of_perm hcons (fun a b l hab => (hswap a b l).mpr hab) hsymm hp.symm h).symm

end

theorem intercalate_cons {sep s : List α} {texts : List (List α)} (h : texts ≠ []) :
    sep.intercalate (s :: texts) = s ++ sep ++ sep.intercalate texts := by
  cases texts with
  | nil => exact absurd rfl h
  | cons t texts => simp [List.intercalate, List.intersperse]

theorem intercalate_flatMap {sep : List α} {g : β → List (List α)} {l : List β}
    (h : ∀ b ∈ l, g b ≠ []) :
    sep.intercalate (l.flatMap g) = sep.intercalate (l.map fun b => sep.intercalate (g b)) := by
  have hgroup : ∀ {xs ys : List (List α)}, xs ≠ [] → ys ≠ [] →
      sep.intercalate (xs ++ ys) = sep.intercalate xs ++ sep ++ sep.intercalate ys := by
    intro xs ys hxs hys
    induction xs with
    | nil => exact absurd rfl hxs
    | cons x xs ih =>
      by_cases hx : xs = []
      · subst hx
        rw [singleton_append, intercalate_cons hys]
        simp [List.intercalate]
      · rw [cons_append, intercalate_cons (by simp [hx]), intercalate_cons hx, ih hx]
        simp only [append_assoc]
  induction l with
  | nil => rfl
  | cons b l ih =>
    have hl : ∀ c ∈ l, g c ≠ [] := (forall_mem_cons.mp h).2
    by_cases hempty : l = []
    · subst hempty
      simp [List.intercalate]
    · have hne : l.flatMap g ≠ [] := by
        obtain ⟨c, l, rfl⟩ := exists_cons_of_ne_nil hempty
        rw [flatMap_cons]
        exact append_ne_nil_of_left_ne_nil (hl c mem_cons_self) _
      rw [flatMap_cons, hgroup (h b mem_cons_self) hne, ih hl, map_cons,
        intercalate_cons (by simpa using hempty)]

theorem intercalate_rearrange_iff (sep : List α) (g : β → List α) {l : List β} :
    (∀ l' : List β, l'.Perm l → sep.intercalate (l'.map g) = sep.intercalate (l.map g)) ↔
      l.Pairwise (fun a b => g a ++ sep ++ g b = g b ++ sep ++ g a) := by
  have hcons : ∀ a {l : List β}, l ≠ [] →
      sep.intercalate ((a :: l).map g) = g a ++ sep ++ sep.intercalate (l.map g) := by
    intro a l hl
    rw [map_cons, intercalate_cons (by simpa using hl)]
  refine rearrange_iff (f := fun l => sep.intercalate (l.map g)) ?_ ?_
  · intro a l l' hp h
    by_cases hl : l = []
    · subst hl
      rw [nil_perm.mp hp]
    · have hl' : l' ≠ [] := by
        rintro rfl
        exact hl (perm_nil.mp hp)
      simp only [hcons a hl, hcons a hl', h]
  · intro a b l
    simp only [hcons a (cons_ne_nil b l), hcons b (cons_ne_nil a l)]
    by_cases hl : l = []
    · subst hl
      simp [List.intercalate]
    · rw [hcons b hl, hcons a hl]
      simp only [← append_assoc]
      rw [append_left_inj, append_left_inj]

theorem findSome?_rearrange_iff {γ : Type*} (m : α → Option γ) {l : List α} :
    (∀ l' : List α, l'.Perm l → l'.findSome? m = l.findSome? m) ↔
      l.Pairwise (fun a b => ∀ x y, m a = some x → m b = some y → x = y) := by
  refine rearrange_iff ?_ ?_
  · intro a l l' _ h
    rw [findSome?_cons, findSome?_cons, h]
  · intro a b l
    simp only [findSome?_cons]
    cases ha : m a with
    | none | some x =>
      cases hb : m b with
      | none => simp
      | some y => simp

end AoniContrib.Data
