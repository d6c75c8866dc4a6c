/-
# Splitting a list at a separator

What `List.splitOn` yields on a text that was written line by line, and how many pieces it
yields on any text.
-/
import Mathlib

namespace AoniContrib.Data

open List

variable {α : Type*}

theorem takeWhile_mono {p : α → Bool} {u s : List α} (h : u <+: s) :
    u.takeWhile p <+: s.takeWhile p := by
  obtain ⟨r, rfl⟩ := h
  induction u with
  | nil => exact nil_prefix
  | cons x u ih =>
    rw [cons_append, takeWhile_cons, takeWhile_cons]
    split
    · exact cons_prefix_cons.mpr ⟨rfl, ih⟩
    · exact prefix_rfl

theorem takeWhile_append_of_mem {p : α → Bool} {x : α} (hx : p x = false) :
    ∀ {l : List α}, x ∈ l → ∀ r, (l ++ r).takeWhile p = l.takeWhile p
  | [], h, _ => by cases h
  | y :: l, h, r => by
    rw [cons_append, takeWhile_cons, takeWhile_cons]
    by_cases hy : p y = true
    · have hl : x ∈ l := by
        rcases mem_cons.mp h with rfl | h
        · rw [hx] at hy
          cases hy
        · exact h
      rw [if_pos hy, if_pos hy, takeWhile_append_of_mem hx hl r]
    · rw [if_neg hy, if_neg hy]

theorem exists_first_not {P : α → Prop} :
    ∀ {l : List α}, ¬ (∀ x ∈ l, P x) → ∃ l₁ x l₂, l = l₁ ++ x :: l₂ ∧ (∀ y ∈ l₁, P y) ∧ ¬ P x
  | [], h => absurd (by simp) h
  | x :: l, h => by
    by_cases hx : P x
    · have hl : ¬ ∀ y ∈ l, P y := by
        intro hl
        refine h fun y hy => ?_
        rcases mem_cons.mp hy with rfl | hy
        · exact hx
        · exact hl y hy
      obtain ⟨l₁, z, l₂, rfl, h₁, hz⟩ := exists_first_not hl
      refine ⟨x :: l₁, z, l₂, rfl, fun y hy => ?_, hz⟩
      rcases mem_cons.mp hy with rfl | hy
      · exact hx
      · exact h₁ y hy
    · exact ⟨[], x, l, rfl, by simp, hx⟩

theorem flatMap_of_sublist {β : Type*} {f : α → List β} {l₁ l₂ : List α} (h : l₁.Sublist l₂)
    (hnodup : l₂.Nodup) (hf : ∀ x ∈ l₂, x ∉ l₁ → f x = []) : l₂.flatMap f = l₁.flatMap f := by
  induction h with
  | slnil => rfl
  | @cons l₁ l₂ a hsub ih =>
    obtain ⟨ha, hnodup⟩ := nodup_cons.mp hnodup
    have hfa : f a = [] := hf a mem_cons_self fun hm => ha (hsub.subset hm)
    rw [flatMap_cons, hfa, nil_append, ih hnodup fun x hx hn => hf x (mem_cons_of_mem _ hx) hn]
  | @cons_cons l₁ l₂ a hsub ih =>
    obtain ⟨ha, hnodup⟩ := nodup_cons.mp hnodup
    have hrest : ∀ x ∈ l₂, x ∉ l₁ → f x = [] := by
      intro x hx hn
      refine hf x (mem_cons_of_mem _ hx) fun hm => ?_
      rcases mem_cons.mp hm with rfl | hm
      · exact ha hx
      · exact hn hm
    rw [flatMap_cons, flatMap_cons, ih hnodup hrest]

theorem flatMap_congr_forall₂ {β γ : Type*} {R : α → β → Prop} {f : α → List γ} {g : β → List γ}
    {xs : List α} {ys : List β} (h : List.Forall₂ R xs ys) (hfg : ∀ x y, R x y → f x = g y) :
    xs.flatMap f = ys.flatMap g := by
  induction h with
  | nil => rfl
  | cons hxy _ ih => rw [flatMap_cons, flatMap_cons, hfg _ _ hxy, ih]

theorem append_eq_cut {x : α} {b t : List α} : ∀ {a y : List α}, a ++ b = y ++ x :: t →
    (∃ u, a = y ++ x :: u ∧ u ++ b = t) ∨ ∃ z, y = a ++ z ∧ b = z ++ x :: t
  | [], y, h => .inr ⟨y, rfl, h⟩
  | c :: a, [], h => by
    obtain ⟨rfl, htail⟩ := List.cons.inj h
    exact .inl ⟨a, rfl, htail⟩
  | c :: a, d :: y, h => by
    obtain ⟨rfl, htail⟩ := List.cons.inj h
    rcases append_eq_cut htail with ⟨u, rfl, hu⟩ | ⟨z, rfl, hz⟩
    · exact .inl ⟨u, rfl, hu⟩
    · exact .inr ⟨z, rfl, hz⟩

theorem append_eq_cut_of_not_mem {x : α} {a b y t : List α} (hx : x ∉ a) (h : a ++ b = y ++ x :: t) :
    ∃ z, y = a ++ z ∧ b = z ++ x :: t := by
  rcases append_eq_cut h with ⟨u, rfl, -⟩ | hz
  · simp at hx
  · exact hz

theorem exists_cut_body {β : Type*} {a x : α} {body : β → List α} (hx : x ≠ a) {rest : List α} :
    ∀ {l : List β} {Z : List α}, l.flatMap (fun b => a :: body b) = Z ++ x :: rest →
      ∃ l₁ b l₂ z rest', l = l₁ ++ b :: l₂ ∧ Z = l₁.flatMap (fun b => a :: body b) ++ a :: z ∧
        body b = z ++ x :: rest'
  | [], Z, h => by simp at h
  | b :: l, Z, h => by
    rw [flatMap_cons, cons_append] at h
    cases Z with
    | nil => exact absurd (List.cons.inj h).1.symm hx
    | cons c Z =>
      obtain ⟨rfl, htail⟩ := List.cons.inj h
      rcases append_eq_cut htail with ⟨d, hbody, -⟩ | ⟨Z', rfl, hrest⟩
      · exact ⟨[], b, l, Z, d, rfl, rfl, hbody⟩
      · obtain ⟨l₁, b', l₂, z, rest', rfl, rfl, hz⟩ := exists_cut_body hx hrest
        exact ⟨b :: l₁, b', l₂, z, rest', rfl, by simp, hz⟩

theorem exists_cut_behind {pre s z w : List α} {x d : α} (hx : x ∉ pre) (hd : x ≠ d)
    (h : pre ++ (s ++ [d]) = z ++ x :: w) : ∃ u r, z = pre ++ u ∧ s = u ++ x :: r := by
  obtain ⟨u, rfl, hu⟩ := append_eq_cut_of_not_mem hx h
  rcases append_eq_cut hu with ⟨r, rfl, -⟩ | ⟨v, -, hv⟩
  · exact ⟨u, r, rfl, rfl⟩
  · have hmem : x ∈ [d] := by rw [hv]; simp
    exact absurd (mem_singleton.mp hmem) hd

theorem eq_of_rotated {x d : α} : ∀ {u : List α}, u ++ [x] = d :: u → x = d
  | [], h => (List.cons.inj h).1
  | a :: u, h => by
    obtain ⟨rfl, htail⟩ := List.cons.inj h
    exact eq_of_rotated htail

theorem flatMap_ite {β : Type*} (p : α → Bool) (f : α → List β) (l : List α) :
    l.flatMap (fun x => if p x then f x else []) = (l.filter p).flatMap f := by
  induction l with
  | nil => rfl
  | cons x l ih =>
    rw [flatMap_cons, ih, filter_cons]
    split
    · rw [flatMap_cons]
    · rfl

theorem eq_of_flatten_eq : ∀ {xs ys : List (List α)} {i : Nat} {s : List α},
    xs.length = ys.length → (∀ j ≠ i, xs[j]? = ys[j]?) →
      xs.flatten ++ s = ys.flatten ++ s → xs[i]? = ys[i]?
  | [], [], _, _, _, _, _ => rfl
  | x :: xs, y :: ys, 0, s, _, hother, h => by
    have htail : xs = ys := ext_getElem? fun j => by
      simpa using hother (j + 1) (by omega)
    subst htail
    rw [flatten_cons, flatten_cons, append_assoc, append_assoc] at h
    rw [append_cancel_right h]
  | x :: xs, y :: ys, i + 1, s, hlen, hother, h => by
    have hhead : x = y := by simpa using hother 0 (by omega)
    subst hhead
    rw [flatten_cons, flatten_cons, append_assoc, append_assoc] at h
    rw [getElem?_cons_succ, getElem?_cons_succ]
    exact eq_of_flatten_eq (by simpa using hlen)
      (fun j hj => by simpa using hother (j + 1) (by omega)) (append_cancel_left h)

section
variable [DecidableEq α]

theorem length_splitOn (a : α) (xs : List α) : (xs.splitOn a).length = xs.count a + 1 := by
  induction xs with
  | nil => rfl
  | cons x xs ih =>
    rw [splitOn_cons_eq_if_modifyHead, count_cons]
    split
    · rw [length_cons, ih]
    · rw [length_modifyHead, ih, Nat.add_zero]

/-- **Lines are read back as they were written**, when none of them holds the separator. -/
theorem splitOn_lines (a : α) {last : List α} (hlast : a ∉ last) :
    ∀ {ls : List (List α)}, (∀ l ∈ ls, a ∉ l) →
      (ls.flatMap (fun l => l ++ [a]) ++ last).splitOn a = ls ++ [last]
  | [], _ => splitOn_eq_singleton hlast
  | l :: ls, h => by
    have ih := splitOn_lines a hlast (forall_mem_cons.mp h).2
    rw [flatMap_cons, append_assoc, append_assoc, singleton_append,
      splitOn_append_cons_self_of_not_mem (h l mem_cons_self), ih, cons_append]

theorem splitOn_flatMap_cons {β : Type*} (a : α) (g : β → List α) :
    ∀ (z : List α) (xs : List β), (z ++ xs.flatMap (fun x => a :: g x)).splitOn a =
      z.splitOn a ++ xs.flatMap (fun x => (g x).splitOn a)
  | z, [] => by simp
  | z, x :: xs => by
    have ih := splitOn_flatMap_cons a g (g x) xs
    rw [flatMap_cons, cons_append, splitOn_append_cons_self, ih, flatMap_cons]

theorem flatMap_splitOn_eq_map {β : Type*} {a : α} {g : β → List α} {xs : List β}
    (h : ∀ x ∈ xs, a ∉ g x) : xs.flatMap (fun x => (g x).splitOn a) = xs.map g := by
  rw [← flatMap_singleton' (xs.map g), flatMap_map]
  exact flatMap_congr fun x hx => splitOn_eq_singleton (h x hx)

theorem not_mem_of_mem_splitOn {a : α} {xs : List α} :
    ∀ {piece : List α}, piece ∈ xs.splitOn a → a ∉ piece := by
  induction xs with
  | nil =>
    intro piece h
    have : piece = [] := by simpa using h
    rw [this]
    exact not_mem_nil
  | cons x xs ih =>
    intro piece h
    rw [splitOn_cons_eq_if_modifyHead] at h
    split at h
    · rcases mem_cons.mp h with rfl | h
      · exact not_mem_nil
      · exact ih h
    · rename_i hx
      cases hs : xs.splitOn a with
      | nil => rw [hs] at h; cases h
      | cons y ys =>
        rw [hs, modifyHead_cons] at h
        rw [hs] at ih
        rcases mem_cons.mp h with rfl | h
        · rw [mem_cons, not_or]
          exact ⟨fun e => hx (by simp [e]), ih mem_cons_self⟩
        · exact ih (mem_cons_of_mem _ h)

theorem splitOn_eq_takeWhile (a : α) (xs : List α) :
    ∃ more, xs.splitOn a = xs.takeWhile (fun x => x ≠ a) :: more := by
  induction xs with
  | nil => exact ⟨[], rfl⟩
  | cons x xs ih =>
    obtain ⟨more, ih⟩ := ih
    rw [splitOn_cons_eq_if_modifyHead]
    by_cases hx : x = a
    · exact ⟨xs.splitOn a, by simp [hx]⟩
    · exact ⟨more, by simp [hx, ih]⟩

theorem takeWhile_of_not_mem {a : α} {l : List α} (h : a ∉ l) : l.takeWhile (fun x => x ≠ a) = l :=
  takeWhile_eq_self_iff.mpr fun x hx => by
    simpa using fun e : x = a => h (e ▸ hx)

theorem takeWhile_append_of_not_mem {a : α} {l : List α} (h : a ∉ l) (r : List α) :
    (l ++ r).takeWhile (fun x => x ≠ a) = l ++ r.takeWhile (fun x => x ≠ a) :=
  takeWhile_append_of_pos fun x hx => by
    simpa using fun e : x = a => h (e ▸ hx)

end

end AoniContrib.Data
