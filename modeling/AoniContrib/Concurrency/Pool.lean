/-
# Threads over a shared state

A thread is a program counter with its local variables.  One step of a thread reads and changes the
shared state, moves the thread on and may start another thread.  A pool has any number of threads, by
their numbers; its steps are the steps of its threads, and the entry of threads from outside.

Two kinds of invariant carry over from steps of threads to runs of pools: what holds of every thread
(`Every`), and that at most one thread is in a certain phase (`AtMostOne`).
-/
import AoniContrib.Concurrency.Run

namespace AoniContrib.Concurrency

open Function

variable {σ τ α : Type*}

/-- The shared state, and the threads that were started. -/
structure Pool (σ τ : Type*) where
  shared : σ
  thread : Nat → Option τ

/-- `move i s x a s' x' y`: thread `i` at `x` does `a`, goes on at `x'` and starts the thread `y`.
`enter a x`: from outside a thread can be started at `x`. -/
inductive PoolStep (move : Nat → σ → τ → α → σ → τ → Option τ → Prop) (enter : α → τ → Prop) :
    Pool σ τ → Nat × α → Pool σ τ → Prop where
  | move {s : Pool σ τ} {i : Nat} {x x' : τ} {a : α} {s' : σ} :
      s.thread i = some x → move i s.shared x a s' x' none →
      PoolStep move enter s (i, a) ⟨s', update s.thread i (some x')⟩
  | fork {s : Pool σ τ} {i : Nat} {x x' y : τ} {a : α} {s' : σ} (k : Nat) :
      s.thread i = some x → move i s.shared x a s' x' (some y) → s.thread k = none →
      PoolStep move enter s (i, a) ⟨s', update (update s.thread i (some x')) k (some y)⟩
  | enter {s : Pool σ τ} {i : Nat} {x : τ} {a : α} : s.thread i = none → enter a x →
      PoolStep move enter s (i, a) ⟨s.shared, update s.thread i (some x)⟩

def Every (P : σ → Nat → τ → Prop) (s : Pool σ τ) : Prop :=
  ∀ i x, s.thread i = some x → P s.shared i x

def AtMostOne (P : τ → Prop) (s : Pool σ τ) : Prop :=
  ∀ i j x y, s.thread i = some x → s.thread j = some y → P x → P y → i = j

def Nobody (P : τ → Prop) (s : Pool σ τ) : Prop := ∀ i x, s.thread i = some x → ¬ P x

section
variable {move : Nat → σ → τ → α → σ → τ → Option τ → Prop} {enter : α → τ → Prop}
  {s t : Pool σ τ} {i : Nat} {a : α}

/-- **What a step can do.**  Thread `i` was there, and every thread afterwards is `i`, moved on, or was
there unchanged, or is the thread `k` that `i` has started; or thread `i` has entered. -/
theorem PoolStep.cases (h : PoolStep move enter s (i, a) t) :
    (∃ x x' y k, s.thread i = some x ∧ move i s.shared x a t.shared x' y ∧ t.thread i = some x' ∧
      (∀ j ≠ i, ∀ z, s.thread j = some z → t.thread j = some z) ∧
      ∀ j ≠ i, ∀ z, t.thread j = some z →
        s.thread j = some z ∨ j = k ∧ s.thread k = none ∧ y = some z) ∨
    ∃ x, s.thread i = none ∧ enter a x ∧ t = ⟨s.shared, update s.thread i (some x)⟩ := by
  cases h with
  | move hx hmove =>
    refine .inl ⟨_, _, none, 0, hx, hmove, update_self _ _ _, ?_, ?_⟩
    · intro j hj z hz
      dsimp only
      rwa [update_of_ne hj]
    · intro j hj z hz
      dsimp only at hz
      rw [update_of_ne hj] at hz
      exact .inl hz
  | fork k hx hmove hk =>
    have hne : ∀ {j z}, s.thread j = some z → j ≠ k := by
      rintro j z hz rfl
      rw [hz] at hk
      cases hk
    refine .inl ⟨_, _, _, k, hx, hmove, ?_, ?_, ?_⟩
    · dsimp only
      rw [update_of_ne (hne hx), update_self]
    · intro j hj z hz
      dsimp only
      rwa [update_of_ne (hne hz), update_of_ne hj]
    · intro j hj z hz
      dsimp only at hz
      by_cases hjk : j = k
      · subst hjk
        rw [update_self] at hz
        exact .inr ⟨rfl, hk, hz⟩
      · rw [update_of_ne hjk, update_of_ne hj] at hz
        exact .inl hz
  | enter hi henter => exact .inr ⟨_, hi, henter, rfl⟩

theorem thread_enter {x z : τ} {j : Nat} (h : (update s.thread i (some x)) j = some z) :
    j = i ∧ z = x ∨ s.thread j = some z := by
  by_cases hj : j = i
  · subst hj
    rw [update_self] at h
    exact .inl ⟨rfl, (Option.some.inj h).symm⟩
  · rw [update_of_ne hj] at h
    exact .inr h

theorem Every.step {P Q : σ → Nat → τ → Prop} (h : PoolStep move enter s (i, a) t) (hs : Every P s)
    (hmove : ∀ x x' y, s.thread i = some x → move i s.shared x a t.shared x' y → P s.shared i x →
      Q t.shared i x' ∧ (∀ z, y = some z → ∀ k, s.thread k = none → Q t.shared k z) ∧
        ∀ j ≠ i, ∀ z, s.thread j = some z → P s.shared j z → Q t.shared j z)
    (henter : ∀ x, enter a x → Q s.shared i x ∧
      ∀ j ≠ i, ∀ z, s.thread j = some z → P s.shared j z → Q s.shared j z) : Every Q t := by
  rcases h.cases with ⟨x, x', y, k, hx, hm, hx', -, hothers⟩ | ⟨x, hi, hentry, rfl⟩
  · obtain ⟨hself, hforked, hrest⟩ := hmove x x' y hx hm (hs i x hx)
    intro j z hz
    by_cases hj : j = i
    · subst hj
      rw [hx'] at hz
      exact Option.some.inj hz ▸ hself
    · rcases hothers j hj z hz with hold | ⟨rfl, hnew, hy⟩
      · exact hrest j hj z hold (hs j z hold)
      · exact hforked z hy j hnew
  · obtain ⟨hself, hrest⟩ := henter x hentry
    intro j z hz
    rcases thread_enter hz with ⟨rfl, rfl⟩ | hold
    · exact hself
    · have hj : j ≠ i := by
        rintro rfl
        rw [hi] at hold
        cases hold
      exact hrest j hj z hold (hs j z hold)

theorem AtMostOne.step {P : τ → Prop} (h : PoolStep move enter s (i, a) t) (hs : AtMostOne P s)
    (hmove : ∀ x x' y, s.thread i = some x → move i s.shared x a t.shared x' y →
      (P x' → P x ∨ Nobody P s) ∧ ∀ z, y = some z → P z → P x ∧ ¬ P x')
    (henter : ∀ x, enter a x → ¬ P x) : AtMostOne P t := by
  rcases h.cases with ⟨x, x', y, k, hx, hm, hx', -, hothers⟩ | ⟨x, -, hentry, rfl⟩
  · obtain ⟨hself, hforked⟩ := hmove x x' y hx hm
    -- a thread in the phase other than `i` means that `i` is not in it
    have hself' : ∀ j ≠ i, ∀ z, t.thread j = some z → P z → ¬ P x' := by
      intro j hj z hz hPz hPx'
      rcases hothers j hj z hz with hold | ⟨-, -, hy⟩
      · rcases hself hPx' with hPx | hnobody
        · exact hj (hs j i z x hold hx hPz hPx)
        · exact hnobody j z hold hPz
      · exact (hforked z hy hPz).2 hPx'
    intro j l z w hz hw hPz hPw
    by_cases hj : j = i
    · subst hj
      rw [hx'] at hz
      by_contra hl
      exact hself' l (Ne.symm hl) w hw hPw (Option.some.inj hz ▸ hPz)
    by_cases hl : l = i
    · subst hl
      rw [hx'] at hw
      exact absurd (Option.some.inj hw ▸ hPw) (hself' j hj z hz hPz)
    rcases hothers j hj z hz with hold | ⟨rfl, -, hy⟩
    · rcases hothers l hl w hw with hold' | ⟨-, -, hy'⟩
      · exact hs j l z w hold hold' hPz hPw
      · exact absurd (hs j i z x hold hx hPz (hforked w hy' hPw).1) hj
    · rcases hothers l hl w hw with hold' | ⟨rfl, -, -⟩
      · exact absurd (hs l i w x hold' hx hPw (hforked z hy hPz).1) hl
      · rfl
  · intro j k z w hz hw hPz hPw
    rcases thread_enter hz with ⟨-, rfl⟩ | hold
    · exact absurd hPz (henter _ hentry)
    · rcases thread_enter hw with ⟨-, rfl⟩ | hold'
      · exact absurd hPw (henter _ hentry)
      · exact hs j k z w hold hold' hPz hPw

end

end AoniContrib.Concurrency
