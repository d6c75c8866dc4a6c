/-
# Runs of a concurrent program

A concurrent program is a step relation on states.  A step is one atomic action of one thread (a
critical section, a channel operation, a write), and its label says who made it and what it was.
Threads are interleaved in every way the relation allows, so a statement about every `Run` is a
statement about every schedule.  `When` restricts the steps to those that meet a condition on the
state they start from.
-/
import Mathlib

namespace AoniContrib.Concurrency

open List

variable {σ α : Type*}

/-- From `s` to `t` by steps with the labels `as`. -/
inductive Run (step : σ → α → σ → Prop) : σ → List α → σ → Prop where
  | nil {s : σ} : Run step s [] s
  | cons {s t u : σ} {a : α} {as : List α} : step s a t → Run step t as u → Run step s (a :: as) u

def When (cond : σ → α → Prop) (step : σ → α → σ → Prop) (s : σ) (a : α) (t : σ) : Prop :=
  cond s a ∧ step s a t

section
variable {step step' : σ → α → σ → Prop} {s t u : σ} {as bs : List α}

theorem Run.append (h : Run step s as t) (h' : Run step t bs u) : Run step s (as ++ bs) u := by
  induction h with
  | nil => exact h'
  | cons hstep _ ih => exact .cons hstep (ih h')

theorem Run.exists_of_snoc {a : α} : ∀ {as : List α} {s : σ}, Run step s (as ++ [a]) u →
    ∃ t, Run step s as t ∧ step t a u
  | [], _, .cons hstep .nil => ⟨_, .nil, hstep⟩
  | _ :: _, _, .cons hfirst hrest =>
    let ⟨t, hrun, hstep⟩ := Run.exists_of_snoc hrest
    ⟨t, .cons hfirst hrun, hstep⟩

theorem Run.mono (h : Run step s as t) (hsub : ∀ s a t, step s a t → step' s a t) :
    Run step' s as t := by
  induction h with
  | nil => exact .nil
  | cons hstep _ ih => exact .cons (hsub _ _ _ hstep) ih

variable {cond : σ → α → Prop}

theorem Run.unrestricted (h : Run (When cond step) s as t) : Run step s as t :=
  h.mono fun _ _ _ hstep => hstep.2

theorem Run.consWhen {a : α} (hstep : step s a t) (hcond : cond s a)
    (h : Run (When cond step) t as u) : Run (When cond step) s (a :: as) u :=
  .cons ⟨hcond, hstep⟩ h

variable {I : σ → Prop}

/-- **Invariants.**  What every step preserves holds along every run. -/
theorem Run.invariant (h : Run step s as t)
    (hstep : ∀ s a t, step s a t → I s → I t) (hs : I s) : I t := by
  induction h with
  | nil => exact hs
  | cons hfirst _ ih => exact ih (hstep _ _ _ hfirst hs)

theorem Run.history {P : List α → σ → Prop}
    (hstep : ∀ as s a t, P as s → step s a t → P (as ++ [a]) t) :
    ∀ {as bs : List α} {s t : σ}, Run step s as t → P bs s → P (bs ++ as) t
  | [], bs, _, _, .nil, hs => by rwa [append_nil]
  | a :: as, bs, _, _, .cons hfirst hrest, hs => by
    have hlater := Run.history hstep hrest (hstep bs _ a _ hs hfirst)
    rwa [append_assoc] at hlater

theorem Run.invariant_of_labels {P : α → Prop} (h : Run step s as t)
    (hP : ∀ a ∈ as, P a) (hstep : ∀ s a t, P a → step s a t → I s → I t) (hs : I s) : I t := by
  induction h with
  | nil => exact hs
  | cons hfirst _ ih =>
    exact ih (forall_mem_cons.mp hP).2 (hstep _ _ _ (hP _ mem_cons_self) hfirst hs)

theorem Run.forall_labels {P Q : α → Prop} (h : Run step s as t)
    (hP : ∀ a ∈ as, P a) (hstep : ∀ s a t, P a → step s a t → I s → I t ∧ Q a) (hs : I s) :
    ∀ a ∈ as, Q a := by
  induction h with
  | nil => exact fun a ha => absurd ha not_mem_nil
  | @cons s t u b bs hfirst _ ih =>
    obtain ⟨ht, hb⟩ := hstep _ _ _ (hP _ mem_cons_self) hfirst hs
    intro a ha
    rcases mem_cons.mp ha with rfl | ha
    · exact hb
    · exact ih (forall_mem_cons.mp hP).2 ht a ha

end

attribute [grind =] Function.update_apply

end AoniContrib.Concurrency
