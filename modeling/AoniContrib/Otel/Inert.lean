/-
# Late operations

Once `End` has been called through a handle, an operation through it is late.  Every operation but
`SetName` asks whether the span has ended, so on an object in the pool a late one changes at most the
name, which `Start` sets again.  If the pool has given the object to another span, it changes that
one.  So late operations can be left out exactly as long as the object is nobody's
(`late_operations_inert`); `late_operation_renames` is one that renames another span.
-/
import AoniContrib.Otel.Parent

namespace AoniContrib.Otel

open Go
open Function (update update_apply)

/-! ## 1. Leaving out the late operations -/

/-- The operation is issued through a handle on which `End` was called. -/
def Op.late (ended : Nat → Bool) : Op → Bool
  | .use k _ | .finish k _ => ended k
  | .start _ => false

/-- The handles on which `End` was called, with this operation. -/
def Op.mark (ended : Nat → Bool) : Op → Nat → Bool
  | .finish k _ => update ended k true
  | .start _ | .use _ _ => ended

def prune : (Nat → Bool) → List Op → List Op
  | _, [] => []
  | ended, op :: ops =>
    if op.late ended then prune (op.mark ended) ops else op :: prune (op.mark ended) ops

/-- The operation goes through a handle that `Start` returned, and if it is late, the object of the
handle belongs to no span. -/
def Op.Harmless (s : State) (ended : Nat → Bool) : Op → Prop
  | .use k _ | .finish k _ => ∃ h, s.handles[k]? = some h ∧ (ended k = true → s.owner h.addr = none)
  | .start _ => True

def Harmless (T : Tracer) : State → (Nat → Bool) → List Op → Prop
  | _, _, [] => True
  | s, ended, op :: ops => op.Harmless s ended ∧ Harmless T (s.exec T op) (op.mark ended) ops

/-! ## 2. Objects up to the names of those that are nobody's -/

structure Sim (s t : State) : Prop where
  next : t.next = s.next
  pool : t.pool = s.pool
  handles : t.handles = s.handles
  owner : t.owner = s.owner
  exported : t.exported = s.exported
  heap : ∀ a, (t.heap a).setName [] = (s.heap a).setName []
  owned : ∀ a, s.owner a ≠ none → t.heap a = s.heap a

/-- A handle on which `End` was not called points to its own span. -/
def OwnUntilEnd (s : State) (ended : Nat → Bool) : Prop :=
  ∀ k h, s.handles[k]? = some h → ended k = false → s.owner h.addr = some k

section
variable {T : Tracer} {s t : State} {ended : Nat → Bool}

theorem Sim.refl (s : State) : Sim s s := ⟨rfl, rfl, rfl, rfl, rfl, fun _ => rfl, fun _ _ => rfl⟩

theorem setName_apply {span : Span} (hended : span.ended = true) (op : SpanOp) :
    (op.apply span).setName [] = span.setName [] := by
  cases op with
  | recordError err now =>
    cases err with
    | none => rfl
    | some err => simp [SpanOp.apply, Span.recordError, Span.addEvent, Span.setStatus, hended]
  | setName name => rfl
  | _ => simp [SpanOp.apply, Span.setStatus, Span.setAttribute, Span.setAttributes, Span.addEvent,
      hended]

variable {k : Nat} {op : SpanOp} {h : Handle}

theorem sim_use_late (hwf : WellFormed s) (hsim : Sim s t)
    (hh : s.handles[k]? = some h) (howner : s.owner h.addr = none) : Sim (s.use k op) t := by
  have hended := hwf.dead h.addr (hwf.addr h (List.mem_of_getElem? hh)) howner
  simp only [State.use, hh]
  refine ⟨hsim.next, hsim.pool, hsim.handles, hsim.owner, hsim.exported, fun a => ?_, fun a ha => ?_⟩
  · simp only [update_apply]
    split_ifs with heq
    · subst heq
      rw [setName_apply hended]
      exact hsim.heap _
    · exact hsim.heap a
  · simp only [update_apply]
    split_ifs with heq
    · exact absurd (heq ▸ howner) ha
    · exact hsim.owned a ha

variable {now : Time}

theorem finish_late (hwf : WellFormed s)
    (hh : s.handles[k]? = some h) (howner : s.owner h.addr = none) : s.finish T k now = s := by
  have hended := hwf.dead h.addr (hwf.addr h (List.mem_of_getElem? hh)) howner
  simp only [State.finish, hh, hended, if_true]

theorem sim_use (hsim : Sim s t)
    (hh : s.handles[k]? = some h) (howner : s.owner h.addr = some k) :
    Sim (s.use k op) (t.use k op) := by
  have hobj : t.heap h.addr = s.heap h.addr := hsim.owned _ (by simp [howner])
  have hht : t.handles[k]? = some h := hsim.handles ▸ hh
  simp only [State.use, hh, hht, hobj]
  refine ⟨hsim.next, hsim.pool, hsim.handles, hsim.owner, hsim.exported, fun a => ?_, fun a ha => ?_⟩
  · simp only [update_apply]
    split_ifs
    · rfl
    · exact hsim.heap a
  · simp only [update_apply]
    split_ifs
    · rfl
    · exact hsim.owned a ha

theorem sim_finish (hwf : WellFormed s) (hsim : Sim s t)
    (hh : s.handles[k]? = some h) (howner : s.owner h.addr = some k) :
    Sim (s.finish T k now) (t.finish T k now) := by
  have hobj : t.heap h.addr = s.heap h.addr := hsim.owned _ (by simp [howner])
  have hht : t.handles[k]? = some h := hsim.handles ▸ hh
  obtain ⟨-, -, -, htracer, hended, -⟩ := hwf.live _ _ howner
  simp only [State.finish, hh, hht, hobj, hended, htracer, hsim.pool, hsim.owner, hsim.exported]
  refine ⟨hsim.next, rfl, hsim.handles, rfl, rfl, fun a => ?_, fun a ha => ?_⟩
  · simp only [Bool.false_eq_true, Bool.not_true, if_false, update_apply]
    split_ifs
    · rfl
    · exact hsim.heap a
  · simp only [Bool.false_eq_true, Bool.not_true, if_false, update_apply] at ha ⊢
    split_ifs with heq
    · rfl
    · rw [if_neg heq] at ha
      exact hsim.owned a ha

theorem get_sim (hsim : Sim s t) (choice : Option Nat) : t.get choice = s.get choice := by
  simp only [State.get, hsim.pool, hsim.next]

theorem parentContext_sim (hsim : Sim s t) (parent : Parent) :
    t.parentContext parent = s.parentContext parent := by
  cases parent with
  | remote sc => rfl
  | span k =>
    simp only [State.parentContext, hsim.handles]
    congr 1
    funext h
    have hsc := congrArg Span.spanContext (hsim.heap h.addr)
    exact hsc

theorem sim_start (hsim : Sim s t) (c : StartCall) : Sim (s.start T c) (t.start T c) := by
  simp only [State.start, parentContext_sim hsim, get_sim hsim]
  cases s.parentContext c.parent with
  | none => exact hsim
  | some parentSc =>
    simp only [hsim.handles, hsim.owner]
    refine ⟨rfl, rfl, rfl, rfl, hsim.exported, fun a => ?_, fun a ha => ?_⟩
    · simp only [update_apply]
      split_ifs
      · rfl
      · exact hsim.heap a
    · simp only [update_apply] at ha ⊢
      split_ifs with heq
      · rfl
      · rw [if_neg heq] at ha
        exact hsim.owned a ha

theorem own_use (hown : OwnUntilEnd s ended) (k : Nat) (op : SpanOp) :
    OwnUntilEnd (s.use k op) ended := by
  unfold State.use
  cases s.handles[k]? with
  | none | some h => exact hown

theorem own_finish (hwf : WellFormed s) (hown : OwnUntilEnd s ended) (hh : s.handles[k]? = some h) (howner : s.owner h.addr = some k) :
    OwnUntilEnd (s.finish T k now) (update ended k true) := by
  obtain ⟨-, -, -, htracer, hended, -⟩ := hwf.live _ _ howner
  simp only [State.finish, hh, hended, htracer]
  intro j h' hh' hj
  simp only [update_apply] at hj
  split_ifs at hj with hjk
  have howner' := hown j h' hh' hj
  simp only [Bool.false_eq_true, Bool.not_true, if_false, update_apply]
  split_ifs with heq
  · rw [heq, howner] at howner'
    exact absurd (Option.some.inj howner').symm hjk
  · exact howner'

theorem own_start (hwf : WellFormed s) (hown : OwnUntilEnd s ended) (c : StartCall) :
    OwnUntilEnd (s.start T c) ended := by
  unfold State.start
  cases s.parentContext c.parent with
  | none => exact hown
  | some parentSc =>
    have hgot := got_get hwf c.choice
    intro k h hh hk
    simp only [update_apply]
    rcases Nat.lt_or_ge k s.handles.length with hlt | hge
    · rw [List.getElem?_append_left hlt] at hh
      have howner := hown k h hh hk
      split_ifs with heq
      · rw [heq, hgot.owner] at howner
        cases howner
      · exact howner
    · rw [List.getElem?_append_right hge, List.getElem?_singleton] at hh
      split_ifs at hh with hzero
      cases hh
      rw [if_pos rfl]
      congr 1
      omega

theorem exported_prune : ∀ (ops : List Op) (s t : State) (ended : Nat → Bool), WellFormed s →
    Sim s t → OwnUntilEnd s ended → Harmless T s ended ops →
    (s.run T ops).exported = (t.run T (prune ended ops)).exported
  | [], s, t, ended, _, hsim, _, _ => hsim.exported.symm
  | .start c :: ops, s, t, ended, hwf, hsim, hown, hharmless =>
    exported_prune ops _ _ _ (wellFormed_start hwf c) (sim_start hsim c) (own_start hwf hown c)
      hharmless.2
  | .use k op :: ops, s, t, ended, hwf, hsim, hown, hharmless => by
    obtain ⟨⟨h, hh, hlate⟩, hrest⟩ := hharmless
    cases hk : ended k with
    | true =>
      simp only [prune, Op.late, hk, if_true]
      exact exported_prune ops _ _ _ (wellFormed_use hwf k op) (sim_use_late hwf hsim hh (hlate hk))
        (own_use hown k op) hrest
    | false =>
      simp only [prune, Op.late, hk, Bool.false_eq_true, if_false]
      exact exported_prune ops _ _ _ (wellFormed_use hwf k op) (sim_use hsim hh (hown k h hh hk))
        (own_use hown k op) hrest
  | .finish k now :: ops, s, t, ended, hwf, hsim, hown, hharmless => by
    obtain ⟨⟨h, hh, hlate⟩, hrest⟩ := hharmless
    cases hk : ended k with
    | true =>
      have hsame : s.exec T (.finish k now) = s := finish_late hwf hh (hlate hk)
      have hmark : (Op.finish k now).mark ended = ended := by
        rw [Op.mark, ← hk, Function.update_eq_self]
      simp only [prune, Op.late, hk, if_true, State.run, hsame, hmark] at hrest ⊢
      exact exported_prune ops s t ended hwf hsim hown hrest
    | false =>
      have howner := hown k h hh hk
      simp only [prune, Op.late, hk, Bool.false_eq_true, if_false]
      exact exported_prune ops _ _ _ (wellFormed_finish hwf k now) (sim_finish hwf hsim hh howner)
        (own_finish hwf hown hh howner) hrest

end

/-! ## 3. Results -/

def noneEnded : Nat → Bool := fun _ => false

/-- **A finished handle is inert**: where every late operation finds its object with no span, the
exported snapshots are those of the sequence without its late operations. -/
theorem late_operations_inert (T : Tracer) (ops : List Op) (h : Harmless T {} noneEnded ops) :
    (State.run T {} ops).exported = (State.run T {} (prune noneEnded ops)).exported :=
  exported_prune ops {} {} noneEnded wellFormed_new (Sim.refl _) (fun _ _ hh => by simp at hh) h

def renamedLate : List Op :=
  [.start (call (.remote {}) (lit "a") 1 (by decide) none), .finish 0 ⟨2, 0⟩,
    .use 0 (.setName (lit "late")), .start (call (.remote {}) (lit "b") 2 (by decide) (some 0)),
    .finish 1 ⟨3, 0⟩]

theorem late_operations_inert_renamed : Harmless recorder {} noneEnded renamedLate ∧
    (State.run recorder {} renamedLate).exported =
      (State.run recorder {} (prune noneEnded renamedLate)).exported := by
  have h : Harmless recorder {} noneEnded renamedLate :=
    ⟨trivial, ⟨_, rfl, fun hk => by cases hk⟩, ⟨_, rfl, fun _ => rfl⟩, trivial,
      ⟨_, rfl, fun hk => by cases hk⟩, trivial⟩
  exact ⟨h, late_operations_inert recorder renamedLate h⟩

/-- **A late `SetName` renames another span**, which has got the object. -/
theorem late_operation_renames :
    let ops := [.start (call (.remote {}) (lit "a") 1 (by decide) none), .finish 0 ⟨2, 0⟩,
      .start (call (.remote {}) (lit "b") 2 (by decide) (some 0)),
      .use 0 (.setName (lit "late")), .finish 1 ⟨3, 0⟩]
    (State.run recorder {} ops).exported.map (·.name) = [lit "a", lit "late"] ∧
      (State.run recorder {} (prune noneEnded ops)).exported.map (·.name) = [lit "a", lit "b"] := by
  decide

end AoniContrib.Otel
