/-
# Parents

`Start` finds the parent through the pointer in its context, and reads the span context out of the
object there.  As long as the object belongs to the parent, the new span is its child
(`parentage_kept`).  Once the parent has ended, the object is empty and the new span starts a trace
of its own, or it belongs to another span and the new one is a child of that (`parentage_lost`).
-/
import AoniContrib.Concurrency.Run
import AoniContrib.Otel.Span

namespace AoniContrib.Otel

open Go Concurrency
open List hiding Vector

/-- `Start` is called with the context of a span only while the object is that span's. -/
def FromLive (s : State) : Op → Prop
  | .start c => ∀ k h, c.parent = .span k → s.handles[k]? = some h → s.owner h.addr = some k
  | _ => True

/-- Every span has a valid context, and a child has the trace and the parent that it should. -/
structure Parented (s : State) : Prop where
  valid : ∀ h ∈ s.handles, h.spanContext.isValid = true
  child : ∀ h ∈ s.handles, ∀ k, h.parent = .span k → ∃ p, s.handles[k]? = some p ∧
    h.spanContext.traceID = p.spanContext.traceID ∧ h.parentSpanContext.spanID = p.spanContext.spanID

section
variable {T : Tracer} {s : State}

theorem childContext_isValid (c : StartCall) (parentSc : SpanContext) :
    (State.childContext T c parentSc).isValid = true := by
  have htrace : TraceID.isValid (if parentSc.isValid then parentSc.traceID else c.traceID.val) =
      true := by
    split_ifs with hvalid
    · exact (Bool.and_eq_true_iff.mp hvalid).1
    · exact c.traceID.2
  exact Bool.and_eq_true_iff.mpr ⟨htrace, c.spanID.2⟩

theorem traceID_childContext (c : StartCall) {parentSc : SpanContext}
    (hvalid : parentSc.isValid = true) :
    (State.childContext T c parentSc).traceID = parentSc.traceID := by
  simp [State.childContext, hvalid]

theorem parented_start (hwf : WellFormed s) (hs : Parented s) (c : StartCall)
    (hlive : FromLive s (.start c)) : Parented (s.start T c) := by
  unfold State.start
  cases hparent : s.parentContext c.parent with
  | none => exact hs
  | some parentSc =>
    have hold : ∀ {k p}, s.handles[k]? = some p → ∀ h : Handle, (s.handles ++ [h])[k]? = some p :=
      fun hp h => by rw [getElem?_append_left (List.getElem?_eq_some_iff.mp hp).1, hp]
    refine ⟨fun h hh => ?_, fun h hh k hk => ?_⟩
    · rcases mem_append.mp hh with hh | hh
      · exact hs.valid h hh
      · obtain rfl := mem_singleton.mp hh
        exact childContext_isValid c parentSc
    · rcases mem_append.mp hh with hh | hh
      · obtain ⟨p, hp, hids⟩ := hs.child h hh k hk
        exact ⟨p, hold hp _, hids⟩
      · obtain rfl := mem_singleton.mp hh
        -- the object of the parent still holds what `Start` stored there
        simp only at hk ⊢
        rw [hk, State.parentContext, Option.map_eq_some_iff] at hparent
        obtain ⟨p, hp, rfl⟩ := hparent
        obtain ⟨p', hp', -, -, -, hsc⟩ := hwf.live _ _ (hlive k p hk hp)
        obtain rfl : p = p' := Option.some.inj (hp.symm.trans hp')
        have hvalid := hs.valid p (mem_of_getElem? hp)
        rw [hsc]
        exact ⟨p, hold hp _, traceID_childContext c hvalid, rfl⟩

theorem handles_use (k : Nat) (op : SpanOp) : (s.use k op).handles = s.handles := by
  unfold State.use
  split <;> rfl

theorem handles_finish (k : Nat) (now : Time) : (s.finish T k now).handles = s.handles := by
  unfold State.finish
  split
  · rfl
  · simp only
    split_ifs <;> rfl

theorem parented_exec (hwf : WellFormed s) (hs : Parented s) (op : Op) (hlive : FromLive s op) :
    Parented (s.exec T op) := by
  cases op with
  | start c => exact parented_start hwf hs c hlive
  | use k op =>
    have hsame : (s.use k op).handles = s.handles := handles_use k op
    exact ⟨fun h hh => hs.valid h (hsame ▸ hh), fun h hh j hj => by
      rw [State.exec, hsame]; exact hs.child h (hsame ▸ hh) j hj⟩
  | finish k now =>
    have hsame : (s.finish T k now).handles = s.handles := handles_finish k now
    exact ⟨fun h hh => hs.valid h (hsame ▸ hh), fun h hh j hj => by
      rw [State.exec, hsame]; exact hs.child h (hsame ▸ hh) j hj⟩

end

/-- **Parentage is kept**: a span that was started from the context of another one while the object
was that span's has its trace ID as trace ID and its span ID as parent span ID, whatever happens
later. -/
theorem parentage_kept (T : Tracer) {ops : List Op} {s : State}
    (h : Run (When FromLive (Step T)) {} ops s) (child : Handle) (hchild : child ∈ s.handles)
    (k : Nat) (hk : child.parent = .span k) :
    ∃ p, s.handles[k]? = some p ∧ child.spanContext.traceID = p.spanContext.traceID ∧
      child.parentSpanContext.spanID = p.spanContext.spanID := by
  have hboth : WellFormed s ∧ Parented s := by
    refine h.invariant (I := fun s => WellFormed s ∧ Parented s) ?_ ⟨wellFormed_new, ?_⟩
    · rintro s op t ⟨hlive, rfl⟩ ⟨hwf, hs⟩
      exact ⟨wellFormed_exec hwf op, parented_exec hwf hs op hlive⟩
    · exact ⟨fun h hh => absurd hh not_mem_nil, fun h hh => absurd hh not_mem_nil⟩
  exact hboth.2.child child hchild k hk

/-! ## A span that outlives its parent -/

def recorder : Tracer := ⟨fun _ _ _ _ => true, true⟩

def call (parent : Parent) (name : Bytes) (id : UInt8) (hid : id ≠ 0) (choice : Option Nat) :
    StartCall where
  parent
  name
  startTime := ⟨1, 0⟩
  coarseTime := ⟨1, 0⟩
  traceID := ⟨Vector.replicate 16 id, by
    simp only [TraceID.isValid, ne_eq, decide_not, Bool.not_eq_true', decide_eq_false_iff_not]
    exact fun h => hid (by simpa using congrArg (·[0]) h)⟩
  spanID := ⟨Vector.replicate 8 id, by
    simp only [SpanID.isValid, ne_eq, decide_not, Bool.not_eq_true', decide_eq_false_iff_not]
    exact fun h => hid (by simpa using congrArg (·[0]) h)⟩
  choice

theorem parentage_kept_child : ∃ ops s, Run (When FromLive (Step recorder)) {} ops s ∧
    ∃ child ∈ s.handles, child.parent = .span 0 ∧ ∃ p, s.handles[0]? = some p ∧
      child.spanContext.traceID = p.spanContext.traceID ∧
      child.parentSpanContext.spanID = p.spanContext.spanID := by
  have hrun : Run (When FromLive (Step recorder)) {} [.start (call (.remote {}) [] 1 (by decide) none),
        .start (call (.span 0) [] 2 (by decide) none)] _ := .consWhen rfl (fun k h hk => by cases hk) <|
        .consWhen rfl (fun k h hk hh => by cases hk; cases hh; rfl) .nil
  obtain ⟨child, hchild, hparent⟩ : ∃ child ∈ (State.run recorder {}
      [.start (call (.remote {}) [] 1 (by decide) none),
        .start (call (.span 0) [] 2 (by decide) none)]).handles, child.parent = .span 0 :=
    ⟨_, mem_cons_of_mem _ mem_cons_self, rfl⟩
  exact ⟨_, _, hrun, child, hchild, hparent, parentage_kept recorder hrun child hchild 0 hparent⟩

/-- **Parentage is lost** when the parent has ended: a child of the first span, started when its
object is in the pool, has another trace ID; and one that is started when the object is used again
is a child of the other span. -/
theorem parentage_lost :
    let root := .start (call (.remote {}) [] 1 (by decide) none)
    let s := State.run recorder {} [root, .finish 0 ⟨2, 0⟩,
      .start (call (.span 0) [] 2 (by decide) none)]
    let t := State.run recorder {} [root, .finish 0 ⟨2, 0⟩,
      .start (call (.remote {}) [] 3 (by decide) (some 0)),
      .start (call (.span 0) [] 2 (by decide) none)]
    (s.handles.map (·.spanContext.traceID)) = [Vector.replicate 16 1, Vector.replicate 16 2] ∧
      (t.handles.map fun h => (h.parent, h.parentSpanContext.spanID)) =
        [(.remote {}, Vector.replicate 8 0), (.remote {}, Vector.replicate 8 0),
          (.span 0, Vector.replicate 8 3)] := by
  decide

end AoniContrib.Otel
