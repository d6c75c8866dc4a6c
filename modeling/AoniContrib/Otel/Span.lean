/-
# Spans and their pool: `otel/span.go`, `otel/tracer.go`, `MemoryExporter`

`Start` takes a `Span` object out of the pool, or a new one, and returns a pointer to it, alone and
inside the context.  `End` exports a snapshot and puts the object back.  Nothing takes the pointers
back: a handle, or a context, may outlive its span, and then it points to an object that is empty or
that belongs to another span.

The heap is explicit: objects have addresses, the handles that `Start` returned are numbered in
order, and the choice of the pool is part of the operation, as are the readings of the clock and the
random ids.  `owner` says which span an object belongs to; the program has no such thing.
-/
import AoniContrib.Go.Bytes
import AoniContrib.Go.Time

namespace AoniContrib.Otel

open Go
open List hiding Vector
open Function (update update_apply)

/-! ## 1. Contexts of spans -/

abbrev TraceID := Vector UInt8 16
abbrev SpanID := Vector UInt8 8

def TraceID.isValid (t : TraceID) : Bool := t ≠ Vector.replicate 16 0
def SpanID.isValid (s : SpanID) : Bool := s ≠ Vector.replicate 8 0

structure SpanContext where
  traceID : TraceID := Vector.replicate 16 0
  spanID : SpanID := Vector.replicate 8 0
  traceFlags : UInt8 := 0
  traceState : Bytes := []
  remote : Bool := false
  deriving DecidableEq

def flagSampled : UInt8 := 1

def SpanContext.isValid (sc : SpanContext) : Bool :=
  TraceID.isValid sc.traceID && SpanID.isValid sc.spanID

def SpanContext.isSampled (sc : SpanContext) : Bool := sc.traceFlags &&& flagSampled == flagSampled

/-! ## 2. Spans -/

abbrev StatusCode := UInt8
def statusUnset : StatusCode := 0
def statusError : StatusCode := 2

abbrev SpanKind := UInt8

/-- An attribute value, by the cases of the type switch in `writeOTLPAttribute`.  A floating-point
number is given by the text that `FormatFloat` makes of it. -/
inductive Value where
  | string (s : Bytes)
  | int (n : Int64)
  | int32 (n : Int32)
  | int64 (n : Int64)
  | uint (n : UInt64)
  | uint32 (n : UInt32)
  | uint64 (n : UInt64)
  | float64 (text : Bytes)
  | float32 (text : Bytes)
  | bool (b : Bool)
  | error (text : Bytes)
  | bytes (b : Bytes)
  | stringer (text : Bytes)
  | other
  deriving DecidableEq

structure Attribute where
  key : Bytes
  value : Value
  deriving DecidableEq

structure Event where
  name : Bytes
  timestamp : Time
  attributes : List Attribute := []
  deriving DecidableEq

/-- A `Span` object; `tracer` says that the pointer is not nil. -/
structure Span where
  tracer : Bool := false
  name : Bytes := []
  spanContext : SpanContext := {}
  parentSpanContext : SpanContext := {}
  kind : SpanKind := 0
  startTime : Time := ⟨0, 0⟩
  endTime : Time := ⟨0, 0⟩
  status : StatusCode := statusUnset
  statusDesc : Bytes := []
  attributes : List Attribute := []
  events : List Event := []
  ended : Bool := false
  deriving DecidableEq

structure SpanSnapshot where
  name : Bytes
  spanContext : SpanContext
  parentSpanContext : SpanContext
  kind : SpanKind
  startTime : Time
  endTime : Time
  duration : Duration
  status : StatusCode
  statusDescription : Bytes
  attributes : List Attribute
  events : List Event
  deriving DecidableEq

/-- An error, as `ExceptionAttributes` and `RecordError` see it. -/
structure ErrorValue where
  type : Bytes
  message : Bytes

def exceptionAttributes (err : ErrorValue) : List Attribute :=
  [⟨lit "exception.type", .string err.type⟩, ⟨lit "exception.message", .string err.message⟩]

namespace Span

variable (s : Span)

/-- `SetName`, which does not ask whether the span has ended. -/
def setName (name : Bytes) : Span := { s with name }

def setStatus (code : StatusCode) (desc : Bytes) : Span :=
  if s.ended then s else { s with status := code, statusDesc := desc }

/-- The loop of `SetAttribute`: the first attribute with the key is replaced. -/
def replaceAttribute (key : Bytes) (value : Value) : List Attribute → List Attribute
  | [] => [⟨key, value⟩]
  | a :: as => if a.key = key then ⟨key, value⟩ :: as else a :: replaceAttribute key value as

def setAttribute (key : Bytes) (value : Value) : Span :=
  if s.ended then s else { s with attributes := replaceAttribute key value s.attributes }

def setAttributes (attrs : List Attribute) : Span :=
  if s.ended then s else { s with attributes := s.attributes ++ attrs }

def addEvent (name : Bytes) (now : Time) (attrs : List Attribute) : Span :=
  if s.ended then s else { s with events := s.events ++ [⟨name, now, attrs⟩] }

/-- `RecordError`; `none` is a nil error. -/
def recordError (err : Option ErrorValue) (now : Time) : Span :=
  match err with
  | none => s
  | some err =>
    (s.addEvent (lit "exception") now (exceptionAttributes err)).setStatus statusError err.message

/-- `Duration`, with a reading of the clock. -/
def duration (now : Time) : Duration :=
  if s.endTime.isZero then now.sub s.startTime else s.endTime.sub s.startTime

def snapshot (now : Time) : SpanSnapshot where
  name := s.name
  spanContext := s.spanContext
  parentSpanContext := s.parentSpanContext
  kind := s.kind
  startTime := s.startTime
  endTime := s.endTime
  duration := s.duration now
  status := s.status
  statusDescription := s.statusDesc
  attributes := s.attributes
  events := s.events

/-- What `releaseSpan` leaves of the object: `kind`, the times, `status` and `ended` stay. -/
def cleared : Span :=
  { s with
    tracer := false
    name := []
    spanContext := {}
    parentSpanContext := {}
    statusDesc := []
    attributes := []
    events := [] }

end Span

/-! ## 3. The heap -/

structure Tracer where
  /-- `ShouldSample`. -/
  sampler : SpanContext → TraceID → Bytes → SpanKind → Bool
  /-- An exporter is set, and the tracer is not closed. -/
  exporter : Bool

/-- The context given to `Start`: one that `Start` returned, by the number of the span, or one
without a span, with the remote context that it carries or a zero one. -/
inductive Parent where
  | span (k : Nat)
  | remote (sc : SpanContext)
  deriving DecidableEq

/-- A call of `Start`: its arguments, the readings of the clock, the random ids, and the choice of
the pool, which may be a new object. -/
structure StartCall where
  parent : Parent
  name : Bytes
  kind : SpanKind := 1
  attributes : List Attribute := []
  startTime : Time
  coarseTime : Time
  traceID : { id : TraceID // TraceID.isValid id = true }
  spanID : { id : SpanID // SpanID.isValid id = true }
  choice : Option Nat := none

/-- What `Start` returned: the address of the object; and what it stored there. -/
structure Handle where
  addr : Nat
  parent : Parent
  spanContext : SpanContext
  parentSpanContext : SpanContext
  deriving DecidableEq

structure State where
  heap : Nat → Span := fun _ => {}
  /-- The addresses from here on are free. -/
  next : Nat := 0
  pool : List Nat := []
  handles : List Handle := []
  /-- The span that an object belongs to, between `Start` and its release. -/
  owner : Nat → Option Nat := fun _ => none
  exported : List SpanSnapshot := []

/-- What a handle can be used for, `End` apart. -/
inductive SpanOp where
  | setName (name : Bytes)
  | setStatus (code : StatusCode) (desc : Bytes)
  | setAttribute (key : Bytes) (value : Value)
  | setAttributes (attrs : List Attribute)
  | addEvent (name : Bytes) (now : Time) (attrs : List Attribute)
  | recordError (err : Option ErrorValue) (now : Time)

def SpanOp.apply : SpanOp → Span → Span
  | .setName name, s => s.setName name
  | .setStatus code desc, s => s.setStatus code desc
  | .setAttribute key value, s => s.setAttribute key value
  | .setAttributes attrs, s => s.setAttributes attrs
  | .addEvent name now attrs, s => s.addEvent name now attrs
  | .recordError err now, s => s.recordError err now

inductive Op where
  | start (c : StartCall)
  /-- Through the `k`-th handle. -/
  | use (k : Nat) (op : SpanOp)
  | finish (k : Nat) (now : Time)

namespace State

variable (T : Tracer) (s : State)

/-- `spanStorage.Get()`: an object of the pool, or a new one; and the pool that is left. -/
def get (choice : Option Nat) : Nat × List Nat × Nat :=
  match choice.bind (fun i => s.pool[i]?) with
  | some addr => (addr, s.pool.erase addr, s.next)
  | none => (s.next, s.pool, s.next + 1)

/-- The span context that `Start` finds in its context; none if there was no such `Start`. -/
def parentContext : Parent → Option SpanContext
  | .span k => s.handles[k]?.map fun h => (s.heap h.addr).spanContext
  | .remote sc => some sc

def childContext (c : StartCall) (parentSc : SpanContext) : SpanContext :=
  let traceID := if parentSc.isValid then parentSc.traceID else c.traceID.val
  { traceID
    spanID := c.spanID.val
    traceFlags := if T.sampler parentSc traceID c.name c.kind then flagSampled else 0
    traceState := parentSc.traceState
    remote := false }

/-- What `acquireSpan` and `Start` store in the object: every field is set. -/
def acquired (c : StartCall) (sc parentSc : SpanContext) : Span where
  tracer := true
  name := c.name
  spanContext := sc
  parentSpanContext := parentSc
  kind := c.kind
  startTime := if c.startTime.isZero then c.coarseTime else c.startTime
  attributes := c.attributes

def start (c : StartCall) : State :=
  match s.parentContext c.parent with
  | none => s
  | some parentSc =>
    let sc := childContext T c parentSc
    { s with
      heap := update s.heap (s.get c.choice).1 (acquired c sc parentSc)
      pool := (s.get c.choice).2.1
      next := (s.get c.choice).2.2
      handles := s.handles ++ [⟨(s.get c.choice).1, c.parent, sc, parentSc⟩]
      owner := update s.owner (s.get c.choice).1 (some s.handles.length) }

def use (k : Nat) (op : SpanOp) : State :=
  match s.handles[k]? with
  | none => s
  | some h => { s with heap := update s.heap h.addr (op.apply (s.heap h.addr)) }

/-- `EndWithTime`, `processSpan`, the export and `releaseSpan`. -/
def finish (k : Nat) (now : Time) : State :=
  match s.handles[k]? with
  | none => s
  | some h =>
    let span := s.heap h.addr
    let done : Span := { span with ended := true, endTime := now }
    if span.ended then s
    else if !span.tracer then { s with heap := update s.heap h.addr done }
    else
      { s with
        heap := update s.heap h.addr done.cleared
        pool := h.addr :: s.pool
        owner := update s.owner h.addr none
        exported := if T.exporter && span.spanContext.isSampled then
          s.exported ++ [done.snapshot now] else s.exported }

def exec : Op → State
  | .start c => s.start T c
  | .use k op => s.use k op
  | .finish k now => s.finish T k now

end State

def Step (T : Tracer) (s : State) (op : Op) (t : State) : Prop := t = s.exec T op

def State.run (T : Tracer) : State → List Op → State
  | s, [] => s
  | s, op :: ops => State.run T (s.exec T op) ops

/-! ## 4. Who owns what -/

theorem SpanOp.apply_frame (op : SpanOp) (s : Span) :
    (op.apply s).tracer = s.tracer ∧ (op.apply s).ended = s.ended ∧
      (op.apply s).spanContext = s.spanContext := by
  cases op with
  | recordError err now =>
    cases err with
    | none => exact ⟨rfl, rfl, rfl⟩
    | some err =>
      simp only [apply, Span.recordError, Span.addEvent, Span.setStatus]
      split_ifs <;> exact ⟨rfl, rfl, rfl⟩
  | setName name => exact ⟨rfl, rfl, rfl⟩
  | _ =>
    simp only [apply, Span.setStatus, Span.setAttribute, Span.setAttributes, Span.addEvent]
    split_ifs <;> exact ⟨rfl, rfl, rfl⟩

/-- Objects in the pool belong to no span and have ended; an object that belongs to a span is the one
that its handle points to, and holds what `Start` stored. -/
structure WellFormed (s : State) : Prop where
  addr : ∀ h ∈ s.handles, h.addr < s.next
  pool : ∀ a ∈ s.pool, a < s.next ∧ s.owner a = none
  nodup : s.pool.Nodup
  fresh : ∀ a, s.next ≤ a → s.owner a = none
  live : ∀ a k, s.owner a = some k → ∃ h, s.handles[k]? = some h ∧ h.addr = a ∧
    (s.heap a).tracer = true ∧ (s.heap a).ended = false ∧ (s.heap a).spanContext = h.spanContext
  dead : ∀ a, a < s.next → s.owner a = none → (s.heap a).ended = true

theorem wellFormed_new : WellFormed {} where
  addr _ h := absurd h not_mem_nil
  pool _ h := absurd h not_mem_nil
  nodup := nodup_nil
  fresh _ _ := rfl
  live _ _ h := by cases h
  dead _ h := absurd h (Nat.not_lt_zero _)

/-- What `Get` returns belongs to no span. -/
structure Got (s : State) (got : Nat × List Nat × Nat) : Prop where
  owner : s.owner got.1 = none
  pool : ∀ a ∈ got.2.1, a ∈ s.pool ∧ a ≠ got.1
  nodup : got.2.1.Nodup
  le : s.next ≤ got.2.2
  lt : got.1 < got.2.2
  others : ∀ a, a < got.2.2 → a ≠ got.1 → a < s.next

section
variable {T : Tracer} {s : State}

section
variable (hs : WellFormed s)
include hs

theorem got_get (choice : Option Nat) : Got s (s.get choice) := by
  unfold State.get
  cases hchoice : choice.bind (fun i => s.pool[i]?) with
  | none =>
    refine ⟨hs.fresh _ le_rfl, fun a ha => ⟨ha, ?_⟩, hs.nodup, Nat.le_succ _, Nat.lt_succ_self _,
      fun a ha hne => ?_⟩
    · exact ((hs.pool a ha).1).ne
    · simp only at ha hne
      omega
  | some addr =>
    obtain ⟨i, -, hi⟩ := Option.bind_eq_some_iff.mp hchoice
    have hmem : addr ∈ s.pool := mem_of_getElem? hi
    refine ⟨(hs.pool addr hmem).2, fun a ha => ?_, hs.nodup.erase addr, le_rfl,
      (hs.pool addr hmem).1, fun a ha _ => ha⟩
    obtain ⟨hne, hin⟩ := (hs.nodup.mem_erase_iff).mp ha
    exact ⟨hin, hne⟩

theorem wellFormed_start (c : StartCall) : WellFormed (s.start T c) := by
  unfold State.start
  cases hparent : s.parentContext c.parent with
  | none => exact hs
  | some parentSc =>
    have hgot := got_get hs c.choice
    generalize s.get c.choice = got at hgot
    obtain ⟨howner, hpool, hnodup, hle, hlt, hothers⟩ := hgot
    obtain ⟨haddr, hspool, -, hfresh, hlive, hdead⟩ := hs
    refine ⟨?_, ?_, hnodup, ?_, ?_, ?_⟩
    · intro h hh
      rcases mem_append.mp hh with hh | hh
      · exact lt_of_lt_of_le (haddr h hh) hle
      · obtain rfl := mem_singleton.mp hh
        exact hlt
    · intro a ha
      obtain ⟨hin, hne⟩ := hpool a ha
      simp only [update_apply, if_neg hne]
      exact ⟨lt_of_lt_of_le (hspool a hin).1 hle, (hspool a hin).2⟩
    · intro a ha
      have hne : a ≠ got.1 := by simp only at ha; omega
      simp only [update_apply, if_neg hne]
      exact hfresh a (le_trans hle ha)
    · intro a k hk
      simp only [update_apply] at hk ⊢
      by_cases ha : a = got.1
      · rw [if_pos ha] at hk
        obtain rfl := Option.some.inj hk
        rw [if_pos ha]
        exact ⟨_, getElem?_concat_length, ha.symm, rfl, rfl, rfl⟩
      · rw [if_neg ha] at hk
        rw [if_neg ha]
        obtain ⟨h, hh, hrest⟩ := hlive a k hk
        exact ⟨h, by rw [getElem?_append_left (List.getElem?_eq_some_iff.mp hh).1, hh], hrest⟩
    · intro a ha hnone
      simp only [update_apply] at hnone ⊢
      by_cases heq : a = got.1
      · rw [if_pos heq] at hnone
        cases hnone
      · rw [if_neg heq] at hnone ⊢
        exact hdead a (hothers a ha heq) hnone

theorem wellFormed_use (k : Nat) (op : SpanOp) : WellFormed (s.use k op) := by
  unfold State.use
  cases hh : s.handles[k]? with
  | none => exact hs
  | some h =>
    obtain ⟨htracer, hended, hsc⟩ := op.apply_frame (s.heap h.addr)
    refine ⟨hs.addr, hs.pool, hs.nodup, hs.fresh, fun a j hj => ?_, fun a ha hnone => ?_⟩
    · obtain ⟨h', hh', haddr, hrest⟩ := hs.live a j hj
      refine ⟨h', hh', haddr, ?_⟩
      simp only [update_apply]
      split_ifs with heq
      · subst heq
        rw [htracer, hended, hsc]
        exact hrest
      · exact hrest
    · simp only [update_apply]
      split_ifs with heq
      · subst heq
        rw [hended]
        exact hs.dead _ ha hnone
      · exact hs.dead a ha hnone

theorem wellFormed_finish (k : Nat) (now : Time) : WellFormed (s.finish T k now) := by
  unfold State.finish
  cases hh : s.handles[k]? with
  | none => exact hs
  | some h =>
    simp only
    have hlt : h.addr < s.next := hs.addr h (mem_of_getElem? hh)
    split_ifs with hended htracer
    · exact hs
    all_goals
      -- an object that has not ended belongs to a span
      obtain ⟨j, hj⟩ : ∃ j, s.owner h.addr = some j := by
        by_contra hnone
        exact hended (hs.dead _ hlt (Option.eq_none_iff_forall_ne_some.mpr (not_exists.mp hnone)))
      obtain ⟨-, -, -, hlive, -, -⟩ := hs.live _ _ hj
    · simp [hlive] at htracer
    all_goals
      refine ⟨hs.addr, fun a ha => ?_, ?_, fun a ha => ?_, fun a i hi => ?_, fun a ha hnone => ?_⟩
      · simp only [update_apply]
        rcases mem_cons.mp ha with rfl | ha
        · exact ⟨hlt, if_pos rfl⟩
        · refine ⟨(hs.pool a ha).1, ?_⟩
          split_ifs
          · rfl
          · exact (hs.pool a ha).2
      · refine nodup_cons.mpr ⟨fun hmem => ?_, hs.nodup⟩
        rw [(hs.pool _ hmem).2] at hj
        cases hj
      · simp only [update_apply]
        split_ifs
        · rfl
        · exact hs.fresh a ha
      · simp only [update_apply] at hi ⊢
        by_cases heq : a = h.addr
        · rw [if_pos heq] at hi
          cases hi
        · rw [if_neg heq] at hi ⊢
          exact hs.live a i hi
      · simp only [update_apply] at hnone ⊢
        by_cases heq : a = h.addr
        · rw [if_pos heq]
          rfl
        · rw [if_neg heq] at hnone ⊢
          exact hs.dead a ha hnone

theorem wellFormed_exec (op : Op) : WellFormed (s.exec T op) := by
  cases op with
  | start c => exact wellFormed_start hs c
  | use k op => exact wellFormed_use hs k op
  | finish k now => exact wellFormed_finish hs k now

end

end

end AoniContrib.Otel
