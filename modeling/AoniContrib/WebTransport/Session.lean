/-
# A session: `webtransport/session.go`

`EnqueueBidiStream`, `EnqueueUniStream` and `EnqueueDatagram` deliver what the peer opened,
`AcceptStream`, `AcceptUniStream` and `ReceiveDatagram` take it, `CloseWithError` ends the session,
and `controlLoop` reads the capsules of the control stream.  They meet in two flags, a context, three
channels and a read-write mutex.

A step is one atomic action of one call.  `Lock` is two: a writer first announces itself, which keeps
new readers out, and then waits for those inside.  What a writer does with the lock held does not
block, so it is one step; an `Enqueue` call holds the read lock across its `select`, so that is many.
A read of the control stream may fail at any time.
-/
import AoniContrib.Concurrency.Run
import AoniContrib.WebTransport.Capsule

namespace AoniContrib.WebTransport

open Go Concurrency
open Function (update)

/-! ## 1. Calls -/

inductive Kind where
  | bidi
  | uni
  | datagram
  deriving DecidableEq, Repr

def Kind.cap : Kind → Nat
  | .bidi | .uni => 256
  | .datagram => 1024

/-- The control stream of a session, if it has one, and the calls that are made on it: what each
`Enqueue` call delivers and each `Accept` call asks for, and the reason of each `CloseWithError`. -/
structure Calls where
  control : Option Reader := none
  enqueues : Nat := 0
  accepts : Nat := 0
  closes : Nat := 0
  enqueued : Fin enqueues → Kind
  accepted : Fin accepts → Kind
  reason : Fin closes → SessionError

variable {C : Calls}

/-- Who calls `CloseWithError`: the application, or `controlLoop` through `Close`. -/
inductive Closer (C : Calls) where
  | call (k : Fin C.closes)
  | loop
  deriving DecidableEq

def Closer.reason : Closer C → SessionError
  | .call k => C.reason k
  | .loop => ⟨0, []⟩

inductive EnqueuePc where
  | start
  /-- At `s.closed.Load()`, with the read lock. -/
  | load
  /-- In the `select`, with the read lock. -/
  | select
  | sent
  /-- Returned after `stream.Close()`, or without a trace for a datagram. -/
  | rejected
  | panicked
  deriving DecidableEq, Repr

inductive Accepted (C : Calls) where
  | item (j : Fin C.enqueues)
  /-- `ctx.Err()` of the caller's context. -/
  | ctxErr
  /-- `ErrSessionClosed`, for the channel is closed. -/
  | closed
  /-- The cancelled-context branch: `closeErr`, or `ErrSessionClosed` if that is nil. -/
  | cancelled (err : Option SessionError)
  deriving DecidableEq

inductive AcceptPc (C : Calls) where
  | start
  /-- At `s.mu.RLock()` of the cancelled-context branch. -/
  | cancelled
  | returned (a : Accepted C)
  deriving DecidableEq

inductive ClosePc where
  | idle
  /-- At `s.closed.CompareAndSwap(false, true)`. -/
  | cas
  /-- At `s.mu.Lock()`. -/
  | lock
  /-- Announced, and waiting for the readers inside. -/
  | waiting
  | cancel
  | encode
  | returned
  | panicked
  deriving DecidableEq, Repr

inductive LoopPc where
  | read (r : Reader)
  /-- At `s.mu.Lock()` of the close branch. -/
  | lock (err : SessionError)
  | waiting (err : SessionError)
  /-- In `s.Close()`. -/
  | closing
  | returned
  deriving DecidableEq, Repr

/-! ## 2. Steps -/

@[ext] structure State (C : Calls) where
  closed : Bool := false
  draining : Bool := false
  closeErr : Option SessionError := none
  /-- `s.ctx` is cancelled. -/
  ctxDone : Bool := false
  /-- The three channels are closed. -/
  chanClosed : Bool := false
  queue : Kind → List (Fin C.enqueues) := fun _ => []
  /-- Who has announced itself in `s.mu.Lock()`. -/
  writer : Option (Closer C) := none
  enqueue : Fin C.enqueues → EnqueuePc := fun _ => .start
  accept : Fin C.accepts → AcceptPc C := fun _ => .start
  close : Closer C → ClosePc := fun _ => .idle
  loop : LoopPc
  /-- The capsules handed to the goroutine that writes them. -/
  capsules : List Bytes := []

def State.new (C : Calls) : State C where
  loop := C.control.elim .returned .read

def State.inside (s : State C) (j : Fin C.enqueues) : Prop :=
  s.enqueue j = .load ∨ s.enqueue j = .select

inductive Event (C : Calls) where
  | enqueue (j : Fin C.enqueues)
  | accept (i : Fin C.accepts)
  /-- The compare-and-swap of a `CloseWithError`. -/
  | cas (c : Closer C)
  | close (c : Closer C)
  /-- `controlLoop` stores the peer's reason. -/
  | reason
  | loop
  /-- The parent context is cancelled. -/
  | parent
  deriving DecidableEq

inductive Step [Quicvarint] : State C → Event C → State C → Prop where
  | rlock {s j} : s.enqueue j = .start → s.writer = none →
      Step s (.enqueue j) { s with enqueue := update s.enqueue j .load }
  | loadClosed {s j} : s.enqueue j = .load → s.closed = true →
      Step s (.enqueue j) { s with enqueue := update s.enqueue j .rejected }
  | loadOpen {s j} : s.enqueue j = .load → s.closed = false →
      Step s (.enqueue j) { s with enqueue := update s.enqueue j .select }
  | send {s j} : s.enqueue j = .select → s.chanClosed = false →
      (s.queue (C.enqueued j)).length < (C.enqueued j).cap →
      Step s (.enqueue j) { s with
          queue := update s.queue (C.enqueued j) (s.queue (C.enqueued j) ++ [j])
          enqueue := update s.enqueue j .sent }
  | sendClosed {s j} : s.enqueue j = .select → s.chanClosed = true →
      Step s (.enqueue j) { s with enqueue := update s.enqueue j .panicked }
  | sendCancelled {s j} : s.enqueue j = .select → C.enqueued j ≠ .datagram → s.ctxDone = true →
      Step s (.enqueue j) { s with enqueue := update s.enqueue j .rejected }
  | drop {s j} : s.enqueue j = .select → C.enqueued j = .datagram → s.chanClosed = false →
      ¬ (s.queue (C.enqueued j)).length < (C.enqueued j).cap →
      Step s (.enqueue j) { s with enqueue := update s.enqueue j .rejected }
  | acceptItem {s i j rest} : s.accept i = .start → s.queue (C.accepted i) = j :: rest →
      Step s (.accept i) { s with
          queue := update s.queue (C.accepted i) rest
          accept := update s.accept i (.returned (.item j)) }
  | acceptClosed {s i} : s.accept i = .start → s.queue (C.accepted i) = [] → s.chanClosed = true →
      Step s (.accept i) { s with accept := update s.accept i (.returned .closed) }
  | acceptCtx {s i} : s.accept i = .start →
      Step s (.accept i) { s with accept := update s.accept i (.returned .ctxErr) }
  | acceptDone {s i} : s.accept i = .start → s.ctxDone = true →
      Step s (.accept i) { s with accept := update s.accept i .cancelled }
  | acceptCancelled {s i} : s.accept i = .cancelled → s.writer = none →
      Step s (.accept i) { s with accept := update s.accept i (.returned (.cancelled s.closeErr)) }
  | begin {s k} : s.close (.call k) = .idle →
      Step s (.close (.call k)) { s with close := update s.close (.call k) .cas }
  | casWon {s c} : s.close c = .cas → s.closed = false →
      Step s (.cas c) { s with closed := true, close := update s.close c .lock }
  | casLost {s c} : s.close c = .cas → s.closed = true →
      Step s (.cas c) { s with close := update s.close c .returned }
  | announce {s c} : s.close c = .lock → s.writer = none →
      Step s (.close c) { s with writer := some c, close := update s.close c .waiting }
  | locked {s c} : s.close c = .waiting → (∀ j, ¬ s.inside j) →
      Step s (.close c) { s with
          writer := none
          closeErr := some c.reason
          chanClosed := true
          close := update s.close c .cancel }
  | cancel {s c} : s.close c = .cancel →
      Step s (.close c) { s with ctxDone := true, close := update s.close c .encode }
  -- `buf[:n]` is taken only for a control stream
  | encodeUnsent {s c} : s.close c = .encode → C.control = none →
      Step s (.close c) { s with close := update s.close c .returned }
  | encode {s c capsule} : s.close c = .encode → C.control.isSome = true →
      encodeCloseSessionCapsule c.reason 512 = some capsule →
      Step s (.close c) { s with
          capsules := s.capsules ++ [capsule]
          close := update s.close c .returned }
  | encodePanic {s c} : s.close c = .encode → C.control.isSome = true →
      encodeCloseSessionCapsule c.reason 512 = none →
      Step s (.close c) { s with close := update s.close c .panicked }
  | loopFail {s r} : s.loop = .read r →
      Step s .loop { s with ctxDone := true, loop := .returned }
  | loopDrain {s r payload r'} : s.loop = .read r →
      readCapsule r = some (capsuleDrainWebTransportSession, payload, r') →
      Step s .loop { s with draining := true, loop := .read r' }
  | loopOther {s r capsuleType payload r'} : s.loop = .read r →
      readCapsule r = some (capsuleType, payload, r') →
      capsuleType ≠ capsuleDrainWebTransportSession →
      capsuleType ≠ capsuleCloseWebTransportSession →
      Step s .loop { s with loop := .read r' }
  | loopClose {s r payload r' err} : s.loop = .read r →
      readCapsule r = some (capsuleCloseWebTransportSession, payload, r') →
      decodeCloseSessionPayload payload = some err →
      Step s .loop { s with loop := .lock err }
  | loopCloseInvalid {s r payload r'} : s.loop = .read r →
      readCapsule r = some (capsuleCloseWebTransportSession, payload, r') →
      decodeCloseSessionPayload payload = none →
      Step s .loop { s with loop := .closing, close := update s.close .loop .cas }
  | loopAnnounce {s err} : s.loop = .lock err → s.writer = none →
      Step s .loop { s with writer := some .loop, loop := .waiting err }
  | loopReason {s err} : s.loop = .waiting err → (∀ j, ¬ s.inside j) →
      Step s .reason { s with
          writer := none
          closeErr := some err
          loop := .closing
          close := update s.close .loop .cas }
  | loopReturn {s} : s.loop = .closing → s.close .loop = .returned →
      Step s .loop { s with loop := .returned }
  | parent {s} : Step s .parent { s with ctxDone := true }

/-! ## 3. What the calls have done to the flags and the mutex -/

structure WellFormed (s : State C) : Prop where
  /-- Before the compare-and-swap is won every `CloseWithError` is at it or did not begin. -/
  closers : s.closed = false → ∀ c, s.close c = .idle ∨ s.close c = .cas
  /-- The loop calls `Close` at its end. -/
  loop : s.close .loop = .idle ∨ s.loop = .closing ∨ s.loop = .returned
  /-- The announced writer is in `CloseWithError`, or is the loop in its close branch. -/
  writer : ∀ c, s.writer = some c → s.close c = .waiting ∨ c = .loop ∧ ∃ err, s.loop = .waiting err
  waiting : ∀ c, s.close c = .waiting → s.writer = some c
  loop_waiting : ∀ err, s.loop = .waiting err → s.writer = some .loop

theorem wellFormed_new : WellFormed (State.new C) where
  closers _ _ := .inl rfl
  loop := .inl rfl
  writer _ h := by cases h
  waiting _ h := by cases h
  loop_waiting _ h := by
    cases hcontrol : C.control <;> simp [State.new, hcontrol] at h

section
variable [Quicvarint] {s t : State C} {e : Event C} (h : Step s e t) (hs : WellFormed s)
include h hs

theorem closers_step : t.closed = false → ∀ c, t.close c = .idle ∨ t.close c = .cas := by
  obtain ⟨hclosers, -, -, -, -⟩ := hs
  cases h
  all_goals
    grind

theorem loop_step : t.close .loop = .idle ∨ t.loop = .closing ∨ t.loop = .returned := by
  obtain ⟨-, hloop, -, -, -⟩ := hs
  cases h
  all_goals
    grind

theorem writer_step :
    ∀ c, t.writer = some c → t.close c = .waiting ∨ c = .loop ∧ ∃ err, t.loop = .waiting err := by
  obtain ⟨-, hloop, hwriter, -, -⟩ := hs
  cases h
  all_goals
    grind

theorem waiting_step : (∀ c, t.close c = .waiting → t.writer = some c) ∧
      ∀ err, t.loop = .waiting err → t.writer = some .loop := by
  obtain ⟨-, hloop, -, hwaiting, hloopWaiting⟩ := hs
  cases h
  all_goals
    grind

theorem wellFormed_step : WellFormed t :=
  ⟨closers_step h hs, loop_step h hs, writer_step h hs, (waiting_step h hs).1, (waiting_step h hs).2⟩

end

theorem wellFormed_of_run [Quicvarint] {es : List (Event C)} {s : State C} (h : Run Step (State.new C) es s) :
    WellFormed s :=
  h.invariant (fun _ _ _ => wellFormed_step) wellFormed_new

end AoniContrib.WebTransport
