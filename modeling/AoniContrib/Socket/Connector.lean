/-
# The connector: `socket/connector/connector.go`

`Connector` as a step system.  A step is a critical section of `c.mu`, an access to one of the
atomics, a call of the dialer or of a connection, or a choice of a `select`.  Threads are the calls
of the user (`Connect`, `Disconnect`, `Close`, `TriggerReconnect`), one `readLoop` for each
installed connection and one `reconnectLoop` for each successful `triggerReconnect`.

Connections are numbered in the order in which the dialer returns them, reconnect loops in the
order in which they are started.  The loop's number also names its context and the cancel function
that `reconnectCancel` holds.  The dialer and the connections are free: every dial may fail, every
`Receive` may return a frame or an error.  A `go` statement behind a critical section is part of it:
the new thread cannot be seen before its own first step.  Left out are the endpoints, the cipher,
the backoff and the `onReconnect` callback, which no step here depends on.
-/
import AoniContrib.Concurrency.Run

namespace AoniContrib.Socket

open Concurrency
open Function (update update_apply)

abbrev ConnId := Nat
abbrev LoopId := Nat
abbrev CallId := Nat

/-! ## 1. Program counters -/

/-- Who runs `Connect`: a call of the user, or a reconnect loop, whose context carries
`reconnectKey`. -/
inductive Caller where
  | user (i : CallId)
  | loop (l : LoopId)
  deriving DecidableEq, Repr

/-- `Connect`. -/
inductive ConnectPc where
  | idle
  /-- At `c.closed.Load()`. -/
  | entry
  /-- At `c.cancelReconnect()`, which a reconnect loop passes over. -/
  | cancel
  /-- At the `CompareAndSwap` of `isConnecting`. -/
  | swap
  /-- Before the call of the dialer. -/
  | dial
  | dialing
  /-- The dialer returned the connection `c`; before the critical section. -/
  | dialed (c : ConnId)
  /-- At the deferred `isConnecting.Store(false)`. -/
  | finish (ok : Bool)
  | returned (ok : Bool)
  deriving DecidableEq, Repr

/-- `readLoop`. -/
inductive ReaderPc where
  | absent
  | top
  | receiving
  /-- A frame is received, before the send on `incoming`. -/
  | pushing
  /-- At the critical section of the deferred block. -/
  | leave
  /-- At `conn.Close()` of the deferred block. -/
  | closing
  /-- At `c.closed.Load()` of the deferred block. -/
  | check
  /-- At `c.triggerReconnect()` of the deferred block. -/
  | trigger
  | done
  deriving DecidableEq, Repr

/-- `reconnectLoop`. -/
inductive LoopPc where
  | absent
  | top
  | connecting
  | sleeping
  /-- At the deferred `c.cancelReconnect()`. -/
  | exit
  | done
  deriving DecidableEq, Repr

inductive CallKind where
  | disconnect
  | close
  | trigger
  deriving DecidableEq, Repr

/-- `Disconnect`, `Close` and `TriggerReconnect`. -/
inductive CallPc where
  | idle
  /-- At `c.cancelReconnect()`. -/
  | cancel (k : CallKind)
  /-- At the critical section that takes `c.conn`. -/
  | take (k : CallKind)
  /-- At `conn.Close()`. -/
  | shut (k : CallKind) (c : ConnId)
  /-- `Close` at `c.closed.Swap(true)`. -/
  | swap
  /-- `Close` at `c.cancel()`. -/
  | stop
  /-- `TriggerReconnect` at `c.triggerReconnect()`. -/
  | trigger
  | returned (k : CallKind)
  deriving DecidableEq, Repr

/-! ## 2. States -/

/-- The fields of the connector, and where its threads are. -/
@[ext]
structure State where
  closed : Bool := false
  /-- `c.ctx` is cancelled. -/
  ctxDone : Bool := false
  conn : Option ConnId := none
  isConnecting : Bool := false
  /-- The loop whose cancel function `c.reconnectCancel` is. -/
  reconnectCancel : Option LoopId := none
  /-- The loops whose cancel function was called. -/
  cancelled : LoopId → Bool := fun _ => false
  /-- How many connections the dialer has returned. -/
  dialled : Nat := 0
  /-- The connection installed last. -/
  last : Option ConnId := none
  /-- The connections that were closed. -/
  shut : ConnId → Bool := fun _ => false
  /-- The connections whose `Receive` has failed. -/
  failed : ConnId → Bool := fun _ => false
  /-- How many loops were started. -/
  loops : Nat := 0
  /-- The loops that a `readLoop` started. -/
  auto : LoopId → Bool := fun _ => false
  attempts : LoopId → Nat := fun _ => 0
  connect : Caller → ConnectPc := fun _ => .idle
  reader : ConnId → ReaderPc := fun _ => .absent
  loop : LoopId → LoopPc := fun _ => .absent
  call : CallId → CallPc := fun _ => .idle

namespace State

def isConnected (s : State) : Bool := s.conn.isSome && !s.closed

/-- The critical section of `cancelReconnect`. -/
def cancelReconnect (s : State) : State :=
  { s with
    cancelled := fun l => s.cancelled l || decide (s.reconnectCancel = some l)
    reconnectCancel := none }

/-- `triggerReconnect` does nothing: a loop is there already, or the connector is closed. -/
def Refuses (s : State) : Prop := s.reconnectCancel ≠ none ∨ s.closed = true

theorem not_refuses {s : State} (hcancel : s.reconnectCancel = none) (hclosed : s.closed = false) :
    ¬ s.Refuses := by
  simp [Refuses, hcancel, hclosed]

/-- The critical section of a `triggerReconnect` that is not refused. -/
def startLoop (s : State) (auto : Bool) : State :=
  { s with
    reconnectCancel := some s.loops
    loops := s.loops + 1
    auto := update s.auto s.loops auto
    loop := update s.loop s.loops .top }

/-- The critical section of `Connect`: the old connection is closed, the new one installed and its
`readLoop` started. -/
def install (s : State) (c : ConnId) : State :=
  { s with
    shut := fun d => s.shut d || decide (s.conn = some d)
    conn := some c
    last := some c
    reader := update s.reader c .top }

def LoopDone (s : State) (l : LoopId) : Prop := s.cancelled l = true ∨ s.ctxDone = true

theorem not_loopDone {s : State} {l : LoopId} (hcancel : s.cancelled l = false)
    (hctx : s.ctxDone = false) : ¬ s.LoopDone l := by
  simp [LoopDone, hcancel, hctx]

end State

/-! ## 3. Steps -/

/-- Who made a step, and what of it is told. -/
inductive Event where
  /-- The user calls `Connect`. -/
  | connect (i : CallId)
  /-- The user calls another function. -/
  | call (i : CallId) (k : CallKind)
  /-- The dialer is called. -/
  | dial (w : Caller)
  /-- The critical section of `Connect`. -/
  | install (w : Caller) (c : ConnId)
  /-- A read loop is at `c.triggerReconnect()`. -/
  | trigger (c : ConnId)
  /-- Another step of `Connect`, a read loop, a reconnect loop or a call. -/
  | inConnect (w : Caller)
  | inReader (c : ConnId)
  | inLoop (l : LoopId)
  | inCall (i : CallId)
  deriving DecidableEq, Repr

/-- The steps, for a policy with the given `MaxAttempts`. -/
inductive Step (maxAttempts : Nat) : State → Event → State → Prop where
  -- `Connect`
  | connectStart {s i} : s.connect (.user i) = .idle →
      Step maxAttempts s (.connect i) { s with connect := update s.connect (.user i) .entry }
  | entryClosed {s w} : s.connect w = .entry → s.closed = true →
      Step maxAttempts s (.inConnect w) { s with connect := update s.connect w (.returned false) }
  | entryUser {s i} : s.connect (.user i) = .entry → s.closed = false →
      Step maxAttempts s (.inConnect (.user i)) { s with connect := update s.connect (.user i) .cancel }
  | entryLoop {s l} : s.connect (.loop l) = .entry → s.closed = false →
      Step maxAttempts s (.inConnect (.loop l)) { s with connect := update s.connect (.loop l) .swap }
  | cancel {s i} : s.connect (.user i) = .cancel → Step maxAttempts s (.inConnect (.user i))
      { s.cancelReconnect with connect := update s.connect (.user i) .swap }
  | swapBusy {s w} : s.connect w = .swap → s.isConnecting = true →
      Step maxAttempts s (.inConnect w) { s with connect := update s.connect w (.returned false) }
  | swap {s w} : s.connect w = .swap → s.isConnecting = false → Step maxAttempts s (.inConnect w)
      { s with isConnecting := true, connect := update s.connect w .dial }
  | noDialer {s w} : s.connect w = .dial →
      Step maxAttempts s (.inConnect w) { s with connect := update s.connect w (.finish false) }
  | dial {s w} : s.connect w = .dial →
      Step maxAttempts s (.dial w) { s with connect := update s.connect w .dialing }
  | dialFail {s w} : s.connect w = .dialing →
      Step maxAttempts s (.inConnect w) { s with connect := update s.connect w (.finish false) }
  | dialOk {s w} : s.connect w = .dialing → Step maxAttempts s (.inConnect w)
      { s with dialled := s.dialled + 1, connect := update s.connect w (.dialed s.dialled) }
  | install {s w c} : s.connect w = .dialed c → Step maxAttempts s (.install w c)
      { s.install c with connect := update s.connect w (.finish true) }
  | finish {s w ok} : s.connect w = .finish ok → Step maxAttempts s (.inConnect w)
      { s with isConnecting := false, connect := update s.connect w (.returned ok) }
  -- `readLoop`
  | readerStop {s c} : s.reader c = .top → s.ctxDone = true →
      Step maxAttempts s (.inReader c) { s with reader := update s.reader c .leave }
  | readerTop {s c} : s.reader c = .top → s.ctxDone = false →
      Step maxAttempts s (.inReader c) { s with reader := update s.reader c .receiving }
  | receive {s c} : s.reader c = .receiving →
      Step maxAttempts s (.inReader c) { s with reader := update s.reader c .pushing }
  | receiveErr {s c} : s.reader c = .receiving → Step maxAttempts s (.inReader c)
      { s with failed := update s.failed c true, reader := update s.reader c .leave }
  | push {s c} : s.reader c = .pushing →
      Step maxAttempts s (.inReader c) { s with reader := update s.reader c .top }
  | pushStop {s c} : s.reader c = .pushing → s.ctxDone = true →
      Step maxAttempts s (.inReader c) { s with reader := update s.reader c .leave }
  | leaveSame {s c} : s.reader c = .leave → s.conn = some c → Step maxAttempts s (.inReader c)
      { s with conn := none, reader := update s.reader c .closing }
  | leaveOther {s c} : s.reader c = .leave → s.conn ≠ some c →
      Step maxAttempts s (.inReader c) { s with reader := update s.reader c .check }
  | readerClose {s c} : s.reader c = .closing → Step maxAttempts s (.inReader c)
      { s with shut := update s.shut c true, reader := update s.reader c .check }
  | checkClosed {s c} : s.reader c = .check → s.closed = true →
      Step maxAttempts s (.inReader c) { s with reader := update s.reader c .done }
  | checkOpen {s c} : s.reader c = .check → s.closed = false →
      Step maxAttempts s (.inReader c) { s with reader := update s.reader c .trigger }
  | readerRefused {s c} : s.reader c = .trigger → s.Refuses →
      Step maxAttempts s (.trigger c) { s with reader := update s.reader c .done }
  | readerTrigger {s c} : s.reader c = .trigger → ¬ s.Refuses → Step maxAttempts s (.trigger c)
      { s.startLoop true with reader := update s.reader c .done }
  -- `reconnectLoop`
  | loopStop {s l} : s.loop l = .top → s.LoopDone l →
      Step maxAttempts s (.inLoop l) { s with loop := update s.loop l .exit }
  | loopExhausted {s l} : s.loop l = .top → ¬ s.LoopDone l → 0 < maxAttempts →
      maxAttempts ≤ s.attempts l →
      Step maxAttempts s (.inLoop l) { s with loop := update s.loop l .exit }
  | loopConnect {s l} : s.loop l = .top → ¬ s.LoopDone l →
      (0 < maxAttempts → s.attempts l < maxAttempts) → Step maxAttempts s (.inLoop l)
      { s with loop := update s.loop l .connecting, connect := update s.connect (.loop l) .entry }
  | loopConnected {s l} : s.loop l = .connecting → s.connect (.loop l) = .returned true →
      Step maxAttempts s (.inLoop l)
        { s with loop := update s.loop l .exit, connect := update s.connect (.loop l) .idle }
  | loopFailed {s l} : s.loop l = .connecting → s.connect (.loop l) = .returned false →
      Step maxAttempts s (.inLoop l) { s with
          attempts := update s.attempts l (s.attempts l + 1)
          loop := update s.loop l .sleeping
          connect := update s.connect (.loop l) .idle }
  | loopTimer {s l} : s.loop l = .sleeping →
      Step maxAttempts s (.inLoop l) { s with loop := update s.loop l .top }
  | loopWoken {s l} : s.loop l = .sleeping → s.LoopDone l →
      Step maxAttempts s (.inLoop l) { s with loop := update s.loop l .exit }
  | loopExit {s l} : s.loop l = .exit → Step maxAttempts s (.inLoop l)
      { s.cancelReconnect with loop := update s.loop l .done }
  -- `Disconnect`, `Close` and `TriggerReconnect`
  | disconnectStart {s i} : s.call i = .idle →
      Step maxAttempts s (.call i .disconnect) { s with call := update s.call i (.cancel .disconnect) }
  | closeStart {s i} : s.call i = .idle →
      Step maxAttempts s (.call i .close) { s with call := update s.call i .swap }
  | triggerStart {s i} : s.call i = .idle →
      Step maxAttempts s (.call i .trigger) { s with call := update s.call i .trigger }
  | closeAgain {s i} : s.call i = .swap → s.closed = true →
      Step maxAttempts s (.inCall i) { s with call := update s.call i (.returned .close) }
  | closeSwap {s i} : s.call i = .swap → s.closed = false → Step maxAttempts s (.inCall i)
      { s with closed := true, call := update s.call i (.cancel .close) }
  | disconnectCancel {s i} : s.call i = .cancel .disconnect → Step maxAttempts s (.inCall i)
      { s.cancelReconnect with call := update s.call i (.take .disconnect) }
  | closeCancel {s i} : s.call i = .cancel .close → Step maxAttempts s (.inCall i)
      { s.cancelReconnect with call := update s.call i .stop }
  | closeStop {s i} : s.call i = .stop → Step maxAttempts s (.inCall i)
      { s with ctxDone := true, call := update s.call i (.take .close) }
  | takeNone {s i k} : s.call i = .take k → s.conn = none →
      Step maxAttempts s (.inCall i) { s with call := update s.call i (.returned k) }
  | takeSome {s i k c} : s.call i = .take k → s.conn = some c → Step maxAttempts s (.inCall i)
      { s with conn := none, call := update s.call i (.shut k c) }
  | shut {s i k c} : s.call i = .shut k c → Step maxAttempts s (.inCall i)
      { s with shut := update s.shut c true, call := update s.call i (.returned k) }
  | triggerRefused {s i} : s.call i = .trigger → s.Refuses →
      Step maxAttempts s (.inCall i) { s with call := update s.call i (.returned .trigger) }
  | trigger {s i} : s.call i = .trigger → ¬ s.Refuses → Step maxAttempts s (.inCall i)
      { s.startLoop false with call := update s.call i (.returned .trigger) }

def State.new : State := {}

def Reachable (maxAttempts : Nat) (s : State) : Prop := ∃ as, Run (Step maxAttempts) .new as s

theorem Reachable.trans {maxAttempts : Nat} {s t : State} {as : List Event}
    (h : Reachable maxAttempts s) (hrun : Run (Step maxAttempts) s as t) : Reachable maxAttempts t := by
  obtain ⟨bs, hs⟩ := h
  exact ⟨_, hs.append hrun⟩

theorem Reachable.step {maxAttempts : Nat} {s t : State} {a : Event} (h : Reachable maxAttempts s)
    (hstep : Step maxAttempts s a t) : Reachable maxAttempts t :=
  h.trans (.cons hstep .nil)

/-- A connector on which one `Connect` of the user has succeeded. -/
def State.connected : State :=
  { conn := some 0
    last := some 0
    dialled := 1
    connect := update (fun _ => .idle) (.user 0) (.returned true)
    reader := update (fun _ => .absent) 0 .top }

theorem reachable_connected (maxAttempts : Nat) : Reachable maxAttempts .connected := by
  have hrun : ∃ as t, Run (Step maxAttempts) .new as t ∧ t = .connected := by
    refine ⟨_, _, .cons (.connectStart (i := 0) rfl) <|
      .cons (.entryUser (i := 0) rfl rfl) <| .cons (.cancel (i := 0) rfl) <|
      .cons (.swap (w := .user 0) rfl rfl) <| .cons (.dial (w := .user 0) rfl) <|
      .cons (.dialOk (w := .user 0) rfl) <| .cons (.install (w := .user 0) (c := 0) rfl) <|
      .cons (.finish (w := .user 0) rfl) .nil, ?_⟩
    refine State.ext rfl rfl rfl rfl rfl rfl rfl rfl rfl rfl rfl rfl rfl (funext fun w => ?_)
      rfl rfl rfl
    simp only [State.cancelReconnect, State.new, State.connected, update_apply]
    split <;> rfl
  obtain ⟨as, _, hrun, rfl⟩ := hrun
  exact ⟨as, hrun⟩

/-! ## 4. What holds in every state -/

def ConnectPc.Busy : ConnectPc → Prop
  | .dial | .dialing | .dialed _ | .finish _ => True
  | _ => False

def LoopPc.Live (pc : LoopPc) : Prop := pc ≠ .absent ∧ pc ≠ .done

/-- What the fields say of the threads. -/
structure WellFormed (s : State) : Prop where
  /-- Numbers not given away yet name nothing. -/
  fresh_loop : ∀ l, s.loops ≤ l → s.loop l = .absent ∧ s.cancelled l = false ∧ s.auto l = false
  fresh_reader : ∀ c, s.dialled ≤ c → s.reader c = .absent
  /-- A reconnect loop is in `Connect` only while it waits for it. -/
  waiting : ∀ l, s.loop l ≠ .connecting → s.connect (.loop l) = .idle
  /-- `isConnecting` is set as long as a `Connect` owns it, and one at a time does. -/
  connecting : ∀ w, (s.connect w).Busy → s.isConnecting = true
  exclusive : ∀ w w', (s.connect w).Busy → (s.connect w').Busy → w = w'
  /-- A connection that was dialled and is not installed has no read loop yet. -/
  dialed : ∀ w c, s.connect w = .dialed c → c < s.dialled ∧ s.reader c = .absent
  /-- `reconnectCancel` cancels the one loop that is live and not cancelled. -/
  current : ∀ l, s.reconnectCancel = some l ↔ (s.loop l).Live ∧ s.cancelled l = false

theorem wellFormed_new : WellFormed .new where
  fresh_loop _ _ := ⟨rfl, rfl, rfl⟩
  fresh_reader _ _ := rfl
  waiting _ _ := rfl
  connecting _ h := h.elim
  exclusive _ _ h _ := h.elim
  dialed _ _ h := by cases h
  current _ := ⟨fun h => (by cases h), fun h => absurd rfl h.1.1⟩

section
variable {m : Nat} {s t : State} {a : Event}

section
variable (h : Step m s a t) (hs : WellFormed s)
include h hs

theorem fresh_loop_step :
    ∀ l, t.loops ≤ l → t.loop l = .absent ∧ t.cancelled l = false ∧ t.auto l = false := by
  obtain ⟨hloop, -, -, -, -, -, hcurrent⟩ := hs
  cases h
  all_goals
    simp only [LoopPc.Live, State.install, State.cancelReconnect, State.startLoop, update_apply] at *
    grind

theorem fresh_reader_step : ∀ c, t.dialled ≤ c → t.reader c = .absent := by
  obtain ⟨-, hreader, -, -, -, hdialed, -⟩ := hs
  cases h
  all_goals
    simp only [State.install, State.cancelReconnect, State.startLoop, update_apply] at *
    grind

theorem waiting_step : ∀ l, t.loop l ≠ .connecting → t.connect (.loop l) = .idle := by
  obtain ⟨hloop, -, hwaiting, -, -, -, -⟩ := hs
  cases h
  all_goals
    simp only [State.install, State.cancelReconnect, State.startLoop, update_apply] at *
    grind

theorem exclusive_step : (∀ w, (t.connect w).Busy → t.isConnecting = true) ∧
      ∀ w w', (t.connect w).Busy → (t.connect w').Busy → w = w' := by
  obtain ⟨-, -, -, hconnecting, hexclusive, -, -⟩ := hs
  cases h
  all_goals
    simp only [State.install, State.cancelReconnect, State.startLoop, update_apply] at *
    grind [ConnectPc.Busy]

theorem dialed_step : ∀ w c, t.connect w = .dialed c → c < t.dialled ∧ t.reader c = .absent := by
  obtain ⟨-, hreader, -, -, hexclusive, hdialed, -⟩ := hs
  cases h
  all_goals
    simp only [State.install, State.cancelReconnect, State.startLoop, update_apply] at *
    grind [ConnectPc.Busy]

theorem current_step : ∀ l, t.reconnectCancel = some l ↔ (t.loop l).Live ∧ t.cancelled l = false := by
  obtain ⟨hloop, -, -, -, -, -, hcurrent⟩ := hs
  cases h
  all_goals
    simp only [LoopPc.Live, State.Refuses, State.install, State.cancelReconnect, State.startLoop,
      update_apply] at *
    grind

end

end

theorem wellFormed_step {m : Nat} {s t : State} {a : Event} (h : Step m s a t) (hs : WellFormed s) :
    WellFormed t where
  fresh_loop := fresh_loop_step h hs
  fresh_reader := fresh_reader_step h hs
  waiting := waiting_step h hs
  connecting := (exclusive_step h hs).1
  exclusive := (exclusive_step h hs).2
  dialed := dialed_step h hs
  current := current_step h hs

theorem Reachable.wellFormed {m : Nat} {s : State} (h : Reachable m s) : WellFormed s := by
  obtain ⟨as, hrun⟩ := h
  exact hrun.invariant (fun _ _ _ => wellFormed_step) wellFormed_new

end AoniContrib.Socket
