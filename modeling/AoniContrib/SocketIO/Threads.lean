/-
# The threads of a `Conn`: `readLoop`, `heartbeatLoop`, `reconnectLoop`, `Close`

All of them share the fields of the `Conn`.  A step of a thread is one critical section, one channel
operation, or one operation on a connection, so that everything else can happen between the loading of a
field and its use.  What a `Conn` starts with is a `readLoop` and a `heartbeatLoop`; a `readLoop` ends in
`cleanupConnection`, which may start a `reconnectLoop`, and a `reconnectLoop` that succeeds starts a
`readLoop` and a `heartbeatLoop`.

So of all `readLoop`s and `reconnectLoop`s at most one has the connection in its hands at a time
(`AtMostOne Thread.Holds`): it is handed on with `go`.  Nothing like this holds of the `heartbeatLoop`s.
-/
import AoniContrib.Concurrency.Pool

namespace AoniContrib.SocketIO.Threads

open Function Concurrency

/-! ## 1. The fields -/

inductive SioConnState where
  | closed
  | opening
  | open
  deriving DecidableEq, Repr

structure Config where
  reconnection : Bool
  reconnectionAttempts : Int

/-- A channel that a `heartbeatLoop` made for the pong to a ping: the loop's number, and a number. -/
abbrev PingId := Nat × Nat

/-- `pongCh` and its channels, and what has become of the pings. -/
structure Wire where
  pongCh : Option PingId
  /-- How many channels were made. -/
  made : Nat
  /-- The channel holds a pong. -/
  filled : PingId → Bool
  /-- The connection that the ping was written to. -/
  sent : PingId → Option Nat
  /-- The pong that answers the ping was read. -/
  answered : PingId → Bool

/-- What the threads share.  Channels and connections are numbered in the order in which they are made. -/
structure Shared where
  state : SioConnState
  /-- The channel in `s.closed`. -/
  closed : Nat
  chans : Nat
  /-- The channels on which `close` was called. -/
  shut : Nat → Bool
  skipReconnect : Bool
  /-- The connection in `s.conn`. -/
  conn : Nat
  conns : Nat
  /-- The connections on which `Close` was called. -/
  dead : Nat → Bool
  attemptCount : Nat
  wire : Wire

def Wire.answer (w : Wire) : Option PingId → Wire
  | some p => { w with answered := update w.answered p true }
  | none => w

/-- `select { case ch <- struct{}{}: default: }`, on a channel for one pong. -/
def Wire.fill (w : Wire) : Option PingId → Wire
  | some ch => { w with filled := update w.filled ch true }
  | none => w

/-- `s.pongCh = make(chan struct{}, 1)`, in loop `i`. -/
def Wire.make (w : Wire) (i : Nat) : Wire :=
  { w with pongCh := some (i, w.made), made := w.made + 1 }

def Wire.send (w : Wire) (p : PingId) (c : Nat) : Wire := { w with sent := update w.sent p (some c) }

def Wire.receive (w : Wire) (p : PingId) : Wire := { w with filled := update w.filled p false }

/-! ## 2. The programs -/

/-- `readLoop` and `cleanupConnection`. -/
inductive ReadPc where
  | load
  | reading (c : Nat)
  | gotPong (p : Option PingId)
  | sendPong (ch p : Option PingId)
  | cleanup
  | loadConn
  | closeConn (c : Nat)
  | readSkip
  | start
  | returned
  deriving DecidableEq, Repr

/-- `reconnectLoop`. -/
inductive ReconnectPc where
  | check
  | polling (g : Nat)
  | sleep
  | sleeping (g : Nat)
  | count
  | dialing
  | store (c : Nat)
  | reset (c : Nat)
  | handshake (c : Nat)
  | closing (c : Nat)
  | failing
  | opening
  | resetCount
  | startRead
  | startHeartbeat
  | returned
  deriving DecidableEq, Repr

/-- `heartbeatLoop`. -/
inductive HeartbeatPc where
  | loop
  | waiting (g : Nat)
  | tick
  | ping (p : PingId)
  | pinged (p : PingId)
  | awaiting (p : PingId) (g : Nat)
  | timedOut
  | returned
  deriving DecidableEq, Repr

/-- `Close`, which returns nil (`true`) or an error. -/
inductive ClosePc where
  | start
  | writeDisconnect
  | writeClose
  | loadConn
  | closeConn (c : Nat)
  | returned (ok : Bool)
  deriving DecidableEq, Repr

inductive Thread where
  | readLoop (pc : ReadPc)
  | reconnectLoop (pc : ReconnectPc)
  | heartbeatLoop (pc : HeartbeatPc)
  | close (pc : ClosePc)
  deriving DecidableEq, Repr

/-- The steps that are spoken of below; all others are `tau`. -/
inductive Act where
  /-- `finalizeReconnection` sets `sioStateOpen`. -/
  | open
  /-- `reconnectLoop` counts an attempt. -/
  | attempt
  /-- The end of `DialWebSocket`. -/
  | dial (ok : Bool)
  /-- The end of `doHandshake`. -/
  | handshake (ok : Bool)
  /-- `sleepBeforeReconnect` takes `<-timer.C`. -/
  | timer
  /-- `s.conn.Store`. -/
  | store
  /-- The user calls `Close`. -/
  | call
  /-- The critical section of `Close`. -/
  | close
  /-- `heartbeatLoop` takes `<-pingTimer.C`. -/
  | timeout
  /-- The critical section of that branch. -/
  | giveUp
  | tau
  deriving DecidableEq, Repr

/-- A read can fail at any time; it can return a packet unless the connection was closed here. -/
inductive ReadMove (cfg : Config) : Shared → ReadPc → Act → Shared → ReadPc → Option Thread → Prop where
  | load {s : Shared} : ReadMove cfg s .load .tau s (.reading s.conn) none
  | error {s : Shared} {c : Nat} : ReadMove cfg s (.reading c) .tau s .cleanup none
  | closePacket {s : Shared} {c : Nat} : s.dead c = false →
      ReadMove cfg s (.reading c) .tau s .cleanup none
  | otherPacket {s : Shared} {c : Nat} : s.dead c = false →
      ReadMove cfg s (.reading c) .tau s .load none
  /-- A pong that answers a ping comes on the ping's connection, and once. -/
  | pongPacket {s : Shared} {c : Nat} (p : Option PingId) : s.dead c = false →
      (∀ q, p = some q → s.wire.sent q = some c ∧ s.wire.answered q = false) →
      ReadMove cfg s (.reading c) .tau { s with wire := s.wire.answer p } (.gotPong p) none
  | loadPongCh {s : Shared} {p : Option PingId} :
      ReadMove cfg s (.gotPong p) .tau s (.sendPong s.wire.pongCh p) none
  | sendPong {s : Shared} {ch p : Option PingId} :
      ReadMove cfg s (.sendPong ch p) .tau { s with wire := s.wire.fill ch } .load none
  | cleanup {s : Shared} : ReadMove cfg s .cleanup .tau { s with state := .closed } .loadConn none
  | loadConn {s : Shared} : ReadMove cfg s .loadConn .tau s (.closeConn s.conn) none
  | closeConn {s : Shared} {c : Nat} :
      ReadMove cfg s (.closeConn c) .tau { s with dead := update s.dead c true } .readSkip none
  | readSkip {s : Shared} : ReadMove cfg s .readSkip .tau s
      (if s.skipReconnect = false ∧ cfg.reconnection = true then .start else .returned) none
  | start {s : Shared} : ReadMove cfg s .start .tau s .returned (some (.reconnectLoop .check))

inductive ReconnectMove (cfg : Config) :
    Shared → ReconnectPc → Act → Shared → ReconnectPc → Option Thread → Prop where
  | check {s : Shared} : ReconnectMove cfg s .check .tau s (.polling s.closed) none
  | checkClosed {s : Shared} {g : Nat} : s.shut g = true →
      ReconnectMove cfg s (.polling g) .tau s .returned none
  | checkOpen {s : Shared} {g : Nat} : s.shut g = false →
      ReconnectMove cfg s (.polling g) .tau s .sleep none
  | sleep {s : Shared} : ReconnectMove cfg s .sleep .tau s (.sleeping s.closed) none
  | sleepClosed {s : Shared} {g : Nat} : s.shut g = true →
      ReconnectMove cfg s (.sleeping g) .tau s .returned none
  | timer {s : Shared} {g : Nat} : ReconnectMove cfg s (.sleeping g) .timer s .count none
  | count {s : Shared} :
      ReconnectMove cfg s .count .attempt { s with attemptCount := s.attemptCount + 1 } .dialing none
  | dialFailed {s : Shared} : ReconnectMove cfg s .dialing (.dial false) s .failing none
  | dialed {s : Shared} :
      ReconnectMove cfg s .dialing (.dial true) { s with conns := s.conns + 1 } (.store s.conns) none
  | store {s : Shared} {c : Nat} :
      ReconnectMove cfg s (.store c) .store { s with conn := c } (.reset c) none
  /-- `resetConnectionState`. -/
  | reset {s : Shared} {c : Nat} : ReconnectMove cfg s (.reset c) .tau
      { s with closed := s.chans, chans := s.chans + 1, skipReconnect := false } (.handshake c) none
  | shaken {s : Shared} {c : Nat} : s.dead c = false →
      ReconnectMove cfg s (.handshake c) (.handshake true) s .opening none
  | handshakeFailed {s : Shared} {c : Nat} :
      ReconnectMove cfg s (.handshake c) (.handshake false) s (.closing c) none
  | closing {s : Shared} {c : Nat} :
      ReconnectMove cfg s (.closing c) .tau { s with dead := update s.dead c true } .failing none
  /-- `handleReconnectFailure`. -/
  | failing {s : Shared} : ReconnectMove cfg s .failing .tau s
      (if 0 < cfg.reconnectionAttempts ∧ cfg.reconnectionAttempts ≤ s.attemptCount then .returned
        else .check) none
  /-- `finalizeReconnection`. -/
  | opening {s : Shared} :
      ReconnectMove cfg s .opening .open { s with state := .open } .resetCount none
  | resetCount {s : Shared} :
      ReconnectMove cfg s .resetCount .tau { s with attemptCount := 0 } .startRead none
  | startRead {s : Shared} :
      ReconnectMove cfg s .startRead .tau s .startHeartbeat (some (.readLoop .load))
  | startHeartbeat {s : Shared} :
      ReconnectMove cfg s .startHeartbeat .tau s .returned (some (.heartbeatLoop .loop))

inductive HeartbeatMove (i : Nat) : Shared → HeartbeatPc → Act → Shared → HeartbeatPc → Prop where
  | loop {s : Shared} : HeartbeatMove i s .loop .tau s (.waiting s.closed)
  | closed {s : Shared} {g : Nat} : s.shut g = true → HeartbeatMove i s (.waiting g) .tau s .returned
  | ticker {s : Shared} {g : Nat} : HeartbeatMove i s (.waiting g) .tau s .tick
  | tick {s : Shared} :
      HeartbeatMove i s .tick .tau { s with wire := s.wire.make i } (.ping (i, s.wire.made))
  | writeFailed {s : Shared} {p : PingId} : HeartbeatMove i s (.ping p) .tau s .returned
  | write {s : Shared} {p : PingId} : s.dead s.conn = false →
      HeartbeatMove i s (.ping p) .tau { s with wire := s.wire.send p s.conn } (.pinged p)
  | await {s : Shared} {p : PingId} : HeartbeatMove i s (.pinged p) .tau s (.awaiting p s.closed)
  | pong {s : Shared} {p : PingId} {g : Nat} : s.wire.filled p = true →
      HeartbeatMove i s (.awaiting p g) .tau { s with wire := s.wire.receive p } .loop
  | awaitClosed {s : Shared} {p : PingId} {g : Nat} : s.shut g = true →
      HeartbeatMove i s (.awaiting p g) .tau s .returned
  | timeout {s : Shared} {p : PingId} {g : Nat} :
      HeartbeatMove i s (.awaiting p g) .timeout s .timedOut
  | giveUp {s : Shared} : HeartbeatMove i s .timedOut .giveUp
      { s with
        shut := if s.skipReconnect then s.shut else update s.shut s.closed true
        dead := update s.dead s.conn true } .returned

inductive CloseMove : Shared → ClosePc → Act → Shared → ClosePc → Prop where
  | already {s : Shared} : s.shut s.closed = true → CloseMove s .start .close s (.returned true)
  | close {s : Shared} : s.shut s.closed = false → CloseMove s .start .close
      { s with shut := update s.shut s.closed true, skipReconnect := true } .writeDisconnect
  | writeDisconnect {s : Shared} : CloseMove s .writeDisconnect .tau s .writeClose
  | writeClose {s : Shared} : CloseMove s .writeClose .tau s .loadConn
  | loadConn {s : Shared} : CloseMove s .loadConn .tau s (.closeConn s.conn)
  | closeConn {s : Shared} {c : Nat} (ok : Bool) :
      CloseMove s (.closeConn c) .tau { s with dead := update s.dead c true } (.returned ok)

inductive Move (cfg : Config) (i : Nat) :
    Shared → Thread → Act → Shared → Thread → Option Thread → Prop where
  | readLoop {s s' : Shared} {pc pc' : ReadPc} {a : Act} {y : Option Thread} :
      ReadMove cfg s pc a s' pc' y → Move cfg i s (.readLoop pc) a s' (.readLoop pc') y
  | reconnectLoop {s s' : Shared} {pc pc' : ReconnectPc} {a : Act} {y : Option Thread} :
      ReconnectMove cfg s pc a s' pc' y → Move cfg i s (.reconnectLoop pc) a s' (.reconnectLoop pc') y
  | heartbeatLoop {s s' : Shared} {pc pc' : HeartbeatPc} {a : Act} :
      HeartbeatMove i s pc a s' pc' → Move cfg i s (.heartbeatLoop pc) a s' (.heartbeatLoop pc') none
  | close {s s' : Shared} {pc pc' : ClosePc} {a : Act} :
      CloseMove s pc a s' pc' → Move cfg i s (.close pc) a s' (.close pc') none

/-- Only calls of `Close` come from outside. -/
def Enter (a : Act) (x : Thread) : Prop := a = .call ∧ x = .close .start

abbrev State := Pool Shared Thread

abbrev Step (cfg : Config) : State → Nat × Act → State → Prop := PoolStep (Move cfg) Enter

/-- What `NewSocketIOConn` returns. -/
def init : State where
  shared :=
    { state := .open, closed := 0, chans := 1, shut := fun _ => false, skipReconnect := false
      conn := 0, conns := 1, dead := fun _ => false, attemptCount := 0
      wire := ⟨none, 0, fun _ => false, fun _ => none, fun _ => false⟩ }
  thread
    | 0 => some (.readLoop .load)
    | 1 => some (.heartbeatLoop .loop)
    | _ => none

def reconnecting : Config := ⟨true, 0⟩

/-! ## 3. The connection is in one pair of hands -/

/-- A `readLoop` until it has returned, and a `reconnectLoop` until it has started the next `readLoop`. -/
def Thread.Holds : Thread → Prop
  | .readLoop .returned => False
  | .readLoop _ => True
  | .reconnectLoop .startHeartbeat => False
  | .reconnectLoop .returned => False
  | .reconnectLoop _ => True
  | _ => False

variable {cfg : Config}

theorem Move.holds {i : Nat} {s s' : Shared} {x x' : Thread} {a : Act} {y : Option Thread}
    (h : Move cfg i s x a s' x' y) :
    (x'.Holds → x.Holds) ∧ ∀ z, y = some z → z.Holds → x.Holds ∧ ¬ x'.Holds := by
  cases h with
  | readLoop h | reconnectLoop h => cases h <;> simp [Thread.Holds]
  | heartbeatLoop h | close h => simp [Thread.Holds]

theorem not_holds_of_enter {a : Act} {x : Thread} (h : Enter a x) : ¬ x.Holds := by
  rw [h.2]
  exact id

theorem holds_step {s t : State} {l : Nat × Act} (h : Step cfg s l t)
    (hs : AtMostOne Thread.Holds s) : AtMostOne Thread.Holds t :=
  hs.step h (fun _ _ _ _ hmove => ⟨fun hx => .inl (hmove.holds.1 hx), hmove.holds.2⟩)
    fun _ henter => not_holds_of_enter henter

theorem holds_init : AtMostOne Thread.Holds init := by
  have hzero : ∀ i x, init.thread i = some x → x.Holds → i = 0 := by
    rintro (_ | _ | i) x hx hholds
    · rfl
    · cases hx
      exact hholds.elim
    · cases hx
  intro i j x y hx hy hholds hholds'
  rw [hzero i x hx hholds, hzero j y hy hholds']

/-- **The connection is not changed under its reader**: no step changes `s.conn` or `s.closed` while a
`readLoop` has not returned. -/
theorem reader_undisturbed {as : List (Nat × Act)} {s t : State} {i j : Nat} {a : Act} {pc : ReadPc}
    (h : Run (Step cfg) init as s) (hj : s.thread j = some (.readLoop pc)) (hpc : pc ≠ .returned)
    (hstep : Step cfg s (i, a) t) :
    t.shared.conn = s.shared.conn ∧ t.shared.closed = s.shared.closed := by
  have hone := h.invariant (fun _ _ _ => holds_step) holds_init
  have hreader : (Thread.readLoop pc).Holds := by
    cases pc <;> trivial
  rcases hstep.cases with ⟨x, x', y, k, hx, hmove, -⟩ | ⟨x, -, -, rfl⟩
  · have hself (hholds : x.Holds) : x = .readLoop pc := by
      rw [hone _ _ _ _ hx hj hholds hreader, hj] at hx
      exact (Option.some.inj hx).symm
    generalize s.shared = u, t.shared = v at hmove ⊢
    cases hmove with
    | reconnectLoop hmove =>
      cases hmove with
      | store | reset => cases hself trivial
      | _ => exact ⟨rfl, rfl⟩
    | readLoop hmove | heartbeatLoop hmove | close hmove => cases hmove <;> exact ⟨rfl, rfl⟩
  · exact ⟨rfl, rfl⟩

/-- `Close` closes the connection while a read is under way. -/
theorem reader_undisturbed_closed : ∃ as s t, Run (Step reconnecting) init as s ∧
    Step reconnecting s (2, .tau) t ∧ t.shared.dead 0 = true ∧ t.shared.conn = s.shared.conn ∧
      t.shared.closed = s.shared.closed := by
  obtain ⟨as, s, t, hrun, hreader, hstep, hdead⟩ : ∃ as s t, Run (Step reconnecting) init as s ∧
      s.thread 0 = some (.readLoop (.reading 0)) ∧ Step reconnecting s (2, .tau) t ∧
      t.shared.dead 0 = true :=
    ⟨_, _, _, .cons (.move (i := 0) rfl (.readLoop .load)) <| .cons (.enter (i := 2) rfl ⟨rfl, rfl⟩) <|
      .cons (.move (i := 2) rfl (.close (.close rfl))) <|
      .cons (.move (i := 2) rfl (.close .writeDisconnect)) <|
      .cons (.move (i := 2) rfl (.close .writeClose)) <|
      .cons (.move (i := 2) rfl (.close .loadConn)) .nil, rfl,
      .move rfl (.close (.closeConn true)), rfl⟩
  exact ⟨as, s, t, hrun, hstep, hdead, reader_undisturbed hrun hreader nofun hstep⟩

end AoniContrib.SocketIO.Threads
