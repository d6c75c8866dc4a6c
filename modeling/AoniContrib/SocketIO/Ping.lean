/-
# Pings of the server

In Engine.IO 4 it is the server that sends pings, and the client that has to answer each with a pong.
`dispatchEIOPacket` has no case for a ping, and no other goroutine writes a pong: the client never
sends one (`no_pong_step`).  So its pongs match the pings exactly if there was no ping
(`pings_answered_iff`).
-/
import AoniContrib.Concurrency.Run
import AoniContrib.SocketIO.Dispatch

namespace AoniContrib.SocketIO.Ping

open Go Concurrency List

/-! ## 1. The connection with its writers -/

/-- The calls of `writeEIOPacket` in the package: of `sendConnect` and the `emit` functions, of
`emitBinary`, of `Close`, and of `heartbeatLoop`. -/
inductive Write where
  | message (payload : Bytes)
  | attachment (buf : Bytes)
  | close
  | ping

def writeEIOPacket (pType : UInt8) (payload : Bytes) : Frame :=
  if pType = eioBinary then .binary payload else .text (pType :: payload)

def Write.frame : Write → Frame
  | message payload => writeEIOPacket eioMessage payload
  | attachment buf => writeEIOPacket eioBinary buf
  | close => writeEIOPacket eioClose []
  | ping => writeEIOPacket eioPing []

structure Client where
  conn : Conn := {}
  reading : Bool := true
  received : List (UInt8 × Bytes) := []
  written : List Frame := []

inductive Event where
  | receive (f : Frame)
  | write (w : Write)

variable {S : Type} (J : Codec S) (cfg : Config)

/-- One turn of `readLoop`, or a packet written by another goroutine. -/
inductive Step : Client → Event → Client → Prop where
  | stop {c f err} : c.reading = true → readSingleEIOPacket f = .error err →
      Step c (.receive f) { c with reading := false }
  | receive {c f pType payload} : c.reading = true → readSingleEIOPacket f = .ok (pType, payload) →
      Step c (.receive f) { c with
        conn := (c.conn.dispatchEIOPacket J cfg pType payload).1
        reading := !(c.conn.dispatchEIOPacket J cfg pType payload).2
        received := c.received ++ [(pType, payload)] }
  | write {c w} : Step c (.write w) { c with written := c.written ++ [w.frame] }

/-! ## 2. Pongs -/

def isPong : Frame → Bool
  | .text (b :: _) => b == eioPong
  | _ => false

def isPing (p : UInt8 × Bytes) : Bool := p.1 == eioPing

variable {J cfg}

theorem isPong_frame (w : Write) : isPong w.frame = false := by
  cases w <;> rfl

theorem no_pong_step {c d : Client} {e : Event} (hstep : Step J cfg c e d)
    (h : c.written.filter isPong = []) : d.written.filter isPong = [] := by
  cases hstep with
  | stop _ _ | receive _ _ => exact h
  | @write w =>
    rw [filter_append, h, nil_append, filter_singleton, isPong_frame w]
    rfl

/-- **Pings are answered exactly if there are none.**  In every run, with the packets of the server
interleaved in any way with those of the client, the client has written as many pongs as it has
received pings only if it has received no ping. -/
theorem pings_answered_iff {as : List Event} {c : Client} (h : Run (Step J cfg) {} as c) :
    (c.written.filter isPong).length = (c.received.filter isPing).length ↔
      ∀ p ∈ c.received, p.1 ≠ eioPing := by
  have hnone : c.written.filter isPong = [] :=
    h.invariant (I := fun c => c.written.filter isPong = []) (fun _ _ _ => no_pong_step) rfl
  rw [hnone, length_nil, eq_comm, length_eq_zero_iff, filter_eq_nil_iff]
  simp only [isPing, beq_iff_eq, ne_eq]

/-! ## 3. A ping -/

def noHandlers : Config := ⟨lit "/", fun _ _ => false, _, resolvePending_mem⟩

theorem pings_answered_iff_heartbeat : ∃ as c, Run (Step Codec.json noHandlers) {} as c ∧
    c.received = [(eioPong, [])] ∧
    (c.written.filter isPong).length = (c.received.filter isPing).length := by
  have hrun : Run (Step Codec.json noHandlers) {} [.write .ping, .receive (.text [eioPong])] _ :=
    .cons .write (.cons (.receive rfl rfl) .nil)
  refine ⟨_, _, hrun, rfl, (pings_answered_iff hrun).mpr fun p hp => ?_⟩
  obtain rfl := mem_singleton.mp hp
  decide

/-- The server pings, and the client goes on reading without an answer. -/
theorem ping_unanswered : ∃ as c, Run (Step Codec.json noHandlers) {} as c ∧ c.reading = true ∧
    c.received = [(eioPing, [])] ∧ c.written = [] :=
  ⟨[.receive (.text [eioPing])], _, .cons (.receive rfl rfl) .nil, rfl, rfl, rfl⟩

end AoniContrib.SocketIO.Ping
