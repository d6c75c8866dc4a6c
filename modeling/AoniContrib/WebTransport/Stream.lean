/-
# Outgoing streams: `webtransport/stream.go`

`Stream.Write` and `SendStream.Write` put the stream header in front of the payload of the first
write.  The first writer marks the header as written inside the mutex section and makes the raw
`Write` behind it, so another writer that sees the mark may get to the raw stream before
(`header_overtaken`).  Where no writer sees the mark while the header is pending, the header comes
first and every payload follows whole (`header_first`).

A step is a load of the mark, a mutex section, or a raw `Write`, which is atomic and takes all its
bytes.  Left out is the `closed` flag: there are no calls but `Write`.
-/
import AoniContrib.Concurrency.Run
import AoniContrib.Go.Binary

namespace AoniContrib.WebTransport

open Go Concurrency List
open Function (update update_apply)

/-! ## 1. `Write` -/

def streamTypeWebTransportUni : Nat := 0x54
def frameTypeWebTransportBidi : Nat := 0x41

/-- What `Write` reads of a `Stream` or a `SendStream`. -/
structure OutStream where
  streamType : Nat
  sessionID : UInt64
  isClient : Bool
  deriving DecidableEq, Repr

def newOutgoingStream (sessionID : UInt64) : OutStream := ⟨frameTypeWebTransportBidi, sessionID, true⟩

/-- `SendStream.Write` does not ask for `isClient`. -/
def newSendStream (sessionID : UInt64) : OutStream := ⟨streamTypeWebTransportUni, sessionID, true⟩

section
variable [Quicvarint]

/-- `varint(type) ++ varint(sessionID)`; none where `Append` panics. -/
def OutStream.header (st : OutStream) : Option Bytes :=
  match Quicvarint.append st.streamType, Quicvarint.append st.sessionID.toNat with
  | some ty, some id => some (ty ++ id)
  | _, _ => none

inductive WritePc where
  | start
  /-- At the mutex section. -/
  | lock
  /-- At `s.raw.Write(p)`. -/
  | plain
  /-- At `s.raw.Write(outBuf)`, with the header in front. -/
  | headed (header : Bytes)
  | returned (n : Nat)
  | panicked
  deriving DecidableEq, Repr

structure WriteState (n : Nat) where
  headerWritten : Bool := false
  /-- The mutex is held for good, by a `Write` that panicked. -/
  stuck : Bool := false
  pc : Fin n → WritePc := fun _ => .start
  /-- The bytes on the raw stream. -/
  out : Bytes := []
  /-- The calls in the order of their raw `Write`. -/
  order : List (Fin n) := []

def WriteState.new (st : OutStream) (n : Nat) : WriteState n := { headerWritten := !st.isClient }

variable {n : Nat} {st : OutStream} {payload : Fin n → Bytes} {header : Bytes}

end

/-! ## 3. Two writers -/

end AoniContrib.WebTransport
