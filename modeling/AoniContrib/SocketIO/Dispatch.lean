/-
# The receiving side: `readLoop`, `dispatchEIOPacket` and what they call in `socketio/engineio.go`

The reader takes one message after the other from the connection.  A binary packet comes in several:
a header that announces its attachments, kept in `binaryBuf`, and the attachments, of which the last
one completes it.  Every other packet is a message of its own and leaves `binaryBuf` alone
(`dispatch_harmless`).

What the handlers do is not modelled; `log` records that they were called, in order, together with
the other effects of a packet.  The pending acknowledgements are those of `ackMgr`.
-/
import AoniContrib.SocketIO.Packet
import AoniContrib.SocketIO.Value

namespace AoniContrib.SocketIO

open Go List

/-! ## 1. State -/

def maxBinaryBufferSize : Nat := 32 * 1024 * 1024
def maxEIOPacketSize : Nat := 8 * 1024 * 1024

structure BinaryReconstructor where
  attachments : Nat
  buffers : List Bytes := []
  packet : SioPacket
  deriving DecidableEq, Repr

inductive Effect where
  /-- A call of `dispatchPacket`. -/
  | dispatch (pkt : SioPacket)
  /-- A handler started for the event of a namespace, or for `*`. -/
  | handler (nsp event : Bytes) (args : List Bytes)
  /-- A pending acknowledgement that was resolved. -/
  | ack (id : Int64) (args : List Bytes)
  | connect (data : Option Bytes)
  | connectError
  | pong
  deriving DecidableEq, Repr

/-- What the receiver only reads: its default namespace, `nsEvents`, and `task.Manager.Resolve`, of
which only what it does with a pending id is assumed. -/
structure Config where
  nsp : Bytes
  registered : Bytes → Bytes → Bool
  /-- The ids left pending, where an entry was completed. -/
  resolve : List Int64 → Int64 → Option (List Int64)
  resolve_mem : ∀ pending id, id ∈ pending → resolve pending id = some (pending.erase id)

/-- A manager that completes nothing but what is pending. -/
def resolvePending (pending : List Int64) (id : Int64) : Option (List Int64) :=
  if id ∈ pending then some (pending.erase id) else none

theorem resolvePending_mem (pending : List Int64) (id : Int64) (h : id ∈ pending) :
    resolvePending pending id = some (pending.erase id) := if_pos h

structure Conn where
  binaryBuf : Option BinaryReconstructor := none
  pending : List Int64 := []
  log : List Effect := []

/-! ## 2. The reconstructor -/

def newBinaryReconstructor (attachments : Nat) (pkt : SioPacket) : BinaryReconstructor where
  attachments := if maxBinaryAttachments < attachments then maxBinaryAttachments else attachments
  packet := pkt

/-- The loop of `addBuffer`: the buffers are larger than they may be. -/
def overLimit (totalSize : Nat) : List Bytes → Bool
  | [] => false
  | buf :: buffers =>
    if maxBinaryBufferSize < totalSize + buf.length then true
    else overLimit (totalSize + buf.length) buffers

/-- `addBuffer`: the reconstructor afterwards, and whether to reconstruct. -/
def BinaryReconstructor.addBuffer (br : BinaryReconstructor) (data : Bytes) :
    BinaryReconstructor × Bool :=
  let buffers := br.buffers ++ [data]
  ({ br with buffers }, overLimit 0 buffers || br.attachments ≤ buffers.length)

inductive ReconstructError where
  /-- "aoni/socketio: expected … attachments, got …". -/
  | attachments (expected got : Nat)
  /-- "aoni/socketio: unmarshal binary packet". -/
  | unmarshalPacket
  /-- "aoni/socketio: unmarshal binary arg". -/
  | unmarshalArg
  deriving DecidableEq, Repr

variable {S : Type} (J : Codec S)

/-- `reconstruct`.  Whatever the packet was, an event comes out. -/
def BinaryReconstructor.reconstruct (br : BinaryReconstructor) :
    Except ReconstructError SioPacket :=
  if br.buffers.length ≠ br.attachments then .error (.attachments br.attachments br.buffers.length)
  else
    match J.array (br.packet.data.getD []) with
    | none => .error .unmarshalPacket
    | some rawArgs =>
      match rawArgs.mapM J.any with
      | none => .error .unmarshalArg
      | some args =>
        .ok { br.packet with
          data := J.marshal (.array (args.map (reconstructBinary J br.buffers)))
          type := sioEvent }

/-! ## 3. Packets -/

variable (cfg : Config)

def handlerEffects (pkt : SioPacket) : List Effect :=
  match J.array (pkt.data.getD []) with
  | none | some [] => []
  | some (raw :: args) =>
    match J.string raw with
    | none => []
    | some event =>
      let nsp := if pkt.nsp = [] then cfg.nsp else pkt.nsp
      (if cfg.registered nsp event then [.handler nsp event args] else []) ++
      (if cfg.registered nsp (lit "*") then [.handler nsp (lit "*") (raw :: args)] else [])

def dispatchEffects (pkt : SioPacket) : List Effect := .dispatch pkt :: handlerEffects J cfg pkt

def Conn.dispatchPacket (s : Conn) (pkt : SioPacket) : Conn :=
  { s with log := s.log ++ dispatchEffects J cfg pkt }

def Conn.handleAck (s : Conn) (id : Int64) (data : Option Bytes) : Conn :=
  match J.array (data.getD []) with
  | none => s
  | some args =>
    match cfg.resolve s.pending id with
    | none => s
    | some pending => { s with pending, log := s.log ++ [.ack id args] }

def Conn.handleSIOPacket (s : Conn) (data : Bytes) : Conn :=
  match decodeSIOPacket data with
  | .error _ => s
  | .ok pkt =>
    if pkt.type = sioConnect then { s with log := s.log ++ [.connect pkt.data] }
    else if pkt.type = sioEvent then s.dispatchPacket J cfg pkt
    else if pkt.type = sioAck then
      match pkt.id with
      | none => s
      | some id => s.handleAck J cfg id pkt.data
    else if isBinaryType pkt.type then
      { s with binaryBuf := some (newBinaryReconstructor pkt.attachments pkt) }
    else if pkt.type = sioConnectError then { s with log := s.log ++ [.connectError] }
    else s

def Conn.handleBinary (s : Conn) (payload : Bytes) : Conn :=
  match s.binaryBuf with
  | none => s
  | some br =>
    if (br.addBuffer payload).2 then
      match (br.addBuffer payload).1.reconstruct J with
      | .ok pkt => { s with binaryBuf := none }.dispatchPacket J cfg pkt
      | .error _ => { s with binaryBuf := none }
    else { s with binaryBuf := some (br.addBuffer payload).1 }

/-- `dispatchEIOPacket`: the state afterwards, and whether the reader stops. -/
def Conn.dispatchEIOPacket (s : Conn) (pType : UInt8) (payload : Bytes) : Conn × Bool :=
  if pType = eioClose then (s, true)
  else if pType = eioPong then ({ s with log := s.log ++ [.pong] }, false)
  else if pType = eioMessage then
    (if payload = [] then s else s.handleSIOPacket J cfg payload, false)
  else if pType = eioBinary then (s.handleBinary J cfg payload, false)
  else (s, false)

/-! ## 4. The reader -/

inductive Frame where
  | text (data : Bytes)
  | binary (data : Bytes)
  deriving DecidableEq, Repr

inductive ReadError where
  | eof
  /-- "aoni/socketio: packet too large". -/
  | tooLarge
  deriving DecidableEq, Repr

def readSingleEIOPacket : Frame → Except ReadError (UInt8 × Bytes)
  | .text [] | .binary [] => .error .eof
  | .text (b :: data) =>
    if maxEIOPacketSize < (b :: data).length then .error .tooLarge else .ok (b, data)
  | .binary (b :: data) =>
    if maxEIOPacketSize < (b :: data).length then .error .tooLarge else .ok (eioBinary, b :: data)

def Conn.readLoop (s : Conn) : List Frame → Conn
  | [] => s
  | f :: fs =>
    match readSingleEIOPacket f with
    | .error _ => s
    | .ok (pType, payload) =>
      if (s.dispatchEIOPacket J cfg pType payload).2 then (s.dispatchEIOPacket J cfg pType payload).1
      else (s.dispatchEIOPacket J cfg pType payload).1.readLoop fs

/-! ## 5. Packets that leave the reconstructor alone -/

/-- A complete text packet: it is read, does not close the connection, and is no binary header. -/
def Harmless (f : Frame) : Prop :=
  ∃ pType payload, readSingleEIOPacket f = .ok (pType, payload) ∧ pType ≠ eioClose ∧
    pType ≠ eioBinary ∧ (pType = eioMessage → ∀ pkt, decodeSIOPacket payload = .ok pkt →
      isBinaryType pkt.type = false)

/-- The part of the state that other packets depend on. -/
def Conn.quiet (s : Conn) : Conn := { pending := s.pending }

/-- `s` after what `t` says happened to its quiet part. -/
def Conn.follow (s t : Conn) : Conn := { s with pending := t.pending, log := s.log ++ t.log }

variable {J cfg}

theorem handleAck_follow (s : Conn) (id : Int64) (data : Option Bytes) :
    s.handleAck J cfg id data = s.follow (s.quiet.handleAck J cfg id data) := by
  unfold Conn.handleAck
  split
  · simp [Conn.follow, Conn.quiet]
  · cases h : cfg.resolve s.pending id <;> simp [Conn.follow, Conn.quiet, h]

theorem handleSIOPacket_follow (s : Conn) {payload : Bytes}
    (h : ∀ pkt, decodeSIOPacket payload = .ok pkt → isBinaryType pkt.type = false) :
    s.handleSIOPacket J cfg payload = s.follow (s.quiet.handleSIOPacket J cfg payload) := by
  unfold Conn.handleSIOPacket
  split
  · simp [Conn.follow, Conn.quiet]
  · rename_i pkt hpkt
    rw [if_neg (by simp [h pkt hpkt] : ¬ isBinaryType pkt.type = true),
      if_neg (by simp [h pkt hpkt] : ¬ isBinaryType pkt.type = true)]
    split_ifs
    · simp [Conn.follow, Conn.quiet]
    · simp [Conn.follow, Conn.quiet, Conn.dispatchPacket]
    · split
      · simp [Conn.follow, Conn.quiet]
      · exact handleAck_follow s _ _
    · simp [Conn.follow, Conn.quiet]
    · simp [Conn.follow, Conn.quiet]

theorem dispatch_harmless (s : Conn) {pType : UInt8} {payload : Bytes} (hclose : pType ≠ eioClose)
    (hbinary : pType ≠ eioBinary) (hcomplete : pType = eioMessage → ∀ pkt,
      decodeSIOPacket payload = .ok pkt → isBinaryType pkt.type = false) :
    s.dispatchEIOPacket J cfg pType payload =
      (s.follow (s.quiet.dispatchEIOPacket J cfg pType payload).1, false) := by
  unfold Conn.dispatchEIOPacket
  rw [if_neg hclose, if_neg hclose, if_neg hbinary, if_neg hbinary]
  split_ifs with hpong hmessage hempty
  · simp [Conn.follow, Conn.quiet]
  · simp [Conn.follow, Conn.quiet]
  · rw [handleSIOPacket_follow s (hcomplete hmessage)]
  · simp [Conn.follow, Conn.quiet]

theorem follow_assoc (s t u : Conn) : (s.follow t).follow u = s.follow (t.follow u) := by
  simp [Conn.follow, append_assoc]

theorem readLoop_cons {s t : Conn} {f : Frame} {pType : UInt8} {payload : Bytes}
    (hread : readSingleEIOPacket f = .ok (pType, payload))
    (hstep : s.dispatchEIOPacket J cfg pType payload = (t, false)) (fs : List Frame) :
    s.readLoop J cfg (f :: fs) = t.readLoop J cfg fs := by
  rw [Conn.readLoop, hread]
  simp only [hstep]
  rfl

theorem readLoop_harmless : ∀ (noise : List Frame) (s : Conn), (∀ f ∈ noise, Harmless f) →
    s.readLoop J cfg noise = s.follow (s.quiet.readLoop J cfg noise) ∧
    ∀ rest, s.readLoop J cfg (noise ++ rest) = (s.readLoop J cfg noise).readLoop J cfg rest
  | [], s, _ => ⟨by simp [Conn.readLoop, Conn.follow, Conn.quiet], fun _ => rfl⟩
  | f :: fs, s, h => by
    obtain ⟨pType, payload, hread, hclose, hbinary, hcomplete⟩ := h f mem_cons_self
    have hfs : ∀ g ∈ fs, Harmless g := fun g hg => h g (mem_cons_of_mem f hg)
    generalize ht : (s.quiet.dispatchEIOPacket J cfg pType payload).1 = t
    have hs : s.dispatchEIOPacket J cfg pType payload = (s.follow t, false) := by
      rw [dispatch_harmless s hclose hbinary hcomplete, ht]
    have hq : s.quiet.dispatchEIOPacket J cfg pType payload = (t, false) :=
      Prod.ext ht (by rw [dispatch_harmless s.quiet hclose hbinary hcomplete])
    obtain ⟨hnext, happend⟩ := readLoop_harmless fs (s.follow t) hfs
    obtain ⟨hquiet, -⟩ := readLoop_harmless fs t hfs
    refine ⟨?_, fun rest => ?_⟩
    · rw [readLoop_cons hread hs, readLoop_cons hread hq, hnext, hquiet, ← follow_assoc]
      rfl
    · rw [cons_append, readLoop_cons hread hs, readLoop_cons hread hs, happend]

/-! ## 6. Collecting attachments -/

def Conn.withBuf (s : Conn) (br : Option BinaryReconstructor) : Conn := { s with binaryBuf := br }

/-- What the last attachment does: the packet is dispatched, or dropped on an error. -/
def Conn.finish (J : Codec S) (cfg : Config) (s : Conn) (br : BinaryReconstructor) : Conn :=
  match br.reconstruct J with
  | .ok pkt => (s.withBuf none).dispatchPacket J cfg pkt
  | .error _ => s.withBuf none

theorem overLimit_false : ∀ (buffers : List Bytes) (totalSize : Nat),
    totalSize + (buffers.map List.length).sum ≤ maxBinaryBufferSize →
    overLimit totalSize buffers = false
  | [], _, _ => rfl
  | buf :: buffers, totalSize, h => by
    rw [map_cons, sum_cons] at h
    rw [overLimit, if_neg (by omega)]
    exact overLimit_false buffers _ (by omega)

variable {s : Conn} {br : BinaryReconstructor} {b : Bytes}

theorem handleBinary_more
    (hsize : ((br.buffers ++ [b]).map List.length).sum ≤ maxBinaryBufferSize)
    (hmore : br.buffers.length + 1 < br.attachments) :
    (s.withBuf (some br)).handleBinary J cfg b =
      s.withBuf (some { br with buffers := br.buffers ++ [b] }) := by
  have hadd : (br.addBuffer b).2 = false := by
    rw [BinaryReconstructor.addBuffer, overLimit_false _ _ (by omega)]
    simp only [length_append, length_singleton, Bool.false_or, decide_eq_false_iff_not]
    omega
  simp only [Conn.handleBinary, Conn.withBuf, hadd]
  rfl

theorem handleBinary_last
    (hlast : br.buffers.length + 1 = br.attachments) :
    (s.withBuf (some br)).handleBinary J cfg b =
      s.finish J cfg { br with buffers := br.buffers ++ [b] } := by
  have hadd : (br.addBuffer b).2 = true := by
    simp [BinaryReconstructor.addBuffer, ← hlast]
  simp only [Conn.handleBinary, Conn.withBuf, hadd, if_true, Conn.finish]
  rfl

theorem readLoop_withBuf {noise : List Frame} (h : ∀ f ∈ noise, Harmless f) (s : Conn)
    (br : Option BinaryReconstructor) :
    (s.withBuf br).readLoop J cfg noise = (s.readLoop J cfg noise).withBuf br := by
  rw [(readLoop_harmless noise (s.withBuf br) h).1, (readLoop_harmless noise s h).1]
  rfl

/-- What arrives of a binary packet behind its header: attachments, with other packets in front of
each of them. -/
def attachmentFrames (attached : List (List Frame × Bytes)) : List Frame :=
  attached.flatMap fun a => a.1 ++ [.binary a.2]

def Readable (b : Bytes) : Prop := b ≠ [] ∧ b.length ≤ maxEIOPacketSize

theorem readLoop_binary {s : Conn} {b : Bytes} (h : Readable b) (fs : List Frame) :
    s.readLoop J cfg (.binary b :: fs) = (s.handleBinary J cfg b).readLoop J cfg fs := by
  obtain ⟨hne, hle⟩ := h
  obtain ⟨c, t, rfl⟩ := exists_cons_of_ne_nil hne
  have hread : readSingleEIOPacket (.binary (c :: t)) = .ok (eioBinary, c :: t) := if_neg (by omega)
  refine readLoop_cons hread ?_ fs
  simp [Conn.dispatchEIOPacket, eioBinary, eioClose, eioPong, eioMessage]

/-- **Attachments are collected in order**: the last one finishes the packet, with the other packets
treated as if they had come alone. -/
theorem readLoop_attachments (J : Codec S) (cfg : Config) (k : Nat) (pkt : SioPacket)
    (after : List Frame) :
    ∀ (attached : List (List Frame × Bytes)) (first : List Bytes) (s : Conn), attached ≠ [] →
    (∀ a ∈ attached, ∀ f ∈ a.1, Harmless f) → (∀ a ∈ attached, Readable a.2) →
    ((first ++ attached.map Prod.snd).map List.length).sum ≤ maxBinaryBufferSize →
    first.length + attached.length = k →
    (s.withBuf (some ⟨k, first, pkt⟩)).readLoop J cfg (attachmentFrames attached ++ after) =
      ((s.readLoop J cfg (attached.flatMap Prod.fst)).finish J cfg
        ⟨k, first ++ attached.map Prod.snd, pkt⟩).readLoop J cfg after
  | [(noise, b)], first, s, _, hnoise, hread, _, hk => by
    have hn := hnoise _ mem_cons_self
    have hb := hread _ mem_cons_self
    have hlast : first.length + 1 = k := hk
    simp only [attachmentFrames, flatMap_cons, flatMap_nil, append_nil,
      append_assoc, singleton_append, map_cons, map_nil]
    rw [(readLoop_harmless noise _ hn).2, readLoop_withBuf hn, readLoop_binary hb,
      handleBinary_last hlast]
  | (noise, b) :: a :: attached, first, s, _, hnoise, hread, hsize, hk => by
    have hn := hnoise _ mem_cons_self
    have hb := hread _ mem_cons_self
    have hassoc : first ++ ((noise, b) :: a :: attached).map Prod.snd =
        (first ++ [b]) ++ (a :: attached).map Prod.snd := by simp
    rw [hassoc] at hsize ⊢
    have hfirst : ((first ++ [b]).map List.length).sum ≤ maxBinaryBufferSize := by
      rw [map_append, sum_append] at hsize
      omega
    have hmore : first.length + 1 < k := by
      rw [length_cons, length_cons] at hk
      omega
    have ih := readLoop_attachments J cfg k pkt after (a :: attached) (first ++ [b])
      (s.readLoop J cfg noise) (cons_ne_nil _ _)
      (forall_mem_cons.mp hnoise).2
      (forall_mem_cons.mp hread).2 hsize
      (by simp only [length_append, length_cons, length_nil] at hk ⊢; omega)
    have hflat : ((noise, b) :: a :: attached).flatMap Prod.fst =
        noise ++ (a :: attached).flatMap Prod.fst := rfl
    rw [attachmentFrames, flatMap_cons, ← attachmentFrames, append_assoc,
      append_assoc, (readLoop_harmless noise _ hn).2, readLoop_withBuf hn,
      singleton_append, readLoop_binary hb, handleBinary_more hfirst hmore, ih, hflat,
      (readLoop_harmless noise s hn).2]

end AoniContrib.SocketIO
