/-
# The sending side: `emitNS` and `emitBinaryNS` in `socketio/client.go`

A text event is one message, a binary event is a header and its attachments, and `writeMu` is held
for one message at a time.  Calls of `emitNS` run side by side, so between a header and its last
attachment anything may be written.  The receiver has one reconstructor and gives it every
attachment: text events in between do no harm, another binary header does (`emits_mixed`).

If no binary event begins while another one is being written, and the events are such that a single
one would arrive, then the receiver dispatches exactly the events that were emitted, each with its
own buffers (`emits_unmixed`).
-/
import AoniContrib.Concurrency.Run
import AoniContrib.SocketIO.Binary

namespace AoniContrib.SocketIO

open Go Concurrency List
open Function (update)

variable {S : Type} {J : Codec S}

/-! ## 1. What a call writes -/

/-- A call of `emitNS`.  `id` is what `ackMgr.NextID` gave, if the last argument was a callback. -/
structure Emit (S : Type) where
  nsp : Bytes
  event : Bytes
  args : List (Value S)
  id : Option { n : Int64 // 0 ≤ n } := none

namespace Emit

section

variable (J : Codec S) (e : Emit S)

def payload : Value S := .array (.scalar (J.str e.event) :: e.args)

def buffers : List Bytes :=
  if hasBinary (e.payload J) then (deconstructBinary J (e.payload J)).2 else []

def packet : Option SioPacket :=
  if hasBinary (e.payload J) then
    (J.marshal (deconstructBinary J (e.payload J)).1).map fun data =>
      { type := sioBinaryEvent
        nsp := e.nsp
        id := e.id.map Subtype.val
        attachments := (deconstructBinary J (e.payload J)).2.length
        data := some data }
  else
    (J.marshal (e.payload J)).map fun data =>
      { type := sioEvent, nsp := e.nsp, id := e.id.map Subtype.val, data := some data }

/-- The messages that `emitNS` passes to `writeEIOPacket`, in order; none after an error. -/
def writes : List (UInt8 × Bytes) :=
  match e.packet J with
  | none => []
  | some pkt => (eioMessage, encodeSIOPacket pkt) :: (e.buffers J).map (eioBinary, ·)

/-- What a single event needs to arrive: a namespace that the format can carry and, for a binary
event, no more and no larger attachments than the receiver takes, and a payload that JSON carries
and that has no map of its own that looks like a placeholder. -/
structure Sendable : Prop where
  nsp : e.nsp.head? = some slash ∧ comma ∉ e.nsp
  count : (e.buffers J).length ≤ maxBinaryAttachments
  size : ((e.buffers J).map List.length).sum ≤ maxBinaryBufferSize
  nested : hasBinary (e.payload J) = true → Nested maxNestingDepth (e.payload J)
  placeholder : hasBinary (e.payload J) = true → NoPlaceholder J (e.payload J)

/-- A dispatched packet that is the event: its namespace, its id, and its payload. -/
def Represents (d : SioPacket) : Prop :=
  d.type = sioEvent ∧ d.nsp = e.nsp ∧ d.id = e.id.map Subtype.val ∧
    ∃ w, Same J.same (e.payload J) w ∧ d.data = J.marshal w

end

variable {e : Emit S} {pkt : SioPacket}

theorem length_writes (h : e.packet J = some pkt) : (e.writes J).length = (e.buffers J).length + 1 := by
  rw [writes, h, length_cons, length_map]

variable {p : UInt8 × Bytes}

theorem exists_packet {i : Nat} (h : (e.writes J)[i]? = some p) : ∃ pkt, e.packet J = some pkt := by
  cases hp : e.packet J with
  | none =>
    rw [writes, hp] at h
    simp at h
  | some pkt => exact ⟨pkt, rfl⟩

theorem writes_zero (h : e.packet J = some pkt)
    (hp : (e.writes J)[0]? = some p) : p = (eioMessage, encodeSIOPacket pkt) := by
  rw [writes, h] at hp
  exact (Option.some.inj hp).symm

theorem writes_succ {i : Nat} (h : e.packet J = some pkt)
    (hp : (e.writes J)[i + 1]? = some p) :
    ∃ b, (e.buffers J)[i]? = some b ∧ p = (eioBinary, b) := by
  rw [writes, h] at hp
  simp only [getElem?_cons_succ, getElem?_map, Option.map_eq_some_iff] at hp
  obtain ⟨b, hb, rfl⟩ := hp
  exact ⟨b, hb, rfl⟩

theorem buffers_pos (h : hasBinary (e.payload J) = true) : 0 < (e.buffers J).length := by
  rw [buffers, if_pos h, deconstructBinary, length_deconstruct]
  have hpos := (hasBinary_iff _).mp h
  omega

theorem packet_binary (hb : hasBinary (e.payload J) = true) (h : e.packet J = some pkt) :
    ∃ data, J.marshal (deconstructBinary J (e.payload J)).1 = some data ∧
      pkt = ⟨sioBinaryEvent, e.nsp, e.id.map Subtype.val, (e.buffers J).length, some data⟩ := by
  rw [packet, if_pos hb] at h
  obtain ⟨data, hdata, rfl⟩ := Option.map_eq_some_iff.mp h
  exact ⟨data, hdata, by rw [buffers, if_pos hb]⟩

theorem packet_text (hb : hasBinary (e.payload J) = false) (h : e.packet J = some pkt) :
    ∃ data, J.marshal (e.payload J) = some data ∧
      pkt = ⟨sioEvent, e.nsp, e.id.map Subtype.val, 0, some data⟩ := by
  rw [packet, if_neg (by simp [hb])] at h
  obtain ⟨data, hdata, rfl⟩ := Option.map_eq_some_iff.mp h
  exact ⟨data, hdata, rfl⟩

theorem buffers_text (hb : hasBinary (e.payload J) = false) : e.buffers J = [] := by
  rw [buffers, if_neg (by simp [hb])]

theorem decode_packet (hs : e.Sendable J) (h : e.packet J = some pkt) :
    decodeSIOPacket (encodeSIOPacket pkt) = .ok pkt := by
  have hid : ∀ n ∈ e.id.map Subtype.val, 0 ≤ n := by
    intro n hn
    obtain ⟨m, -, rfl⟩ := Option.map_eq_some_iff.mp hn
    exact m.2
  cases hb : hasBinary (e.payload J) with
  | true =>
    obtain ⟨data, hdata, rfl⟩ := packet_binary hb h
    have hhead := J.marshal_head _ data hdata
    have htype : sioBinaryEvent ∈ sioTypes := by decide
    have hbinary : isBinaryType sioBinaryEvent ≠ false := by decide
    refine decode_encode ⟨htype, hs.nsp, hid, hs.count, fun hn => absurd hn hbinary, ?_⟩
    rintro _ ⟨rfl⟩
    exact .inl hhead
  | false =>
    obtain ⟨data, hdata, rfl⟩ := packet_text hb h
    have hhead := J.marshal_head _ data hdata
    have htype : sioEvent ∈ sioTypes := by decide
    refine decode_encode ⟨htype, hs.nsp, hid, Nat.zero_le _, fun _ => rfl, ?_⟩
    rintro _ ⟨rfl⟩
    exact .inl hhead

theorem reconstruct_packet (hs : e.Sendable J) (hb : hasBinary (e.payload J) = true)
    (h : e.packet J = some pkt) : ∃ d, e.Represents J d ∧
      (BinaryReconstructor.mk (e.buffers J).length (e.buffers J) pkt).reconstruct J = .ok d := by
  obtain ⟨data, hdata, rfl⟩ := packet_binary hb h
  have hbuffers : e.buffers J = (deconstructBinary J (e.payload J)).2 := by rw [buffers, if_pos hb]
  have hnested : Nested maxNestingDepth (deconstructBinary J (e.payload J)).1 :=
    nested_deconstructBinary (hs.nested hb) []
  obtain ⟨raws, ws, harray, hany, hsame⟩ :=
    J.any_marshal _ data hnested (hasBinary_deconstructBinary (e.payload J) []) hdata
  have hle : (deconstructBinary J (e.payload J)).2.length ≤ 2 ^ 53 := by
    have hcount := hs.count
    rw [hbuffers, maxBinaryAttachments] at hcount
    omega
  have hback := reconstructBinary_deconstructBinary (hs.placeholder hb) [] [] (.array ws)
    (J.counts hle) hsame
  rw [append_nil, reconstructBinary, reconstructItems_eq] at hback
  refine ⟨_, ⟨rfl, rfl, rfl, _, hback, ?_⟩, reconstruct_ok _ rfl harray hany⟩
  rw [hbuffers]
  rfl

end Emit

/-! ## 2. Calls side by side -/

variable {n : Nat}

structure EmitState (n : Nat) where
  /-- How many messages each call has written. -/
  written : Fin n → Nat := fun _ => 0
  wire : List (UInt8 × Bytes) := []

/-- One call of `writeEIOPacket`, which holds `writeMu`. -/
inductive EmitStep (J : Codec S) (emits : Fin n → Emit S) :
    EmitState n → Fin n → EmitState n → Prop where
  | write {s j p} : ((emits j).writes J)[s.written j]? = some p →
      EmitStep J emits s j { written := update s.written j (s.written j + 1), wire := s.wire ++ [p] }

/-- The receiver: `dispatchEIOPacket` on one message after the other. -/
def receive (J : Codec S) (cfg : Config) (wire : List (UInt8 × Bytes)) : Conn :=
  wire.foldl (fun s p => (s.dispatchEIOPacket J cfg p.1 p.2).1) {}

def Effect.packet : Effect → Option SioPacket
  | .dispatch pkt => some pkt
  | _ => none

def Conn.events (s : Conn) : List SioPacket := s.log.filterMap Effect.packet

section

variable (J : Codec S) (emits : Fin n → Emit S) (s : EmitState n) (j : Fin n)

def Middle : Prop := 0 < s.written j ∧ s.written j < ((emits j).writes J).length

def Done : Prop := 0 < s.written j ∧ s.written j = ((emits j).writes J).length

/-- A write of a sendable event that does not begin a binary event while another is being
written. -/
def Unmixed : Prop :=
  (emits j).Sendable J ∧ (s.written j = 0 → 1 < ((emits j).writes J).length → ∀ i, ¬ Middle J emits s i)

end

/-! ### The receiver, message by message -/

theorem receive_snoc (J : Codec S) (cfg : Config) (wire : List (UInt8 × Bytes))
    (p : UInt8 × Bytes) :
    receive J cfg (wire ++ [p]) = ((receive J cfg wire).dispatchEIOPacket J cfg p.1 p.2).1 := by
  rw [receive, foldl_append]
  rfl

theorem handlerEffects_packet (J : Codec S) (cfg : Config) (pkt : SioPacket) :
    (handlerEffects J cfg pkt).filterMap Effect.packet = [] := by
  have hnone : ∀ (c : Bool) (nsp event : Bytes) (args : List Bytes),
      (if c then [Effect.handler nsp event args] else []).filterMap Effect.packet = [] := by
    intro c nsp event args
    cases c <;> rfl
  unfold handlerEffects
  split
  · rfl
  · rfl
  · split
    · rfl
    · rw [filterMap_append, append_eq_nil_iff]
      exact ⟨hnone _ _ _ _, hnone _ _ _ _⟩

theorem events_dispatchPacket (J : Codec S) (cfg : Config) (s : Conn) (pkt : SioPacket) :
    (s.dispatchPacket J cfg pkt).events = s.events ++ [pkt] := by
  have hfirst : (dispatchEffects J cfg pkt).filterMap Effect.packet = [pkt] := by
    have hself : (Effect.dispatch pkt).packet = some pkt := rfl
    rw [dispatchEffects, filterMap_cons_some hself, handlerEffects_packet]
  rw [Conn.events, Conn.dispatchPacket, filterMap_append, hfirst]
  rfl

variable {cfg : Config}

theorem dispatch_event {s : Conn} {payload : Bytes} {pkt : SioPacket}
    (hdecode : decodeSIOPacket payload = .ok pkt) (htype : pkt.type = sioEvent) :
    (s.dispatchEIOPacket J cfg eioMessage payload).1 = s.dispatchPacket J cfg pkt := by
  have hne : payload ≠ [] := by
    rintro rfl
    cases hdecode
  simp only [Conn.dispatchEIOPacket, if_neg (by decide : eioMessage ≠ eioClose),
    if_neg (by decide : eioMessage ≠ eioPong), if_true, if_neg hne, Conn.handleSIOPacket, hdecode,
    htype, if_neg (by decide : sioEvent ≠ sioConnect)]

theorem dispatch_binary {s : Conn} {b : Bytes} :
    (s.dispatchEIOPacket J cfg eioBinary b).1 = s.handleBinary J cfg b := by
  simp [Conn.dispatchEIOPacket, eioBinary, eioClose, eioPong, eioMessage]

/-! ### The invariant -/

/-- What the receiver has made of the messages so far: at most one binary event is being written,
and the reconstructor holds its buffers; the calls that are done have been dispatched, in an order
that is some order of them. -/
structure Tracked (J : Codec S) (cfg : Config) (emits : Fin n → Emit S) (s : EmitState n) :
    Prop where
  bound : ∀ j, s.written j ≤ ((emits j).writes J).length
  sendable : ∀ j, 0 < s.written j → (emits j).Sendable J
  alone : ∀ i j, Middle J emits s i → Middle J emits s j → i = j
  idle : (∀ j, ¬ Middle J emits s j) → (receive J cfg s.wire).binaryBuf = none
  collecting : ∀ j pkt, Middle J emits s j → (emits j).packet J = some pkt →
    (receive J cfg s.wire).binaryBuf =
      some ⟨((emits j).buffers J).length, ((emits j).buffers J).take (s.written j - 1), pkt⟩
  dispatched : ∃ order : List (Fin n), order.Nodup ∧ (∀ j, j ∈ order ↔ Done J emits s j) ∧
    List.Forall₂ (fun j d => (emits j).Represents J d) order (receive J cfg s.wire).events

theorem tracked_init (J : Codec S) (cfg : Config) (emits : Fin n → Emit S) :
    Tracked J cfg emits {} where
  bound _ := Nat.zero_le _
  sendable _ h := absurd h (Nat.lt_irrefl 0)
  alone _ _ h := absurd h.1 (Nat.lt_irrefl 0)
  idle _ := rfl
  collecting _ _ h := absurd h.1 (Nat.lt_irrefl 0)
  dispatched := ⟨[], nodup_nil, fun _ =>
    ⟨fun h => absurd h not_mem_nil, fun h => absurd h.1 (Nat.lt_irrefl 0)⟩, .nil⟩

section

variable {cfg : Config} {emits : Fin n → Emit S} {s : EmitState n} {j : Fin n}
  {p : UInt8 × Bytes} {pkt : SioPacket}

def EmitState.wrote (s : EmitState n) (j : Fin n) (p : UInt8 × Bytes) : EmitState n :=
  { written := update s.written j (s.written j + 1), wire := s.wire ++ [p] }

theorem wrote_self : (s.wrote j p).written j = s.written j + 1 := Function.update_self ..

variable {i : Fin n}

theorem wrote_other (h : i ≠ j) : (s.wrote j p).written i = s.written i := Function.update_of_ne h ..

theorem middle_wrote_other (h : i ≠ j) : Middle J emits (s.wrote j p) i ↔ Middle J emits s i := by
  rw [Middle, Middle, wrote_other h]

theorem done_wrote_other (h : i ≠ j) : Done J emits (s.wrote j p) i ↔ Done J emits s i := by
  rw [Done, Done, wrote_other h]

theorem dispatched_unchanged (h : Tracked J cfg emits s) (hdone : ¬ Done J emits s j)
    (hdone' : ¬ Done J emits (s.wrote j p) j)
    (hevents : (receive J cfg (s.wrote j p).wire).events = (receive J cfg s.wire).events) :
    ∃ order : List (Fin n), order.Nodup ∧ (∀ i, i ∈ order ↔ Done J emits (s.wrote j p) i) ∧
      List.Forall₂ (fun i d => (emits i).Represents J d) order
        (receive J cfg (s.wrote j p).wire).events := by
  obtain ⟨order, hnodup, hmem, hall⟩ := h.dispatched
  refine ⟨order, hnodup, fun i => ?_, hevents ▸ hall⟩
  by_cases hi : i = j
  · subst hi
    exact ⟨fun hin => absurd ((hmem i).mp hin) hdone, fun hd => absurd hd hdone'⟩
  · rw [hmem i, done_wrote_other hi]

theorem dispatched_snoc {d : SioPacket} (h : Tracked J cfg emits s) (hdone : ¬ Done J emits s j)
    (hdone' : Done J emits (s.wrote j p) j) (hd : (emits j).Represents J d)
    (hevents : (receive J cfg (s.wrote j p).wire).events = (receive J cfg s.wire).events ++ [d]) :
    ∃ order : List (Fin n), order.Nodup ∧ (∀ i, i ∈ order ↔ Done J emits (s.wrote j p) i) ∧
      List.Forall₂ (fun i d => (emits i).Represents J d) order
        (receive J cfg (s.wrote j p).wire).events := by
  obtain ⟨order, hnodup, hmem, hall⟩ := h.dispatched
  have hnot : j ∉ order := fun hin => hdone ((hmem j).mp hin)
  refine ⟨order ++ [j], ?_, fun i => ?_, ?_⟩
  · exact nodup_append'.mpr ⟨hnodup, nodup_singleton j, by simpa using hnot⟩
  · by_cases hi : i = j
    · subst hi
      simp [hdone']
    · rw [mem_append, mem_singleton, or_iff_left hi, hmem i, done_wrote_other hi]
  · rw [hevents]
    exact rel_append hall (.cons hd .nil)

/-! ### One write -/

section
variable (h : Tracked J cfg emits s)
include h

theorem bound_wrote
    (hp : ((emits j).writes J)[s.written j]? = some p) (i : Fin n) :
    (s.wrote j p).written i ≤ ((emits i).writes J).length := by
  by_cases hi : i = j
  · subst hi
    rw [wrote_self]
    exact (List.getElem?_eq_some_iff.mp hp).1
  · rw [wrote_other hi]
    exact h.bound i

theorem sendable_wrote (hj : (emits j).Sendable J) (i : Fin n)
    (hi : 0 < (s.wrote j p).written i) : (emits i).Sendable J := by
  by_cases hij : i = j
  · exact hij ▸ hj
  · rw [wrote_other hij] at hi
    exact h.sendable i hi

theorem tracked_text (hj : (emits j).Sendable J)
    (hp : ((emits j).writes J)[s.written j]? = some p) (hpkt : (emits j).packet J = some pkt)
    (hb : hasBinary ((emits j).payload J) = false) : Tracked J cfg emits (s.wrote j p) := by
  have hlen : ((emits j).writes J).length = 1 := by
    rw [Emit.length_writes hpkt, Emit.buffers_text hb, length_nil]
  have hzero : s.written j = 0 := by
    have := (List.getElem?_eq_some_iff.mp hp).1
    omega
  rw [hzero] at hp
  obtain rfl := Emit.writes_zero hpkt hp
  obtain ⟨data, hdata, hform⟩ := Emit.packet_text hb hpkt
  have hreceive : receive J cfg (s.wrote j (eioMessage, encodeSIOPacket pkt)).wire =
      (receive J cfg s.wire).dispatchPacket J cfg pkt :=
    (receive_snoc J cfg s.wire _).trans (dispatch_event (Emit.decode_packet hj hpkt) (by rw [hform]))
  have hmiddle : ∀ i, Middle J emits (s.wrote j (eioMessage, encodeSIOPacket pkt)) i ↔
      Middle J emits s i := by
    intro i
    by_cases hi : i = j
    · subst hi
      simp only [Middle, wrote_self, hzero, hlen, Nat.lt_irrefl, and_false, false_and]
    · exact middle_wrote_other hi
  have hrep : (emits j).Represents J pkt :=
    ⟨by rw [hform], by rw [hform], by rw [hform], _, Same.refl J.same_refl _, by rw [hform, hdata]⟩
  refine ⟨bound_wrote h (by rw [hzero]; exact hp), sendable_wrote h hj, fun i i' hi hi' => ?_,
    fun hnone => ?_, fun i pkt' hi hpkt' => ?_, ?_⟩
  · exact h.alone i i' ((hmiddle i).mp hi) ((hmiddle i').mp hi')
  · rw [hreceive]
    exact h.idle fun i hi => hnone i ((hmiddle i).mpr hi)
  · have hij : i ≠ j := by
      rintro rfl
      have hpos := ((hmiddle i).mp hi).1
      omega
    rw [hreceive, wrote_other hij]
    exact h.collecting i pkt' ((hmiddle i).mp hi) hpkt'
  · refine dispatched_snoc h (fun hd => ?_) ⟨?_, ?_⟩ hrep (by rw [hreceive, events_dispatchPacket])
    · have hpos := hd.1
      omega
    · rw [wrote_self]
      exact Nat.succ_pos _
    · rw [wrote_self, hzero, hlen]

theorem tracked_collecting (hj : (emits j).Sendable J)
    (hp : ((emits j).writes J)[s.written j]? = some p) (hpkt : (emits j).packet J = some pkt)
    (halone : ∀ i, i ≠ j → ¬ Middle J emits s i)
    (hmore : s.written j + 1 < ((emits j).writes J).length)
    (hreceive : receive J cfg (s.wrote j p).wire = (receive J cfg s.wire).withBuf
      (some ⟨((emits j).buffers J).length, ((emits j).buffers J).take (s.written j), pkt⟩)) :
    Tracked J cfg emits (s.wrote j p) := by
  have hmiddle : ∀ i, Middle J emits (s.wrote j p) i → i = j := by
    intro i hi
    by_contra hij
    exact halone i hij ((middle_wrote_other hij).mp hi)
  have hself : Middle J emits (s.wrote j p) j := by
    rw [Middle, wrote_self]
    omega
  refine ⟨bound_wrote h hp, sendable_wrote h hj, fun i i' hi hi' => ?_, fun hno => ?_,
    fun i pkt' hi hpkt' => ?_, dispatched_unchanged h (fun hd => ?_) (fun hd => ?_) ?_⟩
  · rw [hmiddle i hi, hmiddle i' hi']
  · exact absurd hself (hno j)
  · obtain rfl := hmiddle i hi
    obtain rfl := Option.some.inj (hpkt.symm.trans hpkt')
    rw [hreceive, wrote_self]
    rfl
  · have := hd.2
    omega
  · exact absurd hd.2 hself.2.ne
  · rw [hreceive]
    rfl

theorem tracked_header (hcond : Unmixed J emits s j)
    (hp : ((emits j).writes J)[s.written j]? = some p) (hpkt : (emits j).packet J = some pkt)
    (hb : hasBinary ((emits j).payload J) = true) (hzero : s.written j = 0) :
    Tracked J cfg emits (s.wrote j p) := by
  obtain ⟨hj, halone⟩ := hcond
  have hlen := Emit.length_writes hpkt
  have hpos := Emit.buffers_pos hb
  have hnone := halone hzero (by omega)
  have hp0 := hp
  rw [hzero] at hp0
  obtain rfl := Emit.writes_zero hpkt hp0
  obtain ⟨data, hdata, hform⟩ := Emit.packet_binary hb hpkt
  have hreceive : receive J cfg (s.wrote j (eioMessage, encodeSIOPacket pkt)).wire =
      (receive J cfg s.wire).withBuf (some ⟨((emits j).buffers J).length, [], pkt⟩) := by
    have hcount : pkt.attachments = ((emits j).buffers J).length := by rw [hform]
    rw [← hcount]
    exact (receive_snoc J cfg s.wire _).trans
      (congrArg Prod.fst (dispatch_header (Emit.decode_packet hj hpkt) (by rw [hform]; rfl)))
  refine tracked_collecting h hj hp hpkt (fun i _ => hnone i) (by omega) ?_
  rw [hreceive, hzero]
  rfl

end

section
variable {w : Nat} {b : Bytes} (h : Tracked J cfg emits s)
include h

theorem receive_attachment
    (hin : Middle J emits s j) (hpkt : (emits j).packet J = some pkt) (hw : s.written j = w + 1) :
    receive J cfg (s.wrote j (eioBinary, b)).wire = ((receive J cfg s.wire).withBuf
        (some ⟨((emits j).buffers J).length, ((emits j).buffers J).take w, pkt⟩)).handleBinary
          J cfg b := by
  have hbuf := h.collecting j pkt hin hpkt
  rw [hw, Nat.add_sub_cancel] at hbuf
  refine (receive_snoc J cfg s.wire _).trans (dispatch_binary.trans ?_)
  rw [← hbuf]
  rfl

theorem tracked_more
    (hp : ((emits j).writes J)[s.written j]? = some (eioBinary, b))
    (hpkt : (emits j).packet J = some pkt) (hw : s.written j = w + 1)
    (hget : ((emits j).buffers J)[w]? = some b) (hmore : w + 1 < ((emits j).buffers J).length) :
    Tracked J cfg emits (s.wrote j (eioBinary, b)) := by
  have hlen := Emit.length_writes hpkt
  have hj : (emits j).Sendable J := h.sendable j (by omega)
  have hin : Middle J emits s j := ⟨by omega, by omega⟩
  have htake : ((emits j).buffers J).take w ++ [b] = ((emits j).buffers J).take (w + 1) := by
    rw [take_add_one, hget]
    rfl
  have hreceive : receive J cfg (s.wrote j (eioBinary, b)).wire = (receive J cfg s.wire).withBuf
        (some ⟨((emits j).buffers J).length, ((emits j).buffers J).take (w + 1), pkt⟩) := by
    rw [receive_attachment h hin hpkt hw, ← htake]
    refine handleBinary_more ?_ ?_
    · have hsub := (take_sublist (w + 1) ((emits j).buffers J)).map List.length
      rw [htake]
      exact (hsub.sum_le_sum fun _ _ => Nat.zero_le _).trans hj.size
    · rw [length_take, Nat.min_eq_left (by omega)]
      exact hmore
  refine tracked_collecting h hj hp hpkt (fun i hij hi => hij (h.alone i j hi hin)) (by omega) ?_
  rw [hreceive, hw]

theorem tracked_last
    (hp : ((emits j).writes J)[s.written j]? = some (eioBinary, b))
    (hpkt : (emits j).packet J = some pkt) (hb : hasBinary ((emits j).payload J) = true)
    (hw : s.written j = w + 1) (hget : ((emits j).buffers J)[w]? = some b)
    (hlast : w + 1 = ((emits j).buffers J).length) :
    Tracked J cfg emits (s.wrote j (eioBinary, b)) := by
  have hlen := Emit.length_writes hpkt
  have hj : (emits j).Sendable J := h.sendable j (by omega)
  have hin : Middle J emits s j := ⟨by omega, by omega⟩
  have htake : ((emits j).buffers J).take w ++ [b] = (emits j).buffers J := by
    have hstep := take_add_one (l := (emits j).buffers J) (i := w)
    rw [hget, hlast, take_length] at hstep
    exact hstep.symm
  obtain ⟨d, hd, hreconstruct⟩ := Emit.reconstruct_packet hj hb hpkt
  have hreceive : receive J cfg (s.wrote j (eioBinary, b)).wire =
      ((receive J cfg s.wire).withBuf none).dispatchPacket J cfg d := by
    rw [receive_attachment h hin hpkt hw, handleBinary_last, Conn.finish]
    · rw [htake, hreconstruct]
    · rw [length_take, Nat.min_eq_left (by omega)]
      exact hlast
  have hnone : ∀ i, ¬ Middle J emits (s.wrote j (eioBinary, b)) i := by
    intro i hi
    by_cases hij : i = j
    · subst hij
      have hlt := hi.2
      rw [wrote_self] at hlt
      omega
    · exact hij (h.alone i j ((middle_wrote_other hij).mp hi) hin)
  refine ⟨bound_wrote h hp, sendable_wrote h hj, fun i _ hi => absurd hi (hnone i), fun _ => ?_,
    fun i _ hi => absurd hi (hnone i), dispatched_snoc h (fun hdone => ?_) ⟨?_, ?_⟩ hd ?_⟩
  · rw [hreceive]
    rfl
  · exact absurd hdone.2 hin.2.ne
  · rw [wrote_self]
    exact Nat.succ_pos _
  · rw [wrote_self]
    omega
  · rw [hreceive, events_dispatchPacket]
    rfl

end

theorem tracked_step {s' : EmitState n} (h : Tracked J cfg emits s)
    (hs : When (Unmixed J emits) (EmitStep J emits) s j s') : Tracked J cfg emits s' := by
  obtain ⟨hcond, hstep⟩ := hs
  cases hstep with
  | @write p hp =>
    change Tracked J cfg emits (s.wrote j p)
    obtain ⟨pkt, hpkt⟩ := Emit.exists_packet hp
    cases hb : hasBinary ((emits j).payload J) with
    | false => exact tracked_text h hcond.1 hp hpkt hb
    | true =>
      cases hw : s.written j with
      | zero => exact tracked_header h hcond hp hpkt hb hw
      | succ w =>
        have hp' := hp
        rw [hw] at hp'
        obtain ⟨b, hget, rfl⟩ := Emit.writes_succ hpkt hp'
        rcases Nat.lt_or_ge (w + 1) ((emits j).buffers J).length with hmore | hge
        · exact tracked_more h hp hpkt hw hget hmore
        · have hlt := (List.getElem?_eq_some_iff.mp hget).1
          exact tracked_last h hp hpkt hb hw hget (by omega)

end

/-! ### Complete runs -/

/-- The events are dispatched, each once and none besides. -/
def Reconstructed (J : Codec S) (emits : Fin n → Emit S) (events : List SioPacket) : Prop :=
  ∃ order : List (Fin n),
    order.Perm ((List.finRange n).filter fun j => ((emits j).packet J).isSome) ∧
    List.Forall₂ (fun j d => (emits j).Represents J d) order events

theorem done_iff {emits : Fin n → Emit S} {s : EmitState n} {j : Fin n}
    (h : s.written j = ((emits j).writes J).length) :
    Done J emits s j ↔ ((emits j).packet J).isSome := by
  rw [Done, h, and_iff_left rfl]
  cases hpkt : (emits j).packet J with
  | none => simp [Emit.writes, hpkt]
  | some pkt => simp [Emit.length_writes hpkt]

/-- **Binary emits do not mix** if no binary event begins while another one is being written: the
receiver dispatches the events that were emitted, each with its own buffers. -/
theorem emits_unmixed {cfg : Config} {emits : Fin n → Emit S} {js : List (Fin n)}
    {s : EmitState n} (hrun : Run (When (Unmixed J emits) (EmitStep J emits)) {} js s)
    (hall : ∀ j, s.written j = ((emits j).writes J).length) :
    Reconstructed J emits (receive J cfg s.wire).events ∧ (receive J cfg s.wire).binaryBuf = none := by
  have htracked : Tracked J cfg emits s :=
    hrun.invariant (fun _ _ _ hs h => tracked_step h hs) (tracked_init J cfg emits)
  obtain ⟨order, hnodup, hmem, hevents⟩ := htracked.dispatched
  refine ⟨⟨order, ?_, hevents⟩, htracked.idle fun j hj => absurd (hall j) hj.2.ne⟩
  refine (perm_ext_iff_of_nodup hnodup ((nodup_finRange n).filter _)).mpr fun j => ?_
  rw [hmem j, done_iff (hall j), mem_filter, and_iff_right (mem_finRange j)]

def twoFiles : Fin 2 → Emit Leaf := fun j =>
  { nsp := [slash]
    event := if j.val = 0 then lit "a" else lit "b"
    args := [.bytes (if j.val = 0 then [1] else [2])] }

theorem twoFiles_sendable (j : Fin 2) : (twoFiles j).Sendable Codec.json where
  nsp := ⟨rfl, (by decide : comma ∉ [slash])⟩
  count := by revert j; decide +kernel
  size := by revert j; decide +kernel
  nested _ := .array fun v hv => by
    rcases mem_pair.mp hv with rfl | rfl
    · exact .scalar _ _
    · exact .bytes _ _
  placeholder _ := .array fun v hv => by
    rcases mem_pair.mp hv with rfl | rfl
    · exact .scalar _
    · exact .bytes _

theorem twoFiles_writes : (twoFiles 0).writes Codec.json =
      [(eioMessage, lit "51-[\"a\",\x7b\"_placeholder\":true,\"num\":0\x7d]"), (eioBinary, [1])] ∧
    (twoFiles 1).writes Codec.json =
      [(eioMessage, lit "51-[\"b\",\x7b\"_placeholder\":true,\"num\":0\x7d]"), (eioBinary, [2])] := by
  decide +kernel

theorem emits_unmixed_twoFiles : ∃ s : EmitState 2,
    (∀ j, s.written j = ((twoFiles j).writes Codec.json).length) ∧
    Reconstructed Codec.json twoFiles (receive Codec.json listening s.wire).events ∧
      (receive Codec.json listening s.wire).binaryBuf = none := by
  obtain ⟨a, a', h0⟩ : ∃ a a', (twoFiles 0).writes Codec.json = [a, a'] := ⟨_, _, twoFiles_writes.1⟩
  obtain ⟨b, b', h1⟩ : ∃ b b', (twoFiles 1).writes Codec.json = [b, b'] := ⟨_, _, twoFiles_writes.2⟩
  have hrun : ∃ s : EmitState 2,
      Run (When (Unmixed Codec.json twoFiles) (EmitStep Codec.json twoFiles)) {} [0, 0, 1, 1] s ∧
      s.written 0 = 2 ∧ s.written 1 = 2 := by
    refine ⟨_, .consWhen (.write (p := a) (by rw [h0]; rfl))
        ⟨twoFiles_sendable 0, fun _ _ i hi => absurd hi.1 (Nat.lt_irrefl 0)⟩ <|
      .consWhen (.write (p := a') (by rw [h0]; rfl))
        ⟨twoFiles_sendable 0, fun h => absurd h Nat.one_ne_zero⟩ <|
      .consWhen (.write (p := b) (by rw [h1]; rfl)) ⟨twoFiles_sendable 1, fun _ _ i hi => ?_⟩ <|
      .consWhen (.write (p := b') (by rw [h1]; rfl))
        ⟨twoFiles_sendable 1, fun h => absurd h Nat.one_ne_zero⟩ .nil, rfl, rfl⟩
    match i with
    | 0 =>
      have hlt := hi.2
      rw [h0] at hlt
      exact absurd hlt (Nat.lt_irrefl 2)
    | 1 => exact absurd hi.1 (Nat.lt_irrefl 0)
  obtain ⟨s, hrun, hs0, hs1⟩ := hrun
  have hcomplete : ∀ j, s.written j = ((twoFiles j).writes Codec.json).length
    | 0 => by rw [h0, hs0]; rfl
    | 1 => by rw [h1, hs1]; rfl
  exact ⟨s, hcomplete, emits_unmixed hrun hcomplete⟩

/-- The header of `b` is written before the bytes of `a`: the receiver dispatches `b` with the bytes
of `a`, and `a` never. -/
theorem emits_mixed : ∃ s : EmitState 2,
    Run (EmitStep Codec.json twoFiles) {} [0, 1, 0, 1] s ∧
    (∀ j, s.written j = ((twoFiles j).writes Codec.json).length) ∧
    (receive Codec.json listening s.wire).events =
      [⟨sioEvent, [slash], none, 1, some (lit "[\"b\",\"AQ==\"]")⟩] ∧
    ¬ Reconstructed Codec.json twoFiles (receive Codec.json listening s.wire).events := by
  have hrun : ∀ a a' b b', (twoFiles 0).writes Codec.json = [a, a'] →
      (twoFiles 1).writes Codec.json = [b, b'] → ∃ s : EmitState 2,
        Run (EmitStep Codec.json twoFiles) {} [0, 1, 0, 1] s ∧
        (∀ j, s.written j = ((twoFiles j).writes Codec.json).length) ∧ s.wire = [a, b, a', b'] := by
    intro a a' b b' h0 h1
    refine ⟨_, .cons (.write (p := a) (by rw [h0]; rfl)) <|
      .cons (.write (p := b) (by rw [h1]; rfl)) <| .cons (.write (p := a') (by rw [h0]; rfl)) <|
      .cons (.write (p := b') (by rw [h1]; rfl)) .nil, fun j => ?_, rfl⟩
    match j with
    | 0 => rw [h0]; rfl
    | 1 => rw [h1]; rfl
  obtain ⟨s, hrun, hcomplete, hwire⟩ := hrun _ _ _ _ twoFiles_writes.1 twoFiles_writes.2
  have hevents : (receive Codec.json listening s.wire).events =
      [⟨sioEvent, [slash], none, 1, some (lit "[\"b\",\"AQ==\"]")⟩] := by
    rw [hwire]
    decide +kernel
  refine ⟨s, hrun, hcomplete, hevents, ?_⟩
  rintro ⟨order, hperm, hall⟩
  have hlength := hall.length_eq
  rw [hevents, hperm.length_eq] at hlength
  exact absurd hlength (by decide +kernel)

end AoniContrib.SocketIO
