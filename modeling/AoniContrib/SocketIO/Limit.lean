/-
# The size limit of attachments: `addBuffer` in `socketio/packet.go`

`addBuffer` answers true when a packet is complete AND when its attachments are too large; the caller
reconstructs in both cases, and `reconstruct` tells them apart by the number of attachments alone.
So an overflow is noticed unless it happens on the last attachment: there the numbers agree, and the
packet is passed to `dispatchPacket` with more bytes than it may have (`limit_enforced_iff`).  The
calls of `dispatchPacket` are read off the log (`events_receives`).

What is retained between two messages never exceeds the limit, and while a message is added, by no
more than that message.
-/
import AoniContrib.SocketIO.Emit

namespace AoniContrib.SocketIO

open Go Concurrency List

variable {S : Type} {J : Codec S} {cfg : Config}

/-! ## 1. The reader as a system -/

def totalSize (buffers : List Bytes) : Nat := (buffers.map List.length).sum

def Receives (J : Codec S) (cfg : Config) (s : Conn) (f : Frame) (t : Conn) : Prop :=
  ∃ pType payload, readSingleEIOPacket f = .ok (pType, payload) ∧
    s.dispatchEIOPacket J cfg pType payload = (t, false)

/-- The last attachment of a packet that can be reconstructed takes it over the limit. -/
def LastOver (J : Codec S) (s : Conn) (f : Frame) : Prop :=
  ∃ br payload, readSingleEIOPacket f = .ok (eioBinary, payload) ∧ s.binaryBuf = some br ∧
    br.buffers.length + 1 = br.attachments ∧
    maxBinaryBufferSize < totalSize (br.buffers ++ [payload]) ∧
    ∃ raws, J.array (br.packet.data.getD []) = some raws ∧ (raws.mapM J.any).isSome

/-- The limit is enforced while the messages are read.  A packet that is dispatched on an attachment
has that one and those collected before it, and any other packet has none (`events_receives`). -/
structure Enforced (J : Codec S) (cfg : Config) (fs : List Frame) : Prop where
  dispatched : ∀ before f s t br payload, before ++ [f] <+: fs → Run (Receives J cfg) {} before s →
    Receives J cfg s f t → readSingleEIOPacket f = .ok (eioBinary, payload) → s.binaryBuf = some br →
    t.events ≠ s.events → totalSize (br.buffers ++ [payload]) ≤ maxBinaryBufferSize
  retained : ∀ before s br, before <+: fs → Run (Receives J cfg) {} before s →
    s.binaryBuf = some br → totalSize br.buffers ≤ maxBinaryBufferSize
  adding : ∀ before f s br pType payload, before ++ [f] <+: fs → Run (Receives J cfg) {} before s →
    s.binaryBuf = some br → readSingleEIOPacket f = .ok (pType, payload) →
    totalSize (br.addBuffer payload).1.buffers ≤ maxBinaryBufferSize + payload.length

/-! ## 2. One message -/

theorem totalSize_snoc (buffers : List Bytes) (b : Bytes) :
    totalSize (buffers ++ [b]) = totalSize buffers + b.length := by
  simp [totalSize]

theorem overLimit_eq : ∀ (buffers : List Bytes) (n : Nat), n ≤ maxBinaryBufferSize →
    overLimit n buffers = decide (maxBinaryBufferSize < n + totalSize buffers)
  | [], n, h => by simpa [overLimit, totalSize] using h
  | buf :: buffers, n, h => by
    have hsum : totalSize (buf :: buffers) = buf.length + totalSize buffers := rfl
    rw [overLimit, hsum, ← Nat.add_assoc]
    split_ifs with hover
    · exact (decide_eq_true (by omega)).symm
    · exact overLimit_eq buffers (n + buf.length) (by omega)

theorem reconstruct_isOk_iff {br : BinaryReconstructor} :
    (∃ pkt, br.reconstruct J = .ok pkt) ↔ br.buffers.length = br.attachments ∧
      ∃ raws, J.array (br.packet.data.getD []) = some raws ∧ (raws.mapM J.any).isSome := by
  unfold BinaryReconstructor.reconstruct
  by_cases hlen : br.buffers.length = br.attachments
  · rw [if_neg (not_not.mpr hlen)]
    cases harray : J.array (br.packet.data.getD []) with
    | none => simp
    | some raws =>
      cases hany : raws.mapM J.any with
      | none => simp [hany]
      | some args => simp [hany, hlen]
  · rw [if_pos hlen]
    simp [hlen]

variable (J cfg) in
theorem events_handleAck (s : Conn) (id : Int64) (data : Option Bytes) :
    (s.handleAck J cfg id data).events = s.events ∧
      (s.handleAck J cfg id data).binaryBuf = s.binaryBuf := by
  unfold Conn.handleAck
  split
  · exact ⟨rfl, rfl⟩
  · split
    · exact ⟨rfl, rfl⟩
    · simp [Conn.events, Effect.packet]

variable (J cfg) in
theorem handleSIOPacket_cases (s : Conn) (payload : Bytes) :
    (∃ pkt, decodeSIOPacket payload = .ok pkt ∧ pkt.type = sioEvent ∧
      s.handleSIOPacket J cfg payload = s.dispatchPacket J cfg pkt) ∨
    ((s.handleSIOPacket J cfg payload).events = s.events ∧
      ((s.handleSIOPacket J cfg payload).binaryBuf = s.binaryBuf ∨
        ∃ br, (s.handleSIOPacket J cfg payload).binaryBuf = some br ∧ br.buffers = [])) := by
  unfold Conn.handleSIOPacket
  cases hdecode : decodeSIOPacket payload with
  | error e => exact .inr ⟨rfl, .inl rfl⟩
  | ok pkt =>
    dsimp only
    by_cases hevent : pkt.type = sioEvent
    · have hne : sioEvent ≠ sioConnect := by decide
      exact .inl ⟨pkt, rfl, hevent, by rw [if_neg (hevent ▸ hne), if_pos hevent]⟩
    · right
      rw [if_neg hevent]
      split_ifs
      · simp [Conn.events, Effect.packet]
      · cases pkt.id with
        | none => exact ⟨rfl, .inl rfl⟩
        | some id =>
          obtain ⟨hevents, hbuf⟩ := events_handleAck J cfg s id pkt.data
          exact ⟨hevents, .inl hbuf⟩
      · exact ⟨rfl, .inr ⟨_, rfl, rfl⟩⟩
      · simp [Conn.events, Effect.packet]
      · exact ⟨rfl, .inl rfl⟩

variable {s t : Conn}

theorem dispatch_cases {pType : UInt8} {payload : Bytes}
    (h : s.dispatchEIOPacket J cfg pType payload = (t, false)) :
    (pType = eioMessage ∧ t = s.handleSIOPacket J cfg payload) ∨
    (pType = eioBinary ∧ t = s.handleBinary J cfg payload) ∨
    (t.binaryBuf = s.binaryBuf ∧ t.events = s.events) := by
  unfold Conn.dispatchEIOPacket at h
  by_cases hclose : pType = eioClose
  · rw [if_pos hclose] at h
    cases h
  rw [if_neg hclose] at h
  by_cases hpong : pType = eioPong
  · rw [if_pos hpong] at h
    cases h
    exact .inr (.inr ⟨rfl, by simp [Conn.events, Effect.packet]⟩)
  rw [if_neg hpong] at h
  by_cases hmessage : pType = eioMessage
  · rw [if_pos hmessage] at h
    split at h <;> cases h
    · exact .inr (.inr ⟨rfl, rfl⟩)
    · exact .inl ⟨hmessage, rfl⟩
  rw [if_neg hmessage] at h
  by_cases hbinary : pType = eioBinary
  · rw [if_pos hbinary] at h
    cases h
    exact .inr (.inl ⟨hbinary, rfl⟩)
  · rw [if_neg hbinary] at h
    cases h
    exact .inr (.inr ⟨rfl, rfl⟩)

variable {f : Frame}

variable (J cfg) in
/-- An attachment dispatches the packet that is reconstructed with it, if there is one. -/
theorem events_handleBinary {br : BinaryReconstructor} (hbuf : s.binaryBuf = some br) (payload : Bytes) :
    (s.handleBinary J cfg payload).events =
      s.events ++ ((br.addBuffer payload).1.reconstruct J).toOption.toList := by
  unfold Conn.handleBinary
  simp only [hbuf]
  split
  · cases (br.addBuffer payload).1.reconstruct J with
    | error e => simp [Conn.events, Except.toOption]
    | ok pkt => exact events_dispatchPacket ..
  · rename_i hmore
    cases hrec : (br.addBuffer payload).1.reconstruct J with
    | error e => simp [Conn.events, Except.toOption]
    | ok pkt =>
      have hlast := (reconstruct_isOk_iff.mp ⟨pkt, hrec⟩).1
      simp [BinaryReconstructor.addBuffer] at hlast hmore
      omega

/-- **What a message dispatches**: nothing, or the event that it is, or the packet that it completes. -/
theorem events_receives (h : Receives J cfg s f t) : t.events = s.events ∨
    (∃ payload pkt, readSingleEIOPacket f = .ok (eioMessage, payload) ∧
      decodeSIOPacket payload = .ok pkt ∧ pkt.type = sioEvent ∧ t.events = s.events ++ [pkt]) ∨
    ∃ br payload pkt, readSingleEIOPacket f = .ok (eioBinary, payload) ∧ s.binaryBuf = some br ∧
      (br.addBuffer payload).1.reconstruct J = .ok pkt ∧ t.events = s.events ++ [pkt] := by
  obtain ⟨pType, payload, hread, hstep⟩ := h
  rcases dispatch_cases hstep with ⟨rfl, rfl⟩ | ⟨rfl, rfl⟩ | ⟨-, hevents⟩
  · rcases handleSIOPacket_cases J cfg s payload with ⟨pkt, hpkt, htype, heq⟩ | ⟨hevents, -⟩
    · exact .inr (.inl ⟨payload, pkt, hread, hpkt, htype, by rw [heq, events_dispatchPacket]⟩)
    · exact .inl hevents
  · cases hbuf : s.binaryBuf with
    | none => exact .inl (by simp only [Conn.handleBinary, hbuf])
    | some br =>
      have hevents := events_handleBinary J cfg hbuf payload
      cases hrec : (br.addBuffer payload).1.reconstruct J with
      | error e => exact .inl (by simpa [hrec, Except.toOption] using hevents)
      | ok pkt =>
        rw [hrec] at hevents
        exact .inr (.inr ⟨br, payload, pkt, hread, rfl, hrec, hevents⟩)
  · exact .inl hevents

/-! ## 3. Runs -/

def Within (s : Conn) : Prop :=
  ∀ br, s.binaryBuf = some br → totalSize br.buffers ≤ maxBinaryBufferSize

theorem within_handleBinary (payload : Bytes) : Within (s.handleBinary J cfg payload) := by
  intro br' hbr
  unfold Conn.handleBinary at hbr
  cases hbuf : s.binaryBuf with
  | none =>
    simp only [hbuf] at hbr
    cases hbr
  | some br =>
    simp only [hbuf] at hbr
    split at hbr
    · split at hbr <;> cases hbr
    · rename_i hno
      cases hbr
      -- it goes on collecting because the sum is not too large
      have hsum := overLimit_eq (br.addBuffer payload).1.buffers 0 (Nat.zero_le _)
      rw [Nat.zero_add] at hsum
      by_contra hover
      refine hno ?_
      have htrue : overLimit 0 (br.buffers ++ [payload]) = true :=
        hsum.trans (decide_eq_true (not_le.mp hover))
      simp only [BinaryReconstructor.addBuffer, htrue, Bool.true_or]

theorem within_step (h : Receives J cfg s f t) (hs : Within s) : Within t := by
  obtain ⟨pType, payload, -, hstep⟩ := h
  rcases dispatch_cases hstep with ⟨-, rfl⟩ | ⟨-, rfl⟩ | ⟨hbuf, -⟩
  · intro br hbr
    rcases handleSIOPacket_cases J _ s payload with ⟨pkt, -, -, heq⟩ | ⟨-, heq | ⟨br', heq, hnil⟩⟩
    · rw [heq] at hbr
      exact hs br hbr
    · rw [heq] at hbr
      exact hs br hbr
    · rw [heq] at hbr
      cases hbr
      rw [hnil]
      exact Nat.zero_le _
  · exact within_handleBinary payload
  · intro br hbr
    rw [hbuf] at hbr
    exact hs br hbr

theorem within_run {fs : List Frame} (h : Run (Receives J cfg) {} fs s) : Within s :=
  h.invariant (fun _ _ _ hstep hs => within_step hstep hs) nofun

theorem lastOver_iff : LastOver J s f ↔
    ∃ t br payload, Receives J cfg s f t ∧ readSingleEIOPacket f = .ok (eioBinary, payload) ∧
      s.binaryBuf = some br ∧ t.events ≠ s.events ∧
      maxBinaryBufferSize < totalSize (br.buffers ++ [payload]) := by
  constructor
  · rintro ⟨br, payload, hread, hbuf, hlast, hover, hjson⟩
    obtain ⟨pkt, hpkt⟩ := reconstruct_isOk_iff.mpr
      (⟨by simpa [BinaryReconstructor.addBuffer] using hlast, hjson⟩ :
        (br.addBuffer payload).1.buffers.length = (br.addBuffer payload).1.attachments ∧ _)
    refine ⟨s.handleBinary J cfg payload, br, payload, ⟨_, _, hread, ?_⟩, hread, hbuf, ?_, hover⟩
    · simp [Conn.dispatchEIOPacket, eioBinary, eioClose, eioPong, eioMessage]
    · rw [events_handleBinary J _ hbuf, hpkt]
      simp [Except.toOption]
  · rintro ⟨t, br, payload, hstep, hread, hbuf, hevents, hover⟩
    rcases events_receives hstep with heq | ⟨_, _, hread', -⟩ | ⟨br', payload', pkt, hread', hbuf', hpkt, -⟩
    · exact absurd heq hevents
    · simp [hread, eioBinary, eioMessage] at hread'
    · cases hbuf.symm.trans hbuf'
      cases hread.symm.trans hread'
      obtain ⟨hlen, hjson⟩ := reconstruct_isOk_iff.mp ⟨pkt, hpkt⟩
      exact ⟨br, payload, hread, hbuf, by simpa [BinaryReconstructor.addBuffer] using hlen, hover, hjson⟩

/-- **The size limit of attachments** is enforced on a sequence of messages exactly when none of
them is the last attachment of a packet that it takes over the limit. -/
theorem limit_enforced_iff (J : Codec S) (cfg : Config) (fs : List Frame) : Enforced J cfg fs ↔
    ∀ before f s, before ++ [f] <+: fs → Run (Receives J cfg) {} before s → ¬ LastOver J s f := by
  constructor
  · intro h before f s hfs hrun hlast
    obtain ⟨t, br, payload, hstep, hread, hbuf, hevents, hover⟩ := lastOver_iff.mp hlast
    exact absurd (h.dispatched _ _ s t br payload hfs hrun hstep hread hbuf hevents) (not_le.mpr hover)
  · intro h
    refine ⟨fun before f s t br payload hfs hrun hstep hread hbuf hevents => ?_,
      fun before s br _ hrun => within_run hrun br, fun before f s br pType payload _ hrun hbuf _ => ?_⟩
    · by_contra hover
      exact h before f s hfs hrun
        (lastOver_iff.mpr ⟨t, br, payload, hstep, hread, hbuf, hevents, not_le.mp hover⟩)
    · have hwithin := within_run hrun br hbuf
      have hadd : (br.addBuffer payload).1.buffers = br.buffers ++ [payload] := rfl
      rw [hadd, totalSize_snoc]
      omega

def fiveHeader : SioPacket := ⟨sioBinaryEvent, [slash], none, 5, some (lit "[\"file\"]")⟩

/-- Four attachments that are as large as a message may be, and one of one byte. -/
def fiveAttachments (b : Bytes) : List Frame :=
  [.text (lit "455-[\"file\"]"), .binary b, .binary b, .binary b, .binary b]

theorem receives_binary (J : Codec S) (cfg : Config) {b : Bytes} (h : Readable b) (s : Conn) :
    Receives J cfg s (.binary b) (s.handleBinary J cfg b) := by
  obtain ⟨hne, hle⟩ := h
  obtain ⟨c, t, rfl⟩ := exists_cons_of_ne_nil hne
  refine ⟨eioBinary, c :: t, if_neg (by omega), ?_⟩
  simp [Conn.dispatchEIOPacket, eioBinary, eioClose, eioPong, eioMessage]

theorem fiveAttachments_lastOver (cfg : Config) {b : Bytes} (hb : b.length = maxEIOPacketSize) :
    ∃ s, Run (Receives Codec.json cfg) {} (fiveAttachments b) s ∧
      LastOver Codec.json s (.binary [0]) := by
  have hmax : maxEIOPacketSize = 8388608 ∧ maxBinaryBufferSize = 33554432 := ⟨rfl, rfl⟩
  have hreadable : Readable b := ⟨by rintro rfl; simp [hmax.1] at hb, hb.le⟩
  have hsize : ∀ n, totalSize (List.replicate n b) = n * 8388608 := by
    intro n
    rw [totalSize, map_replicate, sum_replicate, hb, hmax.1, smul_eq_mul]
  have hdecode : decodeSIOPacket (lit "55-[\"file\"]") = .ok fiveHeader := by decide
  have harray : Codec.json.array (fiveHeader.data.getD []) = some [lit "\"file\""] := by
    decide +kernel
  have hheader : Receives Codec.json cfg {} (.text (lit "455-[\"file\"]"))
      (({} : Conn).withBuf (some ⟨5, [], fiveHeader⟩)) :=
    ⟨eioMessage, lit "55-[\"file\"]", by decide, dispatch_header hdecode rfl⟩
  have hmore : ∀ n < 4, Receives Codec.json cfg
      (({} : Conn).withBuf (some ⟨5, List.replicate n b, fiveHeader⟩)) (.binary b)
      (({} : Conn).withBuf (some ⟨5, List.replicate (n + 1) b, fiveHeader⟩)) := by
    intro n hn
    have hstep := receives_binary Codec.json cfg hreadable
      (({} : Conn).withBuf (some ⟨5, List.replicate n b, fiveHeader⟩))
    have hle : ((List.replicate n b ++ [b]).map List.length).sum ≤ maxBinaryBufferSize := by
      have := hsize (n + 1)
      rw [replicate_succ'] at this
      rw [← totalSize, this, hmax.2]
      omega
    rw [handleBinary_more hle (by simp; omega), ← replicate_succ'] at hstep
    exact hstep
  refine ⟨_, .cons hheader <| .cons (hmore 0 (by omega)) <| .cons (hmore 1 (by omega)) <|
    .cons (hmore 2 (by omega)) <| .cons (hmore 3 (by omega)) .nil, ?_⟩
  refine ⟨⟨5, List.replicate 4 b, fiveHeader⟩, [0], rfl, rfl, by simp, ?_, [lit "\"file\""], harray, ?_⟩
  · rw [totalSize_snoc, hsize, hmax.2]
    decide
  · rw [mapM_cons, fileName_any]
    rfl

/-- **An overflow on the last attachment is not noticed.** -/
theorem limit_not_enforced : ¬ Enforced Codec.json listening
    (fiveAttachments (List.replicate maxEIOPacketSize 0) ++ [.binary [0]]) := by
  intro h
  obtain ⟨s, hrun, hlast⟩ := fiveAttachments_lastOver listening
    (length_replicate (n := maxEIOPacketSize) (a := (0 : UInt8)))
  obtain ⟨t, br, payload, hstep, hread, hbuf, hevents, hover⟩ := lastOver_iff.mp hlast
  exact absurd (h.dispatched _ _ s t br payload (prefix_refl _) hrun hstep hread hbuf hevents)
    (not_le.mpr hover)

end AoniContrib.SocketIO
