/-
# Binary events and binary acknowledgements are received

A binary packet is complete when its last attachment arrives, so one without attachments never is:
it stays in `binaryBuf` and no handler hears of it.  `event_delivered_iff` says that this, and a
frame or a number that the client cannot read, is all that keeps a binary event from being passed to
`dispatchPacket` once, with the buffers in place of their placeholders.

What is reconstructed is always an event.  A binary acknowledgement is dispatched as one too, and
resolves nothing; only a text acknowledgement does (`ack_resolved_iff`).
-/
import AoniContrib.SocketIO.Dispatch

namespace AoniContrib.SocketIO

open Go List

/-! ## 1. Traffic around a binary packet -/

/-- What arrives: a header, its attachments with other packets in front of each, and other packets
around. -/
structure Traffic where
  before : List Frame
  header : Frame
  attached : List (List Frame × Bytes)
  after : List Frame

namespace Traffic

variable (T : Traffic)

def messages : List Frame := T.before ++ T.header :: (attachmentFrames T.attached ++ T.after)

def others : List Frame := T.before ++ T.attached.flatMap Prod.fst

def buffers : List Bytes := T.attached.map Prod.snd

end Traffic

/-- The header of `pkt` and its attachments, and complete text packets besides. -/
structure Carries (T : Traffic) (pkt : SioPacket) : Prop where
  header : ∃ payload, readSingleEIOPacket T.header = .ok (eioMessage, payload) ∧
    decodeSIOPacket payload = .ok pkt
  type : isBinaryType pkt.type = true
  count : T.attached.length = pkt.attachments
  nonempty : ∀ b ∈ T.buffers, b ≠ []
  size : (T.buffers.map List.length).sum ≤ maxBinaryBufferSize
  before : ∀ f ∈ T.before, Harmless f
  between : ∀ a ∈ T.attached, ∀ f ∈ a.1, Harmless f
  after : ∀ f ∈ T.after, Harmless f

variable {S : Type} {J : Codec S} {cfg : Config} {s : Conn} {T : Traffic} {pkt : SioPacket}

theorem dispatch_header {payload : Bytes} (hdecode : decodeSIOPacket payload = .ok pkt)
    (htype : isBinaryType pkt.type = true) :
    s.dispatchEIOPacket J cfg eioMessage payload =
      (s.withBuf (some ⟨pkt.attachments, [], pkt⟩), false) := by
  have hne : payload ≠ [] := by
    rintro rfl
    cases hdecode
  have hle : ¬ maxBinaryAttachments < pkt.attachments := not_lt.mpr (attachments_le_of_decode hdecode)
  have hother : ∀ t : UInt8, isBinaryType t = true → t ≠ sioConnect ∧ t ≠ sioEvent ∧ t ≠ sioAck := by
    grind [isBinaryType, sioConnect, sioEvent, sioAck, sioBinaryEvent, sioBinaryAck]
  obtain ⟨h1, h2, h3⟩ := hother _ htype
  simp only [Conn.dispatchEIOPacket, if_neg (by decide : eioMessage ≠ eioClose),
    if_neg (by decide : eioMessage ≠ eioPong), if_true, if_neg hne, Conn.handleSIOPacket, hdecode,
    if_neg h1, if_neg h2, if_neg h3, if_pos htype, newBinaryReconstructor, if_neg hle, Conn.withBuf]

theorem readLoop_header (h : Carries T pkt) : s.readLoop J cfg T.messages =
      ((s.readLoop J cfg T.before).withBuf (some ⟨pkt.attachments, [], pkt⟩)).readLoop J cfg
        (attachmentFrames T.attached ++ T.after) := by
  obtain ⟨payload, hread, hdecode⟩ := h.header
  rw [Traffic.messages, (readLoop_harmless T.before s h.before).2,
    readLoop_cons hread (dispatch_header hdecode h.type)]

theorem readLoop_messages (h : Carries T pkt) (hpos : 0 < pkt.attachments)
    (hfit : ∀ b ∈ T.buffers, b.length ≤ maxEIOPacketSize) :
    s.readLoop J cfg T.messages =
      ((s.readLoop J cfg T.others).finish J cfg ⟨pkt.attachments, T.buffers, pkt⟩).readLoop J cfg
        T.after := by
  have hne : T.attached ≠ [] := by
    rintro hnil
    rw [← h.count, hnil] at hpos
    exact Nat.lt_irrefl 0 hpos
  have hread : ∀ a ∈ T.attached, Readable a.2 := fun a ha =>
    ⟨h.nonempty _ (mem_map_of_mem ha), hfit _ (mem_map_of_mem ha)⟩
  have hrun := readLoop_attachments J cfg pkt.attachments pkt T.after T.attached []
    (s.readLoop J cfg T.before) hne h.between hread h.size
    (by rw [length_nil, Nat.zero_add, h.count])
  rw [readLoop_header h, hrun, Traffic.others, (readLoop_harmless T.before s h.before).2]
  rfl

theorem readLoop_tooLarge {k : Nat} (after : List Frame) :
    ∀ (attached : List (List Frame × Bytes)) (first : List Bytes) (s : Conn),
    (∃ a ∈ attached, maxEIOPacketSize < a.2.length) →
    (∀ a ∈ attached, ∀ f ∈ a.1, Harmless f) → (∀ a ∈ attached, a.2 ≠ []) →
    ((first ++ attached.map Prod.snd).map List.length).sum ≤ maxBinaryBufferSize →
    first.length + attached.length = k →
    ((s.withBuf (some ⟨k, first, pkt⟩)).readLoop J cfg
      (attachmentFrames attached ++ after)).binaryBuf ≠ none
  | [], _, _, hbig, _, _, _, _ => by
    obtain ⟨a, ha, -⟩ := hbig
    cases ha
  | (noise, b) :: attached, first, s, hbig, hnoise, hnonempty, hsize, hk => by
    have hn := hnoise _ mem_cons_self
    rw [attachmentFrames, flatMap_cons, ← attachmentFrames, append_assoc,
      append_assoc, (readLoop_harmless noise _ hn).2, readLoop_withBuf hn,
      singleton_append]
    by_cases hb : b.length ≤ maxEIOPacketSize
    · have hrest : ∃ a ∈ attached, maxEIOPacketSize < a.2.length := by
        obtain ⟨a, ha, hlt⟩ := hbig
        rcases mem_cons.mp ha with rfl | ha
        · exact absurd hb (not_le.mpr hlt)
        · exact ⟨a, ha, hlt⟩
      have hpos : 0 < attached.length := by
        obtain ⟨a, ha, -⟩ := hrest
        exact length_pos_of_mem ha
      have hassoc : first ++ ((noise, b) :: attached).map Prod.snd =
          (first ++ [b]) ++ attached.map Prod.snd := by simp
      rw [hassoc] at hsize
      have hfirst : ((first ++ [b]).map List.length).sum ≤ maxBinaryBufferSize := by
        rw [map_append, sum_append] at hsize
        omega
      rw [length_cons] at hk
      have hmore : first.length + 1 < k := by omega
      have hcount : (first ++ [b]).length + attached.length = k := by
        rw [length_append, length_singleton]
        omega
      rw [readLoop_binary ⟨hnonempty _ mem_cons_self, hb⟩, handleBinary_more hfirst hmore]
      exact readLoop_tooLarge after attached (first ++ [b]) _ hrest
        (forall_mem_cons.mp hnoise).2
        (forall_mem_cons.mp hnonempty).2 hsize hcount
    · obtain ⟨c, t, rfl⟩ := exists_cons_of_ne_nil (hnonempty _ mem_cons_self)
      have hread : readSingleEIOPacket (.binary (c :: t)) = .error .tooLarge := if_pos (not_le.mp hb)
      rw [Conn.readLoop, hread]
      exact Option.some_ne_none _

/-! ## 2. Events -/

/-- A binary event whose JSON is an array with the event's name in front, and whose placeholders
have the numbers of its attachments. -/
structure IsEvent (J : Codec S) (pkt : SioPacket) (raws : List Bytes) : Prop where
  type : pkt.type = sioBinaryEvent
  data : J.array (pkt.data.getD []) = some raws
  name : ∃ raw ∈ raws.head?, (J.string raw).isSome
  placed : ∀ raw ∈ raws, ∀ v, J.any raw = some v → WellPlaced J pkt.attachments v

/-- The event is passed to `dispatchPacket` once, when the last attachment has arrived, with the
buffers in place of their placeholders; the other packets do what they do alone; and nothing is left
to reconstruct. -/
def Delivered (J : Codec S) (cfg : Config) (s : Conn) (T : Traffic) (pkt : SioPacket)
    (raws : List Bytes) : Prop :=
  ∃ args ws, raws.mapM J.any = some args ∧ Replaced J T.buffers (.array args) (.array ws) ∧
    (s.readLoop J cfg T.messages).log = (s.readLoop J cfg T.others).log ++
      dispatchEffects J cfg { pkt with type := sioEvent, data := J.marshal (.array ws) } ++
      ((s.readLoop J cfg T.others).quiet.readLoop J cfg T.after).log ∧
    (s.readLoop J cfg T.messages).binaryBuf = none

theorem exists_mapM {α β : Type} {f : α → Option β} : ∀ {as : List α},
    (∀ a ∈ as, (f a).isSome) → ∃ bs, as.mapM f = some bs ∧ ∀ b ∈ bs, ∃ a ∈ as, f a = some b
  | [], _ => ⟨[], rfl, by simp⟩
  | a :: as, h => by
    obtain ⟨b, hb⟩ := Option.isSome_iff_exists.mp (h a mem_cons_self)
    obtain ⟨bs, hbs, hmem⟩ := exists_mapM fun c hc => h c (mem_cons_of_mem a hc)
    refine ⟨b :: bs, by rw [mapM_cons, hb, hbs]; rfl, fun c hc => ?_⟩
    rcases mem_cons.mp hc with rfl | hc
    · exact ⟨a, mem_cons_self, hb⟩
    · obtain ⟨d, hd, hdc⟩ := hmem c hc
      exact ⟨d, mem_cons_of_mem a hd, hdc⟩

theorem isSome_of_mapM {α β : Type} {f : α → Option β} : ∀ {as : List α} {bs : List β},
    as.mapM f = some bs → ∀ a ∈ as, (f a).isSome
  | a :: as, bs, h, c, hc => by
    rw [mapM_cons] at h
    cases ha : f a with
    | none =>
      rw [ha] at h
      cases h
    | some b =>
      rcases mem_cons.mp hc with rfl | hc
      · rw [ha]
        rfl
      · cases has : as.mapM f with
        | none =>
          rw [ha, has] at h
          cases h
        | some bs' => exact isSome_of_mapM has c hc

theorem reconstruct_ok (br : BinaryReconstructor) {raws : List Bytes} {args : List (Value S)}
    (hcount : br.buffers.length = br.attachments)
    (hdata : J.array (br.packet.data.getD []) = some raws) (hargs : raws.mapM J.any = some args) :
    br.reconstruct J = .ok { br.packet with
      data := J.marshal (.array (args.map (reconstructBinary J br.buffers)))
      type := sioEvent } := by
  simp only [BinaryReconstructor.reconstruct, ne_eq, hcount, not_true_eq_false, if_false, hdata, hargs]

theorem finish_log (cfg : Config) (t : Conn) {br : BinaryReconstructor} {after : List Frame}
    {p : SioPacket} (hafter : ∀ f ∈ after, Harmless f) (hp : br.reconstruct J = .ok p) :
    ((t.finish J cfg br).readLoop J cfg after).log =
      t.log ++ dispatchEffects J cfg p ++ (t.quiet.readLoop J cfg after).log ∧
    ((t.finish J cfg br).readLoop J cfg after).binaryBuf = none := by
  have hfinish : t.finish J cfg br = (t.withBuf none).dispatchPacket J cfg p := by
    rw [Conn.finish, hp]
  rw [(readLoop_harmless after _ hafter).1, hfinish]
  exact ⟨rfl, rfl⟩

/-- **Binary events are delivered once and complete** exactly when they have an attachment, the
reader accepts the size of each, and `encoding/json` decodes the arguments. -/
theorem event_delivered_iff {raws : List Bytes} (h : Carries T pkt) (hevent : IsEvent J pkt raws) :
    Delivered J cfg s T pkt raws ↔
      0 < pkt.attachments ∧ (∀ b ∈ T.buffers, b.length ≤ maxEIOPacketSize) ∧
        ∀ raw ∈ raws, (J.any raw).isSome := by
  have hcount : T.buffers.length = pkt.attachments := by
    rw [Traffic.buffers, length_map, h.count]
  constructor
  · rintro ⟨args, ws, hargs, -, -, hbuf⟩
    refine ⟨Nat.pos_of_ne_zero fun hzero => ?_, fun b hb => not_lt.mp fun hlt => ?_,
      isSome_of_mapM hargs⟩
    · have hnil : T.attached = [] := length_eq_zero_iff.mp (h.count.trans hzero)
      rw [readLoop_header h, hnil, attachmentFrames, flatMap_nil, nil_append,
        readLoop_withBuf h.after] at hbuf
      cases hbuf
    · obtain ⟨a, ha, rfl⟩ := mem_map.mp hb
      rw [readLoop_header h] at hbuf
      exact readLoop_tooLarge T.after T.attached [] _ ⟨a, ha, hlt⟩ h.between
        (fun c hc => h.nonempty _ (mem_map_of_mem hc)) h.size
        (by rw [length_nil, Nat.zero_add, h.count]) hbuf
  · rintro ⟨hpos, hfit, hany⟩
    obtain ⟨args, hargs, hmem⟩ := exists_mapM hany
    have hplaced : WellPlaced J T.buffers.length (.array args) := by
      rw [hcount]
      refine .array fun v hv => ?_
      obtain ⟨raw, hraw, hv⟩ := hmem v hv
      exact hevent.placed raw hraw v hv
    have hreplaced := replaced_reconstructBinary hplaced
    rw [reconstructBinary, reconstructItems_eq] at hreplaced
    have hok := reconstruct_ok ⟨pkt.attachments, T.buffers, pkt⟩ hcount hevent.data hargs
    obtain ⟨hlog, hbuf⟩ := finish_log cfg (s.readLoop J cfg T.others) h.after hok
    rw [← readLoop_messages h hpos hfit] at hlog hbuf
    exact ⟨args, _, hargs, hreplaced, hlog, hbuf⟩

/-! ### An event with one attachment, and one with none -/

theorem harmless_pong : Harmless (.text (lit "3")) :=
  ⟨eioPong, [], rfl, by decide, by decide, fun h => absurd h (by decide)⟩

def listening : Config := ⟨[slash], fun _ _ => true, _, resolvePending_mem⟩

/-- `["file",{"_placeholder":true,"num":0}]`, a pong, and the attachment. -/
def fileTraffic : Traffic where
  before := []
  header := .text (lit "451-[\"file\",\x7b\"_placeholder\":true,\"num\":0\x7d]")
  attached := [([.text (lit "3")], [0xca, 0xfe])]
  after := []

def filePacket : SioPacket where
  type := sioBinaryEvent
  nsp := [slash]
  attachments := 1
  data := some (lit "[\"file\",\x7b\"_placeholder\":true,\"num\":0\x7d]")

def fileArgs : List Bytes := [lit "\"file\"", lit "\x7b\"_placeholder\":true,\"num\":0\x7d"]

theorem fileTraffic_carries : Carries fileTraffic filePacket where
  header := ⟨lit "51-[\"file\",\x7b\"_placeholder\":true,\"num\":0\x7d]", rfl, by decide +kernel⟩
  type := rfl
  count := rfl
  nonempty := by decide
  size := by decide
  before := by simp [fileTraffic]
  between := by simpa [fileTraffic] using harmless_pong
  after := by simp [fileTraffic]

def fileName : Value Leaf := .scalar (.str (lit "file"))

def filePlaceholder : Value Leaf :=
  .map [(lit "_placeholder", .scalar (.bool true)), (lit "num", .scalar (.num 0))]

theorem fileName_any : Codec.json.any (lit "\"file\"") = some fileName := by
  have htext : lit "\"file\"" = fileName.toJson.render (quote .asciiOnly) := by decide +kernel
  rw [htext, Codec.json_any]
  exact Codec.jsonAny_toJson (v := fileName) (by decide +kernel) (by decide +kernel)

theorem filePlaceholder_any :
    Codec.json.any (lit "\x7b\"_placeholder\":true,\"num\":0\x7d") = some filePlaceholder := by
  have htext : lit "\x7b\"_placeholder\":true,\"num\":0\x7d" =
      filePlaceholder.toJson.render (quote .asciiOnly) := by decide +kernel
  rw [htext, Codec.json_any]
  exact Codec.jsonAny_toJson (v := filePlaceholder) (by decide +kernel) (by decide +kernel)

theorem filePacket_isEvent : IsEvent Codec.json filePacket fileArgs where
  type := rfl
  data := by decide +kernel
  name := ⟨_, rfl, by decide +kernel⟩
  placed := by
    intro raw hraw v hv
    rcases mem_pair.mp hraw with rfl | rfl
    · cases fileName_any.symm.trans hv
      exact .scalar _
    · cases filePlaceholder_any.symm.trans hv
      exact .placeholder (by decide +kernel) (by decide +kernel) Nat.zero_lt_one

theorem event_delivered_iff_file :
    Delivered Codec.json listening {} fileTraffic filePacket fileArgs := by
  refine (event_delivered_iff fileTraffic_carries filePacket_isEvent).mpr
    ⟨Nat.zero_lt_one, by decide, fun raw hraw => ?_⟩
  rcases mem_pair.mp hraw with rfl | rfl
  · rw [fileName_any]
    rfl
  · rw [filePlaceholder_any]
    rfl

def emptyTraffic : Traffic where
  before := []
  header := .text (lit "450-[\"ping\"]")
  attached := []
  after := []

def emptyPacket : SioPacket where
  type := sioBinaryEvent
  nsp := [slash]
  data := some (lit "[\"ping\"]")

/-- It is a binary event as the protocol has it, but it is never dispatched, and the reconstructor
stays. -/
theorem event_not_delivered : Carries emptyTraffic emptyPacket ∧
    IsEvent Codec.json emptyPacket [lit "\"ping\""] ∧
    (({} : Conn).readLoop Codec.json listening emptyTraffic.messages).log = [] ∧
    (({} : Conn).readLoop Codec.json listening emptyTraffic.messages).binaryBuf =
      some ⟨0, [], emptyPacket⟩ := by
  have hname : lit "\"ping\"" =
      (Value.scalar (.str (lit "ping"))).toJson.render (quote .asciiOnly) := by decide +kernel
  have hany : Codec.json.any (lit "\"ping\"") = some (.scalar (.str (lit "ping"))) := by
    rw [hname, Codec.json_any]
    exact Codec.jsonAny_toJson (v := .scalar (.str (lit "ping"))) (by decide +kernel)
      (by decide +kernel)
  refine ⟨⟨⟨lit "50-[\"ping\"]", rfl, by decide +kernel⟩, rfl, rfl, by decide, by decide,
    by simp [emptyTraffic], by simp [emptyTraffic], by simp [emptyTraffic]⟩,
    ⟨rfl, by decide +kernel, ⟨_, rfl, by decide +kernel⟩, ?_⟩, by decide +kernel, by decide +kernel⟩
  intro raw hraw v hv
  rw [mem_singleton.mp hraw, hany] at hv
  cases hv
  exact .scalar _

/-! ## 3. Acknowledgements -/

/-- An acknowledgement of `n`, text or binary, whose JSON is an array, and its attachments. -/
structure Acknowledges (J : Codec S) (header : Frame) (buffers : List Bytes) (pkt : SioPacket)
    (n : Int64) (raws : List Bytes) : Prop where
  header : ∃ payload, readSingleEIOPacket header = .ok (eioMessage, payload) ∧
    decodeSIOPacket payload = .ok pkt
  type : pkt.type = sioAck ∨ pkt.type = sioBinaryAck
  id : pkt.id = some n
  data : J.array (pkt.data.getD []) = some raws
  count : buffers.length = pkt.attachments
  attached : pkt.type = sioBinaryAck → 0 < pkt.attachments
  size : (buffers.map List.length).sum ≤ maxBinaryBufferSize

/-- The arguments that the acknowledgement carries, with the buffers in place. -/
def ackArguments (J : Codec S) (raws buffers : List Bytes) : Option (List Bytes) :=
  if buffers = [] then some raws
  else do
    let args ← raws.mapM J.any
    let data ← J.marshal (.array (args.map (reconstructBinary J buffers)))
    J.array data

/-- The pending acknowledgement is resolved, once, with the arguments, and no handler is called. -/
def Resolved (J : Codec S) (cfg : Config) (s : Conn) (header : Frame) (buffers : List Bytes)
    (n : Int64) (raws : List Bytes) : Prop :=
  ∃ args, ackArguments J raws buffers = some args ∧
    (s.readLoop J cfg (header :: buffers.map .binary)).pending = s.pending.erase n ∧
    (s.readLoop J cfg (header :: buffers.map .binary)).log = s.log ++ [.ack n args]

theorem handleBinary_pending (J : Codec S) (cfg : Config) (s : Conn) (b : Bytes) :
    (s.handleBinary J cfg b).pending = s.pending := by
  unfold Conn.handleBinary
  split
  · rfl
  · split
    · split <;> rfl
    · rfl

theorem readLoop_binary_pending (J : Codec S) (cfg : Config) : ∀ (buffers : List Bytes) (s : Conn),
    (s.readLoop J cfg (buffers.map .binary)).pending = s.pending
  | [], _ => rfl
  | b :: buffers, s => by
    rw [map_cons]
    by_cases h : Readable b
    · rw [readLoop_binary h, readLoop_binary_pending J cfg buffers, handleBinary_pending]
    · -- the reader stops
      have hstop : ∃ e, readSingleEIOPacket (.binary b) = .error e := by
        cases b with
        | nil => exact ⟨.eof, rfl⟩
        | cons c t =>
          refine ⟨.tooLarge, if_pos (not_le.mp fun hle => h ⟨cons_ne_nil c t, hle⟩)⟩
      obtain ⟨e, he⟩ := hstop
      rw [Conn.readLoop, he]

theorem dispatch_ack {payload : Bytes} {n : Int64} {raws : List Bytes}
    (hdecode : decodeSIOPacket payload = .ok pkt) (htype : pkt.type = sioAck)
    (hid : pkt.id = some n) (hdata : J.array (pkt.data.getD []) = some raws) (hn : n ∈ s.pending) :
    s.dispatchEIOPacket J cfg eioMessage payload =
      ({ s with pending := s.pending.erase n, log := s.log ++ [.ack n raws] }, false) := by
  have hne : payload ≠ [] := by
    rintro rfl
    cases hdecode
  simp only [Conn.dispatchEIOPacket, if_neg (by decide : eioMessage ≠ eioClose),
    if_neg (by decide : eioMessage ≠ eioPong), if_true, if_neg hne, Conn.handleSIOPacket, hdecode,
    htype, if_neg (by decide : sioAck ≠ sioConnect), if_neg (by decide : sioAck ≠ sioEvent), hid,
    Conn.handleAck, hdata, cfg.resolve_mem _ _ hn]

/-- **Only text acknowledgements acknowledge**: a pending acknowledgement is resolved by the packet
that answers it exactly when that is a text packet. -/
theorem ack_resolved_iff {header : Frame} {buffers : List Bytes} {n : Int64} {raws : List Bytes}
    (h : Acknowledges J header buffers pkt n raws) (hn : n ∈ s.pending) :
    Resolved J cfg s header buffers n raws ↔ pkt.type = sioAck := by
  obtain ⟨payload, hread, hdecode⟩ := h.header
  constructor
  · rintro ⟨args, -, hpending, -⟩
    refine h.type.resolve_right fun hbinary => ?_
    have htype : isBinaryType pkt.type = true := by
      rw [hbinary]
      decide
    rw [readLoop_cons hread (dispatch_header hdecode htype), readLoop_binary_pending] at hpending
    have hlength := congrArg List.length hpending
    rw [length_erase_of_mem hn] at hlength
    have hpos := length_pos_of_mem hn
    change s.pending.length = s.pending.length - 1 at hlength
    omega
  · intro htype
    have hzero := attachments_eq_zero_of_decode hdecode (by rw [htype]; rfl)
    have hnil : buffers = [] := length_eq_zero_iff.mp (h.count.trans hzero)
    refine ⟨raws, by rw [ackArguments, if_pos hnil], ?_⟩
    rw [hnil, map_nil, readLoop_cons hread (dispatch_ack hdecode htype h.id h.data hn)]
    exact ⟨rfl, rfl⟩

theorem textAck_acknowledges : Acknowledges Codec.json (.text (lit "437[\"ok\"]")) []
      ⟨sioAck, [slash], some 7, 0, some (lit "[\"ok\"]")⟩ 7 [lit "\"ok\""] where
  header := ⟨lit "37[\"ok\"]", rfl, by decide +kernel⟩
  type := .inl rfl
  id := rfl
  data := by decide +kernel
  count := rfl
  attached h := absurd h (by decide)
  size := by decide

theorem ack_resolved_iff_text :
    Resolved Codec.json listening { pending := [7] } (.text (lit "437[\"ok\"]")) [] 7 [lit "\"ok\""] :=
  (ack_resolved_iff textAck_acknowledges (by decide)).mpr rfl

theorem binaryAck_acknowledges :
    Acknowledges Codec.json (.text (lit "461-7[\"file\",\x7b\"_placeholder\":true,\"num\":0\x7d]"))
      [[0xca, 0xfe]] ⟨sioBinaryAck, [slash], some 7, 1, filePacket.data⟩ 7 fileArgs where
  header := ⟨lit "61-7[\"file\",\x7b\"_placeholder\":true,\"num\":0\x7d]", rfl, by decide +kernel⟩
  type := .inr rfl
  id := rfl
  data := by decide +kernel
  count := rfl
  attached _ := Nat.zero_lt_one
  size := by decide

/-- It resolves nothing: the acknowledgement stays pending, and the handler of the event `file` is
called. -/
theorem ack_not_resolved : ∃ pkt, Acknowledges Codec.json
      (.text (lit "461-7[\"file\",\x7b\"_placeholder\":true,\"num\":0\x7d]")) [[0xca, 0xfe]] pkt 7
      fileArgs ∧
    (({ pending := [7] } : Conn).readLoop Codec.json listening
      [.text (lit "461-7[\"file\",\x7b\"_placeholder\":true,\"num\":0\x7d]"),
        .binary [0xca, 0xfe]]).pending = [7] ∧
    Effect.handler [slash] (lit "file") [lit "\"yv4=\""] ∈
      (({ pending := [7] } : Conn).readLoop Codec.json listening
        [.text (lit "461-7[\"file\",\x7b\"_placeholder\":true,\"num\":0\x7d]"),
          .binary [0xca, 0xfe]]).log :=
  ⟨_, binaryAck_acknowledges, by decide +kernel, by decide +kernel⟩

end AoniContrib.SocketIO
