/-
# Socket.IO packets: `socketio/packet.go`

A packet is a type, for the binary types a count of attachments and a dash, a namespace and a comma
unless it is `/`, an acknowledgement id, and JSON.  Nothing stands between the last three: the
decoder tells them apart by their first byte, `/`, a digit, and whatever else.  For the packets of
`Encodable` that is enough, and they are decoded to themselves (`decode_encode`).

The decoder works on the rest of the data where the source has an offset into it.
-/
import AoniContrib.Go.Strconv

namespace AoniContrib.SocketIO

open Go List

/-! ## 1. Types of packets -/

def eioClose : UInt8 := 0x31
def eioPing : UInt8 := 0x32
def eioPong : UInt8 := 0x33
def eioMessage : UInt8 := 0x34
def eioBinary : UInt8 := 0x62

def sioConnect : UInt8 := 0x30
def sioDisconnect : UInt8 := 0x31
def sioEvent : UInt8 := 0x32
def sioAck : UInt8 := 0x33
def sioConnectError : UInt8 := 0x34
def sioBinaryEvent : UInt8 := 0x35
def sioBinaryAck : UInt8 := 0x36

def sioTypes : List UInt8 :=
  [sioConnect, sioDisconnect, sioEvent, sioAck, sioConnectError, sioBinaryEvent, sioBinaryAck]

def isBinaryType (t : UInt8) : Bool := t == sioBinaryEvent || t == sioBinaryAck

def maxBinaryAttachments : Nat := 64

/-- A packet; `Data` is `none` where the source has nil. -/
structure SioPacket where
  type : UInt8
  nsp : Bytes
  id : Option Int64 := none
  attachments : Nat := 0
  data : Option Bytes := none
  deriving DecidableEq, Repr

variable {data rest : Bytes} {pkt : SioPacket}

/-! ## 2. The encoder and the decoder -/

def namespaceText (nsp : Bytes) : Bytes :=
  if nsp ≠ [] ∧ nsp ≠ [slash] then nsp ++ [comma] else []

def idText : Option Int64 → Bytes
  | some id => formatInt id
  | none => []

/-- What follows the type and the count: the namespace, the id and the JSON. -/
def encodeFields (pkt : SioPacket) : Bytes :=
  namespaceText pkt.nsp ++ (idText pkt.id ++ pkt.data.getD [])

def encodeSIOPacket (pkt : SioPacket) : Bytes :=
  if isBinaryType pkt.type then pkt.type :: decimal pkt.attachments ++ minus :: encodeFields pkt
  else pkt.type :: encodeFields pkt

inductive DecodeError where
  /-- `ErrEmptyPacket`. -/
  | emptyPacket
  /-- "aoni/socketio: invalid attachment count" and the text. -/
  | invalidAttachmentCount (text : Bytes)
  deriving DecidableEq, Repr

/-- `parseAttachments`: the count, and what is behind its dash. -/
def parseAttachments (data : Bytes) : Except DecodeError (Nat × Bytes) :=
  let text := data.takeWhile (· ≠ minus)
  let (attachments, err) := parseInt text
  if err ≠ none ∨ attachments < 0 ∨ (maxBinaryAttachments : Int) < attachments.toInt then
    .error (.invalidAttachmentCount text)
  else .ok (attachments.toInt.toNat, (data.dropWhile (· ≠ minus)).drop 1)

def parseNamespace (data : Bytes) : Bytes × Bytes :=
  if data.head? = some slash then
    (data.takeWhile (· ≠ comma), (data.dropWhile (· ≠ comma)).drop 1)
  else ([slash], data)

/-- `parseAckID`.  The error of `ParseInt` is dropped: an id out of range is the largest one. -/
def parseAckID (data : Bytes) : Option Int64 × Bytes :=
  if data.head?.any isDigit then
    (some (parseInt (data.takeWhile isDigit)).1, data.dropWhile isDigit)
  else (none, data)

/-- The rest of a packet whose type and count are known. -/
def decodeFields (type : UInt8) (attachments : Nat) (data : Bytes) : SioPacket :=
  let (nsp, data) := parseNamespace data
  let (id, data) := parseAckID data
  { type, nsp, id, attachments, data := if data = [] then none else some data }

def decodeSIOPacket : Bytes → Except DecodeError SioPacket
  | [] => .error .emptyPacket
  | type :: data =>
    if isBinaryType type then do
      let (attachments, data) ← parseAttachments data
      .ok (decodeFields type attachments data)
    else .ok (decodeFields type 0 data)

theorem attachments_le_of_parse {n : Nat}
    (h : parseAttachments data = .ok (n, rest)) : n ≤ maxBinaryAttachments := by
  simp only [parseAttachments] at h
  split at h
  · cases h
  · rename_i hrange
    simp only [not_or, not_lt] at hrange
    cases h
    omega

theorem attachments_le_of_decode (h : decodeSIOPacket data = .ok pkt) : pkt.attachments ≤ maxBinaryAttachments := by
  cases data with
  | nil => cases h
  | cons type data =>
    rw [decodeSIOPacket] at h
    split at h
    · cases hp : parseAttachments data with
      | error e =>
        rw [hp] at h
        cases h
      | ok p =>
        rw [hp] at h
        cases h
        exact attachments_le_of_parse hp
    · cases h
      exact Nat.zero_le _

theorem attachments_eq_zero_of_decode (h : decodeSIOPacket data = .ok pkt) (htext : isBinaryType pkt.type = false) :
    pkt.attachments = 0 := by
  cases data with
  | nil => cases h
  | cons type data =>
    rw [decodeSIOPacket] at h
    split at h
    · rename_i hbin
      cases hp : parseAttachments data with
      | error e =>
        rw [hp] at h
        cases h
      | ok p =>
        rw [hp] at h
        cases h
        exact absurd (hbin.symm.trans htext) (by decide)
    · cases h
      rfl

/-! ## 3. Round trip -/

structure Encodable (pkt : SioPacket) : Prop where
  type : pkt.type ∈ sioTypes
  nsp : pkt.nsp.head? = some slash ∧ comma ∉ pkt.nsp
  id : ∀ id ∈ pkt.id, 0 ≤ id
  attachments : pkt.attachments ≤ maxBinaryAttachments
  text : isBinaryType pkt.type = false → pkt.attachments = 0
  /-- JSON arrays and objects begin with a bracket or a brace. -/
  data : ∀ data ∈ pkt.data, data.head? = some 0x5b ∨ data.head? = some 0x7b

theorem parseAttachments_decimal {n : Nat} (h : n ≤ maxBinaryAttachments) (rest : Bytes) :
    parseAttachments (decimal n ++ minus :: rest) = .ok (n, rest) := by
  have hn : n ≤ 64 := h
  have hminus : ∀ b ∈ decimal n, decide (b ≠ minus) = true := by
    have hno : ∀ b : UInt8, isDigit b = true → decide (b ≠ minus) = true := by grind [isDigit]
    exact fun b hb => hno b (isDigit_of_mem_decimal hb)
  have hint : (Int64.ofInt n).toInt = n := Int64.toInt_ofInt_of_le (by omega) (by omega)
  have htake : (decimal n ++ minus :: rest).takeWhile (· ≠ minus) = decimal n := by
    rw [takeWhile_append_of_pos hminus, takeWhile_cons_of_neg (by simp), append_nil]
  have hdrop : (decimal n ++ minus :: rest).dropWhile (· ≠ minus) = minus :: rest := by
    rw [dropWhile_append_of_pos hminus, dropWhile_cons_of_neg (by simp)]
  have hrange : ¬ ((none : Option NumError) ≠ none ∨ Int64.ofInt n < 0 ∨
      (maxBinaryAttachments : Int) < n) := by
    rw [Int64.lt_iff_toInt_lt, hint, maxBinaryAttachments]
    simp only [ne_eq, not_true_eq_false, false_or, Int64.toInt_zero]
    omega
  simp only [parseAttachments, htake, hdrop, parseInt_decimal_le (by omega : n < 2 ^ 63),
    if_neg hrange, hint, Int.toNat_natCast, drop_succ_cons, drop_zero]

theorem parseNamespace_encoded {nsp : Bytes} (hhead : nsp.head? = some slash)
    (hcomma : comma ∉ nsp) (hrest : nsp = [slash] → rest.head? ≠ some slash) :
    parseNamespace (namespaceText nsp ++ rest) = (nsp, rest) := by
  have hnil : nsp ≠ [] := by
    rintro rfl
    cases hhead
  by_cases hroot : nsp = [slash]
  · rw [namespaceText, if_neg (by simp [hroot]), nil_append, parseNamespace,
      if_neg (hrest hroot), hroot]
  · have hall : ∀ b ∈ nsp, decide (b ≠ comma) = true := by
      intro b hb
      exact decide_eq_true fun h => hcomma (h ▸ hb)
    have hstart : (nsp ++ [comma] ++ rest).head? = some slash := by
      rw [append_assoc, head?_append, hhead]
      rfl
    rw [namespaceText, if_pos ⟨hnil, hroot⟩, parseNamespace, if_pos hstart, append_assoc,
      singleton_append, takeWhile_append_of_pos hall, dropWhile_append_of_pos hall,
      takeWhile_cons_of_neg (by simp), dropWhile_cons_of_neg (by simp), append_nil]
    rfl

theorem parseAckID_encoded {id : Option Int64} (hid : ∀ n ∈ id, 0 ≤ n)
    (hrest : ∀ b ∈ rest.head?, isDigit b = false) :
    parseAckID (idText id ++ rest) = (id, rest) := by
  cases id with
  | none =>
    have hno : ¬ rest.head?.any isDigit = true := by
      cases rest with
      | nil => simp
      | cons b rest => simp [hrest b rfl]
    exact if_neg hno
  | some n =>
    have hn : 0 ≤ n.toInt := by simpa using Int64.le_iff_toInt_le.mp (hid n rfl)
    have hlt : n.toInt < 2 ^ 63 := n.toInt_lt
    have htext : formatInt n = decimal n.toInt.natAbs := by rw [formatInt, if_neg (by omega)]
    have hback : Int64.ofInt (n.toInt.natAbs : Int) = n := by
      rw [Int.natAbs_of_nonneg hn, Int64.ofInt_toInt]
    have hdigits : ∀ b ∈ decimal n.toInt.natAbs, isDigit b = true :=
      fun b hb => isDigit_of_mem_decimal hb
    obtain ⟨c, t, hct⟩ := exists_cons_of_ne_nil (decimal_ne_nil n.toInt.natAbs)
    have hstart : (decimal n.toInt.natAbs ++ rest).head?.any isDigit = true := by
      rw [hct]
      exact hdigits c (by rw [hct]; exact mem_cons_self)
    have hend : rest.takeWhile isDigit = [] ∧ rest.dropWhile isDigit = rest := by
      cases rest with
      | nil => exact ⟨rfl, rfl⟩
      | cons b rest => simp [hrest b rfl]
    rw [idText, htext, parseAckID, if_pos hstart, takeWhile_append_of_pos hdigits,
      dropWhile_append_of_pos hdigits, hend.1, hend.2, append_nil,
      parseInt_decimal_le (by omega), hback]

theorem idText_head {id : Option Int64} (hid : ∀ n ∈ id, 0 ≤ n)
    (hdata : id = none → data.head? ≠ some slash) :
    (idText id ++ data).head? ≠ some slash := by
  cases id with
  | none => exact hdata rfl
  | some n =>
    have hn : 0 ≤ n.toInt := by simpa using Int64.le_iff_toInt_le.mp (hid n rfl)
    have htext : formatInt n = decimal n.toInt.natAbs := by rw [formatInt, if_neg (by omega)]
    obtain ⟨c, t, hct⟩ := exists_cons_of_ne_nil (decimal_ne_nil n.toInt.natAbs)
    have hc : isDigit c = true := isDigit_of_mem_decimal (by rw [hct]; exact mem_cons_self)
    rw [idText, htext, hct]
    rintro ⟨rfl⟩
    exact absurd hc (by decide)

theorem decodeFields_encodeFields (hhead : pkt.nsp.head? = some slash)
    (hcomma : comma ∉ pkt.nsp) (hid : ∀ id ∈ pkt.id, 0 ≤ id)
    (hdata : ∀ data ∈ pkt.data, data ≠ [] ∧ ∀ b ∈ data.head?, isDigit b = false)
    (hslash : pkt.nsp = [slash] → pkt.id = none → (pkt.data.getD []).head? ≠ some slash) :
    decodeFields pkt.type pkt.attachments (encodeFields pkt) = pkt := by
  have hback : (∀ b ∈ (pkt.data.getD []).head?, isDigit b = false) ∧
      (if pkt.data.getD [] = [] then none else some (pkt.data.getD [])) = pkt.data := by
    cases hd : pkt.data with
    | none => simp
    | some data =>
      obtain ⟨hne, hdigit⟩ := hdata data hd
      exact ⟨hdigit, if_neg hne⟩
  obtain ⟨hdigit, hback⟩ := hback
  simp only [decodeFields, encodeFields, parseAckID_encoded hid hdigit, hback,
    parseNamespace_encoded hhead hcomma fun hroot => idText_head hid (hslash hroot)]

theorem decode_encode_fields (hattachments : pkt.attachments ≤ maxBinaryAttachments)
    (htext : isBinaryType pkt.type = false → pkt.attachments = 0) :
    decodeSIOPacket (encodeSIOPacket pkt) =
      .ok (decodeFields pkt.type pkt.attachments (encodeFields pkt)) := by
  rw [encodeSIOPacket]
  split
  · rename_i hbin
    rw [cons_append, decodeSIOPacket, if_pos hbin, parseAttachments_decimal hattachments]
    rfl
  · rename_i hno
    rw [decodeSIOPacket, if_neg hno, htext (by simpa using hno)]

theorem decode_encode (h : Encodable pkt) : decodeSIOPacket (encodeSIOPacket pkt) = .ok pkt := by
  -- JSON begins neither with a slash nor with a digit
  have hjson : ∀ data ∈ pkt.data, data ≠ [] ∧ (∀ b ∈ data.head?, isDigit b = false) ∧
      data.head? ≠ some slash := by
    intro data hd
    have hdigit : isDigit 0x5b = false ∧ isDigit 0x7b = false := by decide
    rcases h.data data hd with hb | hb <;> cases data <;> simp_all
  have hslash : (pkt.data.getD []).head? ≠ some slash := by
    cases hd : pkt.data with
    | none => nofun
    | some data => exact (hjson data hd).2.2
  rw [decode_encode_fields h.attachments h.text, decodeFields_encodeFields h.nsp.1 h.nsp.2 h.id
    (fun data hd => ⟨(hjson data hd).1, (hjson data hd).2.1⟩) fun _ _ => hslash]

/-- **Packets survive the wire.**  A packet of a known type, with a namespace that is `/` or starts
with `/` and has no comma, a non-negative id if any, at most 64 attachments and none for a text
type, and JSON that begins with a bracket or a brace if any, is decoded to itself. -/
theorem decodeSIOPacket_encodeSIOPacket (pkt : SioPacket) (htype : pkt.type ∈ sioTypes)
    (hnsp : pkt.nsp = [slash] ∨ (pkt.nsp.head? = some slash ∧ comma ∉ pkt.nsp))
    (hid : ∀ id ∈ pkt.id, 0 ≤ id) (hattachments : pkt.attachments ≤ maxBinaryAttachments)
    (htext : isBinaryType pkt.type = false → pkt.attachments = 0)
    (hdata : ∀ data ∈ pkt.data, data.head? = some 0x5b ∨ data.head? = some 0x7b) :
    decodeSIOPacket (encodeSIOPacket pkt) = .ok pkt := by
  refine decode_encode ⟨htype, ?_, hid, hattachments, htext, hdata⟩
  rcases hnsp with hroot | hnsp
  · rw [hroot]
    decide
  · exact hnsp

/-- An event with two attachments and the largest id, on a namespace of its own. -/
theorem decodeSIOPacket_encodeSIOPacket_binary : decodeSIOPacket (encodeSIOPacket
      ⟨sioBinaryEvent, lit "/chat", some Int64.maxValue, 2, some (lit "[\"image\"]")⟩) =
      .ok ⟨sioBinaryEvent, lit "/chat", some Int64.maxValue, 2, some (lit "[\"image\"]")⟩ :=
  decodeSIOPacket_encodeSIOPacket _ (by decide) (by decide) (by rintro _ ⟨⟩; decide) (by decide)
    (by decide) (by decide)

end AoniContrib.SocketIO
