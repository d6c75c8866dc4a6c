/-
# The answer to CONNECT: `readAndParseSIOConnect` and `handleSIOConnect` in `socketio/engineio.go`

A server answers CONNECT with a packet whose JSON may hold a session recovery id, `pid`.  The client
has two readers for it.  `handleSIOConnect` gets a packet from `decodeSIOPacket`, so a namespace and
an id are taken off in front of the JSON.  The handshake reads the message itself, and gives
EVERYTHING behind the type to `json.Unmarshal`: with a namespace or an id in front it is no JSON
object, the error is dropped, and the `pid` is lost (`connect_parsers_agree_iff`).

`json.Unmarshal` into the struct of the two fields is a PARAMETER (`ConnectDecoder`), of which only
this is assumed: a text that does not begin with a brace leaves the struct as it was.
-/
import AoniContrib.SocketIO.Dispatch

namespace AoniContrib.SocketIO

open Go

/-! ## 1. The two readers -/

/-- `connectResp`, the struct of both readers. -/
structure ConnectResp where
  sid : Bytes := []
  pid : Bytes := []
  deriving DecidableEq, Repr

/-- What `json.Unmarshal` leaves in an empty `connectResp`, its error dropped. -/
structure ConnectDecoder where
  unmarshal : Bytes → ConnectResp
  object : ∀ text, (Json.skipWs text).head? ≠ some Json.lbrace → unmarshal text = {}

structure Session where
  sid : Bytes := []
  pid : Bytes := []
  deriving DecidableEq, Repr

inductive HandshakeError where
  /-- "aoni/socketio: connect rejected" and the text. -/
  | rejected (text : Bytes)
  /-- "aoni/socketio: unexpected connect response", the type and the payload. -/
  | unexpected (pType : UInt8) (payload : Bytes)
  deriving DecidableEq, Repr

variable (D : ConnectDecoder)

/-- `readAndParseSIOConnect` behind its read. -/
def Session.readAndParseSIOConnect (s : Session) (pType : UInt8) (payload : Bytes) :
    Except HandshakeError Session :=
  if pType ≠ eioMessage ∨ payload.head? ≠ some sioConnect then
    if pType = eioMessage ∧ payload.head? = some sioConnectError then
      .error (.rejected (payload.drop 1))
    else .error (.unexpected pType payload)
  else
    let connectResp := D.unmarshal (payload.drop 1)
    .ok (if connectResp.pid ≠ [] then { s with pid := connectResp.pid } else s)

def Session.handleSIOConnect (s : Session) (pkt : SioPacket) : Session :=
  let connectResp : ConnectResp :=
    match pkt.data with
    | some data => D.unmarshal data
    | none => {}
  { sid := if connectResp.sid ≠ [] then connectResp.sid else s.sid
    pid := if connectResp.pid ≠ [] then connectResp.pid else s.pid }

/-! ## 2. What they read -/

/-- Neither a namespace nor an id stands in front of the JSON. -/
def Bare (text : Bytes) : Prop := text.head? ≠ some slash ∧ text.head?.any isDigit = false

instance (text : Bytes) : Decidable (Bare text) := instDecidableAnd

def jsonText (text : Bytes) : Bytes := (parseAckID (parseNamespace text).2).2

theorem jsonText_of_bare {text : Bytes} (h : Bare text) : jsonText text = text := by
  rw [jsonText, parseNamespace, if_neg h.1, parseAckID, if_neg (by simp [h.2])]

theorem unmarshal_not_bare {text : Bytes} (h : ¬ Bare text) : D.unmarshal text = {} := by
  refine D.object text ?_
  cases text with
  | nil => nofun
  | cons c rest =>
    have hc : c = slash ∨ isDigit c = true := by
      by_contra hno
      rw [not_or] at hno
      exact h ⟨by simpa using hno.1, by simpa using hno.2⟩
    have hbyte : Json.isWs c = false ∧ c ≠ Json.lbrace := by
      rcases hc with rfl | hc
      · decide
      · grind [isDigit, Json.isWs]
    rw [Json.skipWs, List.dropWhile_cons_of_neg (by simp [hbyte.1])]
    simpa using hbyte.2

section
variable {text : Bytes} {pkt : SioPacket} (h : decodeSIOPacket (sioConnect :: text) = .ok pkt)
include h

theorem decode_connect : pkt.data = if jsonText text = [] then none else some (jsonText text) := by
  have htype : ¬ isBinaryType sioConnect = true := by decide
  rw [decodeSIOPacket, if_neg htype] at h
  cases h
  rfl

theorem handleSIOConnect_pid (s : Session) : (s.handleSIOConnect D pkt).pid =
      if (D.unmarshal (jsonText text)).pid ≠ [] then (D.unmarshal (jsonText text)).pid
      else s.pid := by
  have hdata := decode_connect h
  have hempty : D.unmarshal [] = {} := D.object [] nofun
  by_cases hnil : jsonText text = []
  · rw [if_pos hnil] at hdata
    simp only [Session.handleSIOConnect, hdata, hnil, hempty]
  · rw [if_neg hnil] at hdata
    simp only [Session.handleSIOConnect, hdata]

end

theorem readAndParseSIOConnect_eq (s : Session) (text : Bytes) :
    s.readAndParseSIOConnect D eioMessage (sioConnect :: text) =
      .ok (if (D.unmarshal text).pid ≠ [] then { s with pid := (D.unmarshal text).pid } else s) := by
  rw [Session.readAndParseSIOConnect, if_neg (by simp)]
  rfl

/-- **The two readers of an answer to CONNECT agree** on the session recovery id, whatever was stored
before, exactly if neither a namespace nor an id stands in front of the JSON or the JSON holds no
`pid`. -/
theorem connect_parsers_agree_iff {text : Bytes} {pkt : SioPacket}
    (h : decodeSIOPacket (sioConnect :: text) = .ok pkt) :
    (∀ s s', Session.readAndParseSIOConnect D s eioMessage (sioConnect :: text) = .ok s' →
      s'.pid = (s.handleSIOConnect D pkt).pid) ↔
    Bare text ∨ (D.unmarshal (jsonText text)).pid = [] := by
  have hread := fun s => readAndParseSIOConnect_eq D s text
  have hhandle := fun s => handleSIOConnect_pid D h s
  constructor
  · intro hagree
    by_cases hbare : Bare text
    · exact .inl hbare
    · right
      -- the handshake stores nothing, so an empty session stays empty
      have heq := hagree {} _ (hread {})
      rw [unmarshal_not_bare D hbare, hhandle] at heq
      by_contra hne
      rw [if_pos hne] at heq
      exact hne heq.symm
  · intro hcond s s' hs'
    rw [hread] at hs'
    cases hs'
    rw [hhandle]
    by_cases hbare : Bare text
    · rw [jsonText_of_bare hbare]
      split_ifs <;> rfl
    · rw [unmarshal_not_bare D hbare, hcond.resolve_left hbare]
      rfl

/-! ## 3. A decoder -/

/-- The string that the members of an object leave in a field. -/
def stringField (U : Unicode) (name : Bytes) (members : List (Bytes × Json)) : Bytes :=
  members.foldl (fun value m =>
    if equalFold U m.1 name then
      match m.2 with
      | .str s => s
      | _ => value
    else value) []

theorem object_of_parse {text : Bytes} {members : List (Bytes × Json)}
    (h : Json.parse text = some (.obj members)) : (Json.skipWs text).head? = some Json.lbrace := by
  simp only [Json.parse, Option.bind_eq_bind, Option.bind_eq_some_iff] at h
  obtain ⟨⟨v, rest⟩, hvalue, hv⟩ := h
  split at hv
  · cases hv
    cases hn : text.length with
    | zero =>
      rw [hn] at hvalue
      cases hvalue
    | succ n =>
      rw [hn, Json.parseValue] at hvalue
      cases hskip : Json.skipWs text with
      | nil => simp [hskip] at hvalue
      | cons c s =>
        simp only [hskip] at hvalue
        split_ifs at hvalue with hquote hbracket hbrace hnumber
        · simp [Option.bind_eq_some_iff] at hvalue
        · split at hvalue
          · simp at hvalue
          · simp [Option.bind_eq_some_iff] at hvalue
        · exact congrArg some hbrace
        · simp [Option.bind_eq_some_iff] at hvalue
        · unfold Json.parseLiteral at hvalue
          split_ifs at hvalue <;> simp at hvalue
  · cases hv

def ConnectDecoder.json (U : Unicode) : ConnectDecoder where
  unmarshal text :=
    match Json.parse text with
    | some (.obj members) =>
      { sid := stringField U (lit "sid") members, pid := stringField U (lit "pid") members }
    | _ => {}
  object text h := by
    split
    · exact absurd (object_of_parse ‹_›) h
    · rfl

def recoverable : Bytes := lit "\x7b\"pid\":\"p\"\x7d"

theorem unmarshal_recoverable : (ConnectDecoder.json .ascii).unmarshal recoverable = ⟨[], lit "p"⟩ := by
  decide +kernel

/-- The answer `0{"pid":"p"}` of the default namespace. -/
theorem connect_parsers_agree_iff_root :
    (∀ s s', Session.readAndParseSIOConnect (.json .ascii) s eioMessage (sioConnect :: recoverable) =
        .ok s' →
      s'.pid = (s.handleSIOConnect (.json .ascii) ⟨sioConnect, [slash], none, 0, some recoverable⟩).pid) ∧
      (Session.handleSIOConnect (.json .ascii) {}
        ⟨sioConnect, [slash], none, 0, some recoverable⟩).pid = lit "p" := by
  have h : decodeSIOPacket (sioConnect :: recoverable) =
      .ok ⟨sioConnect, [slash], none, 0, some recoverable⟩ := by decide
  refine ⟨(connect_parsers_agree_iff (.json .ascii) h).mpr (.inl (by decide)), ?_⟩
  simp only [Session.handleSIOConnect, unmarshal_recoverable]
  decide

/-- **The recovery id of a named namespace is lost in the handshake**: of `0/admin,{"pid":"p"}` the
handshake stores nothing. -/
theorem connect_pid_lost : decodeSIOPacket (sioConnect :: lit "/admin," ++ recoverable) =
        .ok ⟨sioConnect, lit "/admin", none, 0, some recoverable⟩ ∧
      Session.readAndParseSIOConnect (.json .ascii) {} eioMessage
        (sioConnect :: lit "/admin," ++ recoverable) = .ok {} ∧
      (Session.handleSIOConnect (.json .ascii) {}
        ⟨sioConnect, lit "/admin", none, 0, some recoverable⟩).pid = lit "p" := by
  refine ⟨by decide, ?_, ?_⟩
  · rw [List.cons_append, readAndParseSIOConnect_eq, unmarshal_not_bare _ (by decide)]
    rfl
  · simp only [Session.handleSIOConnect, unmarshal_recoverable]
    decide

end AoniContrib.SocketIO
