/-
# The SOCKS5 proxy: `handleSOCKS5Conn`

The handshake is read through a `bufio.Reader`, which takes whole reads from the connection.  The
relay then copies from the connection itself, so what the reader still holds in its buffer is lost:
the client's data is complete exactly if none of it came in with the end of the request
(`tunnel_transparent_iff`).  The loop that accepts the connections does not end with its listener
(`accept_loop_ends_iff`).
-/
import AoniContrib.Go.Bufio
import AoniContrib.Go.NetIP

namespace AoniContrib.Ssh

open Go
open List hiding Vector

/-! ## 1. What the client sends -/

inductive Host where
  | ipv4 (ip : Vector UInt8 4)
  | ipv6 (ip : Vector UInt8 16)
  | domain (name : Bytes) (short : name.length < 256)

namespace Host

def atyp : Host → UInt8
  | ipv4 _ => 0x01
  | domain _ _ => 0x03
  | ipv6 _ => 0x04

def encode : Host → Bytes
  | ipv4 ip => ip.toList
  | domain name _ => name.length.toUInt8 :: name
  | ipv6 ip => ip.toList

/-- The text is of this host: an address that reads as the bytes, or the name itself. -/
def Named (text : Bytes) : Host → Prop
  | ipv4 ip => readIP text = some (to16 ip.toList)
  | ipv6 ip => readIP text = some ip.toList
  | domain name _ => text = name

end Host

structure Handshake where
  methods : Bytes
  few : methods.length < 256
  rsv : UInt8
  host : Host
  port : UInt16

namespace Handshake

def greeting (h : Handshake) : Bytes := [0x05, h.methods.length.toUInt8] ++ h.methods

def portBytes (h : Handshake) : Bytes := [(h.port.toNat / 256).toUInt8, (h.port.toNat % 256).toUInt8]

def request (h : Handshake) : Bytes :=
  [0x05, 0x01, h.rsv, h.host.atyp] ++ (h.host.encode ++ h.portBytes)

def encode (h : Handshake) : Bytes := h.greeting ++ h.request

end Handshake

/-! ## 2. The handler -/

/-- What the network does: whether the replies to the client can be written, and which addresses can be
dialled. -/
structure Network where
  writeMethod : Bool
  dial : Bytes → Bool
  writeSuccess : Bool

/-- What the handler does: the address that it dials, and the bytes that reach the remote end. -/
structure Outcome where
  dialled : Option Bytes := none
  toRemote : Bytes := []
  deriving DecidableEq

/-- The switch on the address type; `none` where the connection is given up. -/
def readHost (atyp : UInt8) (br : BufReader) : Option (Bytes × BufReader) :=
  if atyp = 0x01 then
    match br.readFull 4 with
    | (.error _, _) => none
    | (.ok ip, br) => some (ipString ip, br)
  else if atyp = 0x03 then
    match br.readFull 1 with
    | (.ok [domainLen], br) =>
      match br.readFull domainLen.toNat with
      | (.error _, _) => none
      | (.ok domainBuf, br) => some (domainBuf, br)
    | _ => none
  else if atyp = 0x04 then
    match br.readFull 16 with
    | (.error _, _) => none
    | (.ok ip, br) => some (ipString ip, br)
  else none

/-- From the port on.  `io.Copy` reads from the connection, not from the buffered reader. -/
def connect (N : Network) (host : Bytes) (br : BufReader) : Outcome :=
  match br.readFull 2 with
  | (.ok [p1, p2], br) =>
    let port := p1.toNat * 256 + p2.toNat
    let targetAddr := joinHostPort host (decimal port)
    if !N.dial targetAddr then { dialled := some targetAddr }
    else if !N.writeSuccess then { dialled := some targetAddr }
    else { dialled := some targetAddr, toRemote := br.rest.flatten }
  | _ => {}

/-- `handleSOCKS5Conn`; the replies to the client are left out. -/
def handleSOCKS5Conn (N : Network) (conn : Reader) : Outcome :=
  match (BufReader.new conn).readFull 2 with
  | (.ok [ver, nmethods], br) =>
    if ver ≠ 0x05 then {}
    else
      match br.readFull nmethods.toNat with
      | (.error _, _) => {}
      | (.ok _, br) =>
        if !N.writeMethod then {}
        else
          match br.readFull 4 with
          | (.ok [ver, cmd, _, atyp], br) =>
            if ver ≠ 0x05 ∨ cmd ≠ 0x01 then {}
            else
              match readHost atyp br with
              | none => {}
              | some (host, br) => connect N host br
          | _ => {}
  | _ => {}

/-! ## 3. The tunnel -/

def Host.text : Host → Bytes
  | .ipv4 ip => ipString ip.toList
  | .ipv6 ip => ipString ip.toList
  | .domain name _ => name

theorem Host.named_text (host : Host) : host.Named host.text := by
  cases host with
  | ipv4 ip => exact readIP_ipString (.inl ip.length_toList)
  | ipv6 ip =>
    refine (readIP_ipString (.inr ip.length_toList)).trans ?_
    rw [to16, if_neg (by rw [ip.length_toList]; decide)]
  | domain name short => rfl

section
variable {rs : Reader} {x z : Bytes} {br : BufReader}

theorem readHost_encode (host : Host) (h : Taken rs x br)
    (hbytes : rs.flatten = x ++ (host.encode ++ z)) :
    ∃ br', readHost host.atyp br = some (host.text, br') ∧ Taken rs (x ++ host.encode) br' := by
  cases host with
  | ipv4 ip | ipv6 ip =>
    obtain ⟨br', hread, htaken⟩ := BufReader.readFull_append h hbytes
    rw [Host.encode, ip.length_toList] at hread
    exact ⟨br', by simp [readHost, Host.atyp, hread, Host.text], htaken⟩
  | domain name short =>
    have hlen : name.length.toUInt8.toNat = name.length := by
      rw [Nat.toUInt8_eq, UInt8.toNat_ofNat', Nat.mod_eq_of_lt short]
    have hbytes' : rs.flatten = x ++ ([name.length.toUInt8] ++ (name ++ z)) := by
      simpa [Host.encode] using hbytes
    obtain ⟨br₁, hread₁, htaken₁⟩ := BufReader.readFull_append h hbytes'
    obtain ⟨br₂, hread₂, htaken₂⟩ := BufReader.readFull_append htaken₁ (by rw [hbytes', append_assoc])
    rw [length_singleton] at hread₁
    refine ⟨br₂, ?_, by simpa [Host.encode] using htaken₂⟩
    simp [readHost, Host.atyp, hread₁, hlen, hread₂, Host.text]

theorem connect_portBytes (N : Network) (hs : Handshake) (host : Bytes) (h : Taken rs x br)
    (hbytes : rs.flatten = x ++ (hs.portBytes ++ z))
    (hdial : N.dial (joinHostPort host (decimal hs.port.toNat)) = true) :
    ∃ br', Taken rs (x ++ hs.portBytes) br' ∧
      connect N host br = { dialled := some (joinHostPort host (decimal hs.port.toNat))
                            toRemote := if N.writeSuccess then br'.rest.flatten else [] } := by
  obtain ⟨br', hread, htaken⟩ := BufReader.readFull_append h hbytes
  have hport := hs.port.toNat_lt
  have hvalue : (hs.port.toNat / 256).toUInt8.toNat * 256 + (hs.port.toNat % 256).toUInt8.toNat =
      hs.port.toNat := by
    simp only [Nat.toUInt8_eq, UInt8.toNat_ofNat']
    omega
  refine ⟨br', htaken, ?_⟩
  have hread' : br.readFull 2 = (.ok hs.portBytes, br') := hread
  simp only [connect, hread', Handshake.portBytes, hvalue, hdial, Bool.not_true, Bool.false_eq_true,
    if_false]
  cases N.writeSuccess <;> rfl

end

theorem handleSOCKS5Conn_encode {N : Network} {hs : Handshake} {data : Bytes} {conn : Reader}
    (hconn : conn.flatten = hs.encode ++ data) (hmethod : N.writeMethod = true)
    (hdial : N.dial (joinHostPort hs.host.text (decimal hs.port.toNat)) = true) :
    ∃ br, Taken (reads 4095 conn) hs.encode br ∧ handleSOCKS5Conn N conn =
      { dialled := some (joinHostPort hs.host.text (decimal hs.port.toNat))
        toRemote := if N.writeSuccess then br.rest.flatten else [] } := by
  have hbytes : (reads 4095 conn).flatten = [] ++ ([0x05, hs.methods.length.toUInt8] ++
      (hs.methods ++ ([0x05, 0x01, hs.rsv, hs.host.atyp] ++ (hs.host.encode ++
        (hs.portBytes ++ data))))) := by
    rw [flatten_reads, hconn]
    simp [Handshake.encode, Handshake.greeting, Handshake.request]
  have hmethods : hs.methods.length.toUInt8.toNat = hs.methods.length := by
    rw [Nat.toUInt8_eq, UInt8.toNat_ofNat', Nat.mod_eq_of_lt hs.few]
  -- the reads of the handler, one after the other
  obtain ⟨br₁, hread₁, htaken₁⟩ := BufReader.readFull_append (taken_new conn) hbytes
  rw [← append_assoc] at hbytes
  obtain ⟨br₂, hread₂, htaken₂⟩ := BufReader.readFull_append htaken₁ hbytes
  rw [← append_assoc] at hbytes
  obtain ⟨br₃, hread₃, htaken₃⟩ := BufReader.readFull_append htaken₂ hbytes
  rw [← append_assoc] at hbytes
  obtain ⟨br₄, hread₄, htaken₄⟩ := readHost_encode hs.host htaken₃ hbytes
  rw [← append_assoc] at hbytes
  obtain ⟨br₅, htaken₅, hconnect⟩ := connect_portBytes N hs hs.host.text htaken₄ hbytes hdial
  have hall : [] ++ [0x05, hs.methods.length.toUInt8] ++ hs.methods ++
      [0x05, 0x01, hs.rsv, hs.host.atyp] ++ hs.host.encode ++ hs.portBytes = hs.encode := by
    simp [Handshake.encode, Handshake.greeting, Handshake.request]
  rw [hall] at htaken₅
  refine ⟨br₅, htaken₅, ?_⟩
  have hread₁' : (BufReader.new conn).readFull 2 = (.ok [0x05, hs.methods.length.toUInt8], br₁) :=
    hread₁
  have hread₃' : br₂.readFull 4 = (.ok [0x05, 0x01, hs.rsv, hs.host.atyp], br₃) := hread₃
  simp only [handleSOCKS5Conn, hread₁', hmethods, hread₂, hmethod, hread₃', hread₄, hconnect, ne_eq,
    not_true_eq_false, if_false, Bool.not_true, Bool.false_eq_true, or_self]

/-- **The tunnel is transparent exactly if no data comes in the read that ends the request** (and the
success reply can be written).  The address that is dialled is always the one of the request. -/
theorem tunnel_transparent_iff {N : Network} {hs : Handshake} {data : Bytes} {conn : Reader}
    (hconn : conn.flatten = hs.encode ++ data) (hmethod : N.writeMethod = true)
    (hdial : N.dial (joinHostPort hs.host.text (decimal hs.port.toNat)) = true) :
    hs.host.Named hs.host.text ∧
      (handleSOCKS5Conn N conn).dialled = some (joinHostPort hs.host.text (decimal hs.port.toNat)) ∧
      ((handleSOCKS5Conn N conn).toRemote = data ↔
        data = [] ∨ N.writeSuccess = true ∧ ∃ k, ((reads 4095 conn).take k).flatten = hs.encode) := by
  obtain ⟨br, htaken, houtcome⟩ := handleSOCKS5Conn_encode hconn hmethod hdial
  have hbytes := htaken.bytes ((flatten_reads 4095 conn).trans hconn)
  rw [houtcome, ← htaken.buffered_eq_nil_iff, ← hbytes]
  refine ⟨hs.host.named_text, rfl, ?_⟩
  dsimp only
  cases N.writeSuccess with
  | false => simp [eq_comm]
  | true =>
    constructor
    · intro h
      exact .inr ⟨rfl, append_left_eq_self.mp h.symm⟩
    · rintro (h | ⟨-, h⟩)
      · rw [if_pos rfl, h]
        exact (append_eq_nil_iff.mp h).2
      · rw [if_pos rfl, h, nil_append]

/-! ## 4. A client that does not wait -/

def exampleHandshake : Handshake where
  methods := [0x00]
  few := by decide
  rsv := 0
  host := .ipv4 #v[10, 0, 0, 1]
  port := 80

def openNetwork : Network := ⟨true, fun _ => true, true⟩

theorem tunnel_transparent_iff_waiting : (handleSOCKS5Conn openNetwork
      [exampleHandshake.greeting, exampleHandshake.request, lit "GET"]).toRemote = lit "GET" :=
  (tunnel_transparent_iff (N := openNetwork)
    (show [exampleHandshake.greeting, exampleHandshake.request, lit "GET"].flatten =
      exampleHandshake.encode ++ lit "GET" by decide) rfl rfl).2.2.mpr (.inr ⟨rfl, 2, by decide⟩)

/-- The first bytes of data come in one read with the request, and never leave the buffer. -/
theorem early_data_lost :
    [exampleHandshake.greeting, exampleHandshake.request ++ lit "GET", lit " /"].flatten =
        exampleHandshake.encode ++ lit "GET /" ∧
      (handleSOCKS5Conn openNetwork
        [exampleHandshake.greeting, exampleHandshake.request ++ lit "GET", lit " /"]).toRemote =
        lit " /" := by
  decide

/-! ## 5. The accept loop -/

/-- What `serveSOCKS5Loop` finds at its `i`-th `Accept`: whether that gives a connection, and if not,
whether the context is done or the client closed. -/
structure Accepting where
  accept : Nat → Bool
  ctxDone : Nat → Bool
  closed : Nat → Bool

/-- `serveSOCKS5Loop` from its `i`-th `Accept` on: the last one, if it returns within `n`. -/
def serveSOCKS5Loop (E : Accepting) : Nat → Nat → Option Nat
  | 0, _ => none
  | n + 1, i =>
    if E.accept i then serveSOCKS5Loop E n (i + 1)
    else if E.ctxDone i then some i
    else if E.closed i then some i
    else serveSOCKS5Loop E n (i + 1)

def Accepting.Ends (E : Accepting) (i : Nat) : Prop :=
  E.accept i = false ∧ (E.ctxDone i = true ∨ E.closed i = true)

theorem serveSOCKS5Loop_ends {E : Accepting} {n i j : Nat} (h : serveSOCKS5Loop E n i = some j) :
    E.Ends j := by
  induction n generalizing i with
  | zero => cases h
  | succ n ih =>
    rw [serveSOCKS5Loop] at h
    split_ifs at h with haccept hdone hclosed
    · exact ih h
    · cases h
      exact ⟨Bool.eq_false_iff.mpr haccept, .inl hdone⟩
    · cases h
      exact ⟨Bool.eq_false_iff.mpr haccept, .inr hclosed⟩
    · exact ih h

theorem serveSOCKS5Loop_returns {E : Accepting} {k i : Nat} (h : E.Ends (i + k)) :
    (serveSOCKS5Loop E (k + 1) i).isSome = true := by
  induction k generalizing i with
  | zero =>
    obtain ⟨haccept, hdone | hclosed⟩ := h
    · simp [serveSOCKS5Loop, show E.accept i = false from haccept, show E.ctxDone i = true from hdone]
    · simp [serveSOCKS5Loop, show E.accept i = false from haccept, show E.closed i = true from hclosed]
  | succ k ih =>
    rw [serveSOCKS5Loop]
    have hnext := ih (i := i + 1) (by rwa [Nat.add_assoc, Nat.add_comm 1])
    split_ifs
    · exact hnext
    · rfl
    · rfl
    · exact hnext

/-- **When the loop ends**: when an `Accept` fails while the context is done or the client is closed.
That the listener is closed, so that every `Accept` fails, is not enough. -/
theorem accept_loop_ends_iff (E : Accepting) :
    (∃ n, (serveSOCKS5Loop E n 0).isSome = true) ↔ ∃ i, E.Ends i := by
  constructor
  · rintro ⟨n, h⟩
    obtain ⟨j, hj⟩ := Option.isSome_iff_exists.mp h
    exact ⟨j, serveSOCKS5Loop_ends hj⟩
  · rintro ⟨i, hi⟩
    exact ⟨i + 1, serveSOCKS5Loop_returns (by rwa [Nat.zero_add])⟩

/-- The listener is closed, and nothing else: the loop goes round for ever. -/
theorem closed_listener_spins :
    ¬ ∃ n, (serveSOCKS5Loop ⟨fun _ => false, fun _ => false, fun _ => false⟩ n 0).isSome = true := by
  rintro ⟨n, h⟩
  obtain ⟨j, hj⟩ := Option.isSome_iff_exists.mp h
  obtain ⟨-, h | h⟩ := serveSOCKS5Loop_ends hj
  · cases h
  · cases h

end AoniContrib.Ssh
