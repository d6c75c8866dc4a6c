/-
# What a call sends: `grpc/proto.go`, `grpc/client.go`, `grpc/frame.go`

* §1 is the `grpc-timeout` header.  The unit changes exactly where the next larger one first counts
  to one, so a timeout never promises more than the deadline, never drops half of it, and grows with
  it.
* §2 and §3 are the seven calls that encode a message, up to the request.  `Invoke`, `InvokeInto` and
  `ServerStream` encode FIRST and stop at an error; `ProtoPostTo` and its three siblings encode while
  they list their modifiers, where an error has nowhere to go, and send whatever bytes came with it.

The encoders, the transport and the decoders of the answer are given functions.
-/
import AoniContrib.Go.Binary
import AoniContrib.Go.Time
import AoniContrib.Grpc.Client

namespace AoniContrib.Grpc

open Go List

/-! ## 1. Timeouts -/

/-- `formatGRPCTimeout`; the source takes seconds, minutes and hours through a float. -/
def formatGRPCTimeout (d : Duration) : Bytes :=
  if d ≤ 0 then lit "0m"
  else if d < 1000 then formatInt d ++ lit "n"
  else if d < 1000000 then formatInt (d / 1000) ++ lit "u"
  else if d < 1000000000 then formatInt (d / 1000000) ++ lit "m"
  else if d < 60000000000 then formatInt (d / 1000000000) ++ lit "S"
  else if d < 3600000000000 then formatInt (d / 60000000000) ++ lit "M"
  else formatInt (d / 3600000000000) ++ lit "H"

/-- The units of the gRPC grammar, in nanoseconds: `n`, `u`, `m`, `S`, `M` and `H`. -/
def timeoutUnits : List (UInt8 × Nat) :=
  [(0x6e, 1), (0x75, 1000), (0x6d, 1000000), (0x53, 1000000000), (0x4d, 60000000000),
    (0x48, 3600000000000)]

/-- The nanoseconds of a `Timeout` of the grammar: a positive decimal of at most eight digits, and
a unit. -/
def timeoutNanos (text : Bytes) : Option Nat :=
  let digits := text.dropLast
  let n := digits.foldl (fun a b => a * 10 + (b.toNat - 0x30)) 0
  if digits.length ≤ 8 ∧ digits.all isDigit = true ∧ 0 < n then
    text.getLast?.bind fun unit => (timeoutUnits.lookup unit).map (n * ·)
  else none

theorem timeoutNanos_decimal {n k : Nat} {unit : UInt8} (h0 : 0 < n) (h : n < 10 ^ 8)
    (hu : timeoutUnits.lookup unit = some k) : timeoutNanos (decimal n ++ [unit]) = some (n * k) := by
  have hlen : (decimal n).length ≤ 8 := by
    rw [decimal, if_neg (by omega), length_map, length_reverse]
    exact (Nat.digits_length_le_iff (by omega) n).mpr h
  have hall : (decimal n).all isDigit = true := all_eq_true.mpr fun b hb => isDigit_of_mem_decimal hb
  simp only [timeoutNanos, dropLast_concat, foldl_decimal, getLast?_concat, Option.bind_some, hu,
    Option.map_some]
  exact if_pos ⟨hlen, hall, h0⟩

def unitFor (n : Nat) : UInt8 × Nat :=
  if n < 1000 then (0x6e, 1)
  else if n < 1000000 then (0x75, 1000)
  else if n < 1000000000 then (0x6d, 1000000)
  else if n < 60000000000 then (0x53, 1000000000)
  else if n < 3600000000000 then (0x4d, 60000000000)
  else (0x48, 3600000000000)

theorem lookup_unitFor (n : Nat) : timeoutUnits.lookup (unitFor n).1 = some (unitFor n).2 := by
  unfold unitFor
  split_ifs <;> rfl

theorem unitFor_le {n : Nat} (h0 : 0 < n) (h : n < 2 ^ 63) :
    (unitFor n).2 ≤ n ∧ n / (unitFor n).2 < 10 ^ 8 ∧ 0 < (unitFor n).2 := by
  unfold unitFor
  split_ifs <;> dsimp only <;> omega

theorem unitFor_mono {m n : Nat} (h : m ≤ n) : (unitFor m).2 = (unitFor n).2 ∨ m < (unitFor n).2 := by
  unfold unitFor
  split_ifs <;> dsimp only <;> omega

section
variable {d : Duration} (hd : 0 < d)
include hd

theorem lt_ofNat_iff {k : Nat} (hk : k < 2 ^ 63) : d < Int64.ofNat k ↔ d.toInt.natAbs < k := by
  have hpos : 0 < d.toInt := by simpa using Int64.lt_iff_toInt_lt.mp hd
  rw [Int64.lt_iff_toInt_lt, Int64.toInt_ofNat_of_lt hk]
  omega

theorem formatInt_div {k : Nat} (hk : k < 2 ^ 63) :
    formatInt (d / Int64.ofNat k) = decimal (d.toInt.natAbs / k) := by
  have hpos : 0 < d.toInt := by simpa using Int64.lt_iff_toInt_lt.mp hd
  have hne : Int64.ofNat k ≠ -1 := by
    intro h
    have := congrArg Int64.toInt h
    rw [Int64.toInt_ofNat_of_lt hk] at this
    simp at this
  obtain ⟨n, hn⟩ := Int.eq_ofNat_of_zero_le (le_of_lt hpos)
  have hdiv : (d / Int64.ofNat k).toInt = (n / k : Nat) := by
    rw [Int64.toInt_div_of_ne_right _ _ hne, Int64.toInt_ofNat_of_lt hk, hn]
    rfl
  rw [formatInt, hdiv, hn, if_neg (not_lt.mpr (Int.natCast_nonneg _)), Int.natAbs_natCast,
    Int.natAbs_natCast]

theorem formatGRPCTimeout_eq : formatGRPCTimeout d =
      decimal (d.toInt.natAbs / (unitFor d.toInt.natAbs).2) ++ [(unitFor d.toInt.natAbs).1] := by
  have hle : ¬ d ≤ 0 := Int64.not_le.mpr hd
  have hn : d < 1000 ↔ _ := lt_ofNat_iff hd (by omega : 1000 < 2 ^ 63)
  have hu : d < 1000000 ↔ _ := lt_ofNat_iff hd (by omega : 1000000 < 2 ^ 63)
  have hm : d < 1000000000 ↔ _ := lt_ofNat_iff hd (by omega : 1000000000 < 2 ^ 63)
  have hs : d < 60000000000 ↔ _ := lt_ofNat_iff hd (by omega : 60000000000 < 2 ^ 63)
  have hh : d < 3600000000000 ↔ _ := lt_ofNat_iff hd (by omega : 3600000000000 < 2 ^ 63)
  rw [formatGRPCTimeout, if_neg hle]
  simp only [hn, hu, hm, hs, hh, unitFor]
  split_ifs
  · rw [(formatInt_pos hd).1, Nat.div_one]
    rfl
  · exact congrArg (· ++ _) (formatInt_div hd (by omega : 1000 < 2 ^ 63))
  · exact congrArg (· ++ _) (formatInt_div hd (by omega : 1000000 < 2 ^ 63))
  · exact congrArg (· ++ _) (formatInt_div hd (by omega : 1000000000 < 2 ^ 63))
  · exact congrArg (· ++ _) (formatInt_div hd (by omega : 60000000000 < 2 ^ 63))
  · exact congrArg (· ++ _) (formatInt_div hd (by omega : 3600000000000 < 2 ^ 63))

theorem timeoutNanos_format : timeoutNanos (formatGRPCTimeout d) =
    some (d.toInt.natAbs / (unitFor d.toInt.natAbs).2 * (unitFor d.toInt.natAbs).2) := by
  obtain ⟨-, h0, hlt⟩ := formatInt_pos hd
  obtain ⟨hle, hcount, hunit⟩ := unitFor_le h0 hlt
  rw [formatGRPCTimeout_eq hd]
  exact timeoutNanos_decimal (Nat.div_pos hle hunit) hcount (lookup_unitFor _)

end

/-- **The timeout header never promises more time, never loses half of it, and grows with it.** -/
theorem timeout_promise : (∀ d : Duration, 0 < d → ∃ v, timeoutNanos (formatGRPCTimeout d) = some v ∧
      0 < v ∧ (v : Int) ≤ d.toInt ∧ d.toInt < 2 * v) ∧
    ∀ d₁ d₂ : Duration, 0 < d₁ → d₁ ≤ d₂ → ∀ v₁ v₂,
      timeoutNanos (formatGRPCTimeout d₁) = some v₁ →
      timeoutNanos (formatGRPCTimeout d₂) = some v₂ → v₁ ≤ v₂ := by
  constructor
  · intro d hd
    obtain ⟨-, h0, hlt⟩ := formatInt_pos hd
    obtain ⟨hle, -, hunit⟩ := unitFor_le h0 hlt
    have hpos : 0 < d.toInt := by simpa using Int64.lt_iff_toInt_lt.mp hd
    refine ⟨_, timeoutNanos_format hd, Nat.mul_pos (Nat.div_pos hle hunit) hunit, ?_, ?_⟩
    · have := Nat.div_mul_le_self d.toInt.natAbs (unitFor d.toInt.natAbs).2
      omega
    · -- what is dropped is less than one unit, and one unit is promised
      have hrest : d.toInt.natAbs < _ := Nat.lt_div_mul_add hunit
      have hone := Nat.le_mul_of_pos_left (unitFor d.toInt.natAbs).2 (Nat.div_pos hle hunit)
      omega
  · intro d₁ d₂ hd hle v₁ v₂ h₁ h₂
    have hd₂ : 0 < d₂ := Int64.lt_of_lt_of_le hd hle
    rw [timeoutNanos_format hd] at h₁
    rw [timeoutNanos_format hd₂] at h₂
    obtain rfl := Option.some.inj h₁
    obtain rfl := Option.some.inj h₂
    have hle' : d₁.toInt.natAbs ≤ d₂.toInt.natAbs := by
      have hpos : 0 < d₁.toInt := by simpa using Int64.lt_iff_toInt_lt.mp hd
      have := Int64.le_iff_toInt_le.mp hle
      omega
    obtain ⟨-, h0, hlt⟩ := formatInt_pos hd₂
    obtain ⟨hfits, -, hunit⟩ := unitFor_le h0 hlt
    rcases unitFor_mono hle' with heq | hbelow
    · rw [heq]
      exact Nat.mul_le_mul_right _ (Nat.div_le_div_right hle')
    · calc d₁.toInt.natAbs / (unitFor d₁.toInt.natAbs).2 * (unitFor d₁.toInt.natAbs).2
          ≤ d₁.toInt.natAbs := Nat.div_mul_le_self _ _
        _ ≤ (unitFor d₂.toInt.natAbs).2 := le_of_lt hbelow
        _ ≤ _ := Nat.le_mul_of_pos_left _ (Nat.div_pos hfits hunit)

/-! ## 2. Frames and modifiers -/

/-- The given encoders.  Those of protobuf answer bytes AND an error, as in Go. -/
structure Encoder (Msg : Type) where
  /-- `proto.Marshal`; `none` is the nil message. -/
  marshal : Option Msg → Bytes × Option Fault
  /-- `proto.Size`. -/
  size : Msg → Nat
  /-- `proto.MarshalOptions{}.MarshalAppend`. -/
  marshalAppend : Bytes → Msg → Bytes × Option Fault
  /-- What a `gzip.Writer` leaves in its buffer. -/
  gzip : Bytes → Except Fault Bytes

namespace Encoder

variable {Msg : Type} (E : Encoder Msg)

def frameHead (flag : UInt8) (size : Nat) : Bytes := flag :: ByteOrder.bigEndian.putUint32 size.toUInt32

def marshalError (err : Fault) : Err := .wrap "aoni/grpc: failed to marshal message: %w" err

def marshalFrame (msg : Option Msg) (compressed : Bool) : Except Err Bytes :=
  match msg with
  | none => .ok [0, 0, 0, 0, 0]
  | some msg =>
    if compressed then
      match E.marshal (some msg) with
      | (_, some err) => .error (marshalError err)
      | (rawBytes, none) =>
        match E.gzip rawBytes with
        | .error err => .error (.fault err)
        | .ok gzPayload => .ok (frameHead 1 gzPayload.length ++ gzPayload)
    else
      match E.marshalAppend (frameHead 0 (E.size msg)) msg with
      | (_, some err) => .error (marshalError err)
      | (out, none) => .ok out

def Framable (msg : Option Msg) : Prop :=
  ∀ m ∈ msg, (E.marshalAppend (frameHead 0 (E.size m)) m).2 = none

theorem marshalFrame_error {msg : Option Msg} (h : ¬ E.Framable msg) :
    ∃ err, E.marshalFrame msg false = .error err := by
  simp only [Framable, not_forall] at h
  obtain ⟨m, rfl, hm⟩ := h
  obtain ⟨err, herr⟩ := Option.ne_none_iff_exists'.mp hm
  refine ⟨marshalError err, ?_⟩
  simp only [marshalFrame, Bool.false_eq_true, if_false]
  split
  · rename_i err' heq
    rw [heq] at herr
    rw [Option.some.inj herr]
  · rename_i heq
    rw [heq] at herr
    cases herr

end Encoder

/-- The decoders of package `decode` that the calls choose from. -/
inductive Decoder where
  | proto
  | grpcWeb
  deriving DecidableEq, Repr

/-- A modifier that the package makes, or one that the caller brings. -/
inductive Modifier (Custom : Type) where
  /-- The zero value. -/
  | nil
  | withContentType (mime : Bytes)
  | withHeader (key val : Bytes)
  | withBody (bs : Bytes)
  | withBodyBytes (bs : Bytes)
  | withDecoder (d : Decoder)
  | withMetadata (md : List (Bytes × Bytes))
  | custom (c : Custom)
  deriving DecidableEq

/-- What is read of a context: the time until its deadline, and its metadata. -/
structure Context where
  deadline : Option Duration := none
  metadata : Option (List (Bytes × Bytes)) := none

variable {Custom : Type}

def prepareGRPCModifiers (ctx : Context) (frameBytes : Bytes) (isStreaming : Bool)
    (mods : List (Modifier Custom)) : List (Modifier Custom) :=
  [.withContentType mimeApplicationGRPC, .withHeader (lit "TE") (lit "trailers"),
    .withHeader (lit "User-Agent") (lit "grpc-aoni/1.0"), .withBody frameBytes] ++
  (if isStreaming then [.withHeader (lit "grpc-accept-encoding") (lit "gzip, identity")] else []) ++
  (ctx.deadline.elim [] fun d => [.withHeader (lit "grpc-timeout") (formatGRPCTimeout d)]) ++
  (match ctx.metadata with
    | some (e :: md) => [.withMetadata (e :: md)]
    | _ => []) ++
  mods

def stackModCapacity : Nat := 16

/-- The modifiers of a call and those of its caller, in the buffer on the stack if they fit. -/
def withMods (own mods : List (Modifier Custom)) : List (Modifier Custom) :=
  let total := own.length + mods.length
  if total ≤ stackModCapacity then
    let stackBuf := own ++ replicate (stackModCapacity - own.length) .nil
    -- `copy(stackBuf[len(own):], mods)`
    (stackBuf.take own.length ++ mods ++ stackBuf.drop total).take total
  else own ++ mods

/-! ## 3. Calls -/

structure Call (Custom : Type) where
  method : Bytes := lit "POST"
  path : Bytes
  mods : List (Modifier Custom)

/-- What a call works with, over the types of bodies, messages and foreign modifiers. -/
structure Caller (Body Msg Custom : Type) where
  codec : Codec Body Msg
  encoder : Encoder Msg
  /-- `doer.Request`. -/
  request : Call Custom → Except Fault (Response × Body)
  decode : Decoder → Body → Except Fault Msg
  /-- The media types of package `header`. -/
  mime : Decoder → Bytes
  /-- `pathkit.New(s).IsURL()`. -/
  isURL : Bytes → Bool

namespace Caller

variable {Body Msg α : Type} (K : Caller Body Msg Custom) (U : Unicode)

def normalizeMethodPath (fullMethod : Bytes) : Bytes :=
  if ! hasPrefix slash fullMethod && ! K.isURL fullMethod then slash :: fullMethod else fullMethod

/-- One request and what is made of its answer; beside the result, the requests made. -/
def send (c : Call Custom) (answer : Response → Body → Except Err α) :
    Except Err α × List (Call Custom) :=
  (match K.request c with
    | .error err => .error (.fault err)
    | .ok (resp, body) => answer resp body, [c])

/-- The common start of `Invoke`, `InvokeInto` and `ServerStream`. -/
def sendFrame (isStreaming : Bool) (ctx : Context) (fullMethod : Bytes) (reqMsg : Option Msg)
    (mods : List (Modifier Custom)) (answer : Response → Body → Except Err α) :
    Except Err α × List (Call Custom) :=
  match K.encoder.marshalFrame reqMsg false with
  | .error err => (.error err, [])
  | .ok frameBytes =>
    K.send ⟨lit "POST", K.normalizeMethodPath fullMethod,
      prepareGRPCModifiers ctx frameBytes isStreaming mods⟩ answer

section
variable (ord : Nat → MapOrder) (ctx : Context) (path : Bytes) (msg : Option Msg)
  (mods : List (Modifier Custom))

def invoke : Except Err Msg × List (Call Custom) :=
  K.sendFrame false ctx path msg mods (Grpc.invoke K.codec U ord)

def invokeInto : Except Err Msg × List (Call Custom) :=
  K.sendFrame false ctx path msg mods (Grpc.invokeInto K.codec U ord)

def serverStream : Except Err (Response × Body) × List (Call Custom) :=
  K.sendFrame true ctx path msg mods fun resp body =>
    (validateInitialHeaders U ord resp).elim (.ok (resp, body)) .error

/-- `withProtoPostMods`: the error of `Marshal` is dropped. -/
def withProtoPostMods : List (Modifier Custom) :=
  withMods [.withBodyBytes (K.encoder.marshal msg).1, .withHeader contentType (K.mime .proto),
    .withDecoder .proto] mods

/-- `withWebPostMods`: the error of `MarshalFrame` is dropped, and its nil slice sent. -/
def withWebPostMods : List (Modifier Custom) :=
  withMods [.withBodyBytes ((K.encoder.marshalFrame msg false).toOption.getD []),
    .withHeader contentType (K.mime .grpcWeb), .withDecoder .grpcWeb] mods

def sendPost (d : Decoder) (allMods : List (Modifier Custom)) :
    Except Err Msg × List (Call Custom) :=
  K.send ⟨lit "POST", path, allMods⟩ fun _ body => (K.decode d body).mapError .fault

def protoPostTo : Except Err Msg × List (Call Custom) :=
  K.sendPost path .proto (K.withProtoPostMods msg mods)

def protoPostInto : Except Err Msg × List (Call Custom) :=
  K.sendPost path .proto (K.withProtoPostMods msg mods)

def webPostTo : Except Err Msg × List (Call Custom) :=
  K.sendPost path .grpcWeb (K.withWebPostMods msg mods)

def webPostInto : Except Err Msg × List (Call Custom) :=
  K.sendPost path .grpcWeb (K.withWebPostMods msg mods)

end

/-! ### A message that cannot be encoded -/

inductive Entry where
  | invoke
  | invokeInto
  | serverStream
  | protoPostTo
  | protoPostInto
  | webPostTo
  | webPostInto
  deriving DecidableEq, Repr

def Encodes (msg : Option Msg) : Entry → Prop
  | .protoPostTo | .protoPostInto => (K.encoder.marshal msg).2 = none
  | _ => K.encoder.Framable msg

def Refused (r : Except Err α × List (Call Custom)) : Prop := (∃ err, r.1 = .error err) ∧ r.2 = []

def Refuses (ord : Nat → MapOrder) (ctx : Context) (path : Bytes) (msg : Option Msg)
    (mods : List (Modifier Custom)) : Entry → Prop
  | .invoke => Refused (K.invoke U ord ctx path msg mods)
  | .invokeInto => Refused (K.invokeInto U ord ctx path msg mods)
  | .serverStream => Refused (K.serverStream U ord ctx path msg mods)
  | .protoPostTo => Refused (K.protoPostTo path msg mods)
  | .protoPostInto => Refused (K.protoPostInto path msg mods)
  | .webPostTo => Refused (K.webPostTo path msg mods)
  | .webPostInto => Refused (K.webPostInto path msg mods)

variable {K U}

theorem refused_sendFrame {isStreaming : Bool} {ctx : Context} {path : Bytes} {msg : Option Msg}
    {mods : List (Modifier Custom)} {answer : Response → Body → Except Err α}
    (h : ¬ K.encoder.Framable msg) : Refused (K.sendFrame isStreaming ctx path msg mods answer) := by
  obtain ⟨err, herr⟩ := K.encoder.marshalFrame_error h
  rw [sendFrame, herr]
  exact ⟨⟨err, rfl⟩, rfl⟩

theorem not_refused_sendPost {path : Bytes} {d : Decoder} {allMods : List (Modifier Custom)} :
    ¬ Refused (K.sendPost path d allMods) := by
  rintro ⟨-, h⟩
  cases h

/-- **When a message that cannot be encoded is not sent**: when the call is one of the three that
encode before they list their modifiers. -/
theorem never_sent_iff (ord : Nat → MapOrder) (ctx : Context) (path : Bytes) (msg : Option Msg)
    (mods : List (Modifier Custom)) (e : Entry) :
    (¬ K.Encodes msg e → K.Refuses U ord ctx path msg mods e) ↔
      K.Encodes msg e ∨ e ∈ [.invoke, .invokeInto, .serverStream] := by
  cases e with
  | invoke | invokeInto | serverStream =>
    exact ⟨fun _ => .inr (by simp), fun _ h => refused_sendFrame h⟩
  | protoPostTo | protoPostInto | webPostTo | webPostInto =>
    constructor
    · intro h
      by_contra hno
      exact not_refused_sendPost (h fun he => hno (.inl he))
    · rintro (he | he) hno
      · exact absurd he hno
      · simp at he

/-- A caller whose encoder accepts nothing and whose server answers everything. -/
def mute : Caller Unit Unit Empty where
  codec := ⟨fun _ => (.error .eof, ()), fun _ => .ok [], fun _ => .ok (), fun _ => none, fun _ => .ok []⟩
  encoder := ⟨fun _ => ([], some (.other [])), fun _ => 0, fun bs _ => (bs, some (.other [])), .ok⟩
  request := fun _ => .ok (⟨200, [], ⟨[], nodup_nil⟩, none⟩, ())
  decode := fun _ _ => .ok ()
  mime := fun _ => []
  isURL := fun _ => false

/-- A message that does not encode is posted with an empty body, and the call succeeds. -/
theorem unencodable_sent :
    ¬ mute.Encodes (some ()) .protoPostTo ∧ ¬ mute.Encodes (some ()) .webPostTo ∧
    (mute.protoPostTo [] (some ()) []).1 = .ok () ∧
    ((mute.protoPostTo [] (some ()) []).2.map Call.mods) =
      [[.withBodyBytes [], .withHeader contentType [], .withDecoder .proto]] ∧
    (mute.webPostTo [] (some ()) []).1 = .ok () ∧
    ((mute.webPostTo [] (some ()) []).2.map Call.mods) =
      [[.withBodyBytes [], .withHeader contentType [], .withDecoder .grpcWeb]] := by
  refine ⟨by simp [Encodes, mute], ?_, rfl, rfl, rfl, rfl⟩
  intro h
  cases h () rfl

end Caller

end AoniContrib.Grpc
