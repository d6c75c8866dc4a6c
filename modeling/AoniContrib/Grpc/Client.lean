/-
# The response paths: `grpc/frame.go`, `grpc/client.go`, `grpc/dynamic.go`

What each kind of call does with the response once the request has succeeded: `Invoke`, `InvokeInto`,
`StreamResponse.Recv`, `BidiStreamClient.Recv`, `ClientStreamClient.CloseAndRecv` and
`DynamicInvoker.InvokeJSON`.  Reading a frame, gzip, protobuf and JSON are given functions, and so is
draining the body; the body is whatever they work on.
-/
import AoniContrib.Grpc.Status

namespace AoniContrib.Grpc

open Go

/-! ## 1. Frames -/

/-- How gzip ends: at its header, in its data, or with the payload. -/
inductive Gunzip where
  | header (err : Fault)
  | data (err : Fault)
  | ok (payload : Bytes)

/-- The given functions, over a type of bodies and a type of messages. -/
structure Codec (Body Msg : Type) where
  /-- `grpcweb.Framer.ReadFrame`: the flags and the payload. -/
  readFrame : Body → Except Fault (UInt8 × Bytes) × Body
  gunzip : Bytes → Gunzip
  /-- `proto.Unmarshal`. -/
  unmarshal : Bytes → Except Fault Msg
  /-- `io.Copy(io.Discard, body)`; `none` is nil. -/
  drain : Body → Option Fault
  /-- `protojson.MarshalOptions.Marshal`. -/
  marshalJSON : Msg → Except Fault Bytes

variable {Body Msg : Type} (C : Codec Body Msg) (U : Unicode)

namespace Codec

/-- The payload of a frame, decompressed if the flags say so. -/
def decodePayload (flags : UInt8) (payload : Bytes) : Except Err Msg :=
  if flags &&& 1 ≠ 0 then
    match C.gunzip payload with
    | .header err => .error (.wrap "aoni/grpc: failed to decompress payload: %w" err)
    | .data err => .error (.wrap "aoni/grpc: failed to read decompressed payload: %w" err)
    | .ok payload => (C.unmarshal payload).mapError .fault
  else (C.unmarshal payload).mapError .fault

/-- `UnmarshalFrame`: the message, and what is left of the body. -/
def unmarshalFrame (body : Body) : Except Err Msg × Body :=
  match C.readFrame body with
  | (.error err, body) =>
    (.error (if err.isEnd then .fault err else .both .errInvalidGRPCFrame err), body)
  | (.ok (flags, payload), body) => (C.decodePayload flags payload, body)

end Codec

/-! ## 2. Calls -/

/-- `Invoke`, from the response on. -/
def invoke (ord : Nat → MapOrder) (resp : Response) (body : Body) : Except Err Msg :=
  match validateInitialHeaders U ord resp with
  | some err => .error err
  | none =>
    match C.unmarshalFrame body with
    | (.error err, _) => .error err
    | (.ok msg, body) =>
      match C.drain body with
      | some err => .error (.wrap "aoni/grpc: error draining response body: %w" err)
      | none =>
        match validateResponseTrailers U (fun i => ord (i + 3)) resp with
        | some err => .error err
        | none => .ok msg

/-- `InvokeInto`, from the response on: the target message. -/
def invokeInto (ord : Nat → MapOrder) (resp : Response) (body : Body) : Except Err Msg :=
  match validateInitialHeaders U ord resp with
  | some err => .error err
  | none =>
    match C.unmarshalFrame body with
    | (.error err, _) => .error err
    | (.ok msg, body) =>
      match C.drain body with
      | some err => .error (.wrap "aoni/grpc: error draining response body: %w" err)
      | none => (validateResponseTrailers U (fun i => ord (i + 3)) resp).elim (.ok msg) .error

theorem invokeInto_eq (ord : Nat → MapOrder) (resp : Response) (body : Body) :
    invokeInto C U ord resp body = invoke C U ord resp body := by
  unfold invokeInto invoke
  cases validateResponseTrailers U (fun i => ord (i + 3)) resp <;> rfl

def StreamResponse.recv (ord : Nat → MapOrder) (resp : Response) (body : Body) :
    Except Err Msg × Body :=
  match C.unmarshalFrame body with
  | (.ok msg, body) => (.ok msg, body)
  | (.error err, body) =>
    if err.isEnd then
      match validateResponseTrailers U ord resp with
      | some err => (.error err, body)
      | none => (.error (.fault .eof), body)
    else (.error err, body)

/-- `BidiStreamClient.Recv` on an open client: `ensureConnected` first, which validates the headers
once and keeps the verdict. -/
def BidiStreamClient.recv (ord : Nat → MapOrder) (resp : Response) (body : Body) :
    Except Err Msg × Body :=
  match validateInitialHeaders U ord resp with
  | some err => (.error err, body)
  | none =>
    match C.unmarshalFrame body with
    | (.ok msg, body) => (.ok msg, body)
    | (.error err, body) =>
      if err.isEnd then
        match validateResponseTrailers U (fun i => ord (i + 3)) resp with
        | some err => (.error err, body)
        | none => (.error (.fault .eof), body)
      else (.error err, body)

/-- `ClientStreamClient.CloseAndRecv`: `CloseSend` closes a pipe, which does not fail. -/
def ClientStreamClient.closeAndRecv (ord : Nat → MapOrder) (resp : Response) (body : Body) :
    Except Err Msg :=
  (BidiStreamClient.recv C U ord resp body).1

/-- `DynamicInvoker.InvokeJSON`, from the response on. -/
def DynamicInvoker.invokeJSON (body : Body) : Except Err Bytes :=
  match C.unmarshalFrame body with
  | (.error err, _) => .error err
  | (.ok msg, _) =>
    match C.marshalJSON msg with
    | .error err => .error (.wrap "aoni/grpc/dynamic: marshal response to JSON failed: %w" err)
    | .ok text => .ok text

/-! ## 3. Success -/

def Succeeds {α : Type} (r : Except Err α) : Prop := ∃ a, r = .ok a

variable {C U}

variable {ord : Nat → MapOrder} {resp : Response} {body : Body}

theorem succeeds_invoke_iff : Succeeds (invoke C U ord resp body) ↔
      Acceptable resp ∧ ∃ msg rest, C.unmarshalFrame body = (.ok msg, rest) ∧ C.drain rest = none ∧
        (selectStatus U (fun i => ord (i + 3)) resp).2 = zero := by
  rw [← validateInitialHeaders_eq_none (U := U) ord, ← validateResponseTrailers_eq_none]
  unfold Succeeds invoke
  cases hhead : validateInitialHeaders U ord resp with
  | some err => simp
  | none =>
    rcases hframe : C.unmarshalFrame body with ⟨result, rest⟩
    cases result with
    | error err => simp
    | ok msg =>
      cases hdrain : C.drain rest with
      | some err => simp [hdrain]
      | none =>
        cases htrailers : validateResponseTrailers U (fun i => ord (i + 3)) resp <;> simp [hdrain]

theorem succeeds_closeAndRecv_iff : Succeeds (ClientStreamClient.closeAndRecv C U ord resp body) ↔
      Acceptable resp ∧ ∃ msg rest, C.unmarshalFrame body = (.ok msg, rest) := by
  rw [← validateInitialHeaders_eq_none (U := U) ord]
  unfold Succeeds ClientStreamClient.closeAndRecv BidiStreamClient.recv
  cases hhead : validateInitialHeaders U ord resp with
  | some err => simp
  | none =>
    rcases hframe : C.unmarshalFrame body with ⟨result, rest⟩
    cases result with
    | ok msg => simp
    | error err =>
      cases hend : err.isEnd
      · simp [hend]
      · cases htrailers : validateResponseTrailers U (fun i => ord (i + 3)) resp <;> simp [hend]

theorem succeeds_invokeJSON_iff {body : Body} : Succeeds (DynamicInvoker.invokeJSON C body) ↔
      ∃ msg rest text, C.unmarshalFrame body = (.ok msg, rest) ∧ C.marshalJSON msg = .ok text := by
  unfold Succeeds DynamicInvoker.invokeJSON
  rcases hframe : C.unmarshalFrame body with ⟨result, rest⟩
  cases result with
  | error err => simp
  | ok msg => cases hjson : C.marshalJSON msg <;> simp [hjson]

end AoniContrib.Grpc
