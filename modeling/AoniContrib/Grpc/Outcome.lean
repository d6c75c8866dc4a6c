/-
# One response, one outcome

`Invoke` accepts a response only after its headers, its frame, the end of its body and its
`grpc-status` have all been looked at.  The other paths look at less:
`ClientStreamClient.CloseAndRecv` returns the message without reading on to the trailers, and
`DynamicInvoker.InvokeJSON` looks at nothing but the frame.  And `Invoke` itself decodes the frame
first, so that a call that failed without a message is reported as a missing frame.

## Results

`outcomes_agree_iff` says for which responses success on one of the other paths implies success of
`Invoke`, and `outcome_ignores_trailers` is a response for which it does not.  `status_reported_iff`
says for which failed calls every path reports the status of the call, and
`status_hidden_by_empty_body` is a call that fails and is reported as `io.EOF`.
-/
import AoniContrib.Grpc.Client
import AoniContrib.Go.Binary

namespace AoniContrib.Grpc

open Go

variable {Body Msg : Type} {C : Codec Body Msg} {U : Unicode} {resp : Response} {body : Body}

/-! ## 1. Success -/

/-- Success of `CloseAndRecv` or `InvokeJSON` implies success of `Invoke`, and none of the three
succeeds unless the final status is `0`, in whatever order each look-up goes over a map. -/
structure OutcomesAgree (C : Codec Body Msg) (U : Unicode) (resp : Response) (body : Body) :
    Prop where
  invoke (ord ord' : Nat → MapOrder) : Succeeds (ClientStreamClient.closeAndRecv C U ord resp body) ∨
        Succeeds (DynamicInvoker.invokeJSON C body) →
      Succeeds (invoke C U ord' resp body)
  status (ord ord' : Nat → MapOrder) : Succeeds (ClientStreamClient.closeAndRecv C U ord resp body) ∨
        Succeeds (DynamicInvoker.invokeJSON C body) ∨ Succeeds (Grpc.invoke C U ord' resp body) →
      (selectStatus U (fun i => ord' (i + 3)) resp).2 = zero

/-- A message that one of the other paths would return comes with acceptable headers, a body that
can be read to its end, and the final status `0`. -/
def Complete (C : Codec Body Msg) (U : Unicode) (resp : Response) (body : Body) : Prop :=
  ∀ msg rest, C.unmarshalFrame body = (.ok msg, rest) →
    Acceptable resp ∨ (∃ text, C.marshalJSON msg = .ok text) →
      Acceptable resp ∧ C.drain rest = none ∧ ∀ ord, (selectStatus U ord resp).2 = zero

theorem exists_shifted (ord : Nat → MapOrder) :
    ∃ ord' : Nat → MapOrder, (fun i => ord' (i + 3)) = ord :=
  ⟨fun i => ord (i - 3), by simp⟩

theorem Complete.succeeds (hcomplete : Complete C U resp body) (ord ord' : Nat → MapOrder)
    (hsucceeds : Succeeds (ClientStreamClient.closeAndRecv C U ord resp body) ∨
      Succeeds (DynamicInvoker.invokeJSON C body)) :
    Succeeds (invoke C U ord' resp body) := by
  rw [succeeds_invoke_iff]
  rcases hsucceeds with hrecv | hjson
  · obtain ⟨hhead, msg, rest, hframe⟩ := succeeds_closeAndRecv_iff.mp hrecv
    obtain ⟨-, hdrain, hstatus⟩ := hcomplete msg rest hframe (.inl hhead)
    exact ⟨hhead, msg, rest, hframe, hdrain, hstatus _⟩
  · obtain ⟨msg, rest, text, hframe, htext⟩ := succeeds_invokeJSON_iff.mp hjson
    obtain ⟨hhead, hdrain, hstatus⟩ := hcomplete msg rest hframe (.inr ⟨text, htext⟩)
    exact ⟨hhead, msg, rest, hframe, hdrain, hstatus _⟩

/-- **The paths agree on a response exactly if it is complete wherever one of them would return a
message.** -/
theorem outcomes_agree_iff (C : Codec Body Msg) (U : Unicode) (resp : Response) (body : Body) :
    OutcomesAgree C U resp body ↔ Complete C U resp body := by
  constructor
  · intro hagree msg rest hframe hother
    have hsucceeds : ∀ ord', Succeeds (invoke C U ord' resp body) := by
      intro ord'
      apply hagree.invoke ord' ord'
      rcases hother with hhead | ⟨text, htext⟩
      · exact .inl (succeeds_closeAndRecv_iff.mpr ⟨hhead, msg, rest, hframe⟩)
      · exact .inr (succeeds_invokeJSON_iff.mpr ⟨msg, rest, text, hframe, htext⟩)
    have hall : ∀ ord, Acceptable resp ∧ C.drain rest = none ∧ (selectStatus U ord resp).2 = zero := by
      intro ord
      obtain ⟨ord', rfl⟩ := exists_shifted ord
      obtain ⟨hhead, msg', rest', hframe', hdrain, hstatus⟩ := succeeds_invoke_iff.mp (hsucceeds ord')
      rw [hframe] at hframe'
      cases hframe'
      exact ⟨hhead, hdrain, hstatus⟩
    exact ⟨(hall fun _ => .listed).1, (hall fun _ => .listed).2.1, fun ord => (hall ord).2.2⟩
  · intro hcomplete
    refine ⟨hcomplete.succeeds, fun ord ord' hsucceeds => ?_⟩
    have hinvoke : Succeeds (invoke C U ord' resp body) := by
      rcases hsucceeds with hrecv | hjson | hinvoke
      · exact hcomplete.succeeds ord ord' (.inl hrecv)
      · exact hcomplete.succeeds ord ord' (.inr hjson)
      · exact hinvoke
    obtain ⟨-, -, -, -, -, hstatus⟩ := succeeds_invoke_iff.mp hinvoke
    exact hstatus

/-- Five bytes of flags and length before each payload, and a message is its payload. -/
def framed : Codec Reader Bytes where
  readFrame r :=
    match readFull 5 r with
    | (.error .eof, r) => (.error .eof, r)
    | (.error .unexpectedEOF, r) => (.error .unexpectedEOF, r)
    | (.ok header, r) =>
      match readFull (ByteOrder.bigEndian.uint32 (header.drop 1)).toNat r with
      | (.error _, r) => (.error .unexpectedEOF, r)
      | (.ok payload, r) => (.ok (header.headD 0, payload), r)
  gunzip _ := .header .unexpectedEOF
  unmarshal := .ok
  drain _ := none
  marshalJSON := .ok

def grpcHeader : Header := (⟨[], List.nodup_nil⟩ : Header).set contentType mimeApplicationGRPC

def trailed (status : Bytes) : Response where
  statusCode := 200
  status := lit "200 OK"
  header := grpcHeader
  trailer := some ((⟨[], List.nodup_nil⟩ : Header).set grpcStatus status)

def oneFrame : Reader := [[0, 0, 0, 0, 1, 7]]

/-- **A call that failed with a message in its body is a success for the other two paths.** -/
theorem outcome_ignores_trailers : ¬ OutcomesAgree framed Unicode.ascii (trailed (lit "5")) oneFrame ∧
      ClientStreamClient.closeAndRecv framed Unicode.ascii (fun _ => .listed) (trailed (lit "5"))
          oneFrame = .ok [7] ∧
      DynamicInvoker.invokeJSON framed oneFrame = .ok [7] ∧
      ∃ err, invoke framed Unicode.ascii (fun _ => .listed) (trailed (lit "5")) oneFrame =
        .error (.status err) ∧ err.code = 5 := by
  have hjson : DynamicInvoker.invokeJSON framed oneFrame = .ok [7] := by decide
  have hinvoke : ∃ err, invoke framed Unicode.ascii (fun _ => .listed) (trailed (lit "5"))
      oneFrame = .error (.status err) ∧ err.code = 5 := ⟨_, rfl, by decide⟩
  refine ⟨fun hagree => ?_, by decide, hjson, hinvoke⟩
  obtain ⟨msg, hmsg⟩ := hagree.invoke (fun _ => .listed) (fun _ => .listed) (.inr ⟨_, hjson⟩)
  obtain ⟨err, herr, -⟩ := hinvoke
  rw [herr] at hmsg
  cases hmsg

/-! ## 2. Failure -/

/-- The call returns a `*StatusError` with this code. -/
def Reports {α : Type} (n : StatusCode) (r : Except Err α) : Prop :=
  ∃ err, r = .error (.status err) ∧ err.code = n

def AtEnd (C : Codec Body Msg) (body : Body) : Prop :=
  ∃ err rest, C.unmarshalFrame body = (.error err, rest) ∧ err.isEnd = true

/-- Every path reports the code: the unary ones for the body, the streaming ones at the end of any
body, on a stream that `ServerStream` has opened. -/
structure StatusReported (C : Codec Body Msg) (U : Unicode) (resp : Response) (body : Body)
    (n : StatusCode) : Prop where
  invoke (ord : Nat → MapOrder) : Reports n (invoke C U ord resp body)
  invokeInto (ord : Nat → MapOrder) : Reports n (invokeInto C U ord resp body)
  stream (ord ord' : Nat → MapOrder) (last : Body) : AtEnd C last →
    validateInitialHeaders U ord' resp = none → Reports n (StreamResponse.recv C U ord resp last).1
  bidi (ord : Nat → MapOrder) (last : Body) : AtEnd C last →
    Reports n (BidiStreamClient.recv C U ord resp last).1

/-- The response is an HTTP 200 of gRPC whose final status is the code, in whatever order the
look-ups go. -/
structure FailsWith (U : Unicode) (resp : Response) (n : StatusCode) : Prop where
  statusCode : resp.statusCode = 200
  contentType : mimeApplicationGRPC <+: resp.header.get contentType
  final (ord : Nat → MapOrder) : parseUint32 (selectStatus U ord resp).2 = some n
  ne_zero : n ≠ 0

/-- The status in the trailers, as one look-up finds it. -/
def trailerStatus (U : Unicode) (o : MapOrder) (resp : Response) : Bytes :=
  getHeaderCaseInsensitive U o resp.trailer grpcStatus

theorem selectStatus_of_found {ord : Nat → MapOrder} (hne : trailerStatus U (ord 0) resp ≠ []) :
    selectStatus U ord resp = (resp.trailer, trailerStatus U (ord 0) resp) :=
  if_neg hne

theorem selectStatus_of_missing {ord : Nat → MapOrder} (hnil : trailerStatus U (ord 0) resp = []) :
    selectStatus U ord resp =
      (some resp.header, getHeaderCaseInsensitive U (ord 1) (some resp.header) grpcStatus) :=
  if_pos hnil

/-- A status in the headers reads as the code; without one, the body holds a frame that decodes and
can be read to its end, and the look-ups in the trailers agree on whether they have a status. -/
structure Readable (C : Codec Body Msg) (U : Unicode) (resp : Response) (body : Body)
    (n : StatusCode) : Prop where
  header : resp.header.get grpcStatus ≠ [] → resp.header.get grpcStatus ≠ zero →
    codeOf (resp.header.get grpcStatus) = n
  body : resp.header.get grpcStatus = [] ∨ resp.header.get grpcStatus = zero →
    ∃ msg rest, C.unmarshalFrame body = (.ok msg, rest) ∧ C.drain rest = none
  trailer : resp.header.get grpcStatus = [] ∨ resp.header.get grpcStatus = zero →
    ∀ o o', trailerStatus U o resp = [] → trailerStatus U o' resp ≠ [] → n = statusUnknown

namespace FailsWith

variable {n : StatusCode}

section
variable (h : FailsWith U resp n)
include h

theorem validateInitialHeaders_eq (ord : Nat → MapOrder) : validateInitialHeaders U ord resp =
      if resp.header.get grpcStatus ≠ [] ∧ resp.header.get grpcStatus ≠ zero then
        some (.status (parseGRPCStatus U ord (some resp.header)))
      else none := by
  rw [validateInitialHeaders, if_neg (not_not.mpr h.statusCode), if_neg fun hct => hct.2 h.contentType]

theorem validateResponseTrailers_eq (ord : Nat → MapOrder) : validateResponseTrailers U ord resp =
      some (.status (parseGRPCStatus U (fun i => ord (i + 2)) (selectStatus U ord resp).1)) := by
  have hne : (selectStatus U ord resp).2 ≠ [] := by
    intro hnil
    have hparse := h.final ord
    have hempty : parseUint32 [] = none := by decide
    rw [hnil, hempty] at hparse
    cases hparse
  have hnz : (selectStatus U ord resp).2 ≠ zero := by
    intro hzero
    have hparse := h.final ord
    have hok : parseUint32 zero = some 0 := by decide
    rw [hzero, hok] at hparse
    exact h.ne_zero (Option.some.inj hparse).symm
  simp only [validateResponseTrailers, if_neg hne, if_pos hnz]

theorem codeOf_trailer {o : MapOrder} (hne : trailerStatus U o resp ≠ []) :
    codeOf (trailerStatus U o resp) = n := by
  have hparse := h.final fun _ => o
  rw [selectStatus_of_found hne] at hparse
  rw [codeOf, hparse, Option.getD_some]

theorem codeOf_header {o : MapOrder} (hnil : trailerStatus U o resp = [])
    (o' : MapOrder) : codeOf (getHeaderCaseInsensitive U o' (some resp.header) grpcStatus) = n := by
  have hparse := h.final fun i => if i = 0 then o else o'
  rw [selectStatus_of_missing hnil] at hparse
  exact congrArg (Option.getD · statusUnknown) hparse

theorem code_trailers (ord : Nat → MapOrder) :
    (parseGRPCStatus U (fun i => ord (i + 2)) (selectStatus U ord resp).1).code =
      if trailerStatus U (ord 0) resp ≠ [] ∧ trailerStatus U (ord 2) resp = [] then statusUnknown
      else n := by
  by_cases hnil : trailerStatus U (ord 0) resp = []
  · rw [if_neg (by tauto)]
    rw [selectStatus_of_missing hnil]
    exact h.codeOf_header hnil (ord 2)
  · rw [selectStatus_of_found hnil]
    by_cases hlost : trailerStatus U (ord 2) resp = []
    · rw [if_pos ⟨hnil, hlost⟩]
      change codeOf (trailerStatus U (ord 2) resp) = statusUnknown
      rw [hlost]
      decide
    · rw [if_neg (by tauto)]
      exact h.codeOf_trailer hlost

theorem invoke_eq (ord : Nat → MapOrder) (body : Body) : invoke C U ord resp body =
      if resp.header.get grpcStatus ≠ [] ∧ resp.header.get grpcStatus ≠ zero then
        .error (.status (parseGRPCStatus U ord (some resp.header)))
      else
        match C.unmarshalFrame body with
        | (.error err, _) => .error err
        | (.ok _, rest) =>
          match C.drain rest with
          | some err => .error (.wrap "aoni/grpc: error draining response body: %w" err)
          | none => .error (.status (parseGRPCStatus U (fun i => ord (i + 5))
              (selectStatus U (fun i => ord (i + 3)) resp).1)) := by
  rw [invoke, h.validateInitialHeaders_eq ord, h.validateResponseTrailers_eq fun i => ord (i + 3)]
  split_ifs with hstatus
  · rfl
  · rfl

end

end FailsWith

theorem not_reports_unmarshalFrame {n : StatusCode} {err : Err} {rest : Body}
    (hframe : C.unmarshalFrame body = (.error err, rest)) :
    ¬ Reports n (.error err : Except Err Msg) := by
  rintro ⟨status, hstatus, -⟩
  cases hstatus
  unfold Codec.unmarshalFrame at hframe
  split at hframe
  · split_ifs at hframe
    all_goals cases hframe
  · rename_i flags payload _ _
    have hpayload : C.decodePayload flags payload = .error (.status status) := congrArg Prod.fst hframe
    have hunmarshal : ∀ p, (C.unmarshal p).mapError Err.fault ≠ .error (.status status) := by
      intro p
      cases C.unmarshal p <;> simp [Except.mapError]
    unfold Codec.decodePayload at hpayload
    split_ifs at hpayload
    · split at hpayload
      · cases hpayload
      · cases hpayload
      · exact hunmarshal _ hpayload
    · exact hunmarshal _ hpayload

theorem reports_status_iff {α : Type} {n : StatusCode} {err : StatusError} :
    Reports n (.error (.status err) : Except Err α) ↔ err.code = n := by
  constructor
  · rintro ⟨err', herr, hcode⟩
    cases herr
    exact hcode
  · exact fun hcode => ⟨err, rfl, hcode⟩

section

variable {n : StatusCode}

theorem code_header {ord : Nat → MapOrder} (hget : resp.header.get grpcStatus ≠ []) :
    (parseGRPCStatus U ord (some resp.header)).code = codeOf (resp.header.get grpcStatus) := by
  rw [parseGRPCStatus, getHeaderCaseInsensitive_of_get hget]

theorem FailsWith.reports_trailers {α : Type} (h : FailsWith U resp n)
    (hagree : ∀ o o', trailerStatus U o resp = [] → trailerStatus U o' resp ≠ [] →
      n = statusUnknown) (ord : Nat → MapOrder) :
    Reports n (.error (.status (parseGRPCStatus U (fun i => ord (i + 2))
      (selectStatus U ord resp).1)) : Except Err α) := by
  rw [reports_status_iff, h.code_trailers ord]
  split_ifs with hlost
  · exact (hagree _ _ hlost.2 hlost.1).symm
  · rfl

section
variable (h : FailsWith U resp n) (hread : Readable C U resp body n)
include h hread

theorem Readable.reports_invoke (ord : Nat → MapOrder) : Reports n (Grpc.invoke C U ord resp body) := by
  rw [h.invoke_eq ord]
  split_ifs with hstatus
  · rw [reports_status_iff, code_header hstatus.1]
    exact hread.header hstatus.1 hstatus.2
  · have hfree : resp.header.get grpcStatus = [] ∨ resp.header.get grpcStatus = zero := by tauto
    obtain ⟨msg, rest, hframe, hdrain⟩ := hread.body hfree
    simp only [hframe, hdrain]
    exact h.reports_trailers (hread.trailer hfree) fun i => ord (i + 3)

theorem Readable.reports_stream
    (ord ord' : Nat → MapOrder) {last : Body} (hend : AtEnd C last)
    (hhead : validateInitialHeaders U ord' resp = none) :
    Reports n (StreamResponse.recv C U ord resp last).1 := by
  obtain ⟨err, rest, hframe, herr⟩ := hend
  have hfree := ((validateInitialHeaders_eq_none ord').mp hhead).status
  simp only [StreamResponse.recv, hframe, herr, if_true, h.validateResponseTrailers_eq]
  exact h.reports_trailers (hread.trailer hfree) ord

theorem Readable.reports_bidi
    (ord : Nat → MapOrder) {last : Body} (hend : AtEnd C last) :
    Reports n (BidiStreamClient.recv C U ord resp last).1 := by
  obtain ⟨err, rest, hframe, herr⟩ := hend
  rw [BidiStreamClient.recv, h.validateInitialHeaders_eq ord]
  split_ifs with hstatus
  · rw [reports_status_iff, code_header hstatus.1]
    exact hread.header hstatus.1 hstatus.2
  · simp only [hframe, herr, if_true, h.validateResponseTrailers_eq]
    exact h.reports_trailers (hread.trailer (by tauto)) fun i => ord (i + 3)

end

theorem Readable.of_invoke (h : FailsWith U resp n)
    (hinvoke : ∀ ord, Reports n (Grpc.invoke C U ord resp body)) : Readable C U resp body n := by
  have hbody : resp.header.get grpcStatus = [] ∨ resp.header.get grpcStatus = zero →
      ∃ msg rest, C.unmarshalFrame body = (.ok msg, rest) ∧ C.drain rest = none := by
    intro hfree
    have hreports := hinvoke fun _ => .listed
    rw [h.invoke_eq, if_neg (by tauto)] at hreports
    rcases hframe : C.unmarshalFrame body with ⟨result, rest⟩
    rw [hframe] at hreports
    cases result with
    | error err => exact absurd hreports (not_reports_unmarshalFrame hframe)
    | ok msg =>
      cases hdrain : C.drain rest with
      | none => exact ⟨msg, rest, rfl, hdrain⟩
      | some err =>
        simp only [hdrain] at hreports
        obtain ⟨status, hstatus, -⟩ := hreports
        cases hstatus
  refine ⟨fun hne hnz => ?_, hbody, fun hfree o o' hnil hne => ?_⟩
  · have hreports := hinvoke fun _ => .listed
    rw [h.invoke_eq, if_pos ⟨hne, hnz⟩, reports_status_iff, code_header hne] at hreports
    exact hreports
  · -- the first look-up in the trailers finds the status, the second does not
    obtain ⟨msg, rest, hframe, hdrain⟩ := hbody hfree
    have hreports := hinvoke fun i => if i = 3 then o' else o
    rw [h.invoke_eq, if_neg (by tauto)] at hreports
    simp only [hframe, hdrain] at hreports
    rw [reports_status_iff] at hreports
    have hcode := h.code_trailers fun i => if i + 3 = 3 then o' else o
    rw [if_pos ⟨hne, hnil⟩] at hcode
    exact hreports.symm.trans hcode

/-- **A failed call is reported as its status by every path exactly if a status in its headers reads
as the same code, and without one the body holds a frame that decodes and can be read to its
end.** -/
theorem status_reported_iff (C : Codec Body Msg) (U : Unicode) (resp : Response) (body : Body)
    (n : StatusCode) (h : FailsWith U resp n) :
    StatusReported C U resp body n ↔ Readable C U resp body n := by
  constructor
  · exact fun hreported => Readable.of_invoke h hreported.invoke
  · intro hread
    refine ⟨hread.reports_invoke h, fun ord => ?_, fun ord ord' last => hread.reports_stream h ord ord',
      fun ord last => hread.reports_bidi h ord⟩
    rw [invokeInto_eq]
    exact hread.reports_invoke h ord

end

theorem trailed_failsWith : FailsWith Unicode.ascii (trailed (lit "5")) 5 :=
  ⟨rfl, by decide, fun _ => rfl, by decide⟩

theorem status_reported_iff_trailed : FailsWith Unicode.ascii (trailed (lit "5")) 5 ∧
      (StatusReported framed Unicode.ascii (trailed (lit "5")) oneFrame 5 ↔
        Readable framed Unicode.ascii (trailed (lit "5")) oneFrame 5) :=
  ⟨trailed_failsWith, status_reported_iff framed Unicode.ascii _ oneFrame 5 trailed_failsWith⟩

/-- **A call that failed without a message, its status in the trailers, is reported as a bare
`io.EOF`.** -/
theorem status_hidden_by_empty_body : FailsWith Unicode.ascii (trailed (lit "5")) 5 ∧
      invoke framed Unicode.ascii (fun _ => .listed) (trailed (lit "5")) [] = .error (.fault .eof) ∧
      ¬ StatusReported framed Unicode.ascii (trailed (lit "5")) [] 5 := by
  have heof : invoke framed Unicode.ascii (fun _ => .listed) (trailed (lit "5")) [] =
      .error (.fault .eof) := by decide
  refine ⟨trailed_failsWith, heof, fun hreported => ?_⟩
  obtain ⟨err, herr, -⟩ := hreported.invoke fun _ => .listed
  rw [heof] at herr
  cases herr

end AoniContrib.Grpc
