/-
# The status of a response: `grpc/status.go` and the validation in `grpc/client.go`

Where a call finds its `grpc-status`: in the headers of a "Trailers-Only" response
(`validateInitialHeaders`), and else in the trailers or, if they have none, in the headers
(`validateResponseTrailers`).  A look-up that is not answered by the canonical key goes over the map
in an order the language leaves open; every look-up here has its own order.
-/
import AoniContrib.Go.Base64
import AoniContrib.Go.Http
import AoniContrib.Go.Strconv

namespace AoniContrib.Grpc

open Go

variable (U : Unicode)

/-! ## 1. Errors -/

abbrev StatusCode := UInt32

def statusUnknown : StatusCode := 2

/-- `StatusError`; its field `Header` is never set. -/
structure StatusError where
  code : StatusCode
  message : Bytes := []
  rawDetails : Bytes := []
  trailer : Option Header := none
  deriving DecidableEq

/-- The sentinel errors of `errors.go`. -/
inductive Sentinel where
  | errInvalidGRPCFrame
  | errInvalidContentType
  | errMissingGRPCStatus
  deriving DecidableEq, Repr

/-- An error from outside the package: of the transport or of a codec. -/
inductive Fault where
  | eof
  | unexpectedEOF
  | other (text : Bytes)
  /-- A text that ends in `%w`. -/
  | wrap (text : Bytes) (cause : Fault)
  deriving DecidableEq

/-- `errors.Is(err, io.EOF) || errors.Is(err, io.ErrUnexpectedEOF)`. -/
def Fault.isEnd : Fault → Bool
  | .eof | .unexpectedEOF => true
  | .other _ => false
  | .wrap _ cause => cause.isEnd

/-- An error of the package, with what `fmt.Errorf` is given at its site. -/
inductive Err where
  | fault (cause : Fault)
  | status (err : StatusError)
  | sentinel (s : Sentinel)
  /-- `"%w: %s"`. -/
  | detail (s : Sentinel) (operand : Bytes)
  /-- `"%w: %w"`. -/
  | both (s : Sentinel) (cause : Fault)
  /-- A text that ends in `%w`. -/
  | wrap (text : String) (cause : Fault)
  deriving DecidableEq

/-- `errors.Is(err, io.EOF) || errors.Is(err, io.ErrUnexpectedEOF)`. -/
def Err.isEnd : Err → Bool
  | .fault cause | .both _ cause | .wrap _ cause => cause.isEnd
  | .status _ | .sentinel _ | .detail _ _ => false

/-! ## 2. Look-ups -/

/-- The fields of `http.Response` that the validation reads. -/
structure Response where
  statusCode : Nat
  status : Bytes := []
  header : Header
  trailer : Option Header := none
  deriving DecidableEq

def grpcStatus : Bytes := lit "grpc-status"
def grpcMessage : Bytes := lit "grpc-message"
def grpcStatusDetails : Bytes := lit "grpc-status-details-bin"
def contentType : Bytes := lit "Content-Type"
def mimeApplicationGRPC : Bytes := lit "application/grpc"
def zero : Bytes := lit "0"

def getHeaderCaseInsensitive (ord : MapOrder) (h : Option Header) (key : Bytes) : Bytes :=
  match h with
  | none => []
  | some h =>
    if h.get key ≠ [] then h.get key
    else
      (((ord.visit h).find? fun e => equalFold U e.1 key && !e.2.isEmpty).bind
        fun e => e.2.head?).getD []

/-- `strconv.ParseUint(s, 10, 32)`; `none` is its error. -/
def parseUint32 (s : Bytes) : Option UInt32 :=
  match parseUint s with
  | (n, none) => if n < 2 ^ 32 then some (UInt32.ofNat n) else none
  | (_, some _) => none

/-- The code that `parseGRPCStatus` reads in a status text. -/
def codeOf (text : Bytes) : StatusCode := (parseUint32 text).getD statusUnknown

def decodeBinaryHeader (val : Bytes) : Option Bytes :=
  (stdEncoding.decodeRaw (trimSpace val)).or (stdEncoding.decode (trimSpace val))

def parseGRPCStatus (ord : Nat → MapOrder) (trailers : Option Header) : StatusError :=
  let msg := getHeaderCaseInsensitive U (ord 1) trailers grpcMessage
  let details := getHeaderCaseInsensitive U (ord 2) trailers grpcStatusDetails
  { code := codeOf (getHeaderCaseInsensitive U (ord 0) trailers grpcStatus)
    message := if percent ∈ msg ∨ plus ∈ msg then (queryUnescape msg).getD msg else msg
    rawDetails := if details ≠ [] then (decodeBinaryHeader details).getD [] else []
    trailer := trailers }

/-! ## 3. Validation -/

/-- `validateInitialHeaders`; `none` is nil. -/
def validateInitialHeaders (ord : Nat → MapOrder) (resp : Response) : Option Err :=
  if resp.statusCode ≠ 200 then
    some (.status { code := statusUnknown, message := lit "non-200 HTTP status: " ++ resp.status })
  else if resp.header.get contentType ≠ [] ∧
      ¬ mimeApplicationGRPC <+: resp.header.get contentType then
    some (.detail .errInvalidContentType (resp.header.get contentType))
  else if resp.header.get grpcStatus ≠ [] ∧ resp.header.get grpcStatus ≠ zero then
    some (.status (parseGRPCStatus U ord (some resp.header)))
  else none

/-- The map that holds the final status, and the status. -/
def selectStatus (ord : Nat → MapOrder) (resp : Response) : Option Header × Bytes :=
  let inTrailer := getHeaderCaseInsensitive U (ord 0) resp.trailer grpcStatus
  if inTrailer = [] then
    (some resp.header, getHeaderCaseInsensitive U (ord 1) (some resp.header) grpcStatus)
  else (resp.trailer, inTrailer)

/-- `validateResponseTrailers`; `none` is nil. -/
def validateResponseTrailers (ord : Nat → MapOrder) (resp : Response) : Option Err :=
  let selected := selectStatus U ord resp
  if selected.2 = [] then some (.sentinel .errMissingGRPCStatus)
  else if selected.2 ≠ zero then
    some (.status (parseGRPCStatus U (fun i => ord (i + 2)) selected.1))
  else none

/-- The HTTP status, the content type and the status in the headers of a response that is worth
reading. -/
structure Acceptable (resp : Response) : Prop where
  statusCode : resp.statusCode = 200
  contentType : resp.header.get contentType = [] ∨ mimeApplicationGRPC <+: resp.header.get contentType
  status : resp.header.get grpcStatus = [] ∨ resp.header.get grpcStatus = zero

variable {U}

theorem validateInitialHeaders_eq_none (ord : Nat → MapOrder) {resp : Response} :
    validateInitialHeaders U ord resp = none ↔ Acceptable resp := by
  unfold validateInitialHeaders
  constructor
  · intro h
    split_ifs at h with h1 h2 h3
    exact ⟨not_not.mp h1, by tauto, by tauto⟩
  · rintro ⟨h1, h2, h3⟩
    rw [if_neg (not_not.mpr h1), if_neg (by tauto), if_neg (by tauto)]

theorem validateResponseTrailers_eq_none {ord : Nat → MapOrder} {resp : Response} :
    validateResponseTrailers U ord resp = none ↔ (selectStatus U ord resp).2 = zero := by
  simp only [validateResponseTrailers]
  constructor
  · intro h
    split_ifs at h with h1 h2
    exact not_not.mp h2
  · intro h
    have hne : zero ≠ [] := by decide
    simp [h, hne]

theorem getHeaderCaseInsensitive_of_get {ord : MapOrder} {h : Header} {key : Bytes}
    (hget : h.get key ≠ []) : getHeaderCaseInsensitive U ord (some h) key = h.get key := by
  simp [getHeaderCaseInsensitive, hget]

end AoniContrib.Grpc
