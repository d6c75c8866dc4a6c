/-
# The vocabulary of `auth/httpsig`: errors, parameters, configurations

`types.go`, with the interfaces `Signer` and `Verifier` as records of the functions they
promise.  An error keeps what `fmt.Errorf` is given at its site: the sentinel it wraps, the
format text behind it, the operands, and the error it wraps besides.
-/
import AoniContrib.Go.Bytes
import AoniContrib.Go.Time

namespace AoniContrib.HttpSig

open Go

/-! ## 1. Errors -/

inductive Sentinel where
  | errInvalidSignature
  | errSignatureExpired
  | errSignatureTooOld
  | errSignatureInFuture
  | errMissingComponent
  | errUnsupportedAlgorithm
  | errMissingSignature
  | errLabelMismatch
  | errKeyMismatch
  | errDuplicateComponent
  | errInvalidStructuredField
  deriving DecidableEq, Repr

inductive Err where
  /-- A sentinel returned as it is. -/
  | sentinel (s : Sentinel)
  /-- `errors.New(text)`. -/
  | new (text : String)
  /-- `fmt.Errorf("%w: " + format, s, args...)`. -/
  | wrap (s : Sentinel) (format : String) (args : List Bytes)
  /-- The same with a further wrapped error, and possibly no sentinel. -/
  | cause (s : Option Sentinel) (format : String) (args : List Bytes) (err : Err)
  /-- An error of the standard library, of a signer or of a verifier. -/
  | foreign (text : Bytes)
  deriving DecidableEq, Repr

/-! ## 2. Header and component names -/

def headerSignatureInput : Bytes := lit "Signature-Input"
def headerSignature : Bytes := lit "Signature"

def compMethod : Bytes := lit "@method"
def compTargetURI : Bytes := lit "@target-uri"
def compAuthority : Bytes := lit "@authority"
def compScheme : Bytes := lit "@scheme"
def compRequestTarget : Bytes := lit "@request-target"
def compPath : Bytes := lit "@path"
def compQuery : Bytes := lit "@query"
def compQueryParam : Bytes := lit "@query-param"
def compStatus : Bytes := lit "@status"

/-! ## 3. Parameters and configurations -/

/-- `SignatureParams`.  A zero time and an empty string stand for an absent parameter. -/
structure SignatureParams where
  label : Bytes := []
  components : List Bytes := []
  created : Int64 := 0
  expires : Int64 := 0
  nonce : Bytes := []
  alg : Bytes := []
  keyID : Bytes := []
  tag : Bytes := []
  deriving DecidableEq, Repr

structure Signer where
  algorithm : Bytes
  keyID : Bytes
  sign : Bytes → Except Err Bytes

/-- `Verifier`; `none` is the nil error. -/
structure Verifier where
  algorithm : Bytes
  keyID : Bytes
  verify : Bytes → Bytes → Option Err

/-- A transparent scheme, for runs on concrete messages: the signature is the base. -/
def Signer.transparent (keyID : Bytes) : Signer where
  algorithm := lit "hmac-sha256"
  keyID := keyID
  sign base := .ok base

def Verifier.transparent (keyID : Bytes) : Verifier where
  algorithm := lit "hmac-sha256"
  keyID := keyID
  verify base sig := if sig = base then none else some (.sentinel .errInvalidSignature)

structure SignConfig where
  label : Bytes := []
  signer : Option Signer := none
  components : List Bytes := []
  created : Time := ⟨0, 0⟩
  expires : Time := ⟨0, 0⟩
  nonce : Bytes := []
  tag : Bytes := []

structure VerifyConfig where
  label : Bytes := []
  verifier : Option Verifier := none
  requiredComponents : List Bytes := []
  maxAge : Duration := 0
  allowedClockSkew : Duration := 0
  requiredTag : Bytes := []

end AoniContrib.HttpSig
