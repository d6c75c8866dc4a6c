/-
# The signature base: `auth/httpsig/base.go`

Component identifiers, the values derived for them, the serialised signature parameters and
the signature base built from both.  Every function is written as `base.go` has it; the only
thing made explicit is what Go leaves open, the order of a `range` over a header map: the
`i`-th covered component is read under the order `ord i`.

A nil `*RequestContext` and nil `*SignatureParams` are excluded by the types; the tests for
them at the head of `BuildSignatureBase`, `Sign` and `Verify` are left out.
-/
import AoniContrib.Go.Base64
import AoniContrib.Go.Http
import AoniContrib.Go.Strconv
import AoniContrib.HttpSig.Types

namespace AoniContrib.HttpSig

open Go

/-! ## 1. Component identifiers -/

structure ParsedComponent where
  raw : Bytes := []
  name : Bytes := []
  key : Bytes := []
  nameParam : Bytes := []
  sf : Bool := false
  bs : Bool := false
  req : Bool := false
  tr : Bool := false
  serialized : Bytes := []
  deriving DecidableEq, Repr

/-- One parameter behind a component name, as the loop of `ParseComponentIdentifier` reads
it: a flag, or a name and a value with its quotes stripped. -/
inductive Piece where
  | flag (paramName : Bytes)
  | param (paramName paramVal : Bytes)
  deriving DecidableEq, Repr

variable (U : Unicode)

/-- The part of the loop body that reads one `;`-separated part; a blank part is skipped. -/
def readPiece (part : Bytes) : Option Piece :=
  let p := trimSpace part
  if p = [] then none
  else match cut equals p with
    | none => some (.flag (toLower U (trimSpace p)))
    | some (k, v) => some (.param (toLower U (trimSpace k)) (stripPair dquote (trimSpace v)))

def Piece.text : Piece → Bytes
  | .flag n => semicolon :: n
  | .param n v => semicolon :: n ++ lit "=\"" ++ v ++ [dquote]

/-- What the loop body records for a parameter: the four flags, `key` and `name`. -/
def Piece.record (comp : ParsedComponent) : Piece → ParsedComponent
  | .flag n =>
    if n = lit "sf" then { comp with sf := true }
    else if n = lit "bs" then { comp with bs := true }
    else if n = lit "req" then { comp with req := true }
    else if n = lit "tr" then { comp with tr := true }
    else comp
  | .param n v =>
    if n = lit "key" then { comp with key := v }
    else if n = lit "name" then { comp with nameParam := v }
    else comp

/-- The name part and the parameter part of an identifier: the name is a quoted string, or
everything before the first semicolon. -/
def splitName (raw s : Bytes) : Except Err (Bytes × Bytes) :=
  if hasPrefix dquote s then
    match cut dquote s.tail with
    | none => .error (.wrap .errInvalidStructuredField "unclosed quote in component identifier %q" [raw])
    | some (namePart, rest) => .ok (namePart, trimSpace rest)
  else match cut semicolon s with
    | some (namePart, rest) => .ok (trimSpace namePart, trimSpace (semicolon :: rest))
    | none => .ok (s, [])

/-- The parameters of the parameter part.  (`strings.Split` of an empty remainder is not
taken; its one blank part would be skipped.) -/
def readPieces (remainder : Bytes) : List Piece :=
  if remainder = [] then [] else (remainder.splitOn semicolon).filterMap (readPiece U)

def identifierText (name : Bytes) (pieces : List Piece) : Bytes :=
  [dquote] ++ name ++ [dquote] ++ pieces.flatMap Piece.text

def parseComponentIdentifier (raw : Bytes) : Except Err ParsedComponent :=
  let s := trimSpace raw
  if s = [] then .error (.wrap .errMissingComponent "empty component identifier" [])
  else do
    let (namePart, remainder) ← splitName raw s
    let name := toLower U namePart
    let pieces := readPieces U remainder
    let comp := pieces.foldl Piece.record { raw := raw, name := name }
    let comp := { comp with serialized := identifierText name pieces }
    if comp.bs && (comp.sf || comp.key ≠ []) then
      .error (.wrap .errInvalidStructuredField "bs parameter cannot be combined with sf or key" [])
    else .ok comp

/-! ## 2. Derived components -/

structure RequestContext where
  method : Bytes := []
  url : Option URL := none
  header : Option Header := none
  statusCode : Int64 := 0
  trailers : Option Header := none
  isResponse : Bool := false
  reqContext : Option RequestContext := none

def normalizeAuthority (u : URL) : Bytes :=
  let host := toLower U u.hostname
  let port := u.port
  if port = [] then host
  else if (equalFold U u.scheme (lit "http") && port = lit "80") ||
      (equalFold U u.scheme (lit "https") && port = lit "443") then host
  else host ++ colon :: port

def deriveQueryParam (rawQuery paramName : Bytes) : Except Err Bytes :=
  if rawQuery = [] then
    .error (.wrap .errMissingComponent "query parameter %q not found" [paramName])
  else match parseQuery rawQuery with
    | none => .error (.cause (some .errMissingComponent) "failed to parse query parameters: %w" []
        (.foreign (lit "net/url")))
    | some values =>
      match (values.filter (fun p => p.1 == paramName)).map Prod.snd with
      | [] => .error (.wrap .errMissingComponent "query parameter %q not found in %q" [paramName, rawQuery])
      | [val] => .ok (queryEscape val)
      | _ => .error (.wrap .errMissingComponent
          "query parameter %q occurs multiple times (RFC 9421 §2.2.8 requires @query instead)" [paramName])

def pathOrRoot (u : URL) : Bytes := if u.path = [] then [slash] else u.path

def deriveDerivedComponent (ctx : RequestContext) (comp : ParsedComponent) : Except Err Bytes :=
  if comp.name = compMethod then
    if ctx.method = [] then .error (.wrap .errMissingComponent "@method unavailable" [])
    else .ok ctx.method
  else if comp.name = compTargetURI then
    match ctx.url with
    | none => .error (.wrap .errMissingComponent "@target-uri unavailable" [])
    | some u => .ok u.string
  else if comp.name = compAuthority then
    match ctx.url with
    | none => .error (.wrap .errMissingComponent "@authority unavailable" [])
    | some u =>
      if u.host = [] then .error (.wrap .errMissingComponent "@authority unavailable" [])
      else .ok (normalizeAuthority U u)
  else if comp.name = compScheme then
    match ctx.url with
    | none => .error (.wrap .errMissingComponent "@scheme unavailable" [])
    | some u =>
      if u.scheme = [] then .error (.wrap .errMissingComponent "@scheme unavailable" [])
      else .ok (toLower U u.scheme)
  else if comp.name = compRequestTarget then
    match ctx.url with
    | none => .error (.wrap .errMissingComponent "@request-target unavailable" [])
    | some u =>
      if u.rawQuery ≠ [] then .ok (pathOrRoot u ++ question :: u.rawQuery) else .ok (pathOrRoot u)
  else if comp.name = compPath then
    match ctx.url with
    | none => .error (.wrap .errMissingComponent "@path unavailable" [])
    | some u => .ok (pathOrRoot u)
  else if comp.name = compQuery then
    match ctx.url with
    | none => .error (.wrap .errMissingComponent "@query unavailable" [])
    | some u => if u.rawQuery ≠ [] then .ok (question :: u.rawQuery) else .ok [question]
  else if comp.name = compQueryParam then
    match ctx.url with
    | none => .error (.wrap .errMissingComponent "@query-param requires 'name' parameter" [])
    | some u =>
      if comp.nameParam = [] then
        .error (.wrap .errMissingComponent "@query-param requires 'name' parameter" [])
      else deriveQueryParam u.rawQuery comp.nameParam
  else if comp.name = compStatus then
    if !ctx.isResponse then
      .error (.wrap .errMissingComponent "@status only valid for response messages" [])
    else if ctx.statusCode = 0 then .error (.wrap .errMissingComponent "@status unavailable" [])
    else .ok (formatInt ctx.statusCode)
  else .error (.wrap .errMissingComponent "unknown derived component %q" [comp.name])

/-! ## 3. Header fields -/

def cleanHeaderValue (v : Bytes) : Bytes :=
  replaceByte carriageReturn space (replaceByte newline space (replaceCRLF (trimSpace v)))

/-- The loop of `extractDictionaryKey` over the comma-separated items. -/
def findMember (key : Bytes) : List Bytes → Option Bytes
  | [] => none
  | part :: rest =>
    let item := trimSpace part
    if item = [] then findMember key rest
    else match cut equals item with
      | none => if equalFold U item key then some (lit "?1") else findMember key rest
      | some (k, val) =>
        if equalFold U (trimSpace k) key then some (trimSpace val) else findMember key rest

def extractDictionaryKey (dictHeader key : Bytes) : Except Err Bytes :=
  match findMember U key (dictHeader.splitOn comma) with
  | some val => .ok val
  | none => .error (.wrap .errMissingComponent "dictionary key %q not found in header" [key])

/-- The values under every key that folds to the component's name, in the order visited. -/
def matchValues (ord : MapOrder) (headers : Header) (name : Bytes) : List Bytes :=
  (ord.visit headers).flatMap (fun e => if equalFold U e.1 name then e.2 else [])

def deriveHTTPField (ord : MapOrder) (ctx : RequestContext) (comp : ParsedComponent) :
    Except Err Bytes :=
  match if comp.tr then ctx.trailers else ctx.header with
  | none => .error (.wrap .errMissingComponent "header %q not found" [comp.name])
  | some headers =>
    let values := matchValues U ord headers comp.name
    if values = [] then .error (.wrap .errMissingComponent "header %q not found in message" [comp.name])
    else if comp.bs then
      .ok (join (lit ", ") (values.map (fun v =>
        colon :: stdEncoding.encode (cleanHeaderValue v) ++ [colon])))
    else if comp.key ≠ [] then extractDictionaryKey U (join (lit ", ") values) comp.key
    else .ok (join (lit ", ") (values.map cleanHeaderValue))

def deriveComponentValue (ord : MapOrder) (ctx : RequestContext) (comp : ParsedComponent) :
    Except Err Bytes :=
  if hasPrefix atSign comp.name then deriveDerivedComponent U ctx comp
  else deriveHTTPField U ord ctx comp

/-! ## 4. Signature parameters -/

/-- The identifiers that `SerializeSignatureParams` writes between the parentheses. -/
def serializedIdentifiers : List Bytes → Except Err (List Bytes)
  | [] => .ok []
  | compRaw :: rest => do
    let parsed ← parseComponentIdentifier U compRaw
    let tail ← serializedIdentifiers rest
    .ok (parsed.serialized :: tail)

/-- A parameter with an integer value, absent unless positive. -/
def intParam (name : String) (n : Int64) : Bytes :=
  if 0 < n then lit name ++ formatInt n else []

/-- A parameter with a string value, absent when empty. -/
def stringParam (name : String) (v : Bytes) : Bytes :=
  if v ≠ [] then lit name ++ v ++ [dquote] else []

/-- The parameters behind the inner list, in their fixed order. -/
def paramsText (params : SignatureParams) : Bytes :=
  intParam ";created=" params.created ++ intParam ";expires=" params.expires ++
    stringParam ";keyid=\"" params.keyID ++ stringParam ";alg=\"" params.alg ++
    stringParam ";nonce=\"" params.nonce ++ stringParam ";tag=\"" params.tag

def serializeSignatureParams (params : SignatureParams) : Except Err Bytes := do
  let identifiers ← serializedIdentifiers U params.components
  .ok ([lparen] ++ join [space] identifiers ++ [rparen] ++ paramsText params)

/-- The loop of `splitInnerList`: `current` is the builder, blanks outside quotes end an
item. -/
def splitInnerListLoop : Bool → Bytes → Bytes → List Bytes
  | _, current, [] => if current ≠ [] then [current] else []
  | inQuote, current, ch :: rest =>
    if ch = dquote then splitInnerListLoop (!inQuote) (current ++ [ch]) rest
    else if ch = space ∧ inQuote = false then
      if current ≠ [] then current :: splitInnerListLoop inQuote [] rest
      else splitInnerListLoop inQuote [] rest
    else splitInnerListLoop inQuote (current ++ [ch]) rest

def splitInnerList (inner : Bytes) : List Bytes := splitInnerListLoop false [] inner

/-- The switch of `ParseSignatureParams` on a parameter name. -/
def setParam (params : SignatureParams) (k v : Bytes) : SignatureParams :=
  if k = lit "created" then
    match parseInt v with
    | (c, none) => { params with created := c }
    | _ => params
  else if k = lit "expires" then
    match parseInt v with
    | (e, none) => { params with expires := e }
    | _ => params
  else if k = lit "keyid" then { params with keyID := v }
  else if k = lit "alg" then { params with alg := v }
  else if k = lit "nonce" then { params with nonce := v }
  else if k = lit "tag" then { params with tag := v }
  else params

/-- The loop body of `ParseSignatureParams` on one `;`-separated part. -/
def readParam (params : SignatureParams) (part : Bytes) : SignatureParams :=
  let p := trimSpace part
  if p = [] then params
  else match cut equals p with
    | none => params
    | some (k, v) => setParam params (toLower U (trimSpace k)) (stripPair dquote (trimSpace v))

def parseSignatureParams (input : Bytes) : Except Err SignatureParams :=
  let input := trimSpace input
  if !hasPrefix lparen input then
    .error (.wrap .errInvalidStructuredField "signature parameters must start with '('" [])
  else match cut rparen input with
    | none => .error (.wrap .errInvalidStructuredField "unclosed '(' in signature parameters" [])
    | some (list, rest) =>
      let innerList := trimSpace list.tail
      let paramsPart := trimSpace rest
      let params : SignatureParams :=
        { components := if innerList ≠ [] then splitInnerList innerList else [] }
      .ok (if paramsPart ≠ [] then (paramsPart.splitOn semicolon).foldl (readParam U) params
        else params)

/-! ## 5. The signature base -/

/-- The context a component is read from: the message itself, or with `req` the related
request of a response. -/
def targetContext (ctx : RequestContext) (parsed : ParsedComponent) : Except Err RequestContext :=
  if parsed.req then
    if !ctx.isResponse then
      .error (.wrap .errMissingComponent "req parameter cannot be used on request message" [])
    else match ctx.reqContext with
      | none => .error (.wrap .errMissingComponent "related request context missing for req parameter" [])
      | some reqCtx => .ok reqCtx
  else .ok ctx

/-- The loop of `BuildSignatureBase` over the covered components. -/
def baseLines (ord : Nat → MapOrder) (ctx : RequestContext) :
    List Bytes → List Bytes → Except Err Bytes
  | _, [] => .ok []
  | seen, compRaw :: rest => do
    let parsed ← parseComponentIdentifier U compRaw
    if parsed.serialized ∈ seen then
      .error (.wrap .errDuplicateComponent "%s" [parsed.serialized])
    else
      let targetCtx ← targetContext ctx parsed
      let val ← deriveComponentValue U (ord 0) targetCtx parsed
      let tail ← baseLines (fun i => ord (i + 1)) ctx (parsed.serialized :: seen) rest
      .ok (parsed.serialized ++ lit ": " ++ val ++ [newline] ++ tail)

def paramsLineHead : Bytes := lit "\"@signature-params\": "

def buildSignatureBase (ord : Nat → MapOrder) (ctx : RequestContext) (params : SignatureParams) :
    Except Err Bytes := do
  let lines ← baseLines U ord ctx [] params.components
  let sigParamsVal ← serializeSignatureParams U params
  let base := lines ++ paramsLineHead ++ sigParamsVal
  if base.all (fun b => b < 0x80) then .ok base
  else .error (.wrap .errInvalidStructuredField "signature base contains non-ASCII characters" [])

end AoniContrib.HttpSig
