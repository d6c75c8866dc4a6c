/-
# The exported document: `buildOTLPJSON` in `otel/exporter.go`

The exporter writes its JSON by hand, with `strconv.Quote` for the strings.  The text is the one of
`document`, the spans with their attributes and events in order, with Go literals for strings
(`buildOTLPJSON_eq`).  A Go literal is not always a JSON string: `document_read_iff` says that the
text is JSON, and says what it should, exactly when every string of the batch is quotable.
-/
import AoniContrib.Otel.Propagation

namespace AoniContrib.Otel

open Go List

/-! ## 1. The text -/

def TraceID.string (H : Hexkit) (t : TraceID) : Bytes := H.encode t.toList

def SpanID.string (H : Hexkit) (s : SpanID) : Bytes := H.encode s.toList

/-- A loop that writes a comma before every entry but the first. -/
def writeAll {α : Type} (write : α → Bytes) (entries : List α) : Bytes :=
  entries.zipIdx.flatMap fun (a, j) => (if 0 < j then [comma] else []) ++ write a

section

variable (P : PrintTable) (H : Hexkit)

def writeJSONString (s : Bytes) : Bytes := quote P s

def writeOTLPAttribute (a : Attribute) : Bytes :=
  lit "\x7b\"key\":" ++ writeJSONString P a.key ++ lit ",\"value\":\x7b" ++
  (match a.value with
    | .string v => lit "\"stringValue\":" ++ writeJSONString P v
    | .int n => lit "\"intValue\":\"" ++ formatInt n ++ lit "\""
    | .int32 n => lit "\"intValue\":\"" ++ formatInt n.toInt64 ++ lit "\""
    | .int64 n => lit "\"intValue\":\"" ++ formatInt n ++ lit "\""
    | .uint n => lit "\"intValue\":\"" ++ decimal n.toNat ++ lit "\""
    | .uint32 n => lit "\"intValue\":\"" ++ decimal n.toNat ++ lit "\""
    | .uint64 n => lit "\"intValue\":\"" ++ decimal n.toNat ++ lit "\""
    | .float64 text => lit "\"doubleValue\":" ++ text
    | .float32 text => lit "\"doubleValue\":" ++ text
    | .bool true => lit "\"boolValue\":true"
    | .bool false => lit "\"boolValue\":false"
    | .error text => lit "\"stringValue\":" ++ writeJSONString P text
    | .bytes b => lit "\"stringValue\":" ++ writeJSONString P b
    | .stringer text => lit "\"stringValue\":" ++ writeJSONString P text
    | .other => lit "\"stringValue\":" ++ writeJSONString P (lit "<value>")) ++
  lit "\x7d\x7d"

def writeAttributes (attributes : List Attribute) : Bytes :=
  if 0 < attributes.length then
    lit ",\"attributes\":[" ++ writeAll (writeOTLPAttribute P) attributes ++ lit "]"
  else []

def writeEvent (ev : Event) : Bytes :=
  lit "\x7b\"timeUnixNano\":\"" ++ formatInt ev.timestamp.unixNano ++ lit "\",\"name\":" ++
  writeJSONString P ev.name ++ writeAttributes P ev.attributes ++ lit "\x7d"

def writeSpan (s : SpanSnapshot) : Bytes :=
  lit "\x7b\"traceId\":\"" ++ s.spanContext.traceID.string H ++
  lit "\",\"spanId\":\"" ++ s.spanContext.spanID.string H ++ lit "\"" ++
  (if s.parentSpanContext.isValid then
    lit ",\"parentSpanId\":\"" ++ s.parentSpanContext.spanID.string H ++ lit "\""
  else []) ++
  lit ",\"name\":" ++ writeJSONString P s.name ++
  lit ",\"kind\":" ++ decimal s.kind.toNat ++
  lit ",\"startTimeUnixNano\":\"" ++ formatInt s.startTime.unixNano ++
  lit "\",\"endTimeUnixNano\":\"" ++ formatInt s.endTime.unixNano ++ lit "\"" ++
  lit ",\"status\":\x7b\"code\":" ++ decimal s.status.toNat ++
  (if s.statusDescription ≠ [] then lit ",\"message\":" ++ writeJSONString P s.statusDescription
  else []) ++
  lit "\x7d" ++ writeAttributes P s.attributes ++
  (if 0 < s.events.length then
    lit ",\"events\":[" ++ writeAll (writeEvent P) s.events ++ lit "]"
  else []) ++
  lit "\x7d"

/-- `buildOTLPJSON`.  A nil snapshot is passed over, but it counts for the commas. -/
def buildOTLPJSON (batch : List (Option SpanSnapshot)) : Bytes :=
  lit "\x7b\"resourceSpans\":[\x7b\"scopeSpans\":[\x7b\"scope\":\x7b\"name\":" ++
  lit "\"github.com/lemon4ksan/aoni-contrib/otel\",\"version\":\"1.0.0\"\x7d,\"spans\":[" ++
  (batch.zipIdx.flatMap fun (s, i) =>
    match s with
    | none => []
    | some s => (if 0 < i then [comma] else []) ++ writeSpan P H s) ++
  lit "]\x7d]\x7d]\x7d"

end

/-! ## 2. The document

`f` stands for what a reader makes of the strings of the batch. -/

section

variable (H : Hexkit) (f : Bytes → Bytes)

def valueMember : Value → Bytes × Json
  | .string s | .error s | .bytes s | .stringer s => (lit "stringValue", .str (f s))
  | .int n | .int64 n => (lit "intValue", .str (formatInt n))
  | .int32 n => (lit "intValue", .str (formatInt n.toInt64))
  | .uint n | .uint64 n => (lit "intValue", .str (decimal n.toNat))
  | .uint32 n => (lit "intValue", .str (decimal n.toNat))
  | .float64 text | .float32 text => (lit "doubleValue", .num text)
  | .bool b => (lit "boolValue", .bool b)
  | .other => (lit "stringValue", .str (lit "<value>"))

def attributeDocument (a : Attribute) : Json :=
  .obj [(lit "key", .str (f a.key)), (lit "value", .obj [valueMember f a.value])]

/-- A member that is left out when its list is empty. -/
def listMember {α : Type} (name : Bytes) (entry : α → Json) : List α → List (Bytes × Json)
  | [] => []
  | as => [(name, .arr (as.map entry))]

def eventDocument (ev : Event) : Json :=
  .obj ([(lit "timeUnixNano", .str (formatInt ev.timestamp.unixNano)),
      (lit "name", .str (f ev.name))] ++
    listMember (lit "attributes") (attributeDocument f) ev.attributes)

def statusDocument (s : SpanSnapshot) : Json :=
  .obj ((lit "code", .num (decimal s.status.toNat)) ::
    if s.statusDescription = [] then [] else [(lit "message", .str (f s.statusDescription))])

def spanDocument (s : SpanSnapshot) : Json :=
  .obj ([(lit "traceId", .str (s.spanContext.traceID.string H)),
      (lit "spanId", .str (s.spanContext.spanID.string H))] ++
    (if s.parentSpanContext.isValid then
      [(lit "parentSpanId", .str (s.parentSpanContext.spanID.string H))]
    else []) ++
    [(lit "name", .str (f s.name)),
      (lit "kind", .num (decimal s.kind.toNat)),
      (lit "startTimeUnixNano", .str (formatInt s.startTime.unixNano)),
      (lit "endTimeUnixNano", .str (formatInt s.endTime.unixNano)),
      (lit "status", statusDocument f s)] ++
    listMember (lit "attributes") (attributeDocument f) s.attributes ++
    listMember (lit "events") (eventDocument f) s.events)

def scopeDocument : Json :=
  .obj [(lit "name", .str (lit "github.com/lemon4ksan/aoni-contrib/otel")),
    (lit "version", .str (lit "1.0.0"))]

def document (batch : List SpanSnapshot) : Json :=
  .obj [(lit "resourceSpans", .arr [.obj [(lit "scopeSpans", .arr [.obj [
    (lit "scope", scopeDocument),
    (lit "spans", .arr (batch.map (spanDocument H f)))]])]])]

end

/-! ## 3. The text is that of the document -/

theorem writeAll_cons {α : Type} (write : α → Bytes) (a : α) (as : List α) :
    writeAll write (a :: as) = write a ++ as.flatMap fun a => comma :: write a := by
  have hrest : ∀ (as : List α) (k : Nat), 0 < k →
      (as.zipIdx k).flatMap (fun (a, j) => (if 0 < j then [comma] else []) ++ write a) =
        as.flatMap fun a => comma :: write a := by
    intro as
    induction as with
    | nil => exact fun _ _ => rfl
    | cons a as ih =>
      intro k hk
      rw [zipIdx_cons, flatMap_cons, flatMap_cons, ih (k + 1) (by omega)]
      simp only [if_pos hk, singleton_append]
  rw [writeAll, zipIdx_cons, flatMap_cons, hrest as 1 (by omega)]
  rfl

theorem render_arr {α : Type} {q : Bytes → Bytes} {write : α → Bytes} {entry : α → Json}
    (h : ∀ a, write a = (entry a).render q) (as : List α) :
    (Json.arr (as.map entry)).render q = [Json.lbracket] ++ writeAll write as ++ [Json.rbracket] := by
  cases as with
  | nil => rfl
  | cons a as =>
    rw [writeAll_cons, map_cons, Json.render, Json.renderItems_eq, flatMap_map]
    simp only [← h, cons_append, nil_append, append_assoc]

section

variable {P : PrintTable} {H : Hexkit}

theorem quote_lit {k : String} (h : (lit k).all isPlain = true) :
    quote P (lit k) = dquote :: lit k ++ [dquote] :=
  quote_plain (all_eq_true.mp h)

theorem isPlain_decimal (n : Nat) : ∀ b ∈ decimal n, isPlain b = true := by
  have hdigit : ∀ b : UInt8, isDigit b = true → isPlain b = true := by grind [isDigit, isPlain]
  exact fun b hb => hdigit b (isDigit_of_mem_decimal hb)

theorem isPlain_formatInt (n : Int64) : ∀ b ∈ formatInt n, isPlain b = true := by
  have hdigit : ∀ b : UInt8, isDigit b = true ∨ b = minus → isPlain b = true := by grind [isDigit, isPlain]
  exact fun b hb => hdigit b (mem_formatInt hb)

theorem isPlain_encode (id : Bytes) : ∀ b ∈ H.encode id, isPlain b = true := by
  have hdigit : ∀ b : UInt8, isHex b = true → isPlain b = true := by grind [isHex, unhex, isPlain]
  exact fun b hb => hdigit b ((H.encode_digits id).2 b hb)

theorem quote_decimal (n : Nat) : quote P (decimal n) = dquote :: decimal n ++ [dquote] :=
  quote_plain (isPlain_decimal n)

theorem quote_formatInt (n : Int64) : quote P (formatInt n) = dquote :: formatInt n ++ [dquote] :=
  quote_plain (isPlain_formatInt n)

theorem lit_append (a b : String) : lit (a ++ b) = lit a ++ lit b := by
  simp only [lit, String.toList_append, map_append]

theorem renderMember_lit {k : String} (h : (lit k).all isPlain = true) (v : Json) :
    Json.renderMember (quote P) (lit k, v) = lit (",\"" ++ k ++ "\":") ++ v.render (quote P) := by
  have hopen : lit ",\"" = [comma, dquote] := rfl
  have hclose : lit "\":" = [dquote, colon] := rfl
  simp only [Json.renderMember, quote_lit h, lit_append, hopen, hclose, cons_append,
    append_assoc, nil_append]

theorem render_obj_lit {k : String} (h : (lit k).all isPlain = true) (v : Json)
    (ms : List (Bytes × Json)) : (Json.obj ((lit k, v) :: ms)).render (quote P) =
      lit ("\x7b\"" ++ k ++ "\":") ++ v.render (quote P) ++
        ms.flatMap (Json.renderMember (quote P)) ++ lit "\x7d" := by
  have hopen : lit "\x7b\"" = [Json.lbrace, dquote] := rfl
  have hclose : lit "\":" = [dquote, colon] := rfl
  have hend : lit "\x7d" = [Json.rbrace] := rfl
  simp only [Json.render_obj, quote_lit h, lit_append, hopen, hclose, hend, cons_append,
    append_assoc, nil_append]

theorem render_str_plain {t : Bytes} (h : ∀ b ∈ t, isPlain b = true) :
    (Json.str t).render (quote P) = lit "\"" ++ t ++ lit "\"" := by
  rw [Json.render_str, quote_plain h]
  rfl

theorem render_traceID (t : TraceID) :
    (Json.str (t.string H)).render (quote P) = lit "\"" ++ t.string H ++ lit "\"" :=
  render_str_plain (isPlain_encode _)

theorem render_spanID (s : SpanID) :
    (Json.str (s.string H)).render (quote P) = lit "\"" ++ s.string H ++ lit "\"" :=
  render_str_plain (isPlain_encode _)

theorem writeOTLPAttribute_eq (a : Attribute) :
    writeOTLPAttribute P a = (attributeDocument id a).render (quote P) := by
  obtain ⟨k, v⟩ := a
  -- both sides are lists of bytes and of the texts that depend on the attribute, in the same order
  cases v with
  | bool b =>
    cases b <;>
    · simp (disch := decide) only [writeOTLPAttribute, attributeDocument, valueMember, Json.render,
        Json.renderMembers, writeJSONString, quote_lit, append_assoc, cons_append]
      rfl
  | _ =>
    simp (disch := decide) only [writeOTLPAttribute, attributeDocument, valueMember, Json.render,
      Json.renderMembers, writeJSONString, quote_lit, quote_decimal, quote_formatInt,
      append_assoc, cons_append]
    rfl

theorem listMember_eq {α : Type} {write : α → Bytes} {entry : α → Json}
    (h : ∀ a, write a = (entry a).render (quote P)) {name : String}
    (hname : (lit name).all isPlain = true) (as : List α) :
    (listMember (lit name) entry as).flatMap (Json.renderMember (quote P)) = if 0 < as.length then
        lit (",\"" ++ name ++ "\":") ++ lit "[" ++ writeAll write as ++ lit "]"
      else [] := by
  have hopen : lit "[" = [Json.lbracket] := rfl
  have hend : lit "]" = [Json.rbracket] := rfl
  cases as with
  | nil => rfl
  | cons a as =>
    simp only [listMember, flatMap_cons, flatMap_nil, render_arr h, hopen, hend,
      renderMember_lit hname, length_cons, Nat.zero_lt_succ, if_true, append_assoc,
      append_nil]

theorem writeAttributes_eq (as : List Attribute) : writeAttributes P as =
    (listMember (lit "attributes") (attributeDocument id) as).flatMap
      (Json.renderMember (quote P)) := by
  rw [listMember_eq writeOTLPAttribute_eq (by decide), ← lit_append]
  rfl

theorem writeEvent_eq (ev : Event) : writeEvent P ev = (eventDocument id ev).render (quote P) := by
  have htime : lit "\x7b\"timeUnixNano\":\"" =
      lit ("\x7b\"" ++ "timeUnixNano" ++ "\":") ++ lit "\"" := rfl
  have hname : lit "\",\"name\":" = lit "\"" ++ lit (",\"" ++ "name" ++ "\":") := rfl
  rw [eventDocument, cons_append, singleton_append, render_obj_lit (by decide),
    flatMap_cons, renderMember_lit (by decide), render_str_plain (isPlain_formatInt _),
    Json.render_str, ← writeAttributes_eq, writeEvent, htime, hname, writeJSONString, id]
  simp only [append_assoc]

variable (s : SpanSnapshot)

theorem statusDocument_eq : (statusDocument id s).render (quote P) =
      lit "\x7b\"code\":" ++ decimal s.status.toNat ++
      (if s.statusDescription ≠ [] then
        lit ",\"message\":" ++ writeJSONString P s.statusDescription else []) ++ lit "\x7d" := by
  have hcode : lit "\x7b\"code\":" = lit ("\x7b\"" ++ "code" ++ "\":") := rfl
  have hmessage : lit ",\"message\":" = lit (",\"" ++ "message" ++ "\":") := rfl
  rw [statusDocument, render_obj_lit (by decide), Json.render_num, hcode, hmessage]
  by_cases h : s.statusDescription = []
  · rw [if_pos h, if_neg (not_not.mpr h), flatMap_nil]
  · rw [if_neg h, if_pos h, flatMap_cons, flatMap_nil, append_nil,
      renderMember_lit (by decide), Json.render_str, writeJSONString, id]

theorem parentMember_eq : (if s.parentSpanContext.isValid then
      [(lit "parentSpanId", Json.str (s.parentSpanContext.spanID.string H))] else []).flatMap
        (Json.renderMember (quote P)) =
      if s.parentSpanContext.isValid then
        lit ",\"parentSpanId\":\"" ++ s.parentSpanContext.spanID.string H ++ lit "\"" else [] := by
  have hparent : lit ",\"parentSpanId\":\"" = lit (",\"" ++ "parentSpanId" ++ "\":") ++ lit "\"" := rfl
  split
  · rw [flatMap_cons, flatMap_nil, append_nil, renderMember_lit (by decide), render_spanID, hparent]
    simp only [append_assoc]
  · rfl

theorem fixedMembers_eq :
    [(lit "name", Json.str (id s.name)), (lit "kind", .num (decimal s.kind.toNat)),
      (lit "startTimeUnixNano", .str (formatInt s.startTime.unixNano)),
      (lit "endTimeUnixNano", .str (formatInt s.endTime.unixNano)),
      (lit "status", statusDocument id s)].flatMap (Json.renderMember (quote P)) =
    lit ",\"name\":" ++ writeJSONString P s.name ++
    lit ",\"kind\":" ++ decimal s.kind.toNat ++
    lit ",\"startTimeUnixNano\":\"" ++ formatInt s.startTime.unixNano ++
    lit "\",\"endTimeUnixNano\":\"" ++ formatInt s.endTime.unixNano ++ lit "\"" ++
    lit ",\"status\":" ++ (statusDocument id s).render (quote P) := by
  have hname : lit ",\"name\":" = lit (",\"" ++ "name" ++ "\":") := rfl
  have hkind : lit ",\"kind\":" = lit (",\"" ++ "kind" ++ "\":") := rfl
  have hstart : lit ",\"startTimeUnixNano\":\"" =
      lit (",\"" ++ "startTimeUnixNano" ++ "\":") ++ lit "\"" := rfl
  have hend : lit "\",\"endTimeUnixNano\":\"" =
      lit "\"" ++ lit (",\"" ++ "endTimeUnixNano" ++ "\":") ++ lit "\"" := rfl
  have hstatus : lit ",\"status\":" = lit (",\"" ++ "status" ++ "\":") := rfl
  simp only [flatMap_cons, flatMap_nil, append_nil]
  rw [renderMember_lit (by decide), renderMember_lit (by decide), renderMember_lit (by decide),
    renderMember_lit (by decide), renderMember_lit (by decide),
    render_str_plain (isPlain_formatInt _), render_str_plain (isPlain_formatInt _),
    Json.render_str, Json.render_num, hname, hkind, hstart, hend, hstatus, writeJSONString, id]
  simp only [append_assoc]

theorem idMembers_eq (ms : List (Bytes × Json)) :
    (Json.obj ((lit "traceId", .str (s.spanContext.traceID.string H)) ::
      (lit "spanId", .str (s.spanContext.spanID.string H)) :: ms)).render (quote P) =
    lit "\x7b\"traceId\":\"" ++ s.spanContext.traceID.string H ++
    lit "\",\"spanId\":\"" ++ s.spanContext.spanID.string H ++ lit "\"" ++
    ms.flatMap (Json.renderMember (quote P)) ++ lit "\x7d" := by
  have htrace : lit "\x7b\"traceId\":\"" = lit ("\x7b\"" ++ "traceId" ++ "\":") ++ lit "\"" := rfl
  have hspan : lit "\",\"spanId\":\"" = lit "\"" ++ lit (",\"" ++ "spanId" ++ "\":") ++ lit "\"" := rfl
  rw [render_obj_lit (by decide), flatMap_cons, renderMember_lit (by decide), render_traceID,
    render_spanID, htrace, hspan]
  simp only [append_assoc]

theorem writeSpan_eq : writeSpan P H s = (spanDocument H id s).render (quote P) := by
  have hstatus : lit ",\"status\":\x7b\"code\":" = lit ",\"status\":" ++ lit "\x7b\"code\":" := rfl
  have hevents : lit ",\"events\":[" = lit (",\"" ++ "events" ++ "\":") ++ lit "[" := rfl
  rw [spanDocument, append_assoc, append_assoc, append_assoc, cons_append,
    singleton_append, idMembers_eq, flatMap_append, flatMap_append,
    flatMap_append, parentMember_eq, fixedMembers_eq, statusDocument_eq, ← writeAttributes_eq,
    listMember_eq writeEvent_eq (by decide)]
  unfold writeSpan
  rw [hstatus, hevents]
  simp only [append_assoc]

theorem render_arr_one (v : Json) :
    (Json.arr [v]).render (quote P) = lit "[" ++ v.render (quote P) ++ lit "]" := by
  rw [Json.render, Json.renderItems]
  rfl

theorem scopeDocument_eq : scopeDocument.render (quote P) =
    lit "\x7b\"name\":\"github.com/lemon4ksan/aoni-contrib/otel\",\"version\":\"1.0.0\"\x7d" := by
  rw [scopeDocument, render_obj_lit (by decide), flatMap_cons, flatMap_nil,
    renderMember_lit (by decide), render_str_plain (all_eq_true.mp (by decide)),
    render_str_plain (all_eq_true.mp (by decide))]
  rfl

theorem writeSpans_eq (batch : List SpanSnapshot) : ((batch.map some).zipIdx.flatMap fun (s, i) =>
      match s with
      | none => []
      | some s => (if 0 < i then [comma] else []) ++ writeSpan P H s) =
    writeAll (writeSpan P H) batch := by
  rw [zipIdx_map, flatMap_map]
  rfl

/-- **The text is that of the document**, with Go literals for strings. -/
theorem buildOTLPJSON_eq (batch : List SpanSnapshot) :
    buildOTLPJSON P H (batch.map some) = (document H id batch).render (quote P) := by
  have hopen : lit "\x7b\"resourceSpans\":[\x7b\"scopeSpans\":[\x7b\"scope\":\x7b\"name\":" ++
      lit "\"github.com/lemon4ksan/aoni-contrib/otel\",\"version\":\"1.0.0\"\x7d,\"spans\":[" =
      lit ("\x7b\"" ++ "resourceSpans" ++ "\":") ++ lit "[" ++
      lit ("\x7b\"" ++ "scopeSpans" ++ "\":") ++ lit "[" ++
      lit ("\x7b\"" ++ "scope" ++ "\":") ++
      lit "\x7b\"name\":\"github.com/lemon4ksan/aoni-contrib/otel\",\"version\":\"1.0.0\"\x7d" ++
      lit (",\"" ++ "spans" ++ "\":") ++ lit "[" := rfl
  have hend : lit "]\x7d]\x7d]\x7d" =
      lit "]" ++ lit "\x7d" ++ lit "]" ++ lit "\x7d" ++ lit "]" ++ lit "\x7d" := rfl
  have hspans : (Json.arr (batch.map (spanDocument H id))).render (quote P) =
      lit "[" ++ writeAll (writeSpan P H) batch ++ lit "]" := render_arr writeSpan_eq batch
  rw [document, render_obj_lit (by decide), render_arr_one, render_obj_lit (by decide),
    render_arr_one, render_obj_lit (by decide), flatMap_cons, flatMap_nil,
    renderMember_lit (by decide), scopeDocument_eq, hspans]
  unfold buildOTLPJSON
  rw [hopen, hend, writeSpans_eq]
  simp only [append_assoc, append_nil]

end

/-! ## 4. What is read -/

/-- The string that a value is written with, if it is one of the caller's. -/
def Value.text : Value → List Bytes
  | .string s | .error s | .bytes s | .stringer s => [s]
  | _ => []

def Value.isFloat : Value → Bool
  | .float64 _ | .float32 _ => true
  | _ => false

def Attribute.strings (a : Attribute) : List Bytes := a.key :: a.value.text

def Event.strings (ev : Event) : List Bytes := ev.name :: ev.attributes.flatMap Attribute.strings

/-- The byte strings of a snapshot that the caller chose: its name and status description, the keys
and texts of its attributes, and those of its events. -/
def SpanSnapshot.strings (s : SpanSnapshot) : List Bytes :=
  s.name :: s.statusDescription :: s.attributes.flatMap Attribute.strings ++
    s.events.flatMap Event.strings

def SpanSnapshot.allAttributes (s : SpanSnapshot) : List Attribute :=
  s.attributes ++ s.events.flatMap Event.attributes

section

variable {P : PrintTable} {H : Hexkit}

theorem quotable_lit {k : String} (h : (lit k).all isPlain = true) : quotable P (lit k) = true :=
  quotable_plain (all_eq_true.mp h)

theorem quotable_decimal (n : Nat) : quotable P (decimal n) = true := quotable_plain (isPlain_decimal n)

theorem quotable_formatInt (n : Int64) : quotable P (formatInt n) = true :=
  quotable_plain (isPlain_formatInt n)

theorem quotable_traceID (t : TraceID) : quotable P (t.string H) = true :=
  quotable_plain (isPlain_encode _)

theorem quotable_spanID (s : SpanID) : quotable P (s.string H) = true :=
  quotable_plain (isPlain_encode _)

theorem attributeDocument_strings (a : Attribute) :
    (attributeDocument id a).strings.all (quotable P) = a.strings.all (quotable P) := by
  obtain ⟨k, v⟩ := a
  cases v <;> simp (disch := decide) [attributeDocument, valueMember, Json.strings, Json.stringsMembers,
      Attribute.strings, Value.text, quotable_lit, quotable_decimal, quotable_formatInt]

theorem listMember_strings {α : Type} {entry : α → Json} {strings : α → List Bytes}
    (h : ∀ a, (entry a).strings.all (quotable P) = (strings a).all (quotable P)) {name : String}
    (hname : (lit name).all isPlain = true) (as : List α) :
    (Json.stringsMembers (listMember (lit name) entry as)).all (quotable P) =
      (as.flatMap strings).all (quotable P) := by
  cases as with
  | nil => rfl
  | cons a as =>
    simp only [listMember, Json.stringsMembers, Json.strings, Json.stringsItems_eq, append_nil,
      all_cons, quotable_lit hname, Bool.true_and, all_flatMap, all_map]
    exact congrArg (List.all (a :: as)) (funext h)

theorem eventDocument_strings (ev : Event) :
    (eventDocument id ev).strings.all (quotable P) = ev.strings.all (quotable P) := by
  have hattributes := listMember_strings (P := P) attributeDocument_strings
    (by decide : (lit "attributes").all isPlain = true) ev.attributes
  simp (disch := decide) only [eventDocument, Json.strings, Json.stringsMembers, all_cons,
    hattributes, quotable_lit, quotable_formatInt, Event.strings, id, cons_append,
    nil_append, Bool.true_and]

theorem statusDocument_strings (s : SpanSnapshot) :
    (statusDocument id s).strings.all (quotable P) = quotable P s.statusDescription := by
  rw [statusDocument]
  split
  · rename_i hnil
    rw [hnil]
    simp (disch := decide) only [Json.strings, Json.stringsMembers, append_nil, all_cons,
      all_nil, quotable_lit, Bool.and_true]
    rfl
  · simp (disch := decide) only [Json.strings, Json.stringsMembers, nil_append,
      cons_append, all_cons, all_nil, quotable_lit, Bool.and_true, Bool.true_and, id]

theorem spanDocument_strings (s : SpanSnapshot) :
    (spanDocument H id s).strings.all (quotable P) = s.strings.all (quotable P) := by
  have hattributes := listMember_strings (P := P) attributeDocument_strings
    (by decide : (lit "attributes").all isPlain = true) s.attributes
  have hevents := listMember_strings (P := P) eventDocument_strings
    (by decide : (lit "events").all isPlain = true) s.events
  have hparent : (Json.stringsMembers (if s.parentSpanContext.isValid then
      [(lit "parentSpanId", .str (s.parentSpanContext.spanID.string H))] else [])).all
        (quotable P) = true := by
    split
    · simp (disch := decide) only [Json.strings, Json.stringsMembers, cons_append,
        nil_append, all_cons, all_nil, quotable_lit, quotable_spanID, Bool.and_true]
    · rfl
  simp (disch := decide) only [spanDocument, Json.strings, Json.stringsMembers_append,
    Json.stringsMembers, all_append, all_cons, all_nil, hattributes, hevents,
    hparent, statusDocument_strings, quotable_lit, quotable_formatInt, quotable_traceID,
    quotable_spanID, SpanSnapshot.strings, id, cons_append, nil_append, Bool.true_and,
    Bool.and_true, Bool.and_assoc]

theorem document_strings (batch : List SpanSnapshot) : (document H id batch).strings.all (quotable P) =
      (batch.flatMap SpanSnapshot.strings).all (quotable P) := by
  have hspans : (Json.stringsItems (batch.map (spanDocument H id))).all (quotable P) =
      (batch.flatMap SpanSnapshot.strings).all (quotable P) := by
    rw [Json.stringsItems_eq, all_flatMap, all_flatMap, all_map]
    exact congrArg (List.all batch) (funext spanDocument_strings)
  simp (disch := decide) only [document, scopeDocument, Json.strings, Json.stringsMembers,
    Json.stringsItems, append_nil, cons_append, nil_append, all_cons,
    quotable_lit, hspans, Bool.true_and]

theorem attributeDocument_numbers {a : Attribute} (h : a.value.isFloat = false) :
    (attributeDocument id a).numbers = [] := by
  obtain ⟨k, v⟩ := a
  cases v with
  | float64 _ | float32 _ => cases h
  | _ => simp [attributeDocument, valueMember, Json.numbers, Json.numbersMembers]

theorem listMember_numbers {α : Type} {entry : α → Json} {as : List α} (name : Bytes)
    (h : ∀ a ∈ as, (entry a).numbers = []) :
    Json.numbersMembers (listMember name entry as) = [] := by
  cases as with
  | nil => rfl
  | cons a as =>
    simp only [listMember, Json.numbersMembers, Json.numbers, Json.numbersItems_eq, append_nil,
      flatMap_eq_nil_iff, forall_mem_map]
    exact h

theorem eventDocument_numbers {ev : Event} (h : ∀ a ∈ ev.attributes, a.value.isFloat = false) :
    (eventDocument id ev).numbers = [] := by
  rw [eventDocument, Json.numbers, Json.numbersMembers_append,
    listMember_numbers _ fun a ha => attributeDocument_numbers (h a ha)]
  simp [Json.numbersMembers, Json.numbers]

theorem spanDocument_numbers {s : SpanSnapshot}
    (h : ∀ a ∈ s.allAttributes, a.value.isFloat = false) :
    (spanDocument H id s).numbers = [decimal s.kind.toNat, decimal s.status.toNat] := by
  have hattributes := listMember_numbers (lit "attributes") fun a ha =>
    attributeDocument_numbers (h a (mem_append_left _ ha))
  have hevents := listMember_numbers (lit "events") fun ev hev =>
    eventDocument_numbers fun a ha =>
      h a (mem_append_right _ (mem_flatMap.mpr ⟨ev, hev, ha⟩))
  rw [spanDocument, Json.numbers, Json.numbersMembers_append, Json.numbersMembers_append,
    Json.numbersMembers_append, Json.numbersMembers_append, hattributes, hevents, statusDocument]
  split <;> split <;> simp [Json.numbersMembers, Json.numbers]

theorem document_numbers {batch : List SpanSnapshot}
    (h : ∀ s ∈ batch, ∀ a ∈ s.allAttributes, a.value.isFloat = false) :
    ∀ t ∈ (document H id batch).numbers, Json.IsNumber t := by
  have hspans : (document H id batch).numbers = Json.numbersItems (batch.map (spanDocument H id)) := by
    simp [document, scopeDocument, Json.numbersMembers, Json.numbers, Json.numbersItems]
  intro t ht
  rw [hspans, Json.numbersItems_eq, flatMap_map, mem_flatMap] at ht
  obtain ⟨s, hs, ht⟩ := ht
  rw [spanDocument_numbers (h s hs)] at ht
  rcases mem_pair.mp ht with rfl | rfl
  · exact Json.isNumber_decimal _
  · exact Json.isNumber_decimal _

/-- **The exported text is valid JSON exactly when its strings are quotable.**  For a batch without
floating-point attributes: an RFC 8259 parser accepts the text, and finds in it the spans,
attributes and events of the batch in order with every string of valid UTF-8 as it was, iff each
string of the batch is valid UTF-8 without characters that need an escape only Go has. -/
theorem document_read_iff {batch : List SpanSnapshot}
    (h : ∀ s ∈ batch, ∀ a ∈ s.allAttributes, a.value.isFloat = false) :
    (∃ f : Bytes → Bytes, (∀ s, utf8Valid s = true → f s = s) ∧
      Json.parse (buildOTLPJSON P H (batch.map some)) = some (document H f batch)) ↔
    ∀ s ∈ batch, ∀ t ∈ s.strings, quotable P t = true := by
  have hparse : Json.parse (buildOTLPJSON P H (batch.map some)) =
      if (batch.flatMap SpanSnapshot.strings).all (quotable P) then some (document H id batch)
      else none := by
    rw [buildOTLPJSON_eq, Json.parse_render quote_reads _ (document_numbers h), document_strings]
  have hall : (batch.flatMap SpanSnapshot.strings).all (quotable P) = true ↔
      ∀ s ∈ batch, ∀ t ∈ s.strings, quotable P t = true := by
    simp only [all_eq_true, mem_flatMap, forall_exists_index, and_imp]
    exact ⟨fun hq s hs t ht => hq t s hs ht, fun hq t s hs ht => hq s hs t ht⟩
  rw [hparse, ← hall]
  constructor
  · rintro ⟨f, -, hf⟩
    split at hf
    · assumption
    · cases hf
  · intro hq
    exact ⟨id, fun _ _ => rfl, if_pos hq⟩

def namedSnapshot (name : Bytes) : SpanSnapshot where
  name := name
  spanContext := {}
  parentSpanContext := {}
  kind := 0
  startTime := ⟨0, 0⟩
  endTime := ⟨0, 0⟩
  duration := 0
  status := statusUnset
  statusDescription := []
  attributes := []
  events := []

theorem document_read_iff_named : (∃ f : Bytes → Bytes, (∀ s, utf8Valid s = true → f s = s) ∧
      Json.parse (buildOTLPJSON .asciiOnly lowerHexkit [some (namedSnapshot (lit "GET /"))]) =
        some (document lowerHexkit f [namedSnapshot (lit "GET /")])) :=
  (@document_read_iff .asciiOnly _ [namedSnapshot (lit "GET /")] (by decide)).mpr (by decide)

/-- The bell character as a name: it is valid UTF-8, `strconv.Quote` writes `\a`, and the text is no
JSON. -/
theorem document_not_read : utf8Valid [0x07] = true ∧
      Json.parse (buildOTLPJSON .asciiOnly lowerHexkit [some (namedSnapshot [0x07])]) = none :=
  ⟨by decide, Option.isNone_iff_eq_none.mp (by decide +kernel)⟩

end

end AoniContrib.Otel
