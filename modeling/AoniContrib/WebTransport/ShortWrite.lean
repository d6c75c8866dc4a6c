/-
# Short writes: `webtransport/stream.go`

The first `Write` of a stream marks the header as written before the raw `Write` has answered.
Where that raw `Write` takes only a part of the header, nothing sends the rest of it: the next
`Write` sees the mark and puts its payload behind the part (`header_cut`).  The stream stays
readable, and each `Write` returns, if and only if the header can be written and the first raw
`Write` takes all of it, or no later one takes a byte (`header_intact_iff`).

The calls are made one after the other, and a raw `Write` takes some first bytes of its argument
and returns an error or none.
-/
import AoniContrib.WebTransport.Stream

namespace AoniContrib.WebTransport

open Go List

section
variable [Quicvarint] {ε : Type}

/-! ## 1. `Write` on a raw stream that takes a part -/

/-- A call of `Write`, with the answer of its raw `Write`. -/
structure WriteCall (ε : Type) where
  payload : Bytes
  /-- The raw `Write` takes no byte behind this many. -/
  accepts : Nat
  err : Option ε

structure Written where
  headerWritten : Bool
  /-- The bytes that the raw stream has taken. -/
  out : Bytes

/-- `s.raw.Write(b)`. -/
def WriteCall.raw (c : WriteCall ε) (out b : Bytes) : Bytes × Nat :=
  (out ++ b.take c.accepts, min c.accepts b.length)

/-- `Write`; none where `Append` panics. -/
def OutStream.write (st : OutStream) (s : Written) (c : WriteCall ε) :
    Option (Written × Nat × Option ε) :=
  if st.isClient && !s.headerWritten then
    match st.header with
    | none => none
    | some b =>
      let outBuf := b ++ c.payload
      let (out, n) := c.raw s.out outBuf
      some (⟨true, out⟩, if n > b.length then n - b.length else 0, c.err)
  else
    let (out, n) := c.raw s.out c.payload
    some (⟨s.headerWritten, out⟩, n, c.err)

/-- The calls one after the other, and what they return.  A panic leaves the mutex locked, and no
call behind it returns. -/
def OutStream.writes (st : OutStream) : Written → List (WriteCall ε) →
    Written × List (Nat × Option ε)
  | s, [] => (s, [])
  | s, c :: cs =>
    match st.write s c with
    | none => (s, [])
    | some (t, r) => ((st.writes t cs).1, r :: (st.writes t cs).2)

def Written.new (st : OutStream) : Written := ⟨!st.isClient, []⟩

/-! ## 2. What the peer reads -/

/-- The stream holds a part of the header and nothing else, or the header and a part of each
payload.  Every call returns, and what it returns is the length of its own part. -/
def HeaderIntact (st : OutStream) (calls : List (WriteCall ε)) : Prop :=
  ∃ parts : List Bytes, Forall₂ (fun c part => part <+: c.payload) calls parts ∧
    (st.writes (.new st) calls).2.map Prod.fst = parts.map length ∧
    ((st.writes (.new st) calls).1.out <+: st.header.getD [] ∧ parts.flatten = [] ∨
      (st.writes (.new st) calls).1.out = st.header.getD [] ++ parts.flatten)

/-- Where `Write` is called at all, there is a header (the session id is below `2^62`), and the first
raw `Write` takes the whole of it, or the later ones take nothing. -/
def HeaderTaken (st : OutStream) : List (WriteCall ε) → Prop
  | [] => True
  | c :: cs => ∃ header, st.header = some header ∧
      (header.length ≤ c.accepts ∨ ∀ d ∈ cs, d.payload.take d.accepts = [])

theorem writes_marked (st : OutStream) (out : Bytes) (calls : List (WriteCall ε)) :
    st.writes ⟨true, out⟩ calls = (⟨true, out ++ (calls.map fun c => c.payload.take c.accepts).flatten⟩,
        calls.map fun c => ((c.payload.take c.accepts).length, c.err)) := by
  induction calls generalizing out with
  | nil => simp [OutStream.writes]
  | cons c cs ih => simp [OutStream.writes, OutStream.write, WriteCall.raw, ih]

/-- The parts that the calls have put on the stream behind `header`. -/
def partsBehind (header : Bytes) : List (WriteCall ε) → List Bytes
  | [] => []
  | c :: cs => c.payload.take (c.accepts - header.length) ::
      cs.map fun d => d.payload.take d.accepts

variable {st : OutStream} {header : Bytes}

theorem writes_cons (hclient : st.isClient = true) (hheader : st.header = some header)
    (c : WriteCall ε) (cs : List (WriteCall ε)) :
    (st.writes (.new st) (c :: cs)).1.out =
        header.take c.accepts ++ (partsBehind header (c :: cs)).flatten ∧
      (st.writes (.new st) (c :: cs)).2.map Prod.fst = (partsBehind header (c :: cs)).map length := by
  have hfirst : st.write (.new st) c =
      some (⟨true, header.take c.accepts ++ c.payload.take (c.accepts - header.length)⟩,
        (c.payload.take (c.accepts - header.length)).length, c.err) := by
    have hlen : (if min c.accepts (header ++ c.payload).length > header.length then
        min c.accepts (header ++ c.payload).length - header.length else 0) =
        (c.payload.take (c.accepts - header.length)).length := by
      rw [length_append, length_take]
      split <;> omega
    simp [OutStream.write, WriteCall.raw, Written.new, hclient, hheader, take_append, ← hlen]
  simp only [OutStream.writes, hfirst, writes_marked]
  constructor
  · simp [partsBehind]
  · simp [partsBehind, Function.comp_def]

omit [Quicvarint] in
theorem forall₂_partsBehind (header : Bytes) (calls : List (WriteCall ε)) :
    Forall₂ (fun c part => part <+: c.payload) calls (partsBehind header calls) := by
  cases calls with
  | nil => exact .nil
  | cons c cs =>
    refine .cons ⟨_, take_append_drop _ _⟩ ?_
    rw [forall₂_map_right_iff, forall₂_same]
    intro d _
    exact take_prefix _ _

/-- **Short writes.**  For an outgoing `Stream` and a `SendStream`, over every sequence of calls and
every answer of the raw stream, the calls return and the header is intact if and only if it can be
written and the first raw `Write` takes all of it or no later one takes a byte. -/
theorem header_intact_iff {sessionID : UInt64} {st : OutStream}
    (hst : st = newOutgoingStream sessionID ∨ st = newSendStream sessionID)
    (calls : List (WriteCall ε)) : HeaderIntact st calls ↔ HeaderTaken st calls := by
  have hclient : st.isClient = true := by rcases hst with rfl | rfl <;> rfl
  cases calls with
  | nil => exact iff_of_true ⟨[], .nil, rfl, .inl ⟨⟨_, rfl⟩, rfl⟩⟩ trivial
  | cons c cs =>
    cases hheader : st.header with
    | none =>
      -- `Append` panics in the first call, and no call returns
      refine iff_of_false ?_ (by simp [HeaderTaken, hheader])
      rintro ⟨parts, hparts, hreturns, -⟩
      cases hparts
      simp [OutStream.writes, OutStream.write, Written.new, hclient, hheader] at hreturns
    | some header =>
      obtain ⟨hout, hreturns⟩ := writes_cons hclient hheader c cs
      simp only [HeaderIntact, HeaderTaken, hheader, Option.getD_some, Option.some.injEq,
        exists_eq_left', hout, hreturns]
      constructor
      · rintro ⟨parts, -, hlen, h⟩
        have hflat : parts.flatten.length = (partsBehind header (c :: cs)).flatten.length := by
          rw [length_flatten, length_flatten, hlen]
        rcases h with ⟨-, hnil⟩ | heq
        · right
          rw [hnil, length_nil, eq_comm, length_eq_zero_iff, flatten_eq_nil_iff] at hflat
          intro d hd
          exact hflat _ (mem_cons_of_mem _ (mem_map_of_mem hd))
        · left
          have := congrArg length heq
          rw [length_append, length_append, length_take] at this
          omega
      · intro h
        refine ⟨_, forall₂_partsBehind header (c :: cs), rfl, ?_⟩
        rcases le_or_gt header.length c.accepts with hle | hlt
        · right
          rw [take_of_length_le hle]
        · left
          have hnone : (partsBehind header (c :: cs)).flatten = [] := by
            have hcs := h.resolve_left (by omega)
            rw [partsBehind, Nat.sub_eq_zero_of_le hlt.le, take_zero, flatten_cons, nil_append,
              flatten_eq_nil_iff]
            intro part hpart
            obtain ⟨d, hd, rfl⟩ := mem_map.mp hpart
            exact hcs d hd
          rw [hnone, append_nil]
          exact ⟨⟨_, take_append_drop _ _⟩, rfl⟩

end

/-- The header of session 0 goes out whole and the first payload in part, and two calls follow. -/
theorem header_intact_three : HeaderIntact (newSendStream 0)
    [⟨lit "ab", 4, some ()⟩, ⟨lit "b", 1, none⟩, ⟨lit "cd", 0, some ()⟩] :=
  (header_intact_iff (.inr rfl) _).mpr ⟨[0x40, 0x54, 0x00], by decide, .inl (by decide)⟩

/-- The raw stream takes one byte of the header and fails; the caller writes the payload again,
and the peer reads `0x40 'h' 'i'`. -/
theorem header_cut : (newSendStream 0).header = some [0x40, 0x54, 0x00] ∧
      ((newSendStream 0).writes (.new (newSendStream 0))
        [⟨lit "hi", 1, some ()⟩, ⟨lit "hi", 2, none⟩]).1.out = 0x40 :: lit "hi" ∧
      ¬ HeaderIntact (newSendStream 0) [⟨lit "hi", 1, some ()⟩, ⟨lit "hi", 2, none⟩] := by
  refine ⟨by decide, by decide, ?_⟩
  rintro ⟨parts, -, hlen, ⟨-, hnil⟩ | hout⟩
  · have hsum := congrArg sum hlen
    rw [← length_flatten, hnil] at hsum
    exact absurd hsum (by decide)
  · have hhead := congrArg (·[1]?) hout
    simp only [show (newSendStream 0).header.getD [] = [0x40, 0x54, 0x00] by decide] at hhead
    exact absurd hhead (by simp; decide)

end AoniContrib.WebTransport
