/-
# The end of a stream

`Recv` treats `io.ErrUnexpectedEOF` as it treats `io.EOF`: if the trailers say that all is well, it
returns `io.EOF`.  So a body that ends inside a frame is reported as a normal end
(`cut_stream_ends_normally`).  At every other end the bytes that were consumed are complete frames, and
the final status is 0 (`eof_complete_iff`).

A frame is five bytes of flags and length, and the payload.  What the framer does with a body is an
assumption (`LawfulFramer`), and so is how gzip reports a payload that is cut off.
-/
import AoniContrib.Grpc.Outcome

namespace AoniContrib.Grpc

open Go List

variable {ord : Nat → MapOrder} {body r : Reader} {resp : Response}

/-! ## 1. Frames -/

def IsFrame (f : Bytes) : Prop :=
  ∃ (flags : UInt8) (len : UInt32) (payload : Bytes), payload.length = len.toNat ∧
    f = flags :: ByteOrder.bigEndian.putUint32 len ++ payload

/-- A concatenation of complete frames. -/
inductive Frames : Bytes → Prop where
  | nil : Frames []
  | cons {f bs : Bytes} : IsFrame f → Frames bs → Frames (f ++ bs)

def Cut (bs : Bytes) : Prop := bs ≠ [] ∧ ∃ rest, rest ≠ [] ∧ IsFrame (bs ++ rest)

variable {f x y bs : Bytes}

theorem IsFrame.ne_nil (h : IsFrame f) : f ≠ [] := by
  obtain ⟨flags, len, payload, -, rfl⟩ := h
  exact cons_ne_nil _ _

theorem IsFrame.unique {g s t : Bytes} (hf : IsFrame f) (hg : IsFrame g) (h : f ++ s = g ++ t) :
    f = g ∧ s = t := by
  obtain ⟨flags, len, payload, hlen, rfl⟩ := hf
  obtain ⟨flags', len', payload', hlen', rfl⟩ := hg
  simp only [cons_append, append_assoc, List.cons.injEq] at h
  obtain ⟨rfl, h⟩ := h
  obtain ⟨hput, hrest⟩ := append_inj h (by rw [ByteOrder.length_putUint32, ByteOrder.length_putUint32])
  obtain rfl : len = len' := by
    rw [← ByteOrder.uint32_putUint32 .bigEndian len, hput, ByteOrder.uint32_putUint32]
  obtain ⟨rfl, rfl⟩ := append_inj hrest (hlen.trans hlen'.symm)
  exact ⟨rfl, rfl⟩

theorem Frames.append (hx : Frames x) (hy : Frames y) : Frames (x ++ y) := by
  induction hx with
  | nil => exact hy
  | cons hf _ ih =>
    rw [append_assoc]
    exact .cons hf ih

theorem Frames.of_append (hx : Frames x) (h : Frames (x ++ y)) : Frames y := by
  induction hx with
  | nil => exact h
  | @cons f bs hf _ ih =>
    refine ih ?_
    rw [append_assoc] at h
    generalize hall : f ++ (bs ++ y) = all at h
    cases h with
    | nil => exact absurd (append_eq_nil_iff.mp hall).1 hf.ne_nil
    | cons hg hrest =>
      obtain ⟨-, rfl⟩ := hf.unique hg hall
      exact hrest

theorem Cut.not_frames (h : Cut bs) : ¬ Frames bs := by
  obtain ⟨hne, rest, hrest, hframe⟩ := h
  intro hframes
  cases hframes with
  | nil => exact hne rfl
  | @cons f bs hf _ =>
    -- the first frame would be the whole one that was cut
    have hsame : f ++ (bs ++ rest) = (f ++ bs ++ rest) ++ [] := by simp
    obtain ⟨-, hnil⟩ := hf.unique hframe hsame
    exact hrest (append_eq_nil_iff.mp hnil).2

theorem putUint32_uint32 (h : bs.length = 4) :
    ByteOrder.bigEndian.putUint32 (ByteOrder.bigEndian.uint32 bs) = bs := by
  obtain ⟨b3, b2, b1, b0, rfl⟩ : ∃ b3 b2 b1 b0, bs = [b3, b2, b1, b0] := by
    match bs, h with
    | [b3, b2, b1, b0], _ => exact ⟨b3, b2, b1, b0, rfl⟩
  have h0 := b0.toNat_lt
  have h1 := b1.toNat_lt
  have h2 := b2.toNat_lt
  have h3 := b3.toNat_lt
  have hbyte : ∀ {n : Nat} {b : UInt8}, n % 256 = b.toNat → UInt8.ofNat n = b := by
    intro n b h
    exact UInt8.toNat_inj.mp (by rw [UInt8.toNat_ofNat', h])
  have hsum : (UInt32.ofNat (b0.toNat + b1.toNat * 2 ^ 8 + b2.toNat * 2 ^ 16 +
      b3.toNat * 2 ^ 24)).toNat = b0.toNat + b1.toNat * 2 ^ 8 + b2.toNat * 2 ^ 16 +
      b3.toNat * 2 ^ 24 := by
    rw [UInt32.toNat_ofNat']
    omega
  simp only [ByteOrder.uint32, ByteOrder.putUint32, ByteOrder.lowFirst, hsum, reverse_cons,
    reverse_nil, nil_append, cons_append]
  rw [hbyte (b := b3) (by omega), hbyte (b := b2) (by omega), hbyte (b := b1) (by omega),
    hbyte (b := b0) (by omega)]

/-- **A body is at its end, in the last frame, or before a complete one.** -/
theorem nil_or_cut_or_frame (bs : Bytes) : bs = [] ∨ Cut bs ∨ ∃ f rest, IsFrame f ∧ bs = f ++ rest := by
  cases bs with
  | nil => exact .inl rfl
  | cons flags bs =>
    right
    by_cases hhead : bs.length < 4
    · -- the header is cut: any bytes complete it
      left
      have hlen : (bs ++ List.replicate (4 - bs.length) 0).length = 4 := by
        rw [length_append, length_replicate]
        omega
      have hput := putUint32_uint32 hlen
      generalize ByteOrder.bigEndian.uint32 (bs ++ List.replicate (4 - bs.length) 0) = len at hput
      refine ⟨cons_ne_nil _ _,
        List.replicate (4 - bs.length) 0 ++ List.replicate len.toNat 0, ?_, flags, len,
        List.replicate len.toNat 0, length_replicate, ?_⟩
      · intro hnil
        have hzero := congrArg List.length (append_eq_nil_iff.mp hnil).1
        rw [length_replicate] at hzero
        exact absurd hzero (by simp only [length_nil]; omega)
      · rw [hput]
        simp
    · have hlen : (bs.take 4).length = 4 := by
        rw [length_take]
        omega
      have hput := putUint32_uint32 hlen
      generalize ByteOrder.bigEndian.uint32 (bs.take 4) = len at hput
      have hsplit : flags :: bs = flags :: ByteOrder.bigEndian.putUint32 len ++ bs.drop 4 := by
        rw [hput, cons_append, take_append_drop]
      by_cases hpayload : (bs.drop 4).length < len.toNat
      · -- the payload is cut
        left
        refine ⟨cons_ne_nil _ _, List.replicate (len.toNat - (bs.drop 4).length) 0, ?_, flags,
          len, bs.drop 4 ++ List.replicate (len.toNat - (bs.drop 4).length) 0, ?_, ?_⟩
        · intro hnil
          have hzero := congrArg List.length hnil
          rw [length_replicate, length_nil] at hzero
          omega
        · rw [length_append, length_replicate]
          omega
        · rw [hsplit, append_assoc]
      · right
        refine ⟨flags :: ByteOrder.bigEndian.putUint32 len ++ (bs.drop 4).take len.toNat,
          (bs.drop 4).drop len.toNat, ⟨flags, len, _, ?_, rfl⟩, ?_⟩
        · rw [length_take]
          omega
        · rw [hsplit, append_assoc, take_append_drop]

/-! ## 2. The framer -/

/-- The framer returns `io.EOF` before any byte of a frame and `io.ErrUnexpectedEOF` inside one; a
complete frame is read, or refused for a reason of its own. -/
structure LawfulFramer {Msg : Type} (C : Codec Reader Msg) : Prop where
  atEnd : ∀ r, r.flatten = [] → ∃ r', C.readFrame r = (.error .eof, r') ∧ r'.flatten = []
  inside : ∀ r, Cut r.flatten → ∃ r', C.readFrame r = (.error .unexpectedEOF, r') ∧ r'.flatten = []
  frame : ∀ r f rest, IsFrame f → r.flatten = f ++ rest →
    (∃ flags payload r', C.readFrame r = (.ok (flags, payload), r') ∧ r'.flatten = rest) ∨
      ∃ err r', C.readFrame r = (.error err, r') ∧ err.isEnd = false

section
variable {Msg : Type} {C : Codec Reader Msg} {U : Unicode}

/-- The frames before `r` have been read from the body, by calls that returned a message or failed to
decode it. -/
inductive Behind (C : Codec Reader Msg) (body : Reader) : Reader → Prop where
  | start : Behind C body body
  | frame {r r' : Reader} {flags : UInt8} {payload : Bytes} : Behind C body r →
      C.readFrame r = (.ok (flags, payload), r') → Behind C body r'

/-- What was consumed is made of complete frames, and the final status is 0. -/
def Finished (U : Unicode) (ord : Nat → MapOrder) (resp : Response) (body left : Reader) : Prop :=
  (∃ consumed, body.flatten = consumed ++ left.flatten ∧ Frames consumed) ∧
    (selectStatus U ord resp).2 = zero

variable {r' : Reader}

theorem LawfulFramer.exists_frame (hC : LawfulFramer C) {flags : UInt8}
    {payload : Bytes} (h : C.readFrame r = (.ok (flags, payload), r')) :
    ∃ f, IsFrame f ∧ r.flatten = f ++ r'.flatten := by
  rcases nil_or_cut_or_frame r.flatten with hnil | hcut | ⟨f, rest, hf, hsplit⟩
  · obtain ⟨_, hread, -⟩ := hC.atEnd r hnil
    rw [h] at hread
    cases hread
  · obtain ⟨_, hread, -⟩ := hC.inside r hcut
    rw [h] at hread
    cases hread
  · rcases hC.frame r f rest hf hsplit with ⟨_, _, _, hread, hrest⟩ | ⟨_, _, hread, -⟩
    · rw [h] at hread
      cases hread
      exact ⟨f, hf, by rw [hsplit, hrest]⟩
    · rw [h] at hread
      cases hread

theorem Behind.exists_frames (hC : LawfulFramer C) (h : Behind C body r) :
    ∃ consumed, body.flatten = consumed ++ r.flatten ∧ Frames consumed := by
  induction h with
  | start => exact ⟨[], rfl, .nil⟩
  | frame _ hread ih =>
    obtain ⟨consumed, hbody, hframes⟩ := ih
    obtain ⟨f, hf, hr⟩ := hC.exists_frame hread
    refine ⟨consumed ++ f, by rw [hbody, hr, append_assoc], hframes.append ?_⟩
    have hlast := Frames.cons hf .nil
    rwa [append_nil] at hlast

/-- **What was consumed is made of complete frames exactly if the body did not end inside one**, for a
call of `UnmarshalFrame` that ends the stream. -/
theorem consumed_frames_iff (hC : LawfulFramer C) (h : Behind C body r)
    {err : Err} (hread : C.unmarshalFrame r = (.error err, r')) (hend : err.isEnd = true) :
    (∃ consumed, body.flatten = consumed ++ r'.flatten ∧ Frames consumed) ↔ ¬ Cut r.flatten := by
  obtain ⟨before, hbody, hframes⟩ := h.exists_frames hC
  rcases nil_or_cut_or_frame r.flatten with hnil | hcut | ⟨f, rest, hf, hsplit⟩
  · obtain ⟨r'', hread', hnil'⟩ := hC.atEnd r hnil
    simp only [Codec.unmarshalFrame, hread', Prod.mk.injEq] at hread
    obtain ⟨-, rfl⟩ := hread
    refine iff_of_true ⟨before, ?_, hframes⟩ fun hcut => hcut.1 hnil
    rw [hbody, hnil, hnil']
  · obtain ⟨r'', hread', hnil'⟩ := hC.inside r hcut
    simp only [Codec.unmarshalFrame, hread', Prod.mk.injEq] at hread
    obtain ⟨-, rfl⟩ := hread
    refine iff_of_false ?_ (not_not.mpr hcut)
    rintro ⟨consumed, hconsumed, hall⟩
    rw [hnil', append_nil, hbody] at hconsumed
    exact hcut.not_frames (hframes.of_append (hconsumed ▸ hall))
  · have hnotCut : ¬ Cut r.flatten := fun hcut => by
      obtain ⟨_, hinside, -⟩ := hC.inside r hcut
      rcases hC.frame r f rest hf hsplit with ⟨_, _, _, hread', -⟩ | ⟨_, _, hread', hother⟩
      · rw [hinside] at hread'
        cases hread'
      · rw [hinside] at hread'
        cases hread'
        cases hother
    refine iff_of_true ?_ hnotCut
    rcases hC.frame r f rest hf hsplit with ⟨flags, payload, r'', hread', hrest⟩ | ⟨_, r'', hread', hother⟩
    · simp only [Codec.unmarshalFrame, hread', Prod.mk.injEq] at hread
      obtain ⟨-, rfl⟩ := hread
      exact (h.frame hread').exists_frames hC
    · -- a frame that is refused does not end the stream
      simp only [Codec.unmarshalFrame, hread', hother, Bool.false_eq_true, if_false,
        Prod.mk.injEq, Except.error.injEq] at hread
      obtain ⟨rfl, -⟩ := hread
      rw [Err.isEnd, hother] at hend
      cases hend

/-! ## 3. `Recv` -/

/-- What both `Recv` functions do behind `UnmarshalFrame`. -/
def endOfStream (U : Unicode) (ord : Nat → MapOrder) (resp : Response) :
    Except Err Msg × Reader → Except Err Msg × Reader
  | (.ok msg, body) => (.ok msg, body)
  | (.error err, body) =>
    if err.isEnd then
      match validateResponseTrailers U ord resp with
      | some err => (.error err, body)
      | none => (.error (.fault .eof), body)
    else (.error err, body)

theorem stream_recv_eq (ord : Nat → MapOrder) (resp : Response) (r : Reader) :
    StreamResponse.recv C U ord resp r = endOfStream U ord resp (C.unmarshalFrame r) := by
  unfold StreamResponse.recv endOfStream
  rcases C.unmarshalFrame r with ⟨err | msg, body⟩
  · cases validateResponseTrailers U ord resp <;> rfl
  · rfl

theorem bidi_recv_eq (r : Reader)
    (h : validateInitialHeaders U ord resp = none) : BidiStreamClient.recv C U ord resp r =
      endOfStream U (fun i => ord (i + 3)) resp (C.unmarshalFrame r) := by
  unfold BidiStreamClient.recv endOfStream
  rw [h]
  rcases C.unmarshalFrame r with ⟨err | msg, body⟩
  · cases validateResponseTrailers U (fun i => ord (i + 3)) resp <;> rfl
  · rfl

theorem validateResponseTrailers_ne_eof (ord : Nat → MapOrder) (resp : Response) :
    validateResponseTrailers U ord resp ≠ some (.fault .eof) := by
  unfold validateResponseTrailers
  dsimp only
  split_ifs <;> simp

theorem validateInitialHeaders_ne_eof (ord : Nat → MapOrder) (resp : Response) :
    validateInitialHeaders U ord resp ≠ some (.fault .eof) := by
  unfold validateInitialHeaders
  split_ifs <;> simp

theorem endOfStream_eof {x : Except Err Msg × Reader}
    (h : (endOfStream U ord resp x).1 = .error (.fault .eof)) :
    ∃ err r', x = (.error err, r') ∧ err.isEnd = true ∧ (endOfStream U ord resp x).2 = r' ∧
      (selectStatus U ord resp).2 = zero := by
  obtain ⟨result, r'⟩ := x
  cases result with
  | ok msg => cases h
  | error err =>
    by_cases hend : err.isEnd = true
    · cases hvalidate : validateResponseTrailers U ord resp with
      | some err' =>
        simp only [endOfStream, hend, if_true, hvalidate, Except.error.injEq] at h
        rw [h] at hvalidate
        exact absurd hvalidate (validateResponseTrailers_ne_eof ord resp)
      | none =>
        refine ⟨err, r', rfl, hend, ?_, validateResponseTrailers_eq_none.mp hvalidate⟩
        simp only [endOfStream, hend, if_true, hvalidate]
    · simp only [endOfStream, hend, if_false, Bool.false_eq_true, Except.error.injEq] at h
      rw [h] at hend
      exact absurd rfl hend

theorem finished_iff (hC : LawfulFramer C) (h : Behind C body r)
    (heof : (endOfStream U ord resp (C.unmarshalFrame r)).1 = .error (.fault .eof)) :
    Finished U ord resp body (endOfStream U ord resp (C.unmarshalFrame r)).2 ↔ ¬ Cut r.flatten := by
  obtain ⟨err, r', hread, hend, hleft, hstatus⟩ := endOfStream_eof heof
  rw [Finished, hleft, consumed_frames_iff hC h hread hend]
  exact and_iff_left hstatus

/-- **`io.EOF` is a normal end exactly if the body does not end inside a frame.**  For every body,
after any number of frames, and for both kinds of stream. -/
theorem eof_complete_iff (hC : LawfulFramer C) {body r : Reader} (h : Behind C body r)
    (ord : Nat → MapOrder) (resp : Response) :
    ((StreamResponse.recv C U ord resp r).1 = .error (.fault .eof) →
      (Finished U ord resp body (StreamResponse.recv C U ord resp r).2 ↔ ¬ Cut r.flatten)) ∧
    ((BidiStreamClient.recv C U ord resp r).1 = .error (.fault .eof) →
      (Finished U (fun i => ord (i + 3)) resp body (BidiStreamClient.recv C U ord resp r).2 ↔
        ¬ Cut r.flatten)) := by
  constructor
  · intro heof
    rw [stream_recv_eq] at heof ⊢
    exact finished_iff hC h heof
  · intro heof
    cases hvalidate : validateInitialHeaders U ord resp with
    | some err =>
      simp only [BidiStreamClient.recv, hvalidate, Except.error.injEq] at heof
      rw [heof] at hvalidate
      exact absurd hvalidate (validateInitialHeaders_ne_eof ord resp)
    | none =>
      rw [bidi_recv_eq r hvalidate] at heof ⊢
      exact finished_iff hC h heof

end

/-! ## 4. A body that is cut off -/

theorem framed_readFrame {flags : UInt8} {len : UInt32} {p : Bytes}
    (h : r.flatten = flags :: ByteOrder.bigEndian.putUint32 len ++ p) :
    ∃ r₁, r₁.flatten = p ∧ framed.readFrame r =
      match readFull len.toNat r₁ with
      | (.error _, r) => (.error .unexpectedEOF, r)
      | (.ok payload, r) => (.ok (flags, payload), r) := by
  obtain ⟨r₁, hread, hr₁⟩ := readFull_append h
  rw [length_cons, ByteOrder.length_putUint32] at hread
  refine ⟨r₁, hr₁, ?_⟩
  rcases hpayload : readFull len.toNat r₁ with ⟨_ | payload, r₂⟩ <;>
    simp only [framed, hread, drop_succ_cons, drop_zero, ByteOrder.uint32_putUint32,
      headD_cons, hpayload]

theorem framed_lawful : LawfulFramer framed where
  atEnd r h := by
    have hshort := readFull_short (r := r) (n := 5) (by rw [h]; decide)
    rw [if_pos h] at hshort
    exact ⟨[], by simp only [framed, hshort], rfl⟩
  inside r h := by
    obtain ⟨hne, rest, hrest, flags, len, payload, hlen, hframe⟩ := h
    by_cases hshort : r.flatten.length < 5
    · have hread := readFull_short hshort
      rw [if_neg hne] at hread
      exact ⟨[], by simp only [framed, hread], rfl⟩
    · -- the header is complete, and the payload is not
      obtain ⟨p, hp⟩ : flags :: ByteOrder.bigEndian.putUint32 len <+: r.flatten :=
        prefix_of_prefix_length_le ⟨payload, hframe.symm⟩ ⟨rest, rfl⟩
          (by rw [length_cons, ByteOrder.length_putUint32]; omega)
      rw [← hp, append_assoc, append_cancel_left_eq] at hframe
      obtain ⟨r₁, hr₁, hread⟩ := framed_readFrame hp.symm
      have hless : r₁.flatten.length < len.toNat := by
        rw [hr₁, ← hlen, ← hframe, length_append]
        have := length_pos_iff.mpr hrest
        omega
      rw [hread, readFull_short hless]
      exact ⟨[], rfl, rfl⟩
  frame r f rest hf hsplit := by
    obtain ⟨flags, len, payload, hlen, rfl⟩ := hf
    rw [append_assoc] at hsplit
    obtain ⟨r₁, hr₁, hread⟩ := framed_readFrame hsplit
    obtain ⟨r₂, hread₂, hr₂⟩ := readFull_append hr₁
    rw [hlen] at hread₂
    rw [hread, hread₂]
    exact .inl ⟨flags, payload, r₂, rfl, hr₂⟩

theorem eof_complete_iff_oneFrame :
    (StreamResponse.recv framed Unicode.ascii (fun _ => .listed) (trailed zero) []).1 =
        .error (.fault .eof) ∧
      Finished Unicode.ascii (fun _ => .listed) (trailed zero) oneFrame
        (StreamResponse.recv framed Unicode.ascii (fun _ => .listed) (trailed zero) []).2 := by
  have hread : framed.readFrame oneFrame = (.ok (0, [7]), []) := by rfl
  have hbehind : Behind framed oneFrame [] := .frame .start hread
  have heof : (StreamResponse.recv framed Unicode.ascii (fun _ => .listed) (trailed zero) []).1 =
      .error (.fault .eof) := by decide
  exact ⟨heof, ((eof_complete_iff framed_lawful hbehind (fun _ => .listed) (trailed zero)).1
    heof).mpr fun hcut => hcut.1 rfl⟩

def cutFrame : Reader := [[0, 0, 0, 0, 2, 7]]

/-- **A stream that is cut off ends normally**, if the status is 0. -/
theorem cut_stream_ends_normally : Cut cutFrame.flatten ∧
    StreamResponse.recv framed Unicode.ascii (fun _ => .listed) (trailed zero) cutFrame =
      (.error (.fault .eof), []) ∧
    BidiStreamClient.recv framed Unicode.ascii (fun _ => .listed) (trailed zero) cutFrame =
      (.error (.fault .eof), []) := by
  refine ⟨⟨by decide, [8], by decide, 0, 2, [7, 8], rfl, rfl⟩, by decide, by decide⟩

end AoniContrib.Grpc
