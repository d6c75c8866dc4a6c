/-
# The control loop follows the capsule stream

The peer writes capsules with `EncodeCapsule`; `controlLoop` takes the bytes apart again, one read
after the other.  Beside the state of the session a log is kept of the capsules that the loop has read
and acted on.  Whatever the pieces in which the bytes come and whatever the other calls do in between,
the log is an initial part of the capsules up to the first close capsule, it is all of that part once
the loop has stopped reading, and the loop can always go on until then (`control_loop_faithful`).

A read fails here only where the stream ends: a connection that breaks is not this module's subject.
-/
import AoniContrib.WebTransport.Session

namespace AoniContrib.WebTransport

open Go Concurrency List

section
variable {C : Calls} [Quicvarint]

/-! ## 1. The stream -/

/-- `EncodeCapsule`, into a buffer that is long enough; none where a varint cannot hold the type. -/
def encodeCapsule (capsuleType : Nat) (payload : Bytes) : Option Bytes := do
  let type ← Quicvarint.append capsuleType
  let length ← Quicvarint.append payload.length
  some (type ++ length ++ payload)

/-- A type and a payload that `EncodeCapsule` can write and `controlLoop` reads. -/
def Encodable (c : Nat × Bytes) : Prop := c.1 < 2 ^ 62 ∧ c.2.length ≤ maxPayload

def wire (caps : List (Nat × Bytes)) : Bytes := caps.flatMap fun c => (encodeCapsule c.1 c.2).getD []

@[simp] theorem wire_nil : wire [] = [] := rfl

@[simp] theorem wire_cons (c : Nat × Bytes) (caps : List (Nat × Bytes)) :
    wire (c :: caps) = (encodeCapsule c.1 c.2).getD [] ++ wire caps := rfl

/-- The capsules up to the first close capsule, and that one. -/
def upToClose : List (Nat × Bytes) → List (Nat × Bytes)
  | [] => []
  | c :: caps => if c.1 = capsuleCloseWebTransportSession then [c] else c :: upToClose caps

omit [Quicvarint] in
theorem upToClose_append {pre : List (Nat × Bytes)} (post : List (Nat × Bytes))
    (h : ∀ c ∈ pre, c.1 ≠ capsuleCloseWebTransportSession) :
    upToClose (pre ++ post) = pre ++ upToClose post := by
  induction pre with
  | nil => rfl
  | cons c pre ih =>
    rw [cons_append, upToClose, if_neg (h c mem_cons_self), ih (forall_mem_cons.mp h).2, cons_append]

variable {c : Nat × Bytes}

theorem exists_capsule (h : Encodable c) : ∃ cap : Capsule, cap.capsuleType = c.1 ∧ cap.payload = c.2 ∧
      (encodeCapsule c.1 c.2).getD [] = cap.bytes := by
  have hlength : c.2.length < 2 ^ 62 := h.2.trans_lt (by decide)
  obtain ⟨tag, htag4, hbits, hbs⟩ := exists_append h.1
  obtain ⟨ltag, hltag4, hlbits, hls⟩ := exists_append hlength
  refine ⟨⟨tag, ltag, c.1, c.2, htag4, hltag4, hbits, hlbits, h.2⟩, rfl, rfl, ?_⟩
  rw [encodeCapsule, hbs, hls]
  rfl

theorem readCapsule_wire {caps : List (Nat × Bytes)} {r : Reader} (h : Encodable c)
    (hr : r.flatten = wire (c :: caps)) :
    ∃ r', readCapsule r = some (c.1, c.2, r') ∧ r'.flatten = wire caps := by
  obtain ⟨cap, htype, hpayload, hbytes⟩ := exists_capsule h
  rw [wire_cons, hbytes] at hr
  obtain ⟨r', hread, hrest⟩ := readCapsule_bytes cap hr
  rw [htype, hpayload] at hread
  exact ⟨r', hread, hrest⟩

theorem readCapsule_end {r : Reader} (hr : r.flatten = []) : readCapsule r = none := by
  have hshort := readFull_short (r := r) (n := 1) (by rw [hr]; decide)
  rw [readCapsule, readVarint, hshort]

/-! ## 2. The log -/

/-- What the loop has read and acted on in a step: nothing where the read failed. -/
def handled (s : State C) (e : Event C) (t : State C) : List (Nat × Bytes) :=
  match e, s.loop with
  | .loop, .read r =>
    if t.loop = .returned then [] else ((readCapsule r).map fun c => (c.1, c.2.1)).toList
  | _, _ => []

/-- A step with the log it leaves.  A read fails only where there is no capsule to read. -/
structure LoggedStep (p : State C × List (Nat × Bytes)) (e : Event C)
    (q : State C × List (Nat × Bytes)) : Prop where
  step : Step p.1 e q.1
  reads : ∀ r, p.1.loop = .read r → q.1.loop = .returned → readCapsule r = none
  log : q.2 = p.2 ++ handled p.1 e q.1

/-- The loop reads on where the log ends, or has read up to the close capsule or the end; and the
session is draining exactly if the log says so. -/
structure Follows (caps : List (Nat × Bytes)) (p : State C × List (Nat × Bytes)) : Prop where
  reading : ∀ r, p.1.loop = .read r → ∃ rest, caps = p.2 ++ rest ∧ r.flatten = wire rest ∧
    ∀ c ∈ p.2, c.1 ≠ capsuleCloseWebTransportSession
  stopped : (∀ r, p.1.loop ≠ .read r) → p.2 = upToClose caps
  draining : p.1.draining = true ↔ ∃ c ∈ p.2, c.1 = capsuleDrainWebTransportSession

section
variable {caps : List (Nat × Bytes)} {p q : State C × List (Nat × Bytes)} {e : Event C}

section
variable (hp : Follows caps p)
include hp

theorem Follows.other (hlog : q.2 = p.2) (hloop : q.1.loop = p.1.loop)
    (hdrain : q.1.draining = p.1.draining) : Follows caps q := by
  refine ⟨fun r hr => ?_, fun hnot => ?_, ?_⟩
  · rw [hlog]
    exact hp.reading r (hloop ▸ hr)
  · rw [hlog]
    exact hp.stopped fun r => hloop ▸ hnot r
  · rw [hlog, hdrain]
    exact hp.draining

theorem Follows.behind (hlog : q.2 = p.2) (hbefore : ∀ r, p.1.loop ≠ .read r)
    (hafter : ∀ r, q.1.loop ≠ .read r) (hdrain : q.1.draining = p.1.draining) : Follows caps q := by
  refine ⟨fun r hr => absurd hr (hafter r), fun _ => ?_, ?_⟩
  · rw [hlog]
    exact hp.stopped hbefore
  · rw [hlog, hdrain]
    exact hp.draining

variable {r r' : Reader} {capsuleType : Nat} {payload : Bytes}

theorem Follows.next (hcaps : ∀ c ∈ caps, Encodable c) (hloop : p.1.loop = .read r)
    (hread : readCapsule r = some (capsuleType, payload, r')) :
    ∃ rest, caps = p.2 ++ (capsuleType, payload) :: rest ∧ r'.flatten = wire rest ∧
      ∀ c ∈ p.2, c.1 ≠ capsuleCloseWebTransportSession := by
  obtain ⟨rest, hsplit, hflat, hno⟩ := hp.reading r hloop
  cases rest with
  | nil =>
    rw [readCapsule_end hflat] at hread
    cases hread
  | cons c rest =>
    have hc : Encodable c := hcaps c (by rw [hsplit]; simp)
    obtain ⟨r₁, hread₁, hflat₁⟩ := readCapsule_wire hc hflat
    rw [hread] at hread₁
    cases hread₁
    exact ⟨rest, hsplit, hflat₁, hno⟩

theorem Follows.readOn (hcaps : ∀ c ∈ caps, Encodable c) (hloop : p.1.loop = .read r)
    (hread : readCapsule r = some (capsuleType, payload, r'))
    (hne : capsuleType ≠ capsuleCloseWebTransportSession) (hafter : q.1.loop = .read r')
    (hlog : q.2 = p.2 ++ [(capsuleType, payload)])
    (hdrain : q.1.draining = true ↔
      p.1.draining = true ∨ capsuleType = capsuleDrainWebTransportSession) : Follows caps q := by
  obtain ⟨rest, hsplit, hflat, hno⟩ := hp.next hcaps hloop hread
  refine ⟨fun r₁ hr₁ => ?_, fun hnot => absurd hafter (hnot r'), ?_⟩
  · rw [hafter] at hr₁
    cases hr₁
    refine ⟨rest, by rw [hlog, hsplit]; simp, hflat, fun c hc => ?_⟩
    rw [hlog, mem_append, mem_singleton] at hc
    rcases hc with hc | rfl
    · exact hno c hc
    · exact hne
  · rw [hdrain, hp.draining, hlog]
    simp only [mem_append, mem_singleton]
    constructor
    · rintro (⟨c, hc, htype⟩ | htype)
      · exact ⟨c, .inl hc, htype⟩
      · exact ⟨_, .inr rfl, htype⟩
    · rintro ⟨c, hc | rfl, htype⟩
      · exact .inl ⟨c, hc, htype⟩
      · exact .inr htype

theorem Follows.close (hcaps : ∀ c ∈ caps, Encodable c) (hloop : p.1.loop = .read r)
    (hread : readCapsule r = some (capsuleCloseWebTransportSession, payload, r'))
    (hafter : ∀ r, q.1.loop ≠ .read r)
    (hlog : q.2 = p.2 ++ [(capsuleCloseWebTransportSession, payload)])
    (hdrain : q.1.draining = p.1.draining) : Follows caps q := by
  obtain ⟨rest, hsplit, -, hno⟩ := hp.next hcaps hloop hread
  refine ⟨fun r₁ hr₁ => absurd hr₁ (hafter r₁), fun _ => ?_, ?_⟩
  · rw [hlog, hsplit, upToClose_append _ hno, upToClose, if_pos rfl]
  · rw [hdrain, hp.draining, hlog]
    simp only [mem_append, mem_singleton]
    constructor
    · rintro ⟨c, hc, htype⟩
      exact ⟨c, .inl hc, htype⟩
    · rintro ⟨c, hc | rfl, htype⟩
      · exact ⟨c, hc, htype⟩
      · exact absurd htype (by simp [capsuleCloseWebTransportSession, capsuleDrainWebTransportSession])

theorem Follows.fail (hcaps : ∀ c ∈ caps, Encodable c)
    (hloop : p.1.loop = .read r) (hread : readCapsule r = none) (hafter : q.1.loop = .returned)
    (hlog : q.2 = p.2) (hdrain : q.1.draining = p.1.draining) : Follows caps q := by
  obtain ⟨rest, hsplit, hflat, hno⟩ := hp.reading r hloop
  have hend : rest = [] := by
    cases rest with
    | nil => rfl
    | cons c rest =>
      obtain ⟨r₁, hread₁, -⟩ := readCapsule_wire (hcaps c (by rw [hsplit]; simp)) hflat
      rw [hread] at hread₁
      cases hread₁
  refine ⟨fun r₁ hr₁ => ?_, fun _ => ?_, ?_⟩
  · rw [hafter] at hr₁
    cases hr₁
  · rw [hlog, hsplit, upToClose_append _ hno, hend, upToClose, append_nil]
  · rw [hdrain, hp.draining, hlog]

end

theorem follows_step (hcaps : ∀ c ∈ caps, Encodable c) (h : LoggedStep p e q) (hp : Follows caps p) :
    Follows caps q := by
  obtain ⟨s, log⟩ := p
  obtain ⟨t, log'⟩ := q
  obtain ⟨hstep, hreads, hlog⟩ := h
  dsimp only at hstep hreads hlog
  cases hstep with
  | loopFail hloop =>
    refine hp.fail hcaps hloop (hreads _ hloop rfl) rfl ?_ rfl
    simp [hlog, handled, hloop]
  | loopDrain hloop hread =>
    refine hp.readOn hcaps hloop hread (by decide) rfl ?_ (by simp)
    simp [hlog, handled, hloop, hread]
  | loopOther hloop hread hdrain hclose =>
    refine hp.readOn hcaps hloop hread hclose rfl ?_ (by simp [hdrain])
    simp [hlog, handled, hloop, hread]
  | loopClose hloop hread hdecode | loopCloseInvalid hloop hread hdecode =>
    refine hp.close hcaps hloop hread (by simp) ?_ rfl
    simp [hlog, handled, hloop, hread]
  | loopAnnounce hloop _ =>
    exact hp.behind (by simp [hlog, handled, hloop]) (by simp [hloop]) (by simp) rfl
  | loopReason hloop _ =>
    exact hp.behind (by simp [hlog, handled]) (by simp [hloop]) (by simp) rfl
  | loopReturn hloop _ =>
    exact hp.behind (by simp [hlog, handled, hloop]) (by simp [hloop]) (by simp) rfl
  | _ => exact hp.other (by simp [hlog, handled]) rfl rfl

end

/-! ## 3. The loop goes on until it stops -/

theorem exists_stopped : ∀ (rest : List (Nat × Bytes)) {p : State C × List (Nat × Bytes)} {r : Reader},
      p.1.loop = .read r → r.flatten = wire rest → (∀ c ∈ rest, Encodable c) →
      ∃ es q, Run LoggedStep p es q ∧ (∀ e ∈ es, e = .loop) ∧ ∀ r, q.1.loop ≠ .read r
  | [], p, r, hloop, hflat, _ => by
    refine ⟨[.loop], ({ p.1 with ctxDone := true, loop := .returned }, p.2),
      .cons ⟨.loopFail hloop, fun r' hr' _ => ?_, ?_⟩ .nil, by simp, by simp⟩
    · rw [hloop] at hr'
      cases hr'
      exact readCapsule_end hflat
    · simp [handled, hloop]
  | c :: rest, p, r, hloop, hflat, hrest => by
    have hrest' : ∀ d ∈ rest, Encodable d := (forall_mem_cons.mp hrest).2
    obtain ⟨r', hread, hflat'⟩ := readCapsule_wire (hrest c mem_cons_self) hflat
    have hreads : ∀ {t : State C}, t.loop ≠ .returned →
        ∀ r₁, p.1.loop = .read r₁ → t.loop = .returned → readCapsule r₁ = none :=
      fun hne _ _ hret => absurd hret hne
    by_cases hclose : c.1 = capsuleCloseWebTransportSession
    · rw [hclose] at hread
      obtain ⟨t, hstep, hstop, hret⟩ : ∃ t, Step p.1 .loop t ∧ (∀ r, t.loop ≠ .read r) ∧
          t.loop ≠ .returned := by
        cases hdecode : decodeCloseSessionPayload c.2 with
        | some err => exact ⟨_, .loopClose hloop hread hdecode, by simp, by simp⟩
        | none => exact ⟨_, .loopCloseInvalid hloop hread hdecode, by simp, by simp⟩
      exact ⟨[.loop], (t, p.2 ++ handled p.1 .loop t), .cons ⟨hstep, hreads hret, rfl⟩ .nil, by simp, hstop⟩
    · obtain ⟨t, hstep, ht⟩ : ∃ t, Step p.1 .loop t ∧ t.loop = .read r' := by
        by_cases hdrain : c.1 = capsuleDrainWebTransportSession
        · rw [hdrain] at hread
          exact ⟨_, .loopDrain hloop hread, rfl⟩
        · exact ⟨_, .loopOther hloop hread hdrain hclose, rfl⟩
      obtain ⟨es, q, hrun, hes, hstop⟩ :=
        exists_stopped rest (p := (t, p.2 ++ handled p.1 .loop t)) ht hflat' hrest'
      exact ⟨.loop :: es, q, .cons ⟨hstep, hreads (by simp [ht]), rfl⟩ hrun, by simpa using hes, hstop⟩

/-! ## 4. The result -/

variable {caps : List (Nat × Bytes)}

theorem follows_new {r : Reader} (hcontrol : C.control = some r)
    (hr : r.flatten = wire caps) : Follows caps (State.new C, []) := by
  have hloop : (State.new C).loop = .read r := by simp [State.new, hcontrol]
  refine ⟨fun r' hr' => ?_, fun hnot => absurd hloop (hnot r), by simp [State.new]⟩
  rw [hloop] at hr'
  cases hr'
  exact ⟨caps, rfl, hr, by simp⟩

theorem Follows.log_initial {p : State C × List (Nat × Bytes)}
    (hp : Follows caps p) : p.2 <+: upToClose caps := by
  by_cases hread : ∃ r, p.1.loop = .read r
  · obtain ⟨r, hloop⟩ := hread
    obtain ⟨rest, hsplit, -, hno⟩ := hp.reading r hloop
    rw [hsplit, upToClose_append _ hno]
    exact prefix_append _ _
  · rw [hp.stopped (not_exists.mp hread)]

/-- **The control loop parses the capsule stream faithfully.**  In every run, with the bytes in any
pieces: the capsules handled so far are the first ones up to the close capsule; they are all of these
when the loop has stopped reading, and the loop by itself comes there; a capsule of another type than
the two that the loop acts on changes nothing but the loop's own place in the stream; and the session
is draining exactly if a drain capsule has been handled. -/
theorem control_loop_faithful {caps : List (Nat × Bytes)} (hcaps : ∀ c ∈ caps, Encodable c) {r : Reader}
    (hcontrol : C.control = some r) (hr : r.flatten = wire caps) {es : List (Event C)} {s : State C}
    {log : List (Nat × Bytes)} (h : Run LoggedStep (State.new C, []) es (s, log)) :
    log <+: upToClose caps ∧
      ((∀ r, s.loop ≠ .read r) → log = upToClose caps) ∧
      (∃ es' q, Run LoggedStep (s, log) es' q ∧ (∀ e ∈ es', e = .loop) ∧ ∀ r, q.1.loop ≠ .read r) ∧
      (∀ q r₁ r₂ capsuleType payload, LoggedStep (s, log) .loop q → s.loop = .read r₁ →
        readCapsule r₁ = some (capsuleType, payload, r₂) →
        capsuleType ≠ capsuleDrainWebTransportSession →
        capsuleType ≠ capsuleCloseWebTransportSession → q.1 = { s with loop := .read r₂ }) ∧
      (s.draining = true ↔ ∃ c ∈ log, c.1 = capsuleDrainWebTransportSession) := by
  have hfollows : Follows caps (s, log) :=
    h.invariant (fun _ _ _ => follows_step hcaps) (follows_new hcontrol hr)
  refine ⟨hfollows.log_initial, hfollows.stopped, ?_, ?_, hfollows.draining⟩
  · by_cases hread : ∃ r, s.loop = .read r
    · obtain ⟨r₁, hloop⟩ := hread
      obtain ⟨rest, hsplit, hflat, -⟩ := hfollows.reading r₁ hloop
      exact exists_stopped rest hloop hflat fun c hc => hcaps c (by rw [hsplit]; simp [hc])
    · exact ⟨[], (s, log), .nil, by simp, not_exists.mp hread⟩
  · intro q r₁ r₂ capsuleType payload hstep hloop hread hdrain hclose
    obtain ⟨t, log'⟩ := q
    obtain ⟨hstep, hreads, -⟩ := hstep
    dsimp only at hstep hreads ⊢
    -- of the steps of a reading loop only that for another type fits
    cases hstep with
    | loopFail =>
      rw [hreads r₁ hloop rfl] at hread
      cases hread
    | loopDrain hloop' hread' | loopClose hloop' hread' | loopCloseInvalid hloop' hread' =>
      rw [hloop] at hloop'
      cases hloop'
      rw [hread] at hread'
      cases hread'
      contradiction
    | loopOther hloop' hread' =>
      rw [hloop] at hloop'
      cases hloop'
      rw [hread] at hread'
      cases hread'
      rfl
    | loopAnnounce hloop' | loopReturn hloop' =>
      rw [hloop] at hloop'
      cases hloop'

end

namespace Example

/-- A drain capsule, one of an unknown type with a payload of three bytes, a close capsule, and a
capsule behind it. -/
def stream : List (Nat × Bytes) :=
  [(capsuleDrainWebTransportSession, []), (0x1234, [1, 2, 3]), (capsuleCloseWebTransportSession, []),
    (capsuleDrainWebTransportSession, [])]

def bytewise : Calls where
  control := some ((wire stream).map fun b => [b])
  enqueued := Fin.elim0
  accepted := Fin.elim0
  reason := Fin.elim0

end Example

open Example in
/-- The loop handles three of the four and leaves the session draining. -/
theorem control_loop_faithful_bytewise : ∃ es s,
    Run LoggedStep (State.new bytewise, []) es (s, stream.take 3) ∧ s.draining = true := by
  have hcaps : ∀ c ∈ stream, Encodable c := by
    unfold Encodable
    decide
  have hflat : ((wire stream).map fun b => [b]).flatten = wire stream := by decide
  obtain ⟨-, -, ⟨es, ⟨s, log⟩, hrun, -, hstop⟩, -, -⟩ :=
    control_loop_faithful hcaps (C := bytewise) rfl hflat .nil
  obtain ⟨-, hlog, -, -, hdrain⟩ := control_loop_faithful hcaps (C := bytewise) rfl hflat hrun
  obtain rfl := hlog hstop
  exact ⟨es, s, hrun, hdrain.mpr ⟨_, mem_cons_self, rfl⟩⟩

end AoniContrib.WebTransport
