/-
# The reason of the peer

On a close capsule `controlLoop` stores the code and the message of the peer as `closeErr`, and then
calls `Close`, which is `CloseWithError(0, "")` and stores its own.  The reason of the peer lasts
exactly as long as nobody wins the compare-and-swap with another reason (`peer_reason_kept`); where
the application does not close the session the loop itself does (`peer_reason_overwritten`).
-/
import AoniContrib.WebTransport.Session

namespace AoniContrib.WebTransport

open Go Concurrency List

variable {err : SessionError}

section
variable {C : Calls} [Quicvarint]

/-! ## 1. Up to the close capsule -/

/-- The control stream still holds capsules of other types, the close capsule and whatever is behind
it; or the loop has read that capsule. -/
structure Ahead (last : Capsule) (rest : Bytes) (err : SessionError) (s : State C) : Prop where
  read : ∀ r, s.loop = .read r → ∃ capsules : List Capsule,
    (∀ c ∈ capsules, c.capsuleType ≠ capsuleCloseWebTransportSession) ∧
      r.flatten = capsules.flatMap Capsule.bytes ++ last.bytes ++ rest
  lock : ∀ e, s.loop = .lock e → e = err
  waiting : ∀ e, s.loop = .waiting e → e = err

section
variable {last : Capsule} {rest : Bytes} {s t : State C} {e : Event C}

theorem Ahead.next (hs : Ahead last rest err s) {r r' : Reader} {capsuleType : Nat} {payload : Bytes}
    (hloop : s.loop = .read r) (hread : readCapsule r = some (capsuleType, payload, r')) :
    (capsuleType ≠ capsuleCloseWebTransportSession ∧ ∃ capsules : List Capsule,
      (∀ c ∈ capsules, c.capsuleType ≠ capsuleCloseWebTransportSession) ∧
        r'.flatten = capsules.flatMap Capsule.bytes ++ last.bytes ++ rest) ∨
      (capsuleType = last.capsuleType ∧ payload = last.payload) := by
  obtain ⟨capsules, hother, hflat⟩ := hs.read r hloop
  cases capsules with
  | nil =>
    have hflat' : r.flatten = last.bytes ++ rest := by simpa using hflat
    obtain ⟨r₁, hread₁, -⟩ := readCapsule_bytes last hflat'
    rw [hread] at hread₁
    cases hread₁
    exact .inr ⟨rfl, rfl⟩
  | cons c capsules =>
    rw [flatMap_cons, append_assoc, append_assoc] at hflat
    obtain ⟨r₁, hread₁, hflat₁⟩ := readCapsule_bytes c hflat
    rw [hread] at hread₁
    cases hread₁
    refine .inl ⟨hother c mem_cons_self, capsules, fun c' hc' => hother c' (mem_cons_of_mem _ hc'), ?_⟩
    rw [hflat₁, append_assoc]

theorem ahead_step (hdecode : decodeCloseSessionPayload last.payload = some err)
    (hlast : last.capsuleType = capsuleCloseWebTransportSession) (h : Step s e t)
    (hs : Ahead last rest err s) : Ahead last rest err t := by
  cases h with
  | loopDrain hloop hread =>
    refine ⟨fun r hr => ?_, fun e he => (by cases he), fun e he => (by cases he)⟩
    cases hr
    rcases hs.next hloop hread with ⟨-, hahead⟩ | ⟨htype, -⟩
    · exact hahead
    · rw [hlast] at htype
      exact absurd htype (by decide)
  | loopOther hloop hread _ hne =>
    refine ⟨fun r hr => ?_, fun e he => (by cases he), fun e he => (by cases he)⟩
    cases hr
    rcases hs.next hloop hread with ⟨-, hahead⟩ | ⟨htype, -⟩
    · exact hahead
    · exact absurd (htype.trans hlast) hne
  | loopClose hloop hread hdec =>
    refine ⟨fun r hr => (by cases hr), fun e he => ?_, fun e he => (by cases he)⟩
    cases he
    rcases hs.next hloop hread with ⟨hne, -⟩ | ⟨-, rfl⟩
    · exact absurd rfl hne
    · exact Option.some.inj (hdec.symm.trans hdecode)
  | loopAnnounce hloop _ =>
    refine ⟨fun r hr => (by cases hr), fun e he => (by cases he), fun e he => ?_⟩
    cases he
    exact hs.lock _ hloop
  | loopFail | loopCloseInvalid | loopReason | loopReturn =>
    exact ⟨fun r hr => (by cases hr), fun e he => (by cases he), fun e he => (by cases he)⟩
  | _ => exact ⟨hs.read, hs.lock, hs.waiting⟩

end

/-! ## 2. Behind it -/

/-- A `CloseWithError` that finds the session open has this reason. -/
def SameReason (err : SessionError) (s : State C) : Event C → Prop
  | .cas c => s.closed = false → c.reason = err
  | _ => True

/-- The reason is stored, who may still store one stores the same, and the calls that return after
`before` through the cancelled-context branch return it. -/
structure Kept (err : SessionError) (before s : State C) : Prop where
  closeErr : s.closeErr = some err
  loop : s.loop = .closing ∨ s.loop = .returned
  closers : ∀ c, s.close c = .lock ∨ s.close c = .waiting → c.reason = err
  accept : ∀ i a, (∀ b, before.accept i ≠ .returned b) →
    s.accept i = .returned (.cancelled a) → a = some err

theorem kept_step {before s t : State C} {e : Event C} (h : When (SameReason err) Step s e t)
    (hs : Kept err before s) : Kept err before t := by
  obtain ⟨hcond, hstep⟩ := h
  obtain ⟨herr, hloop, hclosers, haccept⟩ := hs
  cases hstep
  all_goals
    simp only [SameReason] at hcond
    refine ⟨?_, ?_, ?_, ?_⟩
    all_goals
      grind

theorem kept_reason {s t : State C} (hwf : WellFormed s) (h : Step s .reason t)
    (hopen : t.closed = false) (herr : ∀ e, s.loop = .waiting e → e = err) : Kept err t t := by
  cases h with
  | loopReason hloop _ =>
    refine ⟨congrArg some (herr _ hloop), .inl rfl, fun c hc => ?_, fun i a hnot hret =>
      absurd hret (hnot _)⟩
    have hclosers := hwf.closers hopen c
    grind

/-- **The reason of the peer is kept** from the moment at which the loop stores it, in every run in
which a `CloseWithError` that finds the session open carries the same one; and the calls that return
through the cancelled-context branch return it. -/
theorem peer_reason_kept (capsules : List Capsule) (last : Capsule) (rest : Bytes) {r : Reader}
    (hother : ∀ c ∈ capsules, c.capsuleType ≠ capsuleCloseWebTransportSession)
    (hlast : last.capsuleType = capsuleCloseWebTransportSession)
    (hpayload : last.payload = closePayload err) (hlen : err.message.length ≤ 1024)
    (hvalid : utf8Valid err.message = true) (hcontrol : C.control = some r)
    (hflat : r.flatten = capsules.flatMap Capsule.bytes ++ last.bytes ++ rest)
    {es es' : List (Event C)} {s t : State C}
    (hbefore : Run Step (State.new C) (es ++ [.reason]) s) (hopen : s.closed = false)
    (hafter : Run (When (SameReason err) Step) s es' t) :
    t.closeErr = some err ∧ ∀ i a, (∀ b, s.accept i ≠ .returned b) →
      t.accept i = .returned (.cancelled a) → a = some err := by
  have hdecode : decodeCloseSessionPayload last.payload = some err := by
    rw [hpayload]
    exact decode_closePayload hlen hvalid
  have hnew : Ahead last rest err (State.new C) := by
    have hloop : (State.new C).loop = .read r := by simp [State.new, hcontrol]
    refine ⟨fun r' hr' => ?_, fun e he => ?_, fun e he => ?_⟩
    · rw [hloop] at hr'
      cases hr'
      exact ⟨capsules, hother, hflat⟩
    · rw [hloop] at he
      cases he
    · rw [hloop] at he
      cases he
  obtain ⟨u, hrun, hstep⟩ := hbefore.exists_of_snoc
  have hahead : Ahead last rest err u :=
    hrun.invariant (fun _ _ _ hstep => ahead_step hdecode hlast hstep) hnew
  have hkept : Kept err s s := kept_reason (wellFormed_of_run hrun) hstep hopen hahead.waiting
  have hkept' : Kept err s t := hafter.invariant (fun _ _ _ => kept_step) hkept
  exact ⟨hkept'.closeErr, hkept'.accept⟩

end

/-! ## 3. A peer that hangs up -/

theorem closePayload_length_lt {err : SessionError} (hlen : err.message.length ≤ 1024) :
    (closePayload err).length < 2 ^ varintBits 2 := by
  simp only [closePayload, length_append, ByteOrder.length_putUint32, varintBits]
  omega

theorem closePayload_length_le {err : SessionError} (hlen : err.message.length ≤ 1024) :
    (closePayload err).length ≤ maxPayload := by
  simp only [closePayload, length_append, ByteOrder.length_putUint32, maxPayload]
  omega

def closeCapsule (err : SessionError) (hlen : err.message.length ≤ 1024) : Capsule where
  typeTag := 1
  lengthTag := 2
  capsuleType := capsuleCloseWebTransportSession
  payload := closePayload err
  typeTag_lt := by decide
  lengthTag_lt := by decide
  type_lt := by decide
  length_lt := closePayload_length_lt hlen
  length_le := closePayload_length_le hlen

/-- The peer sends the capsule, and the application waits for a stream. -/
def hangUp (err : SessionError) (hlen : err.message.length ≤ 1024) : Calls where
  control := some [(closeCapsule err hlen).bytes]
  accepts := 1
  enqueued := Fin.elim0
  accepted _ := .bidi
  reason := Fin.elim0

/-- The loop has stored the reason and is at its own `CloseWithError`. -/
structure Stored (err : SessionError) {hlen : err.message.length ≤ 1024}
    (s : State (hangUp err hlen)) : Prop where
  closed : s.closed = false
  closeErr : s.closeErr = some err
  writer : s.writer = none
  loop : s.close .loop = .cas
  accept : s.accept (0 : Fin 1) = .start

theorem exists_stored (err : SessionError) (hlen : err.message.length ≤ 1024) (hvalid : utf8Valid err.message = true) :
    ∃ s, Run Step (State.new (hangUp err hlen)) ([.loop, .loop] ++ [.reason]) s ∧ Stored err s := by
  have hflat : [(closeCapsule err hlen).bytes].flatten = (closeCapsule err hlen).bytes ++ [] := by
    simp
  obtain ⟨r, hread, -⟩ := readCapsule_bytes (closeCapsule err hlen) hflat
  refine ⟨_, .cons (.loopClose rfl hread (decode_closePayload hlen hvalid)) <|
    .cons (.loopAnnounce rfl rfl) <| .cons (.loopReason rfl fun j => Fin.elim0 j) .nil, ?_⟩
  exact ⟨rfl, rfl, rfl, rfl, rfl⟩

theorem exists_closed {hlen : err.message.length ≤ 1024} {s : State (hangUp err hlen)}
    (hs : Stored err s) :
    ∃ es t, Run (When (SameReason ⟨0, []⟩) Step) s es t ∧ t.closeErr = some ⟨0, []⟩ ∧
      t.accept (0 : Fin 1) = .returned (.cancelled (some ⟨0, []⟩)) := by
  refine ⟨_, _, .consWhen (.casWon (c := .loop) hs.loop hs.closed) (fun _ => rfl) <|
    .consWhen (.announce (c := .loop) (by simp) hs.writer) trivial <|
    .consWhen (.locked (c := .loop) (by simp) fun j => Fin.elim0 j) trivial <|
    .consWhen (.cancel (c := .loop) (by simp)) trivial <|
    .consWhen (.acceptDone (i := (0 : Fin 1)) hs.accept rfl) trivial <|
    .consWhen (.acceptCancelled (i := (0 : Fin 1)) ?_ rfl) trivial .nil, rfl, ?_⟩
  · exact Function.update_self (0 : Fin 1) _ s.accept
  · simp only [Closer.reason]
    exact Function.update_self (0 : Fin 1) _ _

theorem peer_reason_kept_zero : ∃ s t : State (hangUp ⟨0, []⟩ (by decide)), ∃ es,
    Run Step (State.new _) ([.loop, .loop] ++ [.reason]) s ∧
      Run (When (SameReason ⟨0, []⟩) Step) s es t ∧ t.closeErr = some ⟨0, []⟩ := by
  obtain ⟨s, hbefore, hs⟩ := exists_stored ⟨0, []⟩ (by decide) (by decide)
  obtain ⟨es, t, hafter, -, -⟩ := exists_closed hs
  exact ⟨s, t, es, hbefore, hafter,
    (peer_reason_kept [] (closeCapsule ⟨0, []⟩ (by decide)) [] (by simp) rfl rfl (by decide)
      (by decide) rfl (by simp) hbefore hs.closed hafter).1⟩

def bye : SessionError := ⟨7, lit "bye"⟩

/-- **The loop overwrites the reason of the peer.**  The peer closes with code 7 and "bye", nobody
closes locally, and `AcceptStream` returns code 0 and no message. -/
theorem peer_reason_overwritten : ∃ s t : State (hangUp bye (by decide)), ∃ es,
    Run Step (State.new _) ([.loop, .loop] ++ [.reason]) s ∧ s.closed = false ∧
      s.closeErr = some bye ∧ s.accept (0 : Fin 1) = .start ∧
      Run Step s es t ∧ t.closeErr = some ⟨0, []⟩ ∧
      t.accept (0 : Fin 1) = .returned (.cancelled (some ⟨0, []⟩)) := by
  obtain ⟨s, hbefore, hs⟩ := exists_stored bye (by decide) (by decide)
  obtain ⟨es, t, hafter, herr, haccept⟩ := exists_closed hs
  exact ⟨s, t, es, hbefore, hs.closed, hs.closeErr, hs.accept, hafter.unrestricted, herr, haccept⟩

end AoniContrib.WebTransport
