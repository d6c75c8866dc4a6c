/-
# After the control stream has ended

`controlLoop` leaves through two doors.  At a close capsule it calls `Close`, which sets the `closed`
flag; at every other end, be it the end of the stream, a failed read or a capsule that is too long, it
only cancels the context.  `OpenStream`, `OpenUniStream`, their `Sync` forms and `SendDatagram` look at
the flag and NOT at the context, and the `select` of an `Enqueue` call may choose the channel although
the context is cancelled.  So the calls behind a state are refused exactly when the flag is set in it
(`closedForGood_iff`), and a session whose loop has returned is closed if the loop left through the
first door, or found the flag set (`ended_session_closed`).
-/
import AoniContrib.WebTransport.Session

namespace AoniContrib.WebTransport

open Go Concurrency

section
variable {C : Calls} {α : Type}

/-! ## 1. The calls that read the flags -/

inductive OpenErr where
  | errSessionClosed
  | errSessionDraining
  /-- The error of the transport. -/
  | transport (text : Bytes)
  deriving DecidableEq, Repr

abbrev Answer (α : Type) := Except Bytes α

def Answer.result : Answer α → Except OpenErr α
  | .ok raw => .ok raw
  | .error text => .error (.transport text)

/-- The four calls that open a stream: the `closed` flag is loaded in the state `s`, and then
`draining` in the state `s'`. -/
def openWith (s s' : State C) (raw : Answer α) : Except OpenErr α :=
  if s.closed then .error .errSessionClosed
  else if s'.draining then .error .errSessionDraining
  else raw.result

def openStream (s s' : State C) (raw : Answer α) : Except OpenErr α := openWith s s' raw

def openStreamSync (s s' : State C) (raw : Answer α) : Except OpenErr α := openWith s s' raw

def openUniStream (s s' : State C) (raw : Answer α) : Except OpenErr α := openWith s s' raw

def openUniStreamSync (s s' : State C) (raw : Answer α) : Except OpenErr α := openWith s s' raw

/-- `SendDatagram`, which does not look at `draining`. -/
def sendDatagram (s : State C) (sent : Answer Unit) : Except OpenErr Unit :=
  if s.closed then .error .errSessionClosed else sent.result

variable {s t : State C}

theorem openWith_closed {s' : State C} {raw : Answer α} (h : s.closed = true) :
    openWith s s' raw = .error .errSessionClosed := by
  rw [openWith, if_pos h]

theorem sendDatagram_closed {sent : Answer Unit} (h : s.closed = true) :
    sendDatagram s sent = .error .errSessionClosed := by
  rw [sendDatagram, if_pos h]

/-! ## 2. Closed for good -/

variable [Quicvarint]

/-- What is promised from the state `s` on: a call that begins in a later state `t` is refused, and
a stream that an `Enqueue` call begun behind `s` delivers is closed, or the call has not decided yet. -/
structure ClosedForGood (s : State C) : Prop where
  opens : ∀ es t, Run Step s es t → ∀ (t' : State C) (raw : Answer Unit),
    openStream t t' raw = .error .errSessionClosed ∧
      openStreamSync t t' raw = .error .errSessionClosed ∧
      openUniStream t t' raw = .error .errSessionClosed ∧
      openUniStreamSync t t' raw = .error .errSessionClosed ∧
      sendDatagram t raw = .error .errSessionClosed
  enqueues : ∀ es t, Run Step s es t → ∀ j, s.enqueue j = .start →
    t.enqueue j = .start ∨ t.enqueue j = .load ∨ t.enqueue j = .rejected

variable {e : Event C}

theorem closed_step (h : Step s e t) (hs : s.closed = true) : t.closed = true := by
  cases h with
  | casWon => rfl
  | _ => exact hs

theorem closed_of_run {es : List (Event C)} (h : Run Step s es t)
    (hs : s.closed = true) : t.closed = true :=
  h.invariant (fun _ _ _ hstep => closed_step hstep) hs

theorem enqueue_refused_step {j : Fin C.enqueues} (h : Step s e t)
    (hs : s.closed = true ∧ (s.enqueue j = .start ∨ s.enqueue j = .load ∨ s.enqueue j = .rejected)) :
    t.closed = true ∧ (t.enqueue j = .start ∨ t.enqueue j = .load ∨ t.enqueue j = .rejected) := by
  refine ⟨closed_step h hs.1, ?_⟩
  obtain ⟨hclosed, hpc⟩ := hs
  cases h
  all_goals
    grind

theorem closedForGood_of_closed (hs : s.closed = true) : ClosedForGood s := by
  refine ⟨fun es t hrun t' raw => ?_, fun es t hrun j hj => ?_⟩
  · have ht := closed_of_run hrun hs
    exact ⟨openWith_closed ht, openWith_closed ht, openWith_closed ht, openWith_closed ht,
      sendDatagram_closed ht⟩
  · exact (hrun.invariant (fun _ _ _ hstep => enqueue_refused_step hstep) ⟨hs, .inl hj⟩).2

theorem closedForGood_iff : ClosedForGood s ↔ s.closed = true := by
  refine ⟨fun h => ?_, closedForGood_of_closed⟩
  obtain ⟨hopen, -⟩ := h.opens [] s .nil s (.ok ())
  by_contra hclosed
  simp only [openStream, openWith, if_neg hclosed] at hopen
  split_ifs at hopen
  · cases hopen
  · simp [Answer.result] at hopen

/-! ## 3. The two doors -/

/-- The steps in which the loop leaves by a failed read only with the flag set. -/
structure EndsClosed (s : State C) (e : Event C) (t : State C) : Prop where
  step : Step s e t
  door : ∀ r, s.loop = .read r → t.loop = .returned → s.closed = true

theorem returned_closed_step (h : EndsClosed s e t)
    (hs : WellFormed s ∧ (s.loop = .returned → s.closed = true)) :
    WellFormed t ∧ (t.loop = .returned → t.closed = true) := by
  obtain ⟨hstep, hdoor⟩ := h
  obtain ⟨hwf, hreturned⟩ := hs
  refine ⟨wellFormed_step hstep hwf, fun ht => ?_⟩
  cases hstep with
  | loopFail hloop => exact hdoor _ hloop rfl
  | loopReturn hloop hclose =>
    -- the loop's own `CloseWithError` has returned, so somebody has won the compare-and-swap
    by_contra hopen
    rcases hwf.closers (Bool.eq_false_iff.mpr hopen) .loop with hpc | hpc <;>
      rw [hclose] at hpc <;> cases hpc
  | casWon => rfl
  | loopDrain | loopOther | loopClose | loopCloseInvalid | loopAnnounce | loopReason => cases ht
  | _ => exact hreturned ht

/-- **A session whose control stream has ended is closed**, in every run in which the loop leaves by
a failed read only with the flag set: every later call is refused. -/
theorem ended_session_closed {es : List (Event C)} {s : State C} (hrun : Run EndsClosed (State.new C) es s)
    (hcontrol : C.control.isSome = true) (hloop : s.loop = .returned) : ClosedForGood s := by
  have hnew : (State.new C).loop = .returned → (State.new C).closed = true := by
    obtain ⟨r, hr⟩ := Option.isSome_iff_exists.mp hcontrol
    intro h
    simp [State.new, hr] at h
  have h := hrun.invariant (fun _ _ _ => returned_closed_step) ⟨wellFormed_new, hnew⟩
  exact closedForGood_of_closed (h.2 hloop)

end

namespace Example

def endOfStream : Calls where
  control := some []
  enqueues := 1
  closes := 1
  enqueued _ := .bidi
  accepted := Fin.elim0
  reason _ := ⟨0, []⟩

end Example

open Example in
/-- The application closes the session before the loop meets the end of the stream. -/
theorem ended_session_closed_before : ∃ es s, Run EndsClosed (State.new endOfStream) es s ∧
    s.loop = .returned ∧ ClosedForGood s := by
  have hrun : Run EndsClosed (State.new endOfStream) _ _ :=
    .cons ⟨.begin (k := (0 : Fin 1)) rfl, fun _ _ h => by cases h⟩ <|
      .cons ⟨.casWon (c := .call (0 : Fin 1)) (by simp) rfl, fun _ _ h => by cases h⟩ <|
      .cons ⟨.loopFail (r := []) rfl, fun _ _ _ => rfl⟩ .nil
  exact ⟨_, _, hrun, rfl, ended_session_closed hrun rfl rfl⟩

open Example in
/-- **The stream ends, and the session goes on**: `OpenStream` returns a stream, and an incoming stream
is queued where nobody may take it. -/
theorem ended_session_open : ∃ es s es' t, Run Step (State.new endOfStream) es s ∧
    s.loop = .returned ∧ s.enqueue (0 : Fin 1) = .start ∧
    openStream s s (.ok ()) = .ok () ∧ sendDatagram s (.ok ()) = .ok () ∧
    Run Step s es' t ∧ t.enqueue (0 : Fin 1) = .sent ∧ t.queue .bidi = [(0 : Fin 1)] ∧
    ¬ ClosedForGood s := by
  have hrun : Run Step (State.new endOfStream) _ _ := .cons (.loopFail (r := []) rfl) .nil
  refine ⟨_, _, _, _, hrun, rfl, rfl, rfl, rfl, .cons (.rlock (j := (0 : Fin 1)) rfl rfl) <|
      .cons (.loadOpen (j := (0 : Fin 1)) rfl rfl) <|
      .cons (.send (j := (0 : Fin 1)) rfl rfl (by decide)) .nil,
    ?_, rfl, fun h => ?_⟩
  · rfl
  · exact Bool.false_ne_true (closedForGood_iff.mp h)

end AoniContrib.WebTransport
