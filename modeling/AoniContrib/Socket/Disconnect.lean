/-
# `Disconnect` and the automatic reconnection

`Disconnect` cancels the reconnect loop and closes the current connection.  The read loop of that
connection then fails, and its deferred block starts a new reconnect loop: it asks whether the
connector is closed, not whether the connection was given up.  So `Disconnect` is respected when
it finds nothing to close (`disconnect_respected`), a loop that waits for its backoff included, and
not when it ends a connection (`disconnect_reconnects`).
-/
import AoniContrib.Socket.Ownership

namespace AoniContrib.Socket

open Concurrency
open Function (update_apply)

/-! ## 1. Nothing that could connect -/

/-- A call of `Connect` or `TriggerReconnect` by the user. -/
def Event.Asks : Event → Prop
  | .connect _ | .call _ .trigger => True
  | _ => False

structure NotAsked (s : State) : Prop where
  connect : ∀ i, s.connect (.user i) = .idle ∨ ∃ ok, s.connect (.user i) = .returned ok
  call : ∀ i, s.call i ≠ .trigger

/-- The next attempt of the loop ends before its dial: at its context, or at `closed`. -/
def State.Stopped (s : State) (l : LoopId) : Prop := s.LoopDone l ∨ s.closed = true

/-- Where `Connect` is in a loop that dials no more. -/
def State.Ended (s : State) (l : LoopId) (pc : ConnectPc) : Prop :=
  pc = .idle ∨ pc = .finish true ∨ pc = .returned true ∨ (pc = .entry ∧ s.closed = true) ∨
    ((pc = .finish false ∨ pc = .returned false) ∧ s.Stopped l)

/-- Nothing is connected and nothing is left that could connect: no read loop is there to start a
reconnect loop, and no reconnect loop is there to dial. -/
structure Quiet (s : State) : Prop where
  conn : s.conn = none
  readers : s.closed = true ∨ ∀ c, s.reader c = .absent ∨ s.reader c = .done
  waiting : ∀ l, s.loop l = .top ∨ s.loop l = .sleeping → s.Stopped l
  connecting : ∀ l, s.Ended l (s.connect (.loop l))

section
variable {m : Nat} {s t : State} {a : Event}

section
variable (ha : ¬ a.Asks) (h : Step m s a t)
include h ha

theorem notAsked_step (hs : NotAsked s) : NotAsked t := by
  obtain ⟨hconnect, hcall⟩ := hs
  refine ⟨?_, ?_⟩
  · clear hcall
    cases h
    all_goals
      simp only [State.cancelReconnect, State.startLoop, update_apply] at *
      grind [Event.Asks]
  · clear hconnect
    cases h
    all_goals
      simp only [State.install, State.cancelReconnect, State.startLoop, update_apply] at *
      grind [Event.Asks]

theorem quiet_conn_step (hn : NotAsked s) (hs : Quiet s) :
    t.conn = none ∧ (t.closed = true ∨ ∀ c, t.reader c = .absent ∨ t.reader c = .done) := by
  obtain ⟨hconn, hreaders, -, hconnecting⟩ := hs
  obtain ⟨hconnect, -⟩ := hn
  cases h with
  | @install w c hw =>
    cases w with
    | user i => rcases hconnect i with h | ⟨_, h⟩ <;> simp [hw] at h
    | loop l => exact absurd (hconnecting l) (by simp [hw, State.Ended])
  | _ =>
    simp only [State.cancelReconnect, State.startLoop, update_apply] at *
    grind

theorem quiet_loop_step (hn : NotAsked s) (hs : Quiet s) :
    ∀ l, t.loop l = .top ∨ t.loop l = .sleeping → t.Stopped l := by
  obtain ⟨-, hreaders, hwaiting, hconnecting⟩ := hs
  obtain ⟨-, hcall⟩ := hn
  cases h
  all_goals
    simp only [State.Ended, State.Stopped, State.LoopDone, State.Refuses, State.install, State.cancelReconnect,
      State.startLoop, update_apply] at *
    grind

theorem quiet_connect_step (hs : Quiet s) : ∀ l, t.Ended l (t.connect (.loop l)) := by
  obtain ⟨-, hreaders, hwaiting, hconnecting⟩ := hs
  cases h
  all_goals
    simp only [State.Ended, State.Stopped, State.LoopDone, State.Refuses, State.install, State.cancelReconnect,
      State.startLoop, update_apply] at *
    grind

theorem quiet_step (hn : NotAsked s) (hs : Quiet s) : Quiet t where
  conn := (quiet_conn_step ha h hn hs).1
  readers := (quiet_conn_step ha h hn hs).2
  waiting := quiet_loop_step ha h hn hs
  connecting := quiet_connect_step ha h hs

end

theorem quiet_no_dial (h : Step m s a t) (hs : Quiet s) (l : LoopId) : a ≠ .dial (.loop l) := by
  rintro rfl
  cases h with
  | dial hw => simpa [hw, State.Ended] using hs.connecting l

end

/-! ## 2. After `Disconnect` -/

/-- A dial is under way: the dialer was called, and what it returns is not installed. -/
def ConnectPc.Dials (pc : ConnectPc) : Prop := pc = .dialing ∨ ∃ c, pc = .dialed c

/-- From the return of a `Disconnect` on, unless the user asks for a connection, no reconnect loop
dials, and the connector is not connected once no dial is under way. -/
def Respected (m : Nat) (s : State) : Prop :=
  ∀ i as t, s.call i = .returned .disconnect → NotAsked s → Run (Step m) s as t →
    (∀ a ∈ as, ¬ a.Asks) →
    (∀ l, .dial (.loop l) ∉ as) ∧ ((∀ w, ¬ (t.connect w).Dials) → t.isConnected = false)

/-- **When `Disconnect` is respected.**  It is if it leaves the connector quiet. -/
theorem disconnect_respected {m : Nat} {s : State} (hq : Quiet s) : Respected m s := by
  intro i as t _ hn hrun has
  have hstep : ∀ s a t, ¬ a.Asks → Step m s a t → NotAsked s ∧ Quiet s → NotAsked t ∧ Quiet t :=
    fun s a t ha h hs => ⟨notAsked_step ha h hs.1, quiet_step ha h hs.1 hs.2⟩
  constructor
  · intro l hl
    have hlabels := hrun.forall_labels (Q := fun a => a ≠ .dial (.loop l)) has
      (fun s a t ha h hs => ⟨hstep s a t ha h hs, quiet_no_dial h hs.2 l⟩) ⟨hn, hq⟩
    exact hlabels _ hl rfl
  · intro _
    have ht := hrun.invariant_of_labels has hstep ⟨hn, hq⟩
    simp [State.isConnected, ht.2.conn]

/-- The connection drops, the reconnect loop fails to dial and waits for its backoff; a
`Disconnect` then ends it. -/
theorem disconnect_respected_in_backoff :
    ∃ s, Reachable 0 s ∧ s.loop 0 = .sleeping ∧ s.call 0 = .returned .disconnect ∧ Respected 0 s := by
  obtain ⟨s, hs, hloop, hcall, hq⟩ : ∃ s, Reachable 0 s ∧ s.loop 0 = .sleeping ∧
      s.call 0 = .returned .disconnect ∧ Quiet s := by
    refine ⟨_, (reachable_connected 0).trans <| .cons (.readerTop (c := 0) rfl rfl) <|
      .cons (.receiveErr (c := 0) rfl) <| .cons (.leaveSame (c := 0) rfl rfl) <|
      .cons (.readerClose (c := 0) rfl) <| .cons (.checkOpen (c := 0) rfl rfl) <|
      .cons (.readerTrigger (c := 0) rfl (State.not_refuses rfl rfl)) <|
      .cons (.loopConnect (l := 0) rfl (State.not_loopDone rfl rfl) nofun) <|
      .cons (.entryLoop (l := 0) rfl rfl) <| .cons (.swap (w := .loop 0) rfl rfl) <|
      .cons (.dial (w := .loop 0) rfl) <| .cons (.dialFail (w := .loop 0) rfl) <|
      .cons (.finish (w := .loop 0) rfl) <| .cons (.loopFailed (l := 0) rfl rfl) <|
      .cons (.disconnectStart (i := 0) rfl) <| .cons (.disconnectCancel (i := 0) rfl) <|
      .cons (.takeNone (i := 0) rfl rfl) .nil, rfl, rfl, rfl, .inr fun c => ?_, fun l hl => ?_,
      fun l => ?_⟩
    · simp only [State.connected, State.cancelReconnect, State.startLoop, update_apply]
      grind
    · simp only [State.connected, State.cancelReconnect, State.startLoop, State.Stopped,
        State.LoopDone, update_apply] at hl ⊢
      grind
    · simp only [State.connected, State.cancelReconnect, State.startLoop, State.Ended, update_apply]
      grind
  exact ⟨s, hs, hloop, hcall, disconnect_respected hq⟩

/-- `Disconnect` ends the current connection; its read loop starts a reconnect loop, which dials
and connects again. -/
theorem disconnect_reconnects :
    ∃ s as t, Reachable 0 s ∧ s.call 0 = .returned .disconnect ∧ NotAsked s ∧ Run (Step 0) s as t ∧
      (∀ a ∈ as, ¬ a.Asks) ∧ .dial (.loop 0) ∈ as ∧ (∀ w, ¬ (t.connect w).Dials) ∧
      t.isConnected = true := by
  refine ⟨_, _, _, (reachable_connected 0).trans <| .cons (.readerTop (c := 0) rfl rfl) <|
    .cons (.disconnectStart (i := 0) rfl) <| .cons (.disconnectCancel (i := 0) rfl) <|
    .cons (.takeSome (i := 0) (c := 0) rfl rfl) <| .cons (.shut (i := 0) (c := 0) rfl) .nil, rfl,
    ⟨fun i => ?_, fun i => ?_⟩,
    .cons (.receiveErr (c := 0) rfl) <| .cons (.leaveOther (c := 0) rfl nofun) <|
    .cons (.checkOpen (c := 0) rfl rfl) <|
    .cons (.readerTrigger (c := 0) rfl (State.not_refuses rfl rfl)) <|
    .cons (.loopConnect (l := 0) rfl (State.not_loopDone rfl rfl) nofun) <|
    .cons (.entryLoop (l := 0) rfl rfl) <| .cons (.swap (w := .loop 0) rfl rfl) <|
    .cons (.dial (w := .loop 0) rfl) <| .cons (.dialOk (w := .loop 0) rfl) <|
    .cons (.install (w := .loop 0) (c := 1) rfl) <| .cons (.finish (w := .loop 0) rfl) .nil,
    by simp [Event.Asks], by simp, fun w => ?_, rfl⟩
  · simp only [State.connected, State.cancelReconnect, update_apply]
    grind
  · simp only [State.connected, update_apply]
    grind
  · simp only [State.connected, State.cancelReconnect, State.startLoop, ConnectPc.Dials, update_apply]
    grind

end AoniContrib.Socket
