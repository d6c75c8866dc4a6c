/-
# No connection outlives the connector

Every connection the dialer returned is the current one, or closed, or in the hands of a thread
whose next step closes or installs it (`Owned`).  A current connection always has a read loop that
has yet to take it, so once no thread has a step left nothing is current and everything is closed
(`connections_closed`).
-/
import AoniContrib.Socket.Connector

namespace AoniContrib.Socket

open Concurrency
open Function (update update_apply)

/-! ## 1. The invariant -/

/-- A step that closes or installs the connection is next: of a `Connect` that dialled it, of its
read loop, or of a `Disconnect` or `Close` that took it. -/
def Held (s : State) (c : ConnId) : Prop :=
  (∃ w, s.connect w = .dialed c) ∨ s.reader c = .closing ∨ ∃ i k, s.call i = .shut k c

/-- A read loop that has yet to take its connection. -/
def ReaderPc.Receives (pc : ReaderPc) : Prop :=
  pc = .top ∨ pc = .receiving ∨ pc = .pushing ∨ pc = .leave

structure Owned (s : State) : Prop where
  owned : ∀ c < s.dialled, s.conn = some c ∨ s.shut c = true ∨ Held s c
  received : ∀ c, s.conn = some c → (s.reader c).Receives

theorem owned_new : Owned .new where
  owned c hc := by cases hc
  received c hc := by cases hc

section
variable {m : Nat} {s t : State} {a : Event}

theorem received_step (h : Step m s a t) (hs : Owned s) :
    ∀ c, t.conn = some c → (t.reader c).Receives := by
  obtain ⟨-, hreceived⟩ := hs
  cases h
  all_goals
    simp only [ReaderPc.Receives, State.install, State.cancelReconnect, State.startLoop,
      update_apply] at *
    grind

theorem held_step (h : Step m s a t) (hw : WellFormed s) (hs : Owned s) :
    ∀ c < t.dialled, t.conn = some c ∨ t.shut c = true ∨ Held t c := by
  obtain ⟨howned, hreceived⟩ := hs
  have hwaiting := hw.waiting
  cases h with
  | @takeSome i k c hi hc =>
    -- the connection goes from the connector to the call
    intro d hd
    rcases howned d hd with hd | hd | hd
    · obtain rfl : c = d := Option.some.inj (hc.symm.trans hd)
      exact .inr (.inr (.inr (.inr ⟨i, k, by simp⟩)))
    · exact .inr (.inl hd)
    · rcases hd with hd | hd | ⟨j, k', hj⟩
      · exact .inr (.inr (.inl hd))
      · exact .inr (.inr (.inr (.inl hd)))
      · have hne : j ≠ i := by rintro rfl; simp [hi] at hj
        exact .inr (.inr (.inr (.inr ⟨j, k', by simp [hne, hj]⟩)))
  | _ =>
    simp only [Held, State.install, State.cancelReconnect, State.startLoop, update_apply] at *
    grind

end

variable {m : Nat} {s t : State}

theorem Reachable.owned (h : Reachable m s) : Owned s := by
  obtain ⟨as, hrun⟩ := h
  have hinv : WellFormed s ∧ Owned s := by
    refine hrun.invariant (I := fun s => WellFormed s ∧ Owned s) ?_ ⟨wellFormed_new, owned_new⟩
    rintro s a t h ⟨hw, hs⟩
    exact ⟨wellFormed_step h hw, held_step h hw hs, received_step h hs⟩
  exact hinv.2

/-! ## 2. After `Close` -/

/-- Beyond its `closed.Swap`, `Close` finds the flag set in every state. -/
def CallPc.Closing : CallPc → Prop
  | .cancel k | .take k | .shut k _ | .returned k => k = .close
  | .stop => True
  | .idle | .swap | .trigger => False

theorem closed_step {a : Event} (h : Step m s a t) (hs : s.closed = true) : t.closed = true := by
  cases h <;> simp_all [State.install, State.cancelReconnect, State.startLoop]

/-- What tells that `Close` has set the flag. -/
structure ClosedBehind (s : State) : Prop where
  call : ∀ i, (s.call i).Closing → s.closed = true
  ctx : s.ctxDone = true → s.closed = true

theorem closedBehind_step {a : Event} (h : Step m s a t) (hs : ClosedBehind s) : ClosedBehind t := by
  obtain ⟨hcall, hctx⟩ := hs
  refine ⟨?_, ?_⟩
  all_goals
    cases h
    all_goals
      simp only [State.install, State.cancelReconnect, State.startLoop, update_apply] at *
      grind [CallPc.Closing]

theorem Reachable.closedBehind (h : Reachable m s) : ClosedBehind s := by
  obtain ⟨as, hrun⟩ := h
  exact hrun.invariant (fun _ _ _ => closedBehind_step) ⟨fun _ h => h.elim, fun h => by cases h⟩

/-- No `Connect`, `readLoop` or `reconnectLoop` has a step to make. -/
structure WorkersIdle (s : State) : Prop where
  connect : ∀ w, s.connect w = .idle ∨ ∃ ok, s.connect w = .returned ok
  reader : ∀ c, s.reader c = .absent ∨ s.reader c = .done
  loop : ∀ l, s.loop l = .absent ∨ s.loop l = .done

/-- No `Disconnect` or `Close` has yet to close a connection that it took. -/
def NoneTaken (s : State) : Prop := ∀ i k c, s.call i ≠ .shut k c

theorem not_held_of_idle (hw : WorkersIdle s) (hc : NoneTaken s) (c : ConnId) : ¬ Held s c := by
  rintro (⟨w, h⟩ | h | ⟨i, k, h⟩)
  · rcases hw.connect w with h' | ⟨_, h'⟩ <;> simp [h] at h'
  · rcases hw.reader c with h' | h' <;> simp [h] at h'
  · exact hc i k c h

theorem conn_of_idle (hs : Owned s) (hw : WorkersIdle s) : s.conn = none := by
  cases hc : s.conn with
  | none => rfl
  | some c =>
    have hrecv := hs.received c hc
    rcases hw.reader c with h | h <;> simp [ReaderPc.Receives, h] at hrecv

/-- **No connection outlives the connector.**  Every connection the dialer returned is current, or
closed, or in the hands of a step that closes or installs it; and from the return of a `Close` on,
the connector is not connected, and holds nothing and has closed everything whenever no `Connect`,
read loop or reconnect loop has a step left and no call has taken a connection that it is to close.
-/
theorem connections_closed {m : Nat} {s : State} (h : Reachable m s) :
    (∀ c < s.dialled, s.conn = some c ∨ s.shut c = true ∨ Held s c) ∧
    ∀ i as t, s.call i = .returned .close → Run (Step m) s as t →
      t.isConnected = false ∧
      (WorkersIdle t → NoneTaken t → t.conn = none ∧ ∀ c < t.dialled, t.shut c = true) := by
  refine ⟨h.owned.owned, fun i as t hi hrun => ?_⟩
  have hclosed : t.closed = true :=
    hrun.invariant (fun _ _ _ => closed_step) (h.closedBehind.call i (by rw [hi]; rfl))
  have ht : Owned t := (h.trans hrun).owned
  refine ⟨by simp [State.isConnected, hclosed], fun hw hc => ⟨conn_of_idle ht hw, fun c hlt => ?_⟩⟩
  rcases ht.owned c hlt with hcur | hshut | hheld
  · rw [conn_of_idle ht hw] at hcur
    cases hcur
  · exact hshut
  · exact absurd hheld (not_held_of_idle hw hc c)

theorem workersIdle_of_read_loop_returned (hconnect : s.connect = State.connected.connect)
    (hreader : s.reader = update (update (update State.connected.reader 0 .leave) 0 .check) 0 .done)
    (hloop : s.loop = State.connected.loop) : WorkersIdle s where
  connect w := by
    rw [hconnect]
    rcases eq_or_ne w (.user 0) with rfl | hw
    · exact .inr ⟨true, rfl⟩
    · exact .inl (by simp [State.connected, hw])
  reader c := by
    rw [hreader]
    rcases eq_or_ne c 0 with rfl | hc
    · exact .inr rfl
    · exact .inl (by simp [State.connected, hc])
  loop l := .inl (congrFun hloop l)

/-- A connected connector is closed, and its read loop returns; a `TriggerReconnect` is pending. -/
theorem connections_closed_once_read_loop_returned :
    ∃ s t as, Reachable 0 s ∧ s.call 0 = .returned .close ∧ Run (Step 0) s as t ∧ WorkersIdle t ∧
      t.call 1 = .trigger ∧ t.isConnected = false ∧ t.conn = none ∧ t.dialled = 1 ∧
      ∀ c < t.dialled, t.shut c = true := by
  obtain ⟨s, t, as, hs, hcall, hrun, hworkers, hpending, hdialled, hnone⟩ : ∃ s t as,
      Reachable 0 s ∧ s.call 0 = .returned .close ∧ Run (Step 0) s as t ∧ WorkersIdle t ∧
      t.call 1 = .trigger ∧ t.dialled = 1 ∧ NoneTaken t := by
    refine ⟨_, _, _, (reachable_connected 0).trans <|
      .cons (.closeStart (i := 0) rfl) <| .cons (.closeSwap (i := 0) rfl rfl) <|
      .cons (.closeCancel (i := 0) rfl) <| .cons (.closeStop (i := 0) rfl) <|
      .cons (.takeSome (i := 0) (c := 0) rfl rfl) <| .cons (.shut (i := 0) (c := 0) rfl) .nil, rfl,
      .cons (.readerStop (c := 0) rfl rfl) <| .cons (.leaveOther (c := 0) rfl nofun) <|
      .cons (.checkClosed (c := 0) rfl rfl) <| .cons (.triggerStart (i := 1) rfl) .nil,
      workersIdle_of_read_loop_returned rfl rfl rfl, rfl, rfl, fun i k c => ?_⟩
    simp only [update_apply]
    split_ifs <;> exact nofun
  obtain ⟨hconn, hidle⟩ := (connections_closed hs).2 0 as t hcall hrun
  obtain ⟨hcurrent, hshut⟩ := hidle hworkers hnone
  exact ⟨s, t, as, hs, hcall, hrun, hworkers, hpending, hconn, hcurrent, hdialled, hshut⟩

/-- A `Close` may return while a `Disconnect` that took the connection has yet to close it.  Then
neither a `Connect` nor a read loop nor a reconnect loop has a step left, and the connection is
open. -/
theorem taken_connection_open :
    ∃ s t as, Reachable 0 s ∧ s.call 1 = .returned .close ∧ Run (Step 0) s as t ∧
      WorkersIdle t ∧ ∃ c < t.dialled, t.shut c = false :=
  ⟨_, _, _, (reachable_connected 0).trans <|
    .cons (.disconnectStart (i := 0) rfl) <| .cons (.disconnectCancel (i := 0) rfl) <|
    .cons (.takeSome (i := 0) (c := 0) rfl rfl) <| .cons (.closeStart (i := 1) rfl) <|
    .cons (.closeSwap (i := 1) rfl rfl) <| .cons (.closeCancel (i := 1) rfl) <|
    .cons (.closeStop (i := 1) rfl) <| .cons (.takeNone (i := 1) rfl rfl) .nil, rfl,
    .cons (.readerStop (c := 0) rfl rfl) <| .cons (.leaveOther (c := 0) rfl nofun) <|
    .cons (.checkClosed (c := 0) rfl rfl) .nil, workersIdle_of_read_loop_returned rfl rfl rfl,
    0, Nat.zero_lt_one, rfl⟩

/-! ## 3. Nothing is closed twice -/

/-- What is open and no call has taken; what a call has taken is open, and its own. -/
structure Unclosed (s : State) : Prop where
  free : ∀ c, s.conn = some c ∨ s.reader c = .absent ∨ s.reader c = .closing →
    s.shut c = false ∧ ∀ i k, s.call i ≠ .shut k c
  taken : ∀ i j k l c, s.call i = .shut k c → s.call j = .shut l c → s.shut c = false ∧ i = j

theorem unclosed_step {a : Event} (h : Step m s a t) (hw : WellFormed s) (ho : Owned s)
    (hs : Unclosed s) : Unclosed t := by
  obtain ⟨hfree, htaken⟩ := hs
  have hreceived := ho.received
  have hdialed := hw.dialed
  constructor
  all_goals
    cases h
    all_goals
      simp only [ReaderPc.Receives, State.install, State.cancelReconnect, State.startLoop,
        update_apply] at *
      grind

/-- **No connection is closed twice**: in every reachable state the current connection is open, and so is
every connection that a step is about to close or install. -/
theorem closed_once {c : ConnId} (h : Reachable m s) (hc : s.conn = some c ∨ Held s c) :
    s.shut c = false := by
  obtain ⟨as, hrun⟩ := h
  have hnew : Unclosed .new := ⟨fun _ _ => ⟨rfl, nofun⟩, nofun⟩
  obtain ⟨hr, hfree, htaken⟩ :=
    hrun.invariant (I := fun s => Reachable m s ∧ Unclosed s)
      (fun _ _ _ hstep ⟨hr, hs⟩ => ⟨hr.step hstep, unclosed_step hstep hr.wellFormed hr.owned hs⟩)
      ⟨⟨[], .nil⟩, hnew⟩
  rcases hc with hc | ⟨w, hw⟩ | hc | ⟨i, k, hi⟩
  · exact (hfree c (.inl hc)).1
  · exact (hfree c (.inr (.inl (hr.wellFormed.dialed w c hw).2))).1
  · exact (hfree c (.inr (.inr hc))).1
  · exact (htaken i i k k c hi hi).1

/-- A second `Connect` replaces the connection: the old one is closed, the new one is not. -/
theorem closed_once_replaced :
    ∃ s, Reachable 0 s ∧ s.conn = some 1 ∧ s.shut 0 = true ∧ s.shut 1 = false := by
  obtain ⟨s, hs, hconn, hshut⟩ : ∃ s, Reachable 0 s ∧ s.conn = some 1 ∧ s.shut 0 = true :=
    ⟨_, (reachable_connected 0).trans <| .cons (.connectStart (i := 1) rfl) <|
      .cons (.entryUser (i := 1) rfl rfl) <| .cons (.cancel (i := 1) rfl) <|
      .cons (.swap (w := .user 1) rfl rfl) <| .cons (.dial (w := .user 1) rfl) <|
      .cons (.dialOk (w := .user 1) rfl) <| .cons (.install (w := .user 1) (c := 1) rfl) .nil, rfl, rfl⟩
  exact ⟨s, hs, hconn, hshut, closed_once hs (.inl hconn)⟩

end AoniContrib.Socket
