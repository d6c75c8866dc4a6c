/-
# What `Close` ends, and what it does not

`Close` closes the channel in `s.closed` and sets `skipReconnect`.  A `reconnectLoop` that looks at the
channel afterwards returns.  One that has looked at it before does not look again before it has dialled:
`resetConnectionState` then puts a new channel in its place and clears `skipReconnect`, and the `Conn` is
open again (`reopened_after_close`).

If `Close` comes while no `reconnectLoop` is between its check and the end of its attempt, and if a closed
channel wins over the timer in `sleepBeforeReconnect`, then `Close` is final (`close_is_final`).
-/
import AoniContrib.SocketIO.Threads

namespace AoniContrib.SocketIO.Threads

open Function Concurrency

/-! ## 1. Phases of the threads -/

/-- The channel that a `reconnectLoop` has loaded. -/
def Thread.Watches (g : Nat) : Thread → Prop
  | .reconnectLoop (.polling g') => g = g'
  | .reconnectLoop (.sleeping g') => g = g'
  | _ => False

/-- Past its check, and not at the end of the attempt. -/
def Thread.Attempts : Thread → Prop
  | .reconnectLoop .count => True
  | .reconnectLoop .dialing => True
  | .reconnectLoop (.store _) => True
  | .reconnectLoop (.reset _) => True
  | .reconnectLoop (.handshake _) => True
  | .reconnectLoop .opening => True
  | _ => False

def Thread.Closing : Thread → Prop
  | .close .start => False
  | .close _ => True
  | _ => False

theorem Thread.Watches.holds {g : Nat} : ∀ {x : Thread}, x.Watches g → x.Holds
  | .reconnectLoop (.polling _), _ => trivial
  | .reconnectLoop (.sleeping _), _ => trivial

theorem Thread.Attempts.holds : ∀ {x : Thread}, x.Attempts → x.Holds
  | .reconnectLoop .count, _ => trivial
  | .reconnectLoop .dialing, _ => trivial
  | .reconnectLoop (.store _), _ => trivial
  | .reconnectLoop (.reset _), _ => trivial
  | .reconnectLoop (.handshake _), _ => trivial
  | .reconnectLoop .opening, _ => trivial

section
variable {cfg : Config} {i g : Nat} {s s' : Shared} {x x' : Thread} {a : Act} {y : Option Thread}

section
variable (h : Move cfg i s x a s' x' y)
include h

theorem Move.closed_eq (hx : ¬ x.Attempts) : s'.closed = s.closed := by
  cases h with
  | readLoop h => cases h <;> rfl
  | reconnectLoop h =>
    cases h with
    | reset => exact absurd trivial hx
    | _ => rfl
  | heartbeatLoop h | close h => cases h <;> rfl

theorem Move.shut_mono (hg : s.shut g = true) : s'.shut g = true := by
  have hclose : update s.shut s.closed true g = true := by
    by_cases hc : g = s.closed
    · rw [hc, update_self]
    · rwa [update_of_ne hc]
  cases h with
  | readLoop h | reconnectLoop h => cases h <;> exact hg
  | heartbeatLoop h =>
    cases h with
    | giveUp =>
      dsimp only
      split_ifs
      · exact hg
      · exact hclose
    | _ => exact hg
  | close h =>
    cases h with
    | close => exact hclose
    | _ => exact hg

theorem Move.watches (hx' : x'.Watches g) : g = s.closed ∧ s' = s := by
  cases h with
  | readLoop h => exact hx'.elim
  | reconnectLoop h =>
    cases h with
    | check => exact ⟨hx', rfl⟩
    | sleep => exact ⟨hx', rfl⟩
    | failing =>
      split_ifs at hx'
      · exact hx'.elim
      · exact hx'.elim
    | _ => exact hx'.elim
  | heartbeatLoop h | close h => exact hx'.elim

theorem Move.attempts (hx' : x'.Attempts) :
    x.Attempts ∨ a = .timer ∧ ∃ g, x = .reconnectLoop (.sleeping g) := by
  cases h with
  | readLoop h => exact hx'.elim
  | reconnectLoop h =>
    cases h with
    | @timer g => exact .inr ⟨rfl, g, rfl⟩
    | failing =>
      split_ifs at hx'
      · exact hx'.elim
      · exact hx'.elim
    | count | dialed | store | reset | shaken => exact .inl trivial
    | _ => exact hx'.elim
  | heartbeatLoop h | close h => exact hx'.elim

end

theorem Move.forked {z : Thread} (h : Move cfg i s x a s' x' (some z)) :
    ¬ z.Attempts ∧ (∀ g, ¬ z.Watches g) ∧ ¬ z.Closing := by
  cases h with
  | readLoop h =>
    cases h
    exact ⟨id, fun _ => id, id⟩
  | reconnectLoop h =>
    cases h with
    | startRead => exact ⟨id, fun _ => id, id⟩
    | startHeartbeat => exact ⟨id, fun _ => id, id⟩

theorem Move.shut_of_close (h : Move cfg i s x .close s' x' y) :
    s'.shut s.closed = true ∧ y = none ∧ ¬ x'.Attempts ∧ ∀ g, ¬ x'.Watches g := by
  cases h with
  | readLoop h | reconnectLoop h | heartbeatLoop h => cases h
  | close h =>
    cases h with
    | already hshut => exact ⟨hshut, rfl, id, fun _ => id⟩
    | close => exact ⟨update_self _ _ _, rfl, id, fun _ => id⟩

theorem Move.closing (h : Move cfg i s x a s' x' y) (hx' : x'.Closing) : a = .close ∨ x.Closing := by
  cases h with
  | readLoop h | reconnectLoop h | heartbeatLoop h => exact hx'.elim
  | close h =>
    cases h with
    | already => exact .inl rfl
    | close => exact .inl rfl
    | _ => exact .inr trivial

theorem Move.attempts_of_act (h : Move cfg i s x a s' x' y) (ha : a = .open ∨ a = .attempt) :
    x.Attempts := by
  cases h with
  | readLoop h => cases h <;> simp at ha
  | reconnectLoop h =>
    cases h with
    | count => trivial
    | opening => trivial
    | _ => simp at ha
  | heartbeatLoop h | close h => cases h <;> simp at ha

theorem Move.state_eq (h : Move cfg i s x a s' x' y) (ha : a ≠ .open) (hs : s.state ≠ .open) :
    s'.state ≠ .open := by
  cases h with
  | readLoop h =>
    cases h with
    | cleanup => exact SioConnState.noConfusion
    | _ => exact hs
  | reconnectLoop h =>
    cases h with
    | opening => exact absurd rfl ha
    | _ => exact hs
  | heartbeatLoop h | close h => cases h <;> exact hs

end

/-! ## 2. Before `Close`: a loaded channel is the current one -/

variable {cfg : Config} {s t : State} {l : Nat × Act}

def Current (s : Shared) (_ : Nat) (x : Thread) : Prop := ∀ g, x.Watches g → g = s.closed

theorem current_step (h : Step cfg s l t) (hone : AtMostOne Thread.Holds s) (hs : Every Current s) :
    Every Current t := by
  refine hs.step h ?_ ?_
  · intro x x' y hx hmove _
    refine ⟨fun g hg => ?_, fun z hz k _ g hg => ?_, fun j hj z hz hcur g hg => ?_⟩
    · obtain ⟨hclosed, hsame⟩ := hmove.watches hg
      rw [hclosed, hsame]
    · subst hz
      exact absurd hg (hmove.forked.2.1 g)
    · -- the watching thread has the connection, so the one that moves attempts nothing
      have hx' : ¬ x.Attempts := fun hatt => hj (hone _ _ _ _ hz hx hg.holds hatt.holds)
      rw [hmove.closed_eq hx']
      exact hcur g hg
  · rintro x ⟨-, rfl⟩
    exact ⟨fun g hg => hg.elim, fun _ _ _ _ hcur => hcur⟩

theorem current_init : Every Current init := by
  rintro (_ | _ | i) x hx g hg <;> cases hx <;> exact hg.elim

/-! ## 3. After `Close` -/

/-- `Close` comes while no `reconnectLoop` makes an attempt, and `sleepBeforeReconnect` does not take the
timer when the channel it watches is closed. -/
def CloseInTime (s : State) (l : Nat × Act) : Prop :=
  (l.2 = .close → Nobody Thread.Attempts s) ∧
  (l.2 = .timer → ∀ g, s.thread l.1 = some (.reconnectLoop (.sleeping g)) → s.shared.shut g = false)

/-- A thread that makes no attempt and, if it has loaded a channel, will find it closed. -/
def Idle (s : Shared) (_ : Nat) (x : Thread) : Prop :=
  ¬ x.Attempts ∧ ∀ g, x.Watches g → s.shut g = true

structure Ended (s : State) : Prop where
  shut : s.shared.shut s.shared.closed = true
  idle : Every Idle s

theorem idle_of_enter {sh : Shared} {i : Nat} {a : Act} {x : Thread} (h : Enter a x) : Idle sh i x := by
  rw [h.2]
  exact ⟨id, fun _ => False.elim⟩

theorem Ended.step (hs : Ended s) (h : When CloseInTime (Step cfg) s l t) : Ended t := by
  obtain ⟨⟨-, htimer⟩, hstep⟩ := h
  constructor
  · rcases hstep.cases with ⟨x, x', y, k, hx, hmove, -⟩ | ⟨x, -, -, rfl⟩
    · rw [hmove.closed_eq (hs.idle _ _ hx).1]
      exact hmove.shut_mono hs.shut
    · exact hs.shut
  · refine hs.idle.step hstep ?_ fun x henter => ⟨idle_of_enter henter, fun _ _ _ _ hidle => hidle⟩
    intro x x' y hx hmove hidle
    refine ⟨⟨fun hatt => ?_, fun g hg => ?_⟩, fun z hz k _ => ?_, fun j _ z _ hz => ?_⟩
    · rcases hmove.attempts hatt with hold | ⟨ha, g, rfl⟩
      · exact hidle.1 hold
      · have hopen := htimer ha g hx
        rw [hidle.2 g rfl] at hopen
        cases hopen
    · rw [(hmove.watches hg).1]
      exact hmove.shut_mono hs.shut
    · subst hz
      exact ⟨hmove.forked.1, fun g hg => absurd hg (hmove.forked.2.1 g)⟩
    · exact ⟨hz.1, fun g hg => hmove.shut_mono (hz.2 g hg)⟩

theorem ended_of_close (h : Step cfg s l t) (hidle : Nobody Thread.Attempts s) (hcur : Every Current s)
    (hl : l.2 = .close) : Ended t := by
  obtain ⟨i, a⟩ := l
  cases hl
  rcases h.cases with ⟨x, x', y, k, hx, hmove, hx', -, hothers⟩ | ⟨x, -, ⟨ha, -⟩, -⟩
  · obtain ⟨hshut, rfl, hatt, hwatch⟩ := hmove.shut_of_close
    have hclosed := hmove.closed_eq (hidle i x hx)
    refine ⟨hclosed ▸ hshut, fun j z hz => ?_⟩
    by_cases hj : j = i
    · subst hj
      rw [hx'] at hz
      cases hz
      exact ⟨hatt, fun g hg => absurd hg (hwatch g)⟩
    · rcases hothers j hj z hz with hold | ⟨-, -, hy⟩
      · refine ⟨hidle j z hold, fun g hg => ?_⟩
        rw [hcur j z hold g hg]
        exact hshut
      · cases hy
  · cases ha

/-- What holds in every run that `Close` joins in time. -/
structure Final (s : State) : Prop where
  one : AtMostOne Thread.Holds s
  current : Every Current s
  ended : ∀ i x, s.thread i = some x → x.Closing → Ended s

theorem Final.step (hs : Final s) (h : When CloseInTime (Step cfg) s l t) : Final t := by
  refine ⟨holds_step h.2 hs.one, current_step h.2 hs.one hs.current, ?_⟩
  intro j z hz hclosing
  -- the thread was past its critical section before, or has just left it
  have hsplit : l.2 = .close ∨ ∃ x, s.thread j = some x ∧ x.Closing := by
    rcases h.2.cases with ⟨x, x', y, k, hx, hmove, hx', -, hothers⟩ | ⟨x, -, ⟨-, rfl⟩, rfl⟩
    · by_cases hj : j = l.1
      · subst hj
        rw [hx'] at hz
        cases hz
        exact (hmove.closing hclosing).imp id fun hold => ⟨x, hx, hold⟩
      · rcases hothers j hj z hz with hold | ⟨-, -, rfl⟩
        · exact .inr ⟨z, hold, hclosing⟩
        · exact absurd hclosing hmove.forked.2.2
    · rcases thread_enter hz with ⟨-, rfl⟩ | hold
      · exact hclosing.elim
      · exact .inr ⟨z, hold, hclosing⟩
  rcases hsplit with hl | ⟨x, hx, hold⟩
  · exact ended_of_close h.2 (h.1.1 hl) hs.current hl
  · exact (hs.ended j x hx hold).step h

theorem final_init : Final init where
  one := holds_init
  current := current_init
  ended := by
    rintro (_ | _ | i) x hx hclosing <;> cases hx <;> exact hclosing.elim

theorem Ended.act (hs : Ended s) (h : Step cfg s l t) : l.2 ≠ .open ∧ l.2 ≠ .attempt := by
  rcases h.cases with ⟨x, x', y, k, hx, hmove, -⟩ | ⟨x, -, ⟨ha, -⟩, -⟩
  · have hidle := (hs.idle _ _ hx).1
    exact ⟨fun ha => hidle (hmove.attempts_of_act (.inl ha)),
      fun ha => hidle (hmove.attempts_of_act (.inr ha))⟩
  · rw [ha]
    exact ⟨Act.noConfusion, Act.noConfusion⟩

theorem state_step (h : Step cfg s l t) (ha : l.2 ≠ .open) (hs : s.shared.state ≠ .open) :
    t.shared.state ≠ .open := by
  rcases h.cases with ⟨x, x', y, k, -, hmove, -⟩ | ⟨x, -, -, rfl⟩
  · exact hmove.state_eq ha hs
  · exact hs

/-- **`Close` is final if it comes in time.**  Once a call has returned nil, the `Conn` never becomes open
and no attempt to reconnect is started. -/
theorem close_is_final {as bs : List (Nat × Act)} {m : Nat}
    (h : Run (When CloseInTime (Step cfg)) init as s)
    (hnil : s.thread m = some (.close (.returned true)))
    (h' : Run (When CloseInTime (Step cfg)) s bs t) :
    (∀ l ∈ bs, l.2 ≠ .open ∧ l.2 ≠ .attempt) ∧ (s.shared.state ≠ .open → t.shared.state ≠ .open) := by
  have hfinal : Final s := h.invariant (I := Final) (fun _ _ _ hstep hs => hs.step hstep) final_init
  have hended : Ended s := hfinal.ended m _ hnil trivial
  refine ⟨?_, fun hstate => ?_⟩
  · exact h'.forall_labels (I := Ended) (P := fun _ => True) (fun _ _ => trivial)
      (fun _ _ _ _ hstep hs => ⟨hs.step hstep, hs.act hstep.2⟩) hended
  · have hboth : Ended t ∧ t.shared.state ≠ .open :=
      h'.invariant (I := fun s => Ended s ∧ s.shared.state ≠ .open)
        (fun _ _ _ hstep hs => ⟨hs.1.step hstep, state_step hstep.2 (hs.1.act hstep.2).1 hs.2⟩)
        ⟨hended, hstate⟩
    exact hboth.2

/-! ## 4. `Close` on an open `Conn`, and `Close` during an attempt -/

theorem closeInTime_of_ne {s : State} {l : Nat × Act} (hclose : l.2 ≠ .close) (htimer : l.2 ≠ .timer) :
    CloseInTime s l :=
  ⟨fun h => absurd h hclose, fun h => absurd h htimer⟩

theorem close_run : ∃ as bs s t, Run (When CloseInTime (Step reconnecting)) init as s ∧
    s.thread 2 = some (.close (.returned true)) ∧
    Run (When CloseInTime (Step reconnecting)) s bs t ∧ t.shared.state = .closed := by
  have hidle : Nobody Thread.Attempts
      (⟨init.shared, update init.thread 2 (some (.close .start))⟩ : State) := by
    rintro (_ | _ | _ | i) x hx <;> cases hx <;> exact id
  have htau : ∀ {s : State} {i : Nat}, CloseInTime s (i, .tau) :=
    closeInTime_of_ne Act.noConfusion Act.noConfusion
  exact ⟨[(2, .call), (2, .close), (2, .tau), (2, .tau), (2, .tau), (2, .tau)],
    [(0, .tau), (0, .tau), (0, .tau)], _, _,
    .consWhen (.enter rfl ⟨rfl, rfl⟩) (closeInTime_of_ne (by decide) (by decide)) <|
    .consWhen (.move rfl (.close (.close rfl))) ⟨fun _ => hidle, Act.noConfusion⟩ <|
    .consWhen (.move rfl (.close .writeDisconnect)) htau <|
    .consWhen (.move rfl (.close .writeClose)) htau <|
    .consWhen (.move rfl (.close .loadConn)) htau <|
    .consWhen (.move rfl (.close (.closeConn true))) htau .nil,
    rfl,
    .consWhen (.move rfl (.readLoop .load)) htau <|
    .consWhen (.move rfl (.readLoop .error)) htau <|
    .consWhen (.move rfl (.readLoop .cleanup)) htau .nil, rfl⟩

theorem close_is_final_up : ∃ as bs s t, Run (Step reconnecting) init as s ∧
    s.thread 2 = some (.close (.returned true)) ∧ Run (Step reconnecting) s bs t ∧
    t.shared.state = .closed ∧ ∀ l ∈ bs, l.2 ≠ .open ∧ l.2 ≠ .attempt := by
  obtain ⟨as, bs, s, t, h, hnil, h', hstate⟩ := close_run
  exact ⟨as, bs, s, t, h.unrestricted, hnil, h'.unrestricted, hstate, (close_is_final h hnil h').1⟩

/-- **`Close` comes between `s.conn.Store` and `resetConnectionState`.**  It closes the new connection and
returns nil; the handshake fails, but the channel that the loop then looks at is a new one, and the next
attempt succeeds. -/
theorem reopened_after_close : ∃ as bs s t, Run (Step reconnecting) init as s ∧
    s.thread 3 = some (.close (.returned true)) ∧ Run (Step reconnecting) s bs t ∧
    (2, .attempt) ∈ bs ∧ (2, .open) ∈ bs ∧ s.shared.state ≠ .open ∧ t.shared.state = .open := by
  exact ⟨[(0, .tau), (0, .tau), (0, .tau), (0, .tau), (0, .tau), (0, .tau), (0, .tau), (2, .tau),
      (2, .tau), (2, .tau), (2, .timer), (2, .attempt), (2, .dial true), (2, .store), (3, .call),
      (3, .close), (3, .tau), (3, .tau), (3, .tau), (3, .tau)],
    [(2, .tau), (2, .handshake false), (2, .tau), (2, .tau), (2, .tau), (2, .tau), (2, .tau),
      (2, .timer), (2, .attempt), (2, .dial true), (2, .store), (2, .tau), (2, .handshake true),
      (2, .open)], _, _,
    .cons (.move rfl (.readLoop .load)) <|
    .cons (.move rfl (.readLoop .error)) <|
    .cons (.move rfl (.readLoop .cleanup)) <|
    .cons (.move rfl (.readLoop .loadConn)) <|
    .cons (.move rfl (.readLoop .closeConn)) <|
    .cons (.move rfl (.readLoop .readSkip)) <|
    .cons (.fork 2 rfl (.readLoop .start) rfl) <|
    .cons (.move rfl (.reconnectLoop .check)) <|
    .cons (.move rfl (.reconnectLoop (.checkOpen rfl))) <|
    .cons (.move rfl (.reconnectLoop .sleep)) <|
    .cons (.move rfl (.reconnectLoop .timer)) <|
    .cons (.move rfl (.reconnectLoop .count)) <|
    .cons (.move rfl (.reconnectLoop .dialed)) <|
    .cons (.move rfl (.reconnectLoop .store)) <|
    .cons (.enter rfl ⟨rfl, rfl⟩) <|
    .cons (.move rfl (.close (.close rfl))) <|
    .cons (.move rfl (.close .writeDisconnect)) <|
    .cons (.move rfl (.close .writeClose)) <|
    .cons (.move rfl (.close .loadConn)) <|
    .cons (.move rfl (.close (.closeConn true))) .nil, rfl,
    .cons (.move rfl (.reconnectLoop .reset)) <|
    .cons (.move rfl (.reconnectLoop .handshakeFailed)) <|
    .cons (.move rfl (.reconnectLoop .closing)) <|
    .cons (.move rfl (.reconnectLoop .failing)) <|
    .cons (.move rfl (.reconnectLoop .check)) <|
    .cons (.move rfl (.reconnectLoop (.checkOpen rfl))) <|
    .cons (.move rfl (.reconnectLoop .sleep)) <|
    .cons (.move rfl (.reconnectLoop .timer)) <|
    .cons (.move rfl (.reconnectLoop .count)) <|
    .cons (.move rfl (.reconnectLoop .dialed)) <|
    .cons (.move rfl (.reconnectLoop .store)) <|
    .cons (.move rfl (.reconnectLoop .reset)) <|
    .cons (.move rfl (.reconnectLoop (.shaken rfl))) <|
    .cons (.move rfl (.reconnectLoop .opening)) .nil,
    by decide, by decide, by decide, rfl⟩

end AoniContrib.SocketIO.Threads
