/-
# No reconnect is lost

A reconnect loop that has connected clears `reconnectCancel` only when it returns.  Until then
`triggerReconnect` refuses, so a connection that drops in between is not replaced
(`reconnect_lost`).  And what a returning loop clears is whatever `reconnectCancel` holds by then,
the cancel function of a newer loop included.  Both need a read loop that triggers while a reconnect
loop is still live.  Where that does not happen (`Drained`), a dropped connection is always being
replaced (`reconnect_kept`).
-/
import AoniContrib.Socket.Ownership

namespace AoniContrib.Socket

open Concurrency
open Function (update_apply)

/-! ## 1. Runs after one `Connect` -/

def Event.ByUser : Event → Prop
  | .connect _ | .call _ _ => True
  | _ => False

/-- No `Disconnect`, `Close` or `TriggerReconnect` has a step to make. -/
def CallsIdle (s : State) : Prop := ∀ i, s.call i = .idle ∨ ∃ k, s.call i = .returned k

structure UserIdle (s : State) : Prop where
  connect : ∀ i, s.connect (.user i) = .idle ∨ ∃ ok, s.connect (.user i) = .returned ok
  calls : CallsIdle s

/-- A read loop triggers a reconnect only when no reconnect loop is live. -/
def Drained (s : State) : Event → Prop
  | .trigger _ => ∀ l, ¬ (s.loop l).Live
  | _ => True

/-- The read loop of the connection installed last has not returned. -/
def State.Read (s : State) : Prop :=
  ∃ c, s.last = some c ∧ s.reader c ≠ .absent ∧ s.reader c ≠ .done

/-- The last connection is read, or it is being replaced. -/
def Tended (s : State) : Prop := s.Read ∨ ∃ l, (s.loop l).Live ∧ ¬ s.LoopDone l

/-- `Connect` behind its check of `closed`, unless it has failed. -/
def ConnectPc.Open (pc : ConnectPc) : Prop :=
  pc ≠ .idle ∧ pc ≠ .entry ∧ pc ≠ .finish false ∧ pc ≠ .returned false

def State.Connected (s : State) (l : LoopId) : Prop :=
  s.loop l = .exit ∨ s.connect (.loop l) = .finish true ∨ s.connect (.loop l) = .returned true

/-- What the steps keep from the start of `Connect` on, call `i` of the user. -/
structure Tending (i : CallId) (s : State) : Prop where
  calls : CallsIdle s
  others : ∀ j, j ≠ i → s.connect (.user j) = .idle ∨ ∃ ok, s.connect (.user j) = .returned ok
  /-- The call has passed `closed`, so the connector is open. -/
  opened : (s.connect (.user i)).Open → s.closed = false ∧ s.ctxDone = false
  /-- A loop that is not cancelled is the only one, once the call has cancelled what was there. -/
  only : (s.connect (.user i)).Open → s.connect (.user i) ≠ .cancel →
    ∀ l k, (s.loop l).Live → s.cancelled l = false → (s.loop k).Live → l = k
  /-- What such a loop has installed is read. -/
  installed : (s.connect (.user i)).Open → s.connect (.user i) ≠ .cancel →
    ∀ l, (s.loop l).Live → s.cancelled l = false → s.Connected l → s.Read
  tended : s.connect (.user i) = .finish true ∨ s.connect (.user i) = .returned true →
    s.Read ∨ ∃ l, (s.loop l).Live ∧ s.cancelled l = false

section
variable {s t : State} {a : Event} {i : CallId}

section
variable (ha : ¬ a.ByUser) (h : Step 0 s a t) (hs : Tending i s)
include h ha hs

theorem tending_calls_step : CallsIdle t := by
  have hcalls := hs.calls
  clear hs
  cases h
  all_goals
    simp only [CallsIdle, State.install, State.cancelReconnect, State.startLoop, update_apply] at *
    grind [Event.ByUser]

theorem tending_others_step :
    ∀ j, j ≠ i → t.connect (.user j) = .idle ∨ ∃ ok, t.connect (.user j) = .returned ok := by
  have hothers := hs.others
  clear hs
  cases h
  all_goals
    simp only [State.cancelReconnect, State.startLoop, update_apply] at *
    grind [Event.ByUser]

theorem tending_opened_step
    (hctx : s.ctxDone = true → s.closed = true) :
    (t.connect (.user i)).Open → t.closed = false ∧ t.ctxDone = false := by
  obtain ⟨hcalls, -, hopened, -, -, -⟩ := hs
  cases h
  all_goals
    simp only [CallsIdle, ConnectPc.Open, State.install, State.cancelReconnect, State.startLoop,
      update_apply] at *
    grind [Event.ByUser]

end

theorem tending_only_step (ha : ¬ a.ByUser) (hd : Drained s a) (h : Step 0 s a t) (hw : WellFormed s)
    (hs : Tending i s) : (t.connect (.user i)).Open → t.connect (.user i) ≠ .cancel →
    ∀ l k, (t.loop l).Live → t.cancelled l = false → (t.loop k).Live → l = k := by
  obtain ⟨hcalls, -, -, honly, -, -⟩ := hs
  have hcurrent := hw.current
  clear hw
  cases h
  all_goals
    simp only [Drained, CallsIdle, ConnectPc.Open, LoopPc.Live, State.install, State.cancelReconnect,
      State.startLoop, update_apply] at *
    grind [Event.ByUser]

theorem read_step (h : Step 0 s a t) (ha : ∀ c, a ≠ .trigger c) (hopen : s.closed = false)
    (hs : s.Read) : t.Read := by
  obtain ⟨c, hlast, hreader⟩ := hs
  cases h with
  | install => exact ⟨_, rfl, by simp [State.install]⟩
  | _ =>
    refine ⟨c, hlast, ?_⟩
    simp only [State.cancelReconnect, State.startLoop, update_apply] at *
    grind

theorem loop_kept_step (ha : ¬ a.ByUser) (h : Step 0 s a t) (hs : Tending i s)
    (hopen : (s.connect (.user i)).Open) (hcancel : s.connect (.user i) ≠ .cancel) {l : LoopId}
    (hl : (s.loop l).Live ∧ s.cancelled l = false) :
    ((t.loop l).Live ∧ t.cancelled l = false) ∨ s.loop l = .exit := by
  have honly := hs.only hopen hcancel
  obtain ⟨hcalls, hothers, -, -, -, -⟩ := hs
  cases h
  all_goals
    simp only [CallsIdle, LoopPc.Live, State.install, State.cancelReconnect, State.startLoop,
      update_apply] at *
    grind [Event.ByUser]

theorem connected_step (h : Step 0 s a t) {l : LoopId} (hl : t.Connected l)
    (hctx : s.ctxDone = false) : s.Connected l ∨ t.Read ∨ t.cancelled l = true := by
  cases h with
  | install => exact .inr (.inl ⟨_, rfl, by simp [State.install]⟩)
  | _ =>
    simp only [State.Connected, State.LoopDone, State.cancelReconnect, State.startLoop,
      update_apply] at *
    grind

theorem cancelled_step {l : LoopId} (h : Step 0 s a t) (hl : s.cancelled l = true) :
    t.cancelled l = true := by
  cases h <;> simp [State.install, State.cancelReconnect, State.startLoop, hl]

theorem live_of_connected {l : LoopId} (hw : WellFormed s) (hl : s.Connected l) : (s.loop l).Live := by
  have hwaiting := hw.waiting l
  simp only [State.Connected, LoopPc.Live] at *
  grind

theorem past_cancel_of_step (ha : ¬ a.ByUser) (h : Step 0 s a t) (hw : WellFormed s)
    (hopen : (t.connect (.user i)).Open) (hcancel : t.connect (.user i) ≠ .cancel) :
    ((s.connect (.user i)).Open ∧ s.connect (.user i) ≠ .cancel) ∨
      ∀ l, (t.loop l).Live → t.cancelled l = true := by
  have hcurrent := hw.current
  clear hw
  cases h
  all_goals
    simp only [ConnectPc.Open, LoopPc.Live, State.install, State.cancelReconnect, State.startLoop,
      update_apply] at *
    grind [Event.ByUser]

theorem tending_installed_step (ha : ¬ a.ByUser) (hd : Drained s a) (h : Step 0 s a t)
    (hw : WellFormed s) (hs : Tending i s) (hopen : (t.connect (.user i)).Open)
    (hcancel : t.connect (.user i) ≠ .cancel) (l : LoopId) (hlive : (t.loop l).Live)
    (hl : t.cancelled l = false) (hconn : t.Connected l) : t.Read := by
  rcases past_cancel_of_step ha h hw hopen hcancel with ⟨hopen', hcancel'⟩ | hall
  · obtain ⟨hclosed, hctx⟩ := hs.opened hopen'
    rcases connected_step h hconn hctx with hconn' | hread | hl'
    · have hlive' := live_of_connected hw hconn'
      have huncancelled : s.cancelled l = false := by
        by_contra hne
        simp [cancelled_step h (by simpa using hne)] at hl
      refine read_step h ?_ hclosed (hs.installed hopen' hcancel' l hlive' huncancelled hconn')
      rintro c rfl
      exact hd l hlive'
    · exact hread
    · simp [hl'] at hl
  · simp [hall l hlive] at hl

theorem finished_of_step (ha : ¬ a.ByUser) (h : Step 0 s a t)
    (ht : t.connect (.user i) = .finish true ∨ t.connect (.user i) = .returned true) :
    (s.connect (.user i) = .finish true ∨ s.connect (.user i) = .returned true) ∨ t.Read := by
  cases h with
  | install => exact .inr ⟨_, rfl, by simp [State.install]⟩
  | _ =>
    left
    simp only [State.cancelReconnect, State.startLoop, update_apply] at *
    grind [Event.ByUser]

theorem tended_trigger_step {c : ConnId} (hd : Drained s (.trigger c)) (h : Step 0 s (.trigger c) t)
    (hw : WellFormed s) (hopen : s.closed = false) :
    t.Read ∨ ∃ l, (t.loop l).Live ∧ t.cancelled l = false := by
  cases h with
  | readerRefused _ hrefuses =>
    -- the loop that `reconnectCancel` belongs to would be live
    rcases hrefuses with hcur | hclosed
    · obtain ⟨l, hl⟩ := Option.ne_none_iff_exists'.mp hcur
      exact absurd ((hw.current l).mp hl).1 (hd l)
    · simp [hopen] at hclosed
  | readerTrigger =>
    exact .inr ⟨s.loops, by simp [State.startLoop, LoopPc.Live], (hw.fresh_loop _ le_rfl).2.1⟩

theorem tending_tended_step (ha : ¬ a.ByUser) (hd : Drained s a) (h : Step 0 s a t)
    (hw : WellFormed s) (hs : Tending i s)
    (ht : t.connect (.user i) = .finish true ∨ t.connect (.user i) = .returned true) :
    t.Read ∨ ∃ l, (t.loop l).Live ∧ t.cancelled l = false := by
  rcases finished_of_step ha h ht with hfin | hread
  · have hopen : (s.connect (.user i)).Open := by rcases hfin with h | h <;> simp [h, ConnectPc.Open]
    have hcancel : s.connect (.user i) ≠ .cancel := by rcases hfin with h | h <;> simp [h]
    have hclosed := (hs.opened hopen).1
    by_cases htrig : ∃ c, a = .trigger c
    · obtain ⟨c, rfl⟩ := htrig
      exact tended_trigger_step hd h hw hclosed
    · have hne : ∀ c, a ≠ .trigger c := fun c hc => htrig ⟨c, hc⟩
      rcases hs.tended hfin with hread | ⟨l, hl⟩
      · exact .inl (read_step h hne hclosed hread)
      · rcases loop_kept_step ha h hs hopen hcancel hl with hkept | hexit
        · exact .inr ⟨l, hkept⟩
        · exact .inl (read_step h hne hclosed (hs.installed hopen hcancel l hl.1 hl.2 (.inl hexit)))
  · exact .inl hread

theorem tending_step (ha : ¬ a.ByUser) (hd : Drained s a) (h : Step 0 s a t) (hr : Reachable 0 s)
    (hs : Tending i s) : Tending i t where
  calls := tending_calls_step ha h hs
  others := tending_others_step ha h hs
  opened := tending_opened_step ha h hs hr.closedBehind.ctx
  only := tending_only_step ha hd h hr.wellFormed hs
  installed := tending_installed_step ha hd h hr.wellFormed hs
  tended := tending_tended_step ha hd h hr.wellFormed hs

theorem tending_start (hidle : UserIdle s) (h : Step 0 s (.connect i) t) : Tending i t := by
  obtain ⟨hconnect, hcalls⟩ := hidle
  cases h with
  | connectStart hi =>
    refine ⟨hcalls, fun j hj => ?_, ?_, ?_, ?_, ?_⟩
    · simpa [hj] using hconnect j
    all_goals simp [ConnectPc.Open]

end

/-! ## 2. The dropped connection is replaced -/

/-- **When no reconnect is lost.**  Without a limit on the attempts: the user calls `Connect` while
no other call is pending, and calls nothing afterwards.  If read loops trigger only when no
reconnect loop is live, then from the success of the call on the last connection is read or being
replaced. -/
theorem reconnect_kept {s s' t : State} {i : CallId} {as : List Event} (h : Reachable 0 s)
    (hidle : UserIdle s) (hcall : Step 0 s (.connect i) s')
    (hrun : Run (When Drained (Step 0)) s' as t) (has : ∀ a ∈ as, ¬ a.ByUser)
    (hok : t.connect (.user i) = .returned true) : Tended t := by
  have hinv : Reachable 0 t ∧ Tending i t := by
    refine hrun.invariant_of_labels (I := fun t => Reachable 0 t ∧ Tending i t) has ?_
      ⟨h.step hcall, tending_start hidle hcall⟩
    rintro s a t ha ⟨hd, hstep⟩ ⟨hr, hs⟩
    exact ⟨hr.step hstep, tending_step ha hd hstep hr hs⟩
  rcases hinv.2.tended (.inr hok) with hread | ⟨l, hlive, hl⟩
  · exact .inl hread
  · have hopen := hinv.2.opened (by simp [hok, ConnectPc.Open])
    exact .inr ⟨l, hlive, State.not_loopDone hl hopen.2⟩

theorem reconnect_kept_after_drop :
    ∃ s' t as, Step 0 .new (.connect 0) s' ∧ Run (When Drained (Step 0)) s' as t ∧
      t.conn = none ∧ t.reader 0 = .done ∧ Tended t := by
  obtain ⟨s', t, as, hcall, hrun, has, hok, hconn, hreader⟩ : ∃ s' t as,
      Step 0 .new (.connect 0) s' ∧ Run (When Drained (Step 0)) s' as t ∧
      (∀ a ∈ as, ¬ a.ByUser) ∧ t.connect (.user 0) = .returned true ∧ t.conn = none ∧
      t.reader 0 = .done :=
    ⟨_, _, _, .connectStart rfl, .consWhen (.entryUser (i := 0) rfl rfl) trivial <|
      .consWhen (.cancel (i := 0) rfl) trivial <| .consWhen (.swap (w := .user 0) rfl rfl) trivial <|
      .consWhen (.dial (w := .user 0) rfl) trivial <|
      .consWhen (.dialOk (w := .user 0) rfl) trivial <|
      .consWhen (.install (w := .user 0) (c := 0) rfl) trivial <|
      .consWhen (.finish (w := .user 0) rfl) trivial <|
      .consWhen (.readerTop (c := 0) rfl rfl) trivial <|
      .consWhen (.receiveErr (c := 0) rfl) trivial <|
      .consWhen (.leaveSame (c := 0) rfl rfl) trivial <|
      .consWhen (.readerClose (c := 0) rfl) trivial <|
      .consWhen (.checkOpen (c := 0) rfl rfl) trivial <|
      .consWhen (.readerTrigger (c := 0) rfl (State.not_refuses rfl rfl)) (fun l h => h.1 rfl) .nil,
      by simp [Event.ByUser], rfl, rfl, rfl⟩
  exact ⟨s', t, as, hcall, hrun, hconn, hreader,
    reconnect_kept ⟨_, .nil⟩ ⟨fun _ => .inl rfl, fun _ => .inl rfl⟩ hcall hrun has hok⟩

/-- The connection drops and a reconnect loop connects again.  The new connection drops before the
loop has returned, so that its read loop is refused; then the loop returns. -/
theorem reconnect_lost : ∃ as t, Run (Step 0) .new (.connect 0 :: as) t ∧ (∀ a ∈ as, ¬ a.ByUser) ∧
      t.connect (.user 0) = .returned true ∧ ¬ Tended t := by
  refine ⟨_, _, .cons (.connectStart rfl) <| .cons (.entryUser (i := 0) rfl rfl) <|
    .cons (.cancel (i := 0) rfl) <| .cons (.swap (w := .user 0) rfl rfl) <|
    .cons (.dial (w := .user 0) rfl) <| .cons (.dialOk (w := .user 0) rfl) <|
    .cons (.install (w := .user 0) (c := 0) rfl) <| .cons (.finish (w := .user 0) rfl) <|
    .cons (.readerTop (c := 0) rfl rfl) <| .cons (.receiveErr (c := 0) rfl) <|
    .cons (.leaveSame (c := 0) rfl rfl) <| .cons (.readerClose (c := 0) rfl) <|
    .cons (.checkOpen (c := 0) rfl rfl) <|
    .cons (.readerTrigger (c := 0) rfl (State.not_refuses rfl rfl)) <|
    .cons (.loopConnect (l := 0) rfl (State.not_loopDone rfl rfl) nofun) <|
    .cons (.entryLoop (l := 0) rfl rfl) <| .cons (.swap (w := .loop 0) rfl rfl) <|
    .cons (.dial (w := .loop 0) rfl) <| .cons (.dialOk (w := .loop 0) rfl) <|
    .cons (.install (w := .loop 0) (c := 1) rfl) <| .cons (.finish (w := .loop 0) rfl) <|
    .cons (.readerTop (c := 1) rfl rfl) <| .cons (.receiveErr (c := 1) rfl) <|
    .cons (.leaveSame (c := 1) rfl rfl) <| .cons (.readerClose (c := 1) rfl) <|
    .cons (.checkOpen (c := 1) rfl rfl) <| .cons (.readerRefused (c := 1) rfl (.inl nofun)) <|
    .cons (.loopConnected (l := 0) rfl rfl) <| .cons (.loopExit (l := 0) rfl) .nil,
    by simp [Event.ByUser], rfl, ?_⟩
  rintro (⟨c, hlast, hc⟩ | ⟨l, hlive, hl⟩)
  · obtain rfl : 1 = c := Option.some.inj hlast
    exact hc.2 rfl
  · simp only [LoopPc.Live, State.new, State.install, State.cancelReconnect, State.startLoop,
      update_apply] at hlive
    grind

end AoniContrib.Socket
