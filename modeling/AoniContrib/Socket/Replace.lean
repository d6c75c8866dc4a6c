/-
# Automatic reconnection and a healthy connection

A reconnect loop installs its connection over whatever is current.  The read loop of a connection
that `Connect` has replaced fails like any other, and its deferred block starts a reconnect loop
although a newer connection is there: that loop then replaces the newer one (`healthy_replaced`).
So a `Connect` of the user, or of a loop the user asked for, has to wait until nothing automatic is
left: no read loop, and no automatic loop that has yet to install (`Alone`).  Then at most one
thread at a time leads to a connection (`OneSource`), and an automatic loop installs only where
nothing is current (`healthy_kept`).
-/
import AoniContrib.Socket.Ownership

namespace AoniContrib.Socket

open Concurrency
open Function (update_apply)

/-! ## 1. What leads to a connection -/

/-- A read loop that has not returned, and so may start a reconnect loop. -/
def ReaderPc.Live (pc : ReaderPc) : Prop := pc ≠ .absent ∧ pc ≠ .done

/-- An automatic loop that has yet to install a connection. -/
def State.Seeks (s : State) (l : LoopId) : Prop :=
  s.auto l = true ∧ (s.loop l = .top ∨ s.loop l = .sleeping ∨
    (s.loop l = .connecting ∧ s.connect (.loop l) ≠ .finish true ∧
      s.connect (.loop l) ≠ .returned true))

/-- At most one read loop or automatic loop leads to the next connection. -/
structure OneSource (s : State) : Prop where
  reader : ∀ c d, (s.reader c).Live → (s.reader d).Live → c = d
  loop : ∀ l k, s.Seeks l → s.Seeks k → l = k
  apart : ∀ c l, (s.reader c).Live → ¬ s.Seeks l

theorem oneSource_new : OneSource .new where
  reader _ _ h := absurd rfl h.1
  loop _ _ h := by cases h.1
  apart _ _ h := absurd rfl h.1

/-- No read loop is live and no automatic loop seeks a connection. -/
structure Alone (s : State) : Prop where
  reader : ∀ c, ¬ (s.reader c).Live
  loop : ∀ l, ¬ s.Seeks l

/-- A `Connect` of the user, or of a loop that the user started, installs its connection only where
nothing automatic is left. -/
def Orderly (s : State) : Event → Prop
  | .install (.user _) _ => Alone s
  | .install (.loop l) _ => s.auto l = true ∨ Alone s
  | _ => True

section
variable {s : State} {w : Caller} {c : ConnId}

theorem seeks_of_dialed {l : LoopId} (hw : WellFormed s) (hauto : s.auto l = true)
    (hc : s.connect (.loop l) = .dialed c) : s.Seeks l := by
  have hl : s.loop l = .connecting := by
    by_contra hne
    simp [hw.waiting l hne] at hc
  exact ⟨hauto, .inr (.inr ⟨hl, by simp [hc], by simp [hc]⟩)⟩

section
variable (hw : WellFormed s) (hs : OneSource s) (hc : s.connect w = .dialed c)
  (ho : Orderly s (.install w c))
include hc ho hs hw

theorem no_reader_of_install (d : ConnId) : ¬ (s.reader d).Live := by
  cases w with
  | user i => exact ho.reader d
  | loop l =>
    rcases ho with hauto | halone
    · exact fun hd => hs.apart d l hd (seeks_of_dialed hw hauto hc)
    · exact halone.reader d

theorem seeker_of_install {l : LoopId} (hl : s.Seeks l) : w = .loop l := by
  cases w with
  | user i => exact absurd hl (ho.loop l)
  | loop k =>
    rcases ho with hauto | halone
    · rw [hs.loop l k hl (seeks_of_dialed hw hauto hc)]
    · exact absurd hl (halone.loop l)

end

end

section
variable {m : Nat} {s t : State} {a : Event}

theorem reader_source_step (h : Step m s a t) (ho : Orderly s a) (hw : WellFormed s)
    (hs : OneSource s) : ∀ c d, (t.reader c).Live → (t.reader d).Live → c = d := by
  cases h with
  | @install w c hc =>
    have hnone := no_reader_of_install hw hs hc ho
    simp only [State.install, update_apply]
    grind
  | _ =>
    have hreader := hs.reader
    simp only [ReaderPc.Live, State.cancelReconnect, State.startLoop, update_apply] at *
    grind

theorem loop_source_step (h : Step m s a t) (hw : WellFormed s) (hs : OneSource s) :
    ∀ l k, t.Seeks l → t.Seeks k → l = k := by
  have hwaiting := hw.waiting
  obtain ⟨-, hloop, hapart⟩ := hs
  clear hw
  cases h
  all_goals
    simp only [ReaderPc.Live, State.Seeks, State.install, State.cancelReconnect, State.startLoop,
      update_apply] at *
    grind

theorem apart_source_step (h : Step m s a t) (ho : Orderly s a) (hw : WellFormed s)
    (hs : OneSource s) : ∀ c l, (t.reader c).Live → ¬ t.Seeks l := by
  have hwaiting := hw.waiting
  cases h with
  | @install w c hc =>
    rintro d l - ⟨hauto, hl⟩
    have hseeks : s.Seeks l ∧ w ≠ .loop l := by
      simp only [State.Seeks, State.install, update_apply] at *
      grind
    exact hseeks.2 (seeker_of_install hw hs hc ho hseeks.1)
  | _ =>
    obtain ⟨hreader, hloop, hapart⟩ := hs
    clear hw
    simp only [ReaderPc.Live, State.Seeks, State.cancelReconnect, State.startLoop, update_apply] at *
    grind

end

theorem oneSource_of_orderly {m : Nat} {s : State} {as : List Event}
    (h : Run (When Orderly (Step m)) .new as s) : WellFormed s ∧ OneSource s := by
  refine h.invariant (I := fun s => WellFormed s ∧ OneSource s) ?_ ⟨wellFormed_new, oneSource_new⟩
  rintro s a t ⟨ho, h⟩ ⟨hw, hs⟩
  exact ⟨wellFormed_step h hw, reader_source_step h ho hw hs, loop_source_step h hw hs,
    apart_source_step h ho hw hs⟩

/-! ## 2. A healthy connection -/

/-- A step of a reconnect loop that a read loop started. -/
def Event.Automatic (s : State) : Event → Prop
  | .inLoop l | .inConnect (.loop l) | .dial (.loop l) | .install (.loop l) _ => s.auto l = true
  | _ => False

/-- **When a connection is not replaced automatically.**  In an orderly run no automatic loop
closes the current connection or installs another in its place. -/
theorem healthy_kept {m : Nat} {s t : State} {a : Event} {as : List Event} {c : ConnId}
    (hrun : Run (When Orderly (Step m)) .new as s) (hc : s.conn = some c) (h : Step m s a t)
    (ha : a.Automatic s) : t.conn = some c ∧ t.shut c = s.shut c := by
  obtain ⟨hw, hs⟩ := oneSource_of_orderly hrun
  have hlive : (s.reader c).Live := by
    have hrecv := Reachable.owned ⟨as, hrun.unrestricted⟩ |>.received c hc
    rcases hrecv with h | h | h | h <;> simp [ReaderPc.Live, h]
  cases h with
  | @install w d hd =>
    cases w with
    | user i => exact ha.elim
    | loop l => exact absurd (seeks_of_dialed hw ha hd) (hs.apart c l hlive)
  | _ => first | exact ⟨hc, rfl⟩ | exact ha.elim

/-- The connection drops and an automatic loop connects again: the loop's own last steps leave the
connection it installed alone. -/
theorem healthy_kept_after_reconnect :
    ∃ s t as, Run (When Orderly (Step 0)) .new as s ∧ s.conn = some 1 ∧
      Step 0 s (.inConnect (.loop 0)) t ∧ t.conn = some 1 ∧ t.shut 1 = s.shut 1 := by
  obtain ⟨s, t, as, hrun, hconn, hauto, hstep⟩ : ∃ s t as, Run (When Orderly (Step 0)) .new as s ∧
      s.conn = some 1 ∧ s.auto 0 = true ∧ Step 0 s (.inConnect (.loop 0)) t := by
    refine ⟨_, _, _, .consWhen (.connectStart (i := 0) rfl) trivial <|
      .consWhen (.entryUser (i := 0) rfl rfl) trivial <| .consWhen (.cancel (i := 0) rfl) trivial <|
      .consWhen (.swap (w := .user 0) rfl rfl) trivial <| .consWhen (.dial (w := .user 0) rfl) trivial <|
      .consWhen (.dialOk (w := .user 0) rfl) trivial <|
      .consWhen (.install (w := .user 0) (c := 0) rfl) ⟨fun c h => h.1 rfl, fun l h => by cases h.1⟩ <|
      .consWhen (.finish (w := .user 0) rfl) trivial <| .consWhen (.readerTop (c := 0) rfl rfl) trivial <|
      .consWhen (.receiveErr (c := 0) rfl) trivial <| .consWhen (.leaveSame (c := 0) rfl rfl) trivial <|
      .consWhen (.readerClose (c := 0) rfl) trivial <| .consWhen (.checkOpen (c := 0) rfl rfl) trivial <|
      .consWhen (.readerTrigger (c := 0) rfl (State.not_refuses rfl rfl)) trivial <|
      .consWhen (.loopConnect (l := 0) rfl (State.not_loopDone rfl rfl) nofun) trivial <|
      .consWhen (.entryLoop (l := 0) rfl rfl) trivial <|
      .consWhen (.swap (w := .loop 0) rfl rfl) trivial <| .consWhen (.dial (w := .loop 0) rfl) trivial <|
      .consWhen (.dialOk (w := .loop 0) rfl) trivial <|
      .consWhen (.install (w := .loop 0) (c := 1) rfl) (.inl rfl) .nil, rfl, rfl,
      .finish (w := .loop 0) rfl⟩
  exact ⟨s, t, as, hrun, hconn, hstep, healthy_kept hrun hconn hstep hauto⟩

/-- The user connects twice.  The read loop of the first connection starts a reconnect loop, which
closes the second one, whose `Receive` has not failed, and installs a third. -/
theorem healthy_replaced :
    ∃ s t, Reachable 0 s ∧ s.conn = some 1 ∧ s.failed 1 = false ∧ s.shut 1 = false ∧
      Step 0 s (.install (.loop 0) 2) t ∧ (Event.install (.loop 0) 2).Automatic s ∧
      t.conn = some 2 ∧ t.shut 1 = true :=
  ⟨_, _, (reachable_connected 0).trans <| .cons (.connectStart (i := 1) rfl) <|
    .cons (.entryUser (i := 1) rfl rfl) <| .cons (.cancel (i := 1) rfl) <|
    .cons (.swap (w := .user 1) rfl rfl) <| .cons (.dial (w := .user 1) rfl) <|
    .cons (.dialOk (w := .user 1) rfl) <| .cons (.install (w := .user 1) (c := 1) rfl) <|
    .cons (.finish (w := .user 1) rfl) <| .cons (.readerTop (c := 0) rfl rfl) <|
    .cons (.receiveErr (c := 0) rfl) <| .cons (.leaveOther (c := 0) rfl nofun) <|
    .cons (.checkOpen (c := 0) rfl rfl) <|
    .cons (.readerTrigger (c := 0) rfl (State.not_refuses rfl rfl)) <|
    .cons (.loopConnect (l := 0) rfl (State.not_loopDone rfl rfl) nofun) <|
    .cons (.entryLoop (l := 0) rfl rfl) <| .cons (.swap (w := .loop 0) rfl rfl) <|
    .cons (.dial (w := .loop 0) rfl) <| .cons (.dialOk (w := .loop 0) rfl) .nil,
    rfl, rfl, rfl, .install (w := .loop 0) (c := 2) rfl, rfl, rfl, rfl⟩

end AoniContrib.Socket
