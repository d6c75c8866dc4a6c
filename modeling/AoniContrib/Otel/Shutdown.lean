/-
# Several calls of `Shutdown`: `otel/exporter.go`

`Shutdown` looks whether `done` is closed, and closes it in a step of its own; a call that finds it
closed returns at once.  So of two calls that overlap, both may find `done` open, and the second
`close` panics; or the second returns before the worker has flushed (`overlapping_shutdown_unsafe`).
Calls that do not overlap are safe: `done` is closed once, and no call returns before everything that
was queued when the first one began has been sent (`shutdown_safe`).

The worker and the calls of `Export` make the steps of `ExporterStep`; here `Export` may be called at
any time, also during and after `Shutdown`.
-/
import AoniContrib.Otel.Exporter

namespace AoniContrib.Otel

open Concurrency List
open Function (update update_self update_of_ne)

/-! ## 1. The calls -/

inductive CallPc where
  | idle
  /-- Before the `select`. -/
  | called
  /-- In its default case, before `close`. -/
  | closing
  /-- In `wg.Wait`. -/
  | waiting
  | returned
  | panicked
  deriving DecidableEq, Repr

def CallPc.inProgress (pc : CallPc) : Bool := pc = .called ∨ pc = .closing ∨ pc = .waiting

variable {α : Type} {n m : Nat}

/-- `n` calls of `Shutdown` on an exporter that has `m` calls of `Export`; `done` is closed if
`exporter.shutdown` is `waiting`. -/
structure ShutdownState (n m : Nat) (α : Type) where
  exporter : ExporterState m α
  call : Fin n → CallPc := fun _ => .idle
  /-- How often `close` was called. -/
  closes : Nat := 0
  /-- What had been queued when the first call began. -/
  begun : Option (List α) := none

inductive ShutdownEvent (n m : Nat) where
  | exporter (e : ExporterEvent m)
  | begin (i : Fin n)
  | call (i : Fin n)
  deriving DecidableEq, Repr

inductive ShutdownStep (size : Nat) :
    ShutdownState n m α → ShutdownEvent n m → ShutdownState n m α → Prop where
  | exporter {s e t} : e ≠ .shutdown → ExporterStep size s.exporter e t →
      ShutdownStep size s (.exporter e) { s with exporter := t }
  | begin {s i} : s.call i = .idle →
      ShutdownStep size s (.begin i) { s with
          call := update s.call i .called
          begun := s.begun <|> some s.exporter.enqueued }
  | closed {s i} : s.call i = .called → s.exporter.shutdown = .waiting →
      ShutdownStep size s (.call i) { s with call := update s.call i .returned }
  | default {s i} : s.call i = .called → s.exporter.shutdown = .idle →
      ShutdownStep size s (.call i) { s with call := update s.call i .closing }
  | close {s i} : s.call i = .closing → s.exporter.shutdown = .idle →
      ShutdownStep size s (.call i) { s with
          exporter := { s.exporter with shutdown := .waiting }
          call := update s.call i .waiting
          closes := s.closes + 1 }
  | panic {s i} : s.call i = .closing → s.exporter.shutdown = .waiting →
      ShutdownStep size s (.call i) { s with call := update s.call i .panicked, closes := s.closes + 1 }
  | wait {s i} : s.call i = .waiting → s.exporter.worker = .returned →
      ShutdownStep size s (.call i) { s with call := update s.call i .returned }

/-- No call panics, `done` is closed at most once, and when a call has returned it was closed and
everything that had been queued when the first call began was sent. -/
structure SafeShutdown (s : ShutdownState n m α) : Prop where
  noPanic : ∀ i, s.call i ≠ .panicked
  once : s.closes ≤ 1
  flushed : ∀ i, s.call i = .returned →
    s.closes = 1 ∧ ∃ queued, s.begun = some queued ∧ queued <+: s.exporter.sent.flatten

/-- A call begins when no other is in progress. -/
def NoOverlap (s : ShutdownState n m α) : ShutdownEvent n m → Prop
  | .begin _ => ∀ j, (s.call j).inProgress = false
  | .exporter _ | .call _ => True

/-! ## 2. The worker -/

section
variable {size : Nat}

variable {s : ExporterState m α}

theorem order_flush
    (h : s.sent.flatten ++ s.batch ++ s.queue = s.enqueued) :
    s.flush.sent.flatten ++ s.flush.batch ++ s.flush.queue = s.flush.enqueued := by
  unfold ExporterState.flush
  split_ifs with hempty
  · exact h
  · simpa using h

theorem order_collect {x : α} {rest : List α}
    (h : s.sent.flatten ++ s.batch ++ s.queue = s.enqueued) (hqueue : s.queue = x :: rest) :
    (s.collect size x rest).sent.flatten ++ (s.collect size x rest).batch ++
      (s.collect size x rest).queue = (s.collect size x rest).enqueued := by
  rw [hqueue] at h
  unfold ExporterState.collect
  split_ifs
  · simpa using h
  · simpa using h

theorem flush_frame (s : ExporterState m α) :
    s.flush.shutdown = s.shutdown ∧ s.flush.enqueued = s.enqueued ∧ s.flush.worker = s.worker := by
  unfold ExporterState.flush
  split_ifs <;> exact ⟨rfl, rfl, rfl⟩

theorem collect_frame (size : Nat) (s : ExporterState m α) (x : α) (rest : List α) :
    (s.collect size x rest).shutdown = s.shutdown ∧ (s.collect size x rest).enqueued = s.enqueued ∧
      (s.collect size x rest).worker = s.worker := by
  unfold ExporterState.collect
  split_ifs <;> exact ⟨rfl, rfl, rfl⟩

/-- What the worker does about `done`. -/
inductive WorkerMove (s t : ExporterState m α) : Prop where
  | stays : t.worker = s.worker → (s.worker = .returned → t.sent = s.sent) → WorkerMove s t
  | drains : s.worker = .running → s.shutdown = .waiting → t.worker = .draining → WorkerMove s t
  | returns : s.worker = .draining → t.worker = .returned → t.queue = [] → t.batch = [] →
      WorkerMove s t

theorem exporterStep_spec {t : ExporterState m α} {e : ExporterEvent m}
    (h : ExporterStep size s e t) (he : e ≠ .shutdown)
    (horder : s.sent.flatten ++ s.batch ++ s.queue = s.enqueued) :
    t.sent.flatten ++ t.batch ++ t.queue = t.enqueued ∧ t.shutdown = s.shutdown ∧
      s.enqueued <+: t.enqueued ∧ WorkerMove s t := by
  -- a snapshot that is taken out: the worker goes on as before
  have hcollect : ∀ {x : α} {rest : List α}, s.queue = x :: rest → s.worker ≠ .returned →
      (s.collect size x rest).sent.flatten ++ (s.collect size x rest).batch ++
          (s.collect size x rest).queue = (s.collect size x rest).enqueued ∧
        (s.collect size x rest).shutdown = s.shutdown ∧
        s.enqueued <+: (s.collect size x rest).enqueued ∧ WorkerMove s (s.collect size x rest) := by
    intro x rest hqueue hpc
    obtain ⟨hshutdown, henqueued, hworker⟩ := collect_frame size s x rest
    refine ⟨order_collect horder hqueue, hshutdown, ?_, .stays hworker fun h => absurd h hpc⟩
    rw [henqueued]
  cases h with
  | enqueue hj hroom =>
    exact ⟨by simp [← horder], rfl, prefix_append _ _, .stays rfl fun _ => rfl⟩
  | drop hj hroom => exact ⟨horder, rfl, prefix_rfl, .stays rfl fun _ => rfl⟩
  | receive hpc hqueue | drain hpc hqueue => exact hcollect hqueue (by rw [hpc]; decide)
  | tick hpc =>
    obtain ⟨hshutdown, henqueued, hworker⟩ := flush_frame s
    refine ⟨order_flush horder, hshutdown, by rw [henqueued], .stays hworker fun h => ?_⟩
    rw [hpc] at h
    cases h
  | done hpc hwaiting => exact ⟨horder, rfl, prefix_rfl, .drains hpc hwaiting rfl⟩
  | finish hpc hqueue =>
    obtain ⟨hshutdown, henqueued, -⟩ := flush_frame s
    refine ⟨order_flush horder, hshutdown, ?_, .returns hpc rfl ?_ (batch_flush s)⟩
    · exact henqueued ▸ prefix_rfl
    · exact (queue_flush s).trans hqueue
  | close hidle htodo | wait hwaiting hpc => exact absurd rfl he

end

/-! ## 3. Calls that do not overlap -/

structure Alone (s : ShutdownState n m α) : Prop where
  order : s.exporter.sent.flatten ++ s.exporter.batch ++ s.exporter.queue = s.exporter.enqueued
  single : ∀ i j, (s.call i).inProgress = true → (s.call j).inProgress = true → i = j
  noPanic : ∀ i, s.call i ≠ .panicked
  /-- `done` is open: nobody has closed it, and the worker runs. -/
  opened : s.exporter.shutdown = .idle → s.closes = 0 ∧ s.exporter.worker = .running
  /-- Only the call that is about to close `done` can close it. -/
  closing : ∀ i, s.call i = .closing → s.exporter.shutdown = .idle
  /-- `done` is closed: the worker has returned or somebody waits for it. -/
  closed : s.exporter.shutdown ≠ .idle → s.exporter.shutdown = .waiting ∧ s.closes = 1 ∧
    (s.exporter.worker = .returned ∨ ∃ i, s.call i = .waiting)
  begun : ∀ i, s.call i ≠ .idle → s.begun ≠ none
  queued : ∀ queued, s.begun = some queued → queued <+: s.exporter.enqueued
  /-- The worker returns after it has sent everything. -/
  flushed : s.exporter.worker = .returned → s.exporter.shutdown = .waiting ∧
    ∃ queued, s.begun = some queued ∧ queued <+: s.exporter.sent.flatten
  returned : ∀ i, s.call i = .returned → s.exporter.worker = .returned

section
variable {size : Nat} {s t : ShutdownState n m α}

theorem alone_new (exporter : ExporterState m α) (hsent : exporter.sent = [])
    (hbatch : exporter.batch = []) (hqueue : exporter.queue = exporter.enqueued)
    (hworker : exporter.worker = .running) (hshutdown : exporter.shutdown = .idle) :
    Alone ({ exporter } : ShutdownState n m α) where
  order := by simp [hsent, hbatch, hqueue]
  single i j h := by cases h
  noPanic i h := by cases h
  opened _ := ⟨rfl, hworker⟩
  closing i h := by cases h
  closed h := absurd hshutdown h
  begun i h := absurd rfl h
  queued q h := by cases h
  flushed h := by rw [hworker] at h; cases h
  returned i h := by cases h

theorem alone_exporter {e : ExporterEvent m} {x : ExporterState m α} (he : e ≠ .shutdown)
    (h : ExporterStep size s.exporter e x) (hs : Alone s) : Alone { s with exporter := x } := by
  obtain ⟨horder, hshutdown, henqueued, hmove⟩ := exporterStep_spec h he hs.order
  have hopened : x.shutdown = .idle → s.closes = 0 ∧ x.worker = .running := by
    intro hidle
    obtain ⟨hcloses, hrunning⟩ := hs.opened (hshutdown ▸ hidle)
    refine ⟨hcloses, ?_⟩
    cases hmove with
    | stays hworker _ => rw [hworker, hrunning]
    | drains _ hwaiting _ =>
      rw [hshutdown, hwaiting] at hidle
      cases hidle
    | returns hdraining _ _ _ =>
      rw [hrunning] at hdraining
      cases hdraining
  have hreturned : s.exporter.worker = .returned → x.worker = .returned := by
    intro hret
    cases hmove with
    | stays hworker _ => rw [hworker, hret]
    | drains hrunning _ _ =>
      rw [hret] at hrunning
      cases hrunning
    | returns _ hdone _ _ => exact hdone
  refine ⟨horder, hs.single, hs.noPanic, hopened, ?_, ?_, hs.begun, ?_, ?_, ?_⟩
  · intro i hi
    rw [hshutdown]
    exact hs.closing i hi
  · intro hne
    obtain ⟨hwaiting, hcloses, hwho⟩ := hs.closed (hshutdown ▸ hne)
    exact ⟨hshutdown.trans hwaiting, hcloses, hwho.imp_left hreturned⟩
  · intro queued hqueued
    exact (hs.queued queued hqueued).trans henqueued
  · intro hret
    simp only at hret ⊢
    cases hmove with
    | stays hworker hsent =>
      rw [hworker] at hret
      rw [hshutdown, hsent hret]
      exact hs.flushed hret
    | drains _ _ hdraining =>
      rw [hdraining] at hret
      cases hret
    | returns hdraining _ hqueue hbatch =>
      -- the queue is empty and the last batch was sent
      have hne : s.exporter.shutdown ≠ .idle := by
        intro hidle
        rw [(hs.opened hidle).2] at hdraining
        cases hdraining
      obtain ⟨hwaiting, -, hwho⟩ := hs.closed hne
      obtain ⟨i, hi⟩ : ∃ i, s.call i = .waiting := by
        rcases hwho with hret' | hwho
        · rw [hret'] at hdraining
          cases hdraining
        · exact hwho
      obtain ⟨queued, hqueued⟩ := Option.ne_none_iff_exists'.mp (hs.begun i (by rw [hi]; decide))
      rw [hqueue, hbatch, append_nil, append_nil] at horder
      refine ⟨hshutdown.trans hwaiting, queued, hqueued, ?_⟩
      rw [horder]
      exact (hs.queued queued hqueued).trans henqueued
  · intro i hi
    exact hreturned (hs.returned i hi)

variable {f : Fin n → CallPc} {i j : Fin n} {pc : CallPc}

theorem update_call {x : CallPc} (h : update f i pc j = x) : j = i ∧ pc = x ∨ j ≠ i ∧ f j = x := by
  by_cases hj : j = i
  · subst hj
    rw [update_self] at h
    exact .inl ⟨rfl, h⟩
  · rw [update_of_ne hj] at h
    exact .inr ⟨hj, h⟩

theorem inProgress_update
    (h : (update f i pc j).inProgress = true) (hi : (f i).inProgress = true) :
    (f j).inProgress = true := by
  by_cases hj : j = i
  · rwa [hj]
  · rwa [update_of_ne hj] at h

theorem Alone.setCall (hs : Alone s) (hidle : s.call i ≠ .idle)
    (hprogress : (s.call i).inProgress = true) (hpanic : pc ≠ .panicked)
    (hclosing : pc = .closing → s.exporter.shutdown = .idle)
    (hwaiting : s.call i = .waiting → s.exporter.worker = .returned)
    (hreturned : pc = .returned → s.exporter.worker = .returned) :
    Alone { s with call := update s.call i pc } := by
  refine ⟨hs.order, ?_, ?_, hs.opened, ?_, ?_, ?_, hs.queued, hs.flushed, ?_⟩
  · intro j k hj hk
    exact hs.single j k (inProgress_update hj hprogress) (inProgress_update hk hprogress)
  · intro j hj
    rcases update_call hj with ⟨-, hpc⟩ | ⟨-, hsame⟩
    · exact hpanic hpc
    · exact hs.noPanic j hsame
  · intro j hj
    rcases update_call hj with ⟨-, hpc⟩ | ⟨-, hsame⟩
    · exact hclosing hpc
    · exact hs.closing j hsame
  · intro hne
    obtain ⟨hw, hcloses, hret | ⟨j, hj⟩⟩ := hs.closed hne
    · exact ⟨hw, hcloses, .inl hret⟩
    · refine ⟨hw, hcloses, ?_⟩
      by_cases hji : j = i
      · subst hji
        exact .inl (hwaiting hj)
      · exact .inr ⟨j, (update_of_ne hji _ _).trans hj⟩
  · intro j hj
    by_cases hji : j = i
    · exact hs.begun i hidle
    · exact hs.begun j fun h => hj ((update_of_ne hji _ _).trans h)
  · intro j hj
    rcases update_call hj with ⟨-, hpc⟩ | ⟨-, hsame⟩
    · exact hreturned hpc
    · exact hs.returned j hsame

theorem Alone.worker_returned (hs : Alone s) (hi : s.call i = .called)
    (hclosed : s.exporter.shutdown = .waiting) : s.exporter.worker = .returned := by
  obtain ⟨-, -, hret | ⟨j, hj⟩⟩ := hs.closed (by rw [hclosed]; decide)
  · exact hret
  · have hsame := hs.single i j (by rw [hi]; rfl) (by rw [hj]; rfl)
    subst hsame
    rw [hi] at hj
    cases hj

theorem alone_begin (hs : Alone s)
    (hcond : ∀ j, (s.call j).inProgress = false) :
    Alone { s with
      call := update s.call i .called
      begun := s.begun <|> some s.exporter.enqueued } := by
  have hother : ∀ {j : Fin n} {x : CallPc}, update s.call i .called j = x → x ≠ .called →
      s.call j = x := by
    intro j x h hx
    rcases update_call h with ⟨-, hpc⟩ | ⟨-, hsame⟩
    · exact absurd hpc.symm hx
    · exact hsame
  have honly : ∀ j, (update s.call i .called j).inProgress = true → j = i := by
    intro j hj
    by_contra hne
    rw [update_of_ne hne, hcond j] at hj
    cases hj
  refine ⟨hs.order, ?_, ?_, hs.opened, ?_, ?_, ?_, ?_, ?_, ?_⟩
  · intro j k hj hk
    rw [honly j hj, honly k hk]
  · intro j hj
    exact hs.noPanic j (hother hj (by decide))
  · intro j hj
    exact hs.closing j (hother hj (by decide))
  · intro hne
    obtain ⟨hw, hcloses, hret | ⟨j, hj⟩⟩ := hs.closed hne
    · exact ⟨hw, hcloses, .inl hret⟩
    · have hidle := hcond j
      rw [hj] at hidle
      cases hidle
  · intro j _
    simp
  · intro queued hqueued
    cases hb : s.begun with
    | none =>
      simp only [hb] at hqueued
      rw [← Option.some.inj hqueued]
    | some q =>
      simp only [hb] at hqueued
      exact hs.queued queued (hb.trans hqueued)
  · intro hret
    obtain ⟨hw, queued, hqueued, hsent⟩ := hs.flushed hret
    exact ⟨hw, queued, by simp [hqueued], hsent⟩
  · intro j hj
    exact hs.returned j (hother hj (by decide))

theorem alone_close (hi : s.call i = .closing) (hidle : s.exporter.shutdown = .idle)
    (hs : Alone s) :
    Alone { s with
      exporter := { s.exporter with shutdown := .waiting }
      call := update s.call i .waiting
      closes := s.closes + 1 } := by
  obtain ⟨hcloses, hrunning⟩ := hs.opened hidle
  have hprogress : (s.call i).inProgress = true := by
    rw [hi]
    rfl
  have hother : ∀ {j : Fin n} {x : CallPc}, update s.call i .waiting j = x → x ≠ .waiting →
      j ≠ i ∧ s.call j = x := by
    intro j x h hx
    rcases update_call h with ⟨-, hpc⟩ | hsame
    · exact absurd hpc.symm hx
    · exact hsame
  refine ⟨hs.order, ?_, ?_, ?_, ?_, ?_, ?_, hs.queued, ?_, ?_⟩
  · intro j k hj hk
    exact hs.single j k (inProgress_update hj hprogress) (inProgress_update hk hprogress)
  · intro j hj
    exact hs.noPanic j (hother hj (by decide)).2
  · intro h
    cases h
  · intro j hj
    -- two calls about to close `done` would both be in progress
    obtain ⟨hne, hj⟩ := hother hj (by decide)
    exact absurd (hs.single j i (by rw [hj]; rfl) hprogress) hne
  · intro _
    exact ⟨rfl, by rw [hcloses], .inr ⟨i, update_self _ _ _⟩⟩
  · intro j hj
    by_cases hji : j = i
    · exact hs.begun i (by rw [hi]; decide)
    · exact hs.begun j fun h => hj ((update_of_ne hji _ _).trans h)
  · intro hret
    simp only [hrunning] at hret
    cases hret
  · intro j hj
    exact hs.returned j (hother hj (by decide)).2

theorem alone_step {e : ShutdownEvent n m} (h : ShutdownStep size s e t) (hcond : NoOverlap s e)
    (hs : Alone s) : Alone t := by
  cases h with
  | exporter he hstep => exact alone_exporter he hstep hs
  | begin _ => exact alone_begin hs hcond
  | closed hi hclosed =>
    have hret := hs.worker_returned hi hclosed
    exact hs.setCall (by rw [hi]; decide) (by rw [hi]; rfl) (by decide) nofun (fun _ => hret)
      fun _ => hret
  | default hi hidle =>
    refine hs.setCall (by rw [hi]; decide) (by rw [hi]; rfl) (by decide) (fun _ => hidle) ?_ nofun
    intro hw
    rw [hi] at hw
    cases hw
  | close hi hidle => exact alone_close hi hidle hs
  | panic hi hclosed =>
    rw [hs.closing _ hi] at hclosed
    cases hclosed
  | wait hi hret =>
    exact hs.setCall (by rw [hi]; decide) (by rw [hi]; rfl) (by decide) nofun (fun _ => hret)
      fun _ => hret

theorem Alone.safe (hs : Alone s) : SafeShutdown s := by
  refine ⟨hs.noPanic, ?_, ?_⟩
  · by_cases hidle : s.exporter.shutdown = .idle
    · rw [(hs.opened hidle).1]
      exact Nat.zero_le 1
    · exact (hs.closed hidle).2.1.le
  · intro i hi
    obtain ⟨hw, hflushed⟩ := hs.flushed (hs.returned i hi)
    exact ⟨(hs.closed (by rw [hw]; decide)).2.1, hflushed⟩

end

/-! ## 4. Results -/

/-- **Calls that do not overlap are safe**: `done` is closed once and nobody panics, and a call that
has returned did so after everything that was queued when the first call began had been sent. -/
theorem shutdown_safe (size : Nat) (spans : Fin m → List α) {es : List (ShutdownEvent n m)}
    {s : ShutdownState n m α}
    (h : Run (When NoOverlap (ShutdownStep size)) { exporter := { todo := spans } } es s) :
    SafeShutdown s := by
  have hs : Alone s := by
    refine h.invariant ?_ (alone_new _ rfl rfl rfl rfl rfl)
    rintro s e t ⟨hcond, hstep⟩ hs
    exact alone_step hstep hcond hs
  exact hs.safe

theorem shutdown_safe_twice :
    ∃ es s, Run (When NoOverlap (ShutdownStep 2)) { exporter := { todo := ![[7]] } } es s ∧
      s.call 0 = .returned ∧ s.call 1 = .returned ∧ s.begun = some [7] ∧
      SafeShutdown (s : ShutdownState 2 1 Nat) := by
  obtain ⟨s, hrun, h0, h1, hbegun⟩ : ∃ s : ShutdownState 2 1 Nat,
      Run (When NoOverlap (ShutdownStep 2)) { exporter := { todo := ![[7]] } }
        [.exporter (.export 0), .begin 0, .call 0, .call 0, .exporter .worker, .exporter .worker,
          .exporter .worker, .call 0, .begin 1, .call 1] s ∧
        s.call 0 = .returned ∧ s.call 1 = .returned ∧ s.begun = some [7] :=
    ⟨_, .consWhen (.exporter (by decide) (.enqueue (j := 0) rfl (by decide))) trivial <|
      .consWhen (.begin rfl) (Fin.forall_fin_two.mpr ⟨rfl, rfl⟩) <| .consWhen (.default rfl rfl) trivial <|
      .consWhen (.close rfl rfl) trivial <|
      .consWhen (.exporter (by decide) (.done rfl rfl)) trivial <|
      .consWhen (.exporter (by decide) (.drain rfl rfl)) trivial <|
      .consWhen (.exporter (by decide) (.finish rfl rfl)) trivial <|
      .consWhen (.wait rfl rfl) trivial <| .consWhen (.begin rfl) (Fin.forall_fin_two.mpr ⟨rfl, rfl⟩) <|
      .consWhen (.closed rfl rfl) trivial .nil, rfl, rfl, rfl⟩
  exact ⟨_, s, hrun, h0, h1, hbegun, shutdown_safe 2 _ hrun⟩

/-- **Calls that overlap are not safe**: both find `done` open and the second `close` panics; or the
second finds it closed and returns while a snapshot is still in the queue. -/
theorem overlapping_shutdown_unsafe : (∃ es s, Run (ShutdownStep 2) { exporter := { todo := ![[]] } } es
        (s : ShutdownState 2 1 Nat) ∧ s.call 1 = .panicked ∧ s.closes = 2 ∧ ¬ SafeShutdown s) ∧
      ∃ es s, Run (ShutdownStep 2) { exporter := { todo := ![[7]] } } es
        (s : ShutdownState 2 1 Nat) ∧ s.call 1 = .returned ∧ s.begun = some [7] ∧
          s.exporter.queue = [7] ∧ s.exporter.sent = [] ∧ ¬ SafeShutdown s := by
  constructor
  · obtain ⟨s, hrun, hpanic, hcloses⟩ : ∃ s : ShutdownState 2 1 Nat,
        Run (ShutdownStep 2) { exporter := { todo := ![[]] } }
          [.begin 0, .begin 1, .call 0, .call 1, .call 0, .call 1] s ∧
          s.call 1 = .panicked ∧ s.closes = 2 :=
      ⟨_, .cons (.begin rfl) <| .cons (.begin rfl) <| .cons (.default rfl rfl) <|
        .cons (.default rfl rfl) <| .cons (.close rfl rfl) <| .cons (.panic rfl rfl) .nil, rfl, rfl⟩
    exact ⟨_, s, hrun, hpanic, hcloses, fun hsafe => hsafe.noPanic 1 hpanic⟩
  · obtain ⟨s, hrun, hret, hbegun, hqueue, hsent⟩ : ∃ s : ShutdownState 2 1 Nat,
        Run (ShutdownStep 2) { exporter := { todo := ![[7]] } }
          [.exporter (.export 0), .begin 0, .call 0, .call 0, .begin 1, .call 1] s ∧
          s.call 1 = .returned ∧ s.begun = some [7] ∧ s.exporter.queue = [7] ∧
          s.exporter.sent = [] :=
      ⟨_, .cons (.exporter (by decide) (.enqueue (j := 0) rfl (by decide))) <|
        .cons (.begin rfl) <| .cons (.default rfl rfl) <| .cons (.close rfl rfl) <|
        .cons (.begin rfl) <| .cons (.closed rfl rfl) .nil, rfl, rfl, rfl, rfl⟩
    refine ⟨_, s, hrun, hret, hbegun, hqueue, hsent, fun hsafe => ?_⟩
    obtain ⟨-, queued, hqueued, hprefix⟩ := hsafe.flushed 1 hret
    rw [hbegun] at hqueued
    obtain rfl := Option.some.inj hqueued
    rw [hsent] at hprefix
    exact absurd (prefix_nil.mp hprefix) (by decide)

end AoniContrib.Otel
