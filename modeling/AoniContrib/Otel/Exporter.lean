/-
# The batching exporter: `OTLPHTTPExporter` in `otel/exporter.go`

`Export` puts snapshots into a queue of 2048 slots, or drops them if it is full.  One worker takes
them out, collects them into a batch and sends it when it is full or the ticker fires.  `Shutdown`
closes `done` and waits for the worker, which then takes out what is left.  What was queued is sent,
each snapshot once and in the order of the queue (`exporter_sends_all`).

A step is one `select` of a call of `Export`, or one turn of the worker with the `sendBatch` that it
makes.  Where several cases of a `select` are ready any of them may be taken.
-/
import AoniContrib.Concurrency.Run

namespace AoniContrib.Otel

open Concurrency List
open Function (update)

/-! ## 1. The worker -/

def queueCap : Nat := 2048

inductive WorkerPc where
  | running
  /-- In the loop that takes out what is left. -/
  | draining
  | returned
  deriving DecidableEq, Repr

inductive ShutdownPc where
  | idle
  /-- `done` is closed. -/
  | waiting
  | returned
  deriving DecidableEq, Repr

variable {α : Type} {n : Nat}

structure ExporterState (n : Nat) (α : Type) where
  /-- The snapshots that each call of `Export` has still to offer. -/
  todo : Fin n → List α
  queue : List α := []
  batch : List α := []
  worker : WorkerPc := .running
  shutdown : ShutdownPc := .idle
  /-- The batches passed to `sendBatch`. -/
  sent : List (List α) := []
  /-- What was put into the queue, and what was not, in order. -/
  enqueued : List α := []
  dropped : List α := []

def ExporterState.flush (s : ExporterState n α) : ExporterState n α :=
  if s.batch = [] then s else { s with batch := [], sent := s.sent ++ [s.batch] }

/-- What it has after `batch = append(batch, snap)` and the flush of a full batch. -/
def ExporterState.collect (size : Nat) (s : ExporterState n α) (x : α) (rest : List α) :
    ExporterState n α :=
  if size ≤ (s.batch ++ [x]).length then
    { s with queue := rest, batch := [], sent := s.sent ++ [s.batch ++ [x]] }
  else { s with queue := rest, batch := s.batch ++ [x] }

inductive ExporterEvent (n : Nat) where
  | export (j : Fin n)
  | worker
  | shutdown
  deriving DecidableEq, Repr

inductive ExporterStep (size : Nat) :
    ExporterState n α → ExporterEvent n → ExporterState n α → Prop where
  | enqueue {s j x xs} : s.todo j = x :: xs → s.queue.length < queueCap →
      ExporterStep size s (.export j) { s with
          todo := update s.todo j xs
          queue := s.queue ++ [x]
          enqueued := s.enqueued ++ [x] }
  | drop {s j x xs} : s.todo j = x :: xs → ¬ s.queue.length < queueCap →
      ExporterStep size s (.export j) { s with todo := update s.todo j xs, dropped := s.dropped ++ [x] }
  | receive {s x rest} : s.worker = .running → s.queue = x :: rest →
      ExporterStep size s .worker (s.collect size x rest)
  | tick {s} : s.worker = .running → ExporterStep size s .worker s.flush
  | done {s} : s.worker = .running → s.shutdown = .waiting →
      ExporterStep size s .worker { s with worker := .draining }
  | drain {s x rest} : s.worker = .draining → s.queue = x :: rest →
      ExporterStep size s .worker (s.collect size x rest)
  | finish {s} : s.worker = .draining → s.queue = [] →
      ExporterStep size s .worker { s.flush with worker := .returned }
  | close {s} : s.shutdown = .idle → (∀ j, s.todo j = []) →
      ExporterStep size s .shutdown { s with shutdown := .waiting }
  | wait {s} : s.shutdown = .waiting → s.worker = .returned →
      ExporterStep size s .shutdown { s with shutdown := .returned }

/-! ## 2. Nothing is lost -/

structure Accounted (size : Nat) (spans : Fin n → List α) (s : ExporterState n α) : Prop where
  /-- What was sent, what is collected and what is queued is what was put into the queue. -/
  order : s.sent.flatten ++ s.batch ++ s.queue = s.enqueued
  sent : ∀ b ∈ s.sent, b ≠ [] ∧ b.length ≤ size
  batch : s.batch.length < size
  /-- Every snapshot given to `Export` is still to be offered, or was queued or dropped. -/
  offered : (s.enqueued : Multiset α) + s.dropped + ∑ j, (s.todo j : Multiset α) =
    ∑ j, (spans j : Multiset α)
  closed : s.shutdown ≠ .idle → ∀ j, s.todo j = []
  worker : s.worker ≠ .running → s.shutdown ≠ .idle
  returned : s.worker = .returned → s.queue = [] ∧ s.batch = []
  shutdown : s.shutdown = .returned → s.worker = .returned

section
variable {size : Nat} {spans : Fin n → List α} {s : ExporterState n α}

theorem accounted_new (hsize : 0 < size) : Accounted size spans { todo := spans } where
  order := rfl
  sent _ h := absurd h not_mem_nil
  batch := hsize
  offered := by simp
  closed h := absurd rfl h
  worker h := absurd rfl h
  returned h := by cases h
  shutdown h := by cases h

theorem sum_todo {j : Fin n} {x : α} {xs : List α} (hj : s.todo j = x :: xs) :
    ∑ i, (s.todo i : Multiset α) = {x} + ∑ i, (update s.todo j xs i : Multiset α) := by
  rw [← Finset.add_sum_erase _ _ (Finset.mem_univ j),
    ← Finset.add_sum_erase Finset.univ (fun i => (update s.todo j xs i : Multiset α))
      (Finset.mem_univ j), ← add_assoc]
  congr 1
  · simp only [hj, Function.update_self]
    rfl
  · refine Finset.sum_congr rfl fun i hi => ?_
    rw [Function.update_of_ne (Finset.ne_of_mem_erase hi)]

theorem batch_flush (s : ExporterState n α) : s.flush.batch = [] := by
  unfold ExporterState.flush
  split_ifs with hempty
  · exact hempty
  · rfl

theorem queue_flush (s : ExporterState n α) : s.flush.queue = s.queue := by
  unfold ExporterState.flush
  split_ifs <;> rfl

theorem shutdown_flush (s : ExporterState n α) : s.flush.shutdown = s.shutdown := by
  unfold ExporterState.flush
  split_ifs <;> rfl

theorem accounted_flush (hs : Accounted size spans s) : Accounted size spans s.flush := by
  unfold ExporterState.flush
  split_ifs with hempty
  · exact hs
  · refine { hs with
      order := by simpa using hs.order
      sent := fun b hb => ?_
      batch := Nat.zero_lt_of_lt hs.batch
      returned := fun h => ⟨(hs.returned h).1, rfl⟩ }
    rcases mem_append.mp hb with hb | hb
    · exact hs.sent b hb
    · obtain rfl := mem_singleton.mp hb
      exact ⟨hempty, hs.batch.le⟩

theorem accounted_collect (hs : Accounted size spans s) {x : α} {rest : List α}
    (hqueue : s.queue = x :: rest) (hpc : s.worker ≠ .returned) :
    Accounted size spans (s.collect size x rest) := by
  have horder := hs.order
  rw [hqueue] at horder
  unfold ExporterState.collect
  rw [length_append, length_singleton]
  split_ifs with hfull
  · refine { hs with
      order := by simpa using horder
      sent := fun b hb => ?_
      batch := Nat.zero_lt_of_lt hs.batch
      returned := fun h => absurd h hpc }
    have hbatch := hs.batch
    rcases mem_append.mp hb with hb | hb
    · exact hs.sent b hb
    · obtain rfl := mem_singleton.mp hb
      exact ⟨by simp, by rw [length_append, length_singleton]; omega⟩
  · have hroom : (s.batch ++ [x]).length < size := by
      rw [length_append, length_singleton]
      omega
    exact { hs with
      order := by simpa using horder
      batch := hroom
      returned := fun h => absurd h hpc }

theorem Accounted.idle (hs : Accounted size spans s) {j : Fin n} {x : α} {xs : List α}
    (hj : s.todo j = x :: xs) : s.shutdown = .idle := by
  by_contra hne
  simp [hs.closed hne j] at hj

theorem accounted_step {t : ExporterState n α} {e : ExporterEvent n}
    (h : ExporterStep size s e t) (hs : Accounted size spans s) : Accounted size spans t := by
  cases h with
  | @enqueue j x xs hj _ =>
    refine { hs with
      order := by simp [← hs.order]
      offered := ?_
      closed := fun h => absurd (hs.idle hj) h
      returned := fun h => absurd (hs.idle hj) (hs.worker (by rw [h]; decide)) }
    rw [← hs.offered, sum_todo hj, ← Multiset.coe_add]
    simp only [Multiset.coe_singleton]
    abel
  | @drop j x xs hj _ =>
    refine { hs with offered := ?_, closed := fun h => absurd (hs.idle hj) h }
    rw [← hs.offered, sum_todo hj, ← Multiset.coe_add]
    simp only [Multiset.coe_singleton]
    abel
  | receive hpc hqueue | drain hpc hqueue => exact accounted_collect hs hqueue (by rw [hpc]; decide)
  | tick => exact accounted_flush hs
  | done _ hwaiting =>
    have hne : s.shutdown ≠ .idle := by rw [hwaiting]; decide
    exact { hs with
      worker := fun _ => hne, returned := nofun, shutdown := fun h => nomatch hwaiting.symm.trans h }
  | finish hpc hqueue =>
    have hne : s.shutdown ≠ .idle := hs.worker (by rw [hpc]; decide)
    exact { accounted_flush hs with
      worker := fun _ => by rwa [shutdown_flush]
      returned := fun _ => ⟨by rwa [queue_flush], batch_flush s⟩
      shutdown := fun _ => rfl }
  | close hidle htodo =>
    exact { hs with closed := fun _ => htodo, worker := fun _ => nofun, shutdown := nofun }
  | wait hwaiting hpc =>
    exact { hs with
      closed := fun _ => hs.closed (by rw [hwaiting]; decide)
      worker := fun _ => nofun, shutdown := fun _ => hpc }

end

/-! ## 3. Results -/

/-- **What was queued is sent.**  At any time the batches that were sent, the one being collected and
the queue are, in this order, what was put into the queue; every batch that was sent has between one
and `batchSize` elements; and when `Shutdown` has returned, everything was sent.  What was put into
the queue or dropped is what was given to `Export`, each snapshot once. -/
theorem exporter_sends_all (size : Nat) (hsize : 0 < size) (spans : Fin n → List α)
    {es : List (ExporterEvent n)} {s : ExporterState n α}
    (h : Run (ExporterStep size) { todo := spans } es s) :
    s.sent.flatten ++ s.batch ++ s.queue = s.enqueued ∧
      (∀ b ∈ s.sent, b ≠ [] ∧ b.length ≤ size) ∧
      (s.enqueued : Multiset α) + s.dropped + ∑ j, (s.todo j : Multiset α) =
        ∑ j, (spans j : Multiset α) ∧
      (s.shutdown = .returned →
        s.queue = [] ∧ s.batch = [] ∧ (∀ j, s.todo j = []) ∧ s.sent.flatten = s.enqueued) := by
  have hs : Accounted size spans s := h.invariant (fun _ _ _ => accounted_step) (accounted_new hsize)
  refine ⟨hs.order, hs.sent, hs.offered, fun hret => ?_⟩
  obtain ⟨hqueue, hbatch⟩ := hs.returned (hs.shutdown hret)
  have horder := hs.order
  rw [hqueue, hbatch, append_nil, append_nil] at horder
  exact ⟨hqueue, hbatch, hs.closed (by rw [hret]; decide), horder⟩

theorem exporter_sends_all_twice :
    ∃ es s, Run (ExporterStep 2) { todo := ![[1, 2], [3]] } es s ∧ s.shutdown = .returned ∧
      s.sent = [[1, 3], [2]] ∧ s.sent.flatten = s.enqueued := by
  obtain ⟨s, hrun, hret, hsent⟩ : ∃ s : ExporterState 2 Nat,
      Run (ExporterStep 2) { todo := ![[1, 2], [3]] }
        [.export 0, .export 1, .worker, .worker, .export 0, .worker, .shutdown, .worker, .worker,
          .shutdown] s ∧ s.shutdown = .returned ∧ s.sent = [[1, 3], [2]] :=
    ⟨_, .cons (.enqueue (j := 0) rfl (by decide)) <| .cons (.enqueue (j := 1) rfl (by decide)) <|
      .cons (.receive rfl rfl) <| .cons (.receive rfl rfl) <|
      .cons (.enqueue (j := 0) rfl (by decide)) <| .cons (.receive rfl rfl) <|
      .cons (.close rfl (by decide)) <| .cons (.done rfl rfl) <| .cons (.finish rfl rfl) <|
      .cons (.wait rfl rfl) .nil, rfl, rfl⟩
  exact ⟨_, s, hrun, hret, hsent, ((exporter_sends_all 2 (by decide) _ hrun).2.2.2 hret).2.2.2⟩

end AoniContrib.Otel
