/-
# What a failed emit leaves behind: `emitNS` and `emitWithAckNS` in `socketio/client.go`

An event with a callback is registered with `ackMgr` before it is written.  A call that fails earlier
(not connected, or a `json.Marshal` error) has registered nothing.  A call that fails later has: when
a message cannot be written, or when `emitWithAckNS` stops waiting, the registration is left where it
is, and an acknowledgement that arrives afterwards calls the callback of a call that has returned an
error (`failed_emit_acknowledged`).  Failed calls are clean exactly as long as no call fails while its
callback is registered (`failed_emits_clean_iff`).

Any number of calls run side by side with the reader, which resolves acknowledgements.  Of `ackMgr`
it is assumed that `NextID` gives an id that is not in use, that `Add` registers it, that `Resolve`
removes it and calls the callback, and that after the timeout it is removed without a call of it.
-/
import AoniContrib.SocketIO.Emit

namespace AoniContrib.SocketIO

open Go Concurrency List
open Function (update update_self update_of_ne)

/-! ## 1. The calls -/

/-- Who waits for the acknowledgement: nobody, the callback that was the last argument of `emitNS`, or
`emitWithAckNS`. -/
inductive AckMode where
  | none
  | callback
  | wait
  deriving DecidableEq, Repr

structure EmitCall (S : Type) where
  emit : Emit S
  mode : AckMode

inductive EmitError where
  | notConnected
  | marshal
  | write
  | attachment
  | context
  | ackTimeout
  deriving DecidableEq, Repr

inductive EmitPc where
  | idle
  /-- Behind `assertOpen`. -/
  | checked
  /-- Behind the registration; so many messages are written. -/
  | writing (k : Nat)
  /-- In the `select` of `emitWithAckNS`. -/
  | waiting
  | ok
  | failed (err : EmitError)
  deriving DecidableEq, Repr

def EmitPc.isFailed : EmitPc → Bool
  | .failed _ => true
  | .idle | .checked | .writing _ | .waiting | .ok => false

structure AckState (n : Nat) where
  /-- `state` is `sioStateOpen`. -/
  isOpen : Bool := false
  /-- The channel `closed` is closed. -/
  isClosed : Bool := false
  /-- What is registered with `ackMgr`: the id, and the call whose callback it has. -/
  pending : List (Int64 × Fin n) := []
  pc : Fin n → EmitPc := fun _ => .idle
  /-- The channel of `emitWithAckNS` holds the answer. -/
  answered : Fin n → Bool := fun _ => false
  /-- The callback was called after the call had returned an error. -/
  late : Fin n → Bool := fun _ => false

namespace AckState

variable {n : Nat} (s : AckState n)

def goto (i : Fin n) (pc : EmitPc) : AckState n := { s with pc := update s.pc i pc }

theorem pc_goto_self (i : Fin n) (pc : EmitPc) : (s.goto i pc).pc i = pc := update_self ..

theorem pc_goto_of_ne {i j : Fin n} (h : j ≠ i) (pc : EmitPc) : (s.goto i pc).pc j = s.pc j :=
  update_of_ne h ..

/-- Nothing that the call has registered is left. -/
def Unregistered (i : Fin n) : Prop := ∀ p ∈ s.pending, p.2 ≠ i

end AckState

inductive AckEvent (n : Nat) where
  | connection
  /-- A step of a call. -/
  | call (i : Fin n)
  /-- A call fails behind the registration. -/
  | fail (i : Fin n)
  /-- `handleAck` of the reader. -/
  | ack (id : Int64)
  /-- The timeout of the registration. -/
  | expire (id : Int64)
  deriving DecidableEq, Repr

variable {S : Type} {n : Nat}

inductive AckStep (J : Codec S) (calls : Fin n → EmitCall S) :
    AckState n → AckEvent n → AckState n → Prop where
  | connection {s} (isOpen : Bool) : AckStep J calls s .connection { s with isOpen }
  | shut {s} : AckStep J calls s .connection { s with isClosed := true }
  | assertOpen {s i} : s.pc i = .idle → s.isOpen = true →
      AckStep J calls s (.call i) (s.goto i .checked)
  | notConnected {s i} : s.pc i = .idle → s.isOpen = false →
      AckStep J calls s (.call i) (s.goto i (.failed .notConnected))
  | marshal {s i} : s.pc i = .checked → (calls i).emit.packet J = none →
      AckStep J calls s (.call i) (s.goto i (.failed .marshal))
  | plain {s i pkt} : s.pc i = .checked → (calls i).emit.packet J = some pkt →
      (calls i).mode = .none → AckStep J calls s (.call i) (s.goto i (.writing 0))
  | register {s i pkt} (id : Int64) : s.pc i = .checked → (calls i).emit.packet J = some pkt →
      (calls i).mode ≠ .none → (∀ p ∈ s.pending, p.1 ≠ id) →
      AckStep J calls s (.call i) { s.goto i (.writing 0) with pending := s.pending ++ [(id, i)] }
  | write {s i k} : s.pc i = .writing k → k < ((calls i).emit.writes J).length →
      AckStep J calls s (.call i) (s.goto i (.writing (k + 1)))
  | writeFails {s i k} : s.pc i = .writing k → k < ((calls i).emit.writes J).length →
      AckStep J calls s (.fail i) (s.goto i (.failed (if k = 0 then .write else .attachment)))
  | sent {s i k} : s.pc i = .writing k → ((calls i).emit.writes J).length ≤ k →
      AckStep J calls s (.call i) (s.goto i (if (calls i).mode = .wait then .waiting else .ok))
  | context {s i} : s.pc i = .waiting → AckStep J calls s (.fail i) (s.goto i (.failed .context))
  | closed {s i} : s.pc i = .waiting → s.isClosed = true →
      AckStep J calls s (.fail i) (s.goto i (.failed .notConnected))
  | timer {s i} : s.pc i = .waiting → AckStep J calls s (.fail i) (s.goto i (.failed .ackTimeout))
  | result {s i} : s.pc i = .waiting → s.answered i = true →
      AckStep J calls s (.call i) (s.goto i .ok)
  | ack {s id i} : (id, i) ∈ s.pending →
      AckStep J calls s (.ack id) { s with
          pending := s.pending.filter (·.1 ≠ id)
          answered := update s.answered i true
          late := update s.late i (s.late i || (s.pc i).isFailed) }
  | expire {s} (id : Int64) : AckStep J calls s (.expire id)
      { s with pending := s.pending.filter (·.1 ≠ id) }

/-- A call that has failed has left nothing behind, and its callback was not called afterwards. -/
def Clean (s : AckState n) : Prop :=
  ∀ i, (s.pc i).isFailed = true → s.Unregistered i ∧ s.late i = false

/-- A call fails while nothing is registered for it. -/
def FailsUnregistered (s : AckState n) : AckEvent n → Prop
  | .fail i => s.Unregistered i
  | .connection | .call _ | .ack _ | .expire _ => True

/-! ## 2. What a step can do -/

/-- Nothing is registered for a call before it registers, or after it has failed, and no callback was
called late. -/
structure Tidy (s : AckState n) : Prop where
  clean : Clean s
  early : ∀ i, s.pc i = .idle ∨ s.pc i = .checked → s.Unregistered i
  late : ∀ i, s.late i = false

section
variable {s t : AckState n} {i : Fin n} {pc : EmitPc}

theorem tidy_goto (hs : Tidy s)
    (hpc : pc.isFailed = true ∨ pc = .idle ∨ pc = .checked → s.Unregistered i) : Tidy (s.goto i pc) := by
  refine ⟨?_, ?_, hs.late⟩
  · intro j hj
    by_cases hji : j = i
    · subst hji
      rw [s.pc_goto_self] at hj
      exact ⟨hpc (.inl hj), hs.late j⟩
    · rw [s.pc_goto_of_ne hji] at hj
      exact hs.clean j hj
  · intro j hj
    by_cases hji : j = i
    · subst hji
      rw [s.pc_goto_self] at hj
      exact hpc (.inr hj)
    · rw [s.pc_goto_of_ne hji] at hj
      exact hs.early j hj

theorem tidy_filter (hs : Tidy s) (id : Int64) :
    Tidy { s with pending := s.pending.filter (·.1 ≠ id) } := by
  have hless : ∀ j, s.Unregistered j → ∀ p ∈ s.pending.filter (·.1 ≠ id), p.2 ≠ j := by
    intro j hj p hp
    exact hj p (mem_of_mem_filter hp)
  refine ⟨?_, fun j hj => hless j (hs.early j hj), hs.late⟩
  intro j hj
  obtain ⟨hpending, hlate⟩ := hs.clean j hj
  exact ⟨hless j hpending, hlate⟩

variable {J : Codec S} {calls : Fin n → EmitCall S} {e : AckEvent n}

theorem tidy_step
    (h : AckStep J calls s e t) (hcond : FailsUnregistered s e) (hs : Tidy s) : Tidy t := by
  cases h with
  | connection isOpen | shut => exact ⟨hs.clean, hs.early, hs.late⟩
  | assertOpen hi hopen | notConnected hi hopen => exact tidy_goto hs fun _ => hs.early _ (.inl hi)
  | marshal hi hpacket | plain hi hpacket hmode => exact tidy_goto hs fun _ => hs.early _ (.inr hi)
  | write hi hk => exact tidy_goto hs (by simp [EmitPc.isFailed])
  | sent hi hk =>
    refine tidy_goto hs ?_
    split_ifs <;> simp [EmitPc.isFailed]
  | result hi hanswered => exact tidy_goto hs (by simp [EmitPc.isFailed])
  | writeFails hi hk | context hi | closed hi hclosed | timer hi =>
    exact tidy_goto hs fun _ => hcond
  | expire id => exact tidy_filter hs id
  | @register i pkt id hi hpacket hmode hfresh =>
    -- the new registration belongs to a call that is neither early nor failed
    have hother : ∀ j, j ≠ i → s.Unregistered j → ∀ p ∈ s.pending ++ [(id, i)], p.2 ≠ j := by
      intro j hj hpending p hp
      rcases mem_append.mp hp with hp | hp
      · exact hpending p hp
      · rw [mem_singleton.mp hp]
        exact Ne.symm hj
    have hgoto : Tidy (s.goto i (.writing 0)) := tidy_goto hs (by simp [EmitPc.isFailed])
    refine ⟨?_, ?_, hs.late⟩
    · intro j hj
      have hji : j ≠ i := by
        rintro rfl
        simp [AckState.goto, EmitPc.isFailed] at hj
      exact ⟨hother j hji (hgoto.clean j hj).1, hs.late j⟩
    · intro j hj
      have hji : j ≠ i := by
        rintro rfl
        simp [AckState.goto] at hj
      exact hother j hji (hgoto.early j hj)
  | @ack id i hpending =>
    -- the call has not failed, for otherwise it would not be registered
    have hnot : (s.pc i).isFailed = false := by
      by_contra hfailed
      exact (hs.clean i (by simpa using hfailed)).1 _ hpending rfl
    have hlate : update s.late i (s.late i || (s.pc i).isFailed) = s.late := by
      rw [hnot, Bool.or_false, Function.update_eq_self]
    obtain ⟨hclean, hearly, -⟩ := tidy_filter hs id
    rw [hlate]
    exact ⟨hclean, hearly, hs.late⟩

theorem unregistered_of_clean {err : EmitError} (h : Clean (s.goto i (.failed err))) :
    s.Unregistered i := by
  have hfailed : ((s.goto i (.failed err)).pc i).isFailed = true := by
    rw [s.pc_goto_self]
    rfl
  exact (h i hfailed).1

theorem clean_step_iff (hs : Tidy s) (h : AckStep J calls s e t) : Clean t ↔ FailsUnregistered s e := by
  constructor
  · intro hclean
    cases h with
    | writeFails hi hk | context hi | closed hi hclosed | timer hi =>
      exact unregistered_of_clean hclean
    | _ => trivial
  · intro hcond
    exact (tidy_step h hcond hs).clean

end

/-! ## 3. Results -/

/-- **Failed calls are clean** in every run in which a call fails only while nothing is registered for
it; and the first step that does not keep to that leaves a call that is not. -/
theorem failed_emits_clean_iff (J : Codec S) (calls : Fin n → EmitCall S) {es : List (AckEvent n)}
    {s : AckState n} (h : Run (When FailsUnregistered (AckStep J calls)) {} es s) :
    Clean s ∧ ∀ e t, AckStep J calls s e t → (Clean t ↔ FailsUnregistered s e) := by
  have hnew : Tidy ({} : AckState n) := by
    refine ⟨fun i hi => (by cases hi), fun i _ p hp => absurd hp not_mem_nil, fun _ => rfl⟩
  have hs : Tidy s := by
    refine h.invariant ?_ hnew
    rintro s e t ⟨hcond, hstep⟩ hs
    exact tidy_step hstep hcond hs
  exact ⟨hs.clean, fun e t hstep => clean_step_iff hs hstep⟩

/-- A call of `emitNS` with a callback, and one of `emitWithAckNS`, each with a byte slice. -/
def twoCalls : Fin 2 → EmitCall Leaf := fun i =>
  ⟨twoFiles i, if i.val = 0 then .callback else .wait⟩

theorem twoCalls_packet (i : Fin 2) : ∃ pkt, (twoCalls i).emit.packet Codec.json = some pkt := by
  obtain ⟨h0, h1⟩ := twoFiles_writes
  match i with
  | 0 => exact Emit.exists_packet (i := 0) (by rw [twoCalls, h0]; rfl)
  | 1 => exact Emit.exists_packet (i := 0) (by rw [twoCalls, h1]; rfl)

theorem twoCalls_length (i : Fin 2) : ((twoCalls i).emit.writes Codec.json).length = 2 := by
  obtain ⟨h0, h1⟩ := twoFiles_writes
  match i with
  | 0 => rw [twoCalls, h0]; rfl
  | 1 => rw [twoCalls, h1]; rfl

/-- The first call is acknowledged, and the second one finds that the connection is not open. -/
theorem failed_emits_clean_iff_two :
    ∃ es s, Run (When FailsUnregistered (AckStep Codec.json twoCalls)) {} es s ∧ s.pc 0 = .ok ∧
      s.pc 1 = .failed .notConnected ∧ Clean s ∧
      ∀ e t, AckStep Codec.json twoCalls s e t → (Clean t ↔ FailsUnregistered s e) := by
  obtain ⟨pkt, hpkt⟩ := twoCalls_packet 0
  have hlen := twoCalls_length 0
  obtain ⟨s, hrun, h0, h1⟩ : ∃ s, Run (When FailsUnregistered (AckStep Codec.json twoCalls)) {}
      [.connection, .call 0, .call 0, .call 0, .call 0, .ack 1, .call 0, .connection, .call 1] s ∧
      s.pc 0 = .ok ∧ s.pc 1 = .failed .notConnected :=
    ⟨_, .consWhen (.connection true) trivial <| .consWhen (.assertOpen rfl rfl) trivial <|
      .consWhen (.register 1 rfl hpkt (by decide) fun _ hp => absurd hp not_mem_nil) trivial <|
      .consWhen (.write (k := 0) rfl (by omega)) trivial <|
      .consWhen (.write (k := 1) rfl (by omega)) trivial <|
      .consWhen (.ack (i := 0) mem_cons_self) trivial <|
      .consWhen (.sent (k := 2) rfl (by omega)) trivial <|
      .consWhen (.connection false) trivial <| .consWhen (.notConnected rfl rfl) trivial .nil,
      rfl, rfl⟩
  exact ⟨_, s, hrun, h0, h1, failed_emits_clean_iff Codec.json twoCalls hrun⟩

/-- **A failed call is acknowledged.**  The attachment of the first call cannot be written, and the
context of the second one expires while it waits: both return an error, the callback of the first one
is called all the same, and that of the second one is still registered. -/
theorem failed_emit_acknowledged :
    ∃ es s, Run (AckStep Codec.json twoCalls) {} es s ∧ s.pc 0 = .failed .attachment ∧
      s.late 0 = true ∧ s.pc 1 = .failed .context ∧ s.pending = [(2, 1)] ∧ ¬ Clean s := by
  obtain ⟨pkt, hpkt⟩ := twoCalls_packet 0
  obtain ⟨pkt', hpkt'⟩ := twoCalls_packet 1
  have hlen := twoCalls_length 0
  have hlen' := twoCalls_length 1
  obtain ⟨s, hrun, h0, hlate, h1, hpending⟩ : ∃ s, Run (AckStep Codec.json twoCalls) {}
      [.connection, .call 0, .call 0, .call 0, .fail 0, .ack 1, .call 1, .call 1, .call 1, .call 1,
        .call 1, .fail 1] s ∧ s.pc 0 = .failed .attachment ∧ s.late 0 = true ∧
        s.pc 1 = .failed .context ∧ s.pending = [(2, 1)] :=
    ⟨_, .cons (.connection true) <| .cons (.assertOpen rfl rfl) <|
      .cons (.register 1 rfl hpkt (by decide) fun _ hp => absurd hp not_mem_nil) <|
      .cons (.write (k := 0) rfl (by omega)) <| .cons (.writeFails (k := 1) rfl (by omega)) <|
      .cons (.ack (i := 0) mem_cons_self) <| .cons (.assertOpen rfl rfl) <|
      .cons (.register 2 rfl hpkt' (by decide) fun _ hp => absurd hp not_mem_nil) <|
      .cons (.write (k := 0) rfl (by omega)) <| .cons (.write (k := 1) rfl (by omega)) <|
      .cons (.sent (k := 2) rfl (by omega)) <| .cons (.context rfl) .nil, rfl, rfl, rfl, rfl⟩
  refine ⟨_, s, hrun, h0, hlate, h1, hpending, fun hclean => ?_⟩
  have hfalse := (hclean 0 (by rw [h0]; rfl)).2
  rw [hlate] at hfalse
  cases hfalse

end AoniContrib.SocketIO
