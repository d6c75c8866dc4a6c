/-
# Closing a session

`CloseWithError` takes the write lock before it cancels the context.  An `Enqueue` call waits in its
`select` with the read lock held, for room in the channel or for that context.  So if a channel is
full and such a call waits on it, a `CloseWithError` waits for the call, and the call for the
`CloseWithError`: only an `Accept` from outside helps (`close_deadlocks`).  Where every call that
comes to its `select` finds room for itself and for those already there, a `CloseWithError` can
always go on, or one that it waits for can (`close_progresses`).
-/
import AoniContrib.WebTransport.Session

namespace AoniContrib.WebTransport

open Go Concurrency
open Function (update update_apply)

section
variable {C : Calls}

/-! ## 1. Who waits for whom -/

inductive Thread (C : Calls) where
  | enqueue (j : Fin C.enqueues)
  | accept (i : Fin C.accepts)
  /-- A call of `CloseWithError`, or the control loop. -/
  | closer (c : Closer C)
  | outside
  deriving DecidableEq

def Event.thread : Event C → Thread C
  | .enqueue j => .enqueue j
  | .accept i => .accept i
  | .cas c | .close c => .closer c
  | .reason | .loop => .closer .loop
  | .parent => .outside

def Enabled [Quicvarint] (s : State C) (t : Thread C) : Prop := ∃ e s', Step s e s' ∧ e.thread = t

/-- At `s.mu.Lock()`: first for the writer that has announced itself, then for the readers inside.
Nobody waits for an `Accept` call there. -/
inductive WaitsFor (s : State C) : Thread C → Thread C → Prop where
  | writer {c c'} : s.close c = .lock → s.writer = some c' → WaitsFor s (.closer c) (.closer c')
  | reader {c j} : s.writer = some c → s.inside j → WaitsFor s (.closer c) (.enqueue j)

/-- `CloseWithError` has been called and is not over. -/
def Closing (s : State C) (c : Closer C) : Prop :=
  s.close c ≠ .idle ∧ s.close c ≠ .returned ∧ s.close c ≠ .panicked

/-- The thread, or one that it waits for, can make a step. -/
def Progresses [Quicvarint] (s : State C) (t : Thread C) : Prop :=
  ∃ t', Relation.ReflTransGen (WaitsFor s) t t' ∧ Enabled s t'

/-! ## 2. Room -/

def selecting (enqueue : Fin C.enqueues → EnqueuePc) (k : Kind) : Finset (Fin C.enqueues) :=
  {j | enqueue j = .select ∧ C.enqueued j = k}

/-- A stream that comes to its `select` finds room for itself and for those already there. -/
def HasRoom (s : State C) : Event C → Prop
  | .enqueue j => s.enqueue j = .load → s.closed = false → C.enqueued j ≠ .datagram →
      (s.queue (C.enqueued j)).length + (selecting s.enqueue (C.enqueued j)).card < (C.enqueued j).cap
  | _ => True

/-- What is queued and what waits to be fits into the channel. -/
def Fits (s : State C) : Prop :=
  ∀ k, k ≠ .datagram → (s.queue k).length + (selecting s.enqueue k).card ≤ k.cap

variable {enqueue : Fin C.enqueues → EnqueuePc}

variable {j : Fin C.enqueues}

theorem mem_selecting {k : Kind} :
    j ∈ selecting enqueue k ↔ enqueue j = .select ∧ C.enqueued j = k := by
  simp [selecting]

theorem selecting_leave
    {pc : EnqueuePc} (hpc : pc ≠ .select) (k : Kind) :
    selecting (update enqueue j pc) k = (selecting enqueue k).erase j := by
  ext i
  rw [Finset.mem_erase, mem_selecting, mem_selecting, update_apply]
  grind

theorem selecting_enter (k : Kind) : selecting (update enqueue j .select) k =
      if C.enqueued j = k then insert j (selecting enqueue k) else (selecting enqueue k).erase j := by
  ext i
  split_ifs with hk
  · rw [Finset.mem_insert, mem_selecting, mem_selecting, update_apply]
    grind
  · rw [Finset.mem_erase, mem_selecting, mem_selecting, update_apply]
    grind

theorem fits_new : Fits (State.new C) := by
  intro k _
  have hnone : selecting (State.new C).enqueue k = ∅ := by
    ext j
    simp [mem_selecting, State.new]
  rw [hnone]
  exact Nat.zero_le _

variable [Quicvarint]

theorem fits_step {s t : State C} {e : Event C} (h : When HasRoom Step s e t) (hs : Fits s) :
    Fits t := by
  obtain ⟨hcond, hstep⟩ := h
  -- a call that returns or stays before its `select` waits no longer, on an unchanged channel
  have hleave : ∀ j pc, pc ≠ EnqueuePc.select → Fits { s with enqueue := update s.enqueue j pc } := by
    intro j pc hpc k hk
    simp only [selecting_leave hpc]
    exact le_trans (Nat.add_le_add_left (Finset.card_erase_le) _) (hs k hk)
  cases hstep with
  | rlock | loadClosed | sendClosed | sendCancelled | drop => exact hleave _ _ (by decide)
  | @loadOpen j hj hopen =>
    intro k hk
    simp only [selecting_enter]
    split_ifs with hjk
    · subst hjk
      have hroom := hcond hj hopen hk
      have hcard := Finset.card_insert_le j (selecting s.enqueue (C.enqueued j))
      omega
    · exact le_trans (Nat.add_le_add_left (Finset.card_erase_le) _) (hs k hk)
  | @send j hj _ _ =>
    intro k hk
    have hle := hs k hk
    have hleave : selecting (update s.enqueue j .sent) k = (selecting s.enqueue k).erase j :=
      selecting_leave (by decide) k
    simp only [update_apply, hleave]
    split_ifs with hjk
    · -- the call goes from those that wait to those that are queued
      subst hjk
      have hcard := Finset.card_erase_add_one (mem_selecting.mpr ⟨hj, rfl⟩)
      simp only [List.length_append, List.length_singleton]
      omega
    · exact le_trans (Nat.add_le_add_left (Finset.card_erase_le) _) hle
  | @acceptItem i j rest _ hqueue =>
    intro k hk
    have hle := hs k hk
    simp only [update_apply]
    split_ifs with hki
    · subst hki
      rw [hqueue, List.length_cons] at hle
      omega
    · exact hle
  | _ => exact hs

/-! ## 3. Progress -/

section
variable {s : State C}

theorem enabled_inside (hfits : Fits s) {j : Fin C.enqueues} (hj : s.inside j) :
    Enabled s (.enqueue j) := by
  rcases hj with hload | hselect
  · cases hclosed : s.closed with
    | true => exact ⟨_, _, .loadClosed hload hclosed, rfl⟩
    | false => exact ⟨_, _, .loadOpen hload hclosed, rfl⟩
  · cases hchan : s.chanClosed with
    | true => exact ⟨_, _, .sendClosed hselect hchan, rfl⟩
    | false =>
      by_cases hroom : (s.queue (C.enqueued j)).length < (C.enqueued j).cap
      · exact ⟨_, _, .send hselect hchan hroom, rfl⟩
      · by_cases hkind : C.enqueued j = .datagram
        · exact ⟨_, _, .drop hselect hkind hchan hroom, rfl⟩
        · have hpos : 0 < (selecting s.enqueue (C.enqueued j)).card :=
            Finset.card_pos.mpr ⟨j, mem_selecting.mpr ⟨hselect, rfl⟩⟩
          have hle := hfits _ hkind
          omega

variable {c : Closer C}

theorem progresses_writer (hwf : WellFormed s) (hfits : Fits s)
    (hwriter : s.writer = some c) : Progresses s (.closer c) := by
  by_cases hinside : ∃ j, s.inside j
  · obtain ⟨j, hj⟩ := hinside
    exact ⟨.enqueue j, .single (.reader hwriter hj), enabled_inside hfits hj⟩
  · have hnone : ∀ j, ¬ s.inside j := not_exists.mp hinside
    rcases hwf.writer c hwriter with hwaiting | ⟨rfl, err, hwaiting⟩
    · exact ⟨_, .refl, _, _, .locked hwaiting hnone, rfl⟩
    · exact ⟨_, .refl, _, _, .loopReason hwaiting hnone, rfl⟩

theorem progresses_closing (hwf : WellFormed s) (hfits : Fits s)
    (hclosing : Closing s c) : Progresses s (.closer c) := by
  obtain ⟨hidle, hreturned, hpanicked⟩ := hclosing
  cases hpc : s.close c with
  | idle => exact absurd hpc hidle
  | returned => exact absurd hpc hreturned
  | panicked => exact absurd hpc hpanicked
  | cas =>
    cases hclosed : s.closed with
    | false => exact ⟨_, .refl, _, _, .casWon hpc hclosed, rfl⟩
    | true => exact ⟨_, .refl, _, _, .casLost hpc hclosed, rfl⟩
  | lock =>
    cases hwriter : s.writer with
    | none => exact ⟨_, .refl, _, _, .announce hpc hwriter, rfl⟩
    | some c' =>
      obtain ⟨t, hwaits, henabled⟩ := progresses_writer hwf hfits hwriter
      exact ⟨t, .head (.writer hpc hwriter) hwaits, henabled⟩
  | waiting => exact progresses_writer hwf hfits (hwf.waiting c hpc)
  | cancel => exact ⟨_, .refl, _, _, .cancel hpc, rfl⟩
  | encode =>
    rcases Option.eq_none_or_eq_some C.control with hcontrol | ⟨r, hcontrol⟩
    · exact ⟨_, .refl, _, _, .encodeUnsent hpc hcontrol, rfl⟩
    · have hsome : C.control.isSome = true := by rw [hcontrol]; rfl
      cases hcapsule : encodeCloseSessionCapsule c.reason 512 with
      | none => exact ⟨_, .refl, _, _, .encodePanic hpc hsome hcapsule, rfl⟩
      | some capsule => exact ⟨_, .refl, _, _, .encode hpc hsome hcapsule, rfl⟩

/-- **Closing goes on**: in every run in which each stream that comes to its `select` finds room for
itself and for those already there, a `CloseWithError` that has begun and is not over can make a
step, or one that it waits for can. -/
theorem close_progresses {es : List (Event C)} (h : Run (When HasRoom Step) (State.new C) es s)
    (c : Closer C) (hclosing : Closing s c) : Progresses s (.closer c) := by
  have hfits : Fits s := h.invariant (fun _ _ _ => fits_step) fits_new
  exact progresses_closing (wellFormed_of_run h.unrestricted) hfits hclosing

end

/-! ## 4. A full channel -/

variable {s : State C} {k : Fin C.closes} {j : Fin C.enqueues}

theorem not_progresses
    (hclose : s.close (.call k) = .waiting) (hinside : ∀ i, s.inside i ↔ i = j)
    (hselect : s.enqueue j = .select) (hkind : C.enqueued j ≠ .datagram)
    (hfull : ¬ (s.queue (C.enqueued j)).length < (C.enqueued j).cap) (hchan : s.chanClosed = false)
    (hctx : s.ctxDone = false) : ¬ Progresses s (.closer (.call k)) := by
  have hj : s.inside j := (hinside j).mpr rfl
  have hwriter : ¬ Enabled s (.closer (.call k)) := by
    rintro ⟨e, t, hstep, hthread⟩
    cases hstep
    all_goals
      simp only [Event.thread] at hthread
      grind
  have hreader : ¬ Enabled s (.enqueue j) := by
    rintro ⟨e, t, hstep, hthread⟩
    cases hstep
    all_goals
      simp only [Event.thread] at hthread
      grind
  rintro ⟨t, hwaits, henabled⟩
  rcases hwaits.cases_head with rfl | ⟨u, hfirst, hrest⟩
  · exact hwriter henabled
  · cases hfirst with
    | writer hlock _ =>
      rw [hclose] at hlock
      cases hlock
    | @reader c i _ hi =>
      obtain rfl := (hinside i).mp hi
      rcases hrest.cases_head with rfl | ⟨v, hnext, -⟩
      · exact hreader henabled
      · cases hnext

theorem exists_waiting
    (hj : s.enqueue j = .start) (hinside : ∀ i, ¬ s.inside i) (hwriter : s.writer = none)
    (hopen : s.closed = false) (hk : s.close (.call k) = .idle) :
    ∃ t, Run Step s [.enqueue j, .enqueue j, .close (.call k), .cas (.call k), .close (.call k)] t ∧
      t.close (.call k) = .waiting ∧ (∀ i, t.inside i ↔ i = j) ∧ t.enqueue j = .select ∧
      t.queue = s.queue ∧ t.chanClosed = s.chanClosed ∧ t.ctxDone = s.ctxDone := by
  refine ⟨_, .cons (.rlock hj hwriter) <| .cons (.loadOpen (by simp) hopen) <|
    .cons (.begin hk) <| .cons (.casWon (by simp) hopen) <|
    .cons (.announce (by simp) hwriter) .nil, by simp, ?_, by simp, rfl, rfl, rfl⟩
  intro i
  have hi := hinside i
  simp only [State.inside, update_apply] at hi ⊢
  grind

end

/-- Calls that deliver streams while one `CloseWithError` is made. -/
abbrev delivering (n : Nat) : Calls where
  enqueues := n
  closes := 1
  enqueued _ := .bidi
  accepted := Fin.elim0
  reason _ := ⟨0, []⟩

def firstCalls (n m : Nat) : List (Fin n) := (List.finRange n).take m

variable {n m : Nat}

theorem length_firstCalls (h : m ≤ n) : (firstCalls n m).length = m := by
  simp [firstCalls, h]

theorem firstCalls_succ (h : m < n) : firstCalls n (m + 1) = firstCalls n m ++ [⟨m, h⟩] := by
  have hlt : m < (List.finRange n).length := by simpa using h
  rw [firstCalls, ← List.take_concat_get hlt, firstCalls]
  simp

def filled (n m : Nat) : State (delivering n) where
  queue k := if k = .bidi then firstCalls n m else []
  enqueue j := if j.val < m then .sent else .start
  loop := .returned

theorem filled_zero (n : Nat) : State.new (delivering n) = filled n 0 := by
  refine State.ext rfl rfl rfl rfl rfl ?_ rfl ?_ rfl rfl rfl rfl
  · funext k
    exact (ite_self _).symm
  · funext j
    simp [State.new, filled]

theorem filled_succ (hn : m < n) (hm : m < 256) :
    Run Step (filled n m) [.enqueue ⟨m, hn⟩, .enqueue ⟨m, hn⟩, .enqueue ⟨m, hn⟩]
      (filled n (m + 1)) := by
  have hstart : (filled n m).enqueue ⟨m, hn⟩ = .start := if_neg (lt_irrefl m)
  have hroom : ((filled n m).queue .bidi).length < 256 := lt_of_eq_of_lt (length_firstCalls hn.le) hm
  refine Eq.mp (congrArg (Run Step (filled n m) _) ?_) (.cons (.rlock hstart rfl) <|
    .cons (.loadOpen (Function.update_self ..) rfl) <|
    .cons (.send (Function.update_self ..) rfl hroom) .nil)
  refine State.ext rfl rfl rfl rfl rfl ?_ rfl ?_ rfl rfl rfl rfl
  · funext k
    cases k with
    | bidi => exact (firstCalls_succ hn).symm
    | uni | datagram => rfl
  · funext j
    simp only [filled, update_apply]
    by_cases hj : j = ⟨m, hn⟩
    · subst hj
      simp
    · have hne : j.val ≠ m := fun h => hj (Fin.ext h)
      rw [if_neg hj, if_neg hj, if_neg hj]
      exact if_congr (by omega) rfl rfl

theorem exists_filled {n : Nat} (hn : n ≤ 257) :
    ∀ m, m ≤ 256 → m ≤ n → ∃ es, Run Step (State.new (delivering n)) es (filled n m)
  | 0, _, _ => ⟨[], filled_zero n ▸ .nil⟩
  | m + 1, hm, hmn =>
    let ⟨es, h⟩ := exists_filled hn m (by omega) (by omega)
    ⟨_, h.append (filled_succ (by omega) (by omega))⟩

theorem close_progresses_delivering : ∃ es s,
    Run (When HasRoom Step) (State.new (delivering 1)) es s ∧ Closing s (.call 0) ∧ s.inside 0 ∧
      Progresses s (.closer (.call 0)) := by
  have hroom : ∀ enqueue : Fin 1 → EnqueuePc,
      0 + (selecting (C := delivering 1) enqueue .bidi).card < 256 := by
    intro enqueue
    have hle := Finset.card_le_univ (selecting (C := delivering 1) enqueue .bidi)
    simp only [Fintype.card_fin] at hle
    omega
  obtain ⟨s, hrun, hclosing, hinside⟩ : ∃ s, Run (When HasRoom Step) (State.new (delivering 1))
        [.enqueue 0, .enqueue 0, .close (.call 0), .cas (.call 0), .close (.call 0)] s ∧
      Closing s (.call 0) ∧ s.inside 0 :=
    ⟨_, .consWhen (.rlock rfl rfl) (fun h => by cases h) <|
      .consWhen (.loadOpen (by simp) rfl) (fun _ _ _ => hroom _) <|
      .consWhen (.begin rfl) trivial <| .consWhen (.casWon (by simp) rfl) trivial <|
      .consWhen (.announce (by simp) rfl) trivial .nil, by simp [Closing], by simp [State.inside]⟩
  exact ⟨_, s, hrun, hclosing, hinside, close_progresses hrun _ hclosing⟩

/-- **A `CloseWithError` that deadlocks.**  256 streams are queued, the 257th waits in its `select`
with the read lock, and the `CloseWithError` waits for the write lock: neither can make a step. -/
theorem close_deadlocks : ∃ es s, Run Step (State.new (delivering 257)) es s ∧
    Closing s (.call 0) ∧ ¬ Progresses s (.closer (.call 0)) := by
  obtain ⟨es, hrun⟩ := exists_filled (n := 257) le_rfl 256 le_rfl (by decide)
  have hinside : ∀ i, ¬ (filled 257 256).inside i := by
    intro i
    simp only [State.inside, filled]
    grind
  obtain ⟨t, hrun', hclose, hin, hselect, hqueue, hchan, hctx⟩ :=
    exists_waiting (s := filled 257 256) (j := 256) (k := 0) rfl hinside rfl rfl rfl
  refine ⟨_, t, hrun.append hrun', by simp [Closing, hclose], ?_⟩
  refine not_progresses hclose hin hselect (by decide) ?_ hchan hctx
  rw [hqueue]
  exact (length_firstCalls (n := 257) (m := 256) (by decide)).not_lt

end AoniContrib.WebTransport
