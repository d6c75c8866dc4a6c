/-
# Who owns an incoming stream

A stream handed to an `Enqueue` call is closed by that call, or waits in its queue, or has been returned
by one `Accept` call.  The channels are closed under the write lock, when no `Enqueue` call is inside,
and only by the one `CloseWithError` that won the compare-and-swap, so nothing is sent on a closed
channel and no channel is closed twice.  But `CloseWithError` does not look at what is QUEUED: a stream
that waits there and is not accepted afterwards stays open (`queued_stream_leaked`).  With empty
queues at that moment every stream is accounted for (`streams_accounted`).
-/
import AoniContrib.WebTransport.Session

namespace AoniContrib.WebTransport

open Go Concurrency List
open Function (update update_apply)

variable {C : Calls}

/-! ## 1. Ownership -/

/-- Who owns a stream: its queue or at most one `Accept` call, and only if the call that brought it
has sent it. -/
structure Owned (s : State C) : Prop where
  nodup : ∀ k, (s.queue k).Nodup
  queued : ∀ k, ∀ j ∈ s.queue k, C.enqueued j = k ∧ s.enqueue j = .sent
  taken : ∀ i j, s.accept i = .returned (.item j) → s.enqueue j = .sent ∧ ∀ k, j ∉ s.queue k
  once : ∀ i i' j, s.accept i = .returned (.item j) → s.accept i' = .returned (.item j) → i = i'
  sent : ∀ j, s.enqueue j = .sent → j ∈ s.queue (C.enqueued j) ∨ ∃ i, s.accept i = .returned (.item j)

theorem owned_new : Owned (State.new C) where
  nodup _ := nodup_nil
  queued _ _ h := by cases h
  taken _ _ h := by cases h
  once _ _ _ h := by cases h
  sent _ h := by cases h

variable {s t : State C}

theorem Owned.other (hs : Owned s) (hqueue : t.queue = s.queue)
    (henqueue : ∀ j, t.enqueue j = .sent ↔ s.enqueue j = .sent)
    (haccept : ∀ i j, t.accept i = .returned (.item j) ↔ s.accept i = .returned (.item j)) :
    Owned t where
  nodup k := hqueue ▸ hs.nodup k
  queued k j hj := by
    obtain ⟨hk, hsent⟩ := hs.queued k j (hqueue ▸ hj)
    exact ⟨hk, (henqueue j).mpr hsent⟩
  taken i j h := by
    obtain ⟨hsent, hnot⟩ := hs.taken i j ((haccept i j).mp h)
    exact ⟨(henqueue j).mpr hsent, hqueue ▸ hnot⟩
  once i i' j h h' := hs.once i i' j ((haccept i j).mp h) ((haccept i' j).mp h')
  sent j h := by
    rw [hqueue]
    rcases hs.sent j ((henqueue j).mp h) with hq | ⟨i, hi⟩
    · exact .inl hq
    · exact .inr ⟨i, (haccept i j).mpr hi⟩

variable {j : Fin C.enqueues}

theorem Owned.send (hs : Owned s) (hj : s.enqueue j = .select) : Owned { s with
      queue := update s.queue (C.enqueued j) (s.queue (C.enqueued j) ++ [j])
      enqueue := update s.enqueue j .sent } := by
  have hfresh : ∀ k, j ∉ s.queue k := by
    intro k hk
    have hsent := (hs.queued k j hk).2
    rw [hj] at hsent
    cases hsent
  have hmem : ∀ k x, x ∈ update s.queue (C.enqueued j) (s.queue (C.enqueued j) ++ [j]) k ↔
      x ∈ s.queue k ∨ x = j ∧ k = C.enqueued j := by
    intro k x
    by_cases hk : k = C.enqueued j
    · subst hk
      simp
    · simp [hk]
  have hsent : ∀ x, s.enqueue x = .sent → update s.enqueue j .sent x = .sent := by
    intro x hx
    by_cases hxj : x = j <;> simp [hxj, hx]
  refine ⟨fun k => ?_, fun k x hx => ?_, fun i x hi => ?_, hs.once, fun x hx => ?_⟩
  · by_cases hk : k = C.enqueued j
    · subst hk
      simp only [Function.update_self]
      rw [nodup_append]
      refine ⟨hs.nodup _, nodup_singleton j, fun a ha b hb => ?_⟩
      rw [mem_singleton.mp hb]
      exact fun hab => hfresh _ (hab ▸ ha)
    · simp only [Function.update_of_ne hk]
      exact hs.nodup k
  · rcases (hmem k x).mp hx with hx | ⟨rfl, rfl⟩
    · obtain ⟨hk, hpc⟩ := hs.queued k x hx
      exact ⟨hk, hsent x hpc⟩
    · exact ⟨rfl, Function.update_self _ _ _⟩
  · obtain ⟨hpc, hnot⟩ := hs.taken i x hi
    refine ⟨hsent x hpc, fun k hk => ?_⟩
    rcases (hmem k x).mp hk with hk | ⟨rfl, -⟩
    · exact hnot k hk
    · rw [hj] at hpc
      cases hpc
  · by_cases hxj : x = j
    · exact .inl ((hmem _ x).mpr (.inr ⟨hxj, by rw [hxj]⟩))
    · simp only [Function.update_of_ne hxj] at hx
      rcases hs.sent x hx with hq | hi
      · exact .inl ((hmem _ x).mpr (.inl hq))
      · exact .inr hi

theorem Owned.acceptItem (hs : Owned s) {i : Fin C.accepts}
    {rest : List (Fin C.enqueues)} (hi : s.accept i = .start)
    (hq : s.queue (C.accepted i) = j :: rest) :
    Owned { s with
      queue := update s.queue (C.accepted i) rest
      accept := update s.accept i (.returned (.item j)) } := by
  have hj : j ∈ s.queue (C.accepted i) := by simp [hq]
  have hnodup := hs.nodup (C.accepted i)
  rw [hq, nodup_cons] at hnodup
  have hsub : ∀ k x, x ∈ update s.queue (C.accepted i) rest k → x ∈ s.queue k ∧ x ≠ j := by
    intro k x hx
    by_cases hk : k = C.accepted i
    · subst hk
      simp only [Function.update_self] at hx
      refine ⟨by rw [hq]; exact mem_cons_of_mem _ hx, ?_⟩
      rintro rfl
      exact hnodup.1 hx
    · simp only [Function.update_of_ne hk] at hx
      refine ⟨hx, ?_⟩
      rintro rfl
      exact hk ((hs.queued k x hx).1.symm.trans (hs.queued _ x hj).1)
  have haccept : ∀ i' x, update s.accept i (.returned (.item j)) i' = .returned (.item x) ↔
      i' = i ∧ x = j ∨ i' ≠ i ∧ s.accept i' = .returned (.item x) := by
    intro i' x
    by_cases hii : i' = i
    · subst hii
      simp [eq_comm]
    · simp [hii]
  refine ⟨fun k => ?_, fun k x hx => hs.queued k x (hsub k x hx).1, fun i' x h => ?_,
    fun i₁ i₂ x h₁ h₂ => ?_, fun x hx => ?_⟩
  · by_cases hk : k = C.accepted i
    · subst hk
      simp only [Function.update_self]
      exact hnodup.2
    · simp only [Function.update_of_ne hk]
      exact hs.nodup k
  · rcases (haccept i' x).mp h with ⟨-, rfl⟩ | ⟨-, h⟩
    · exact ⟨(hs.queued _ x hj).2, fun k hk => (hsub k x hk).2 rfl⟩
    · obtain ⟨hsent, hnot⟩ := hs.taken i' x h
      exact ⟨hsent, fun k hk => hnot k (hsub k x hk).1⟩
  · rcases (haccept i₁ x).mp h₁ with ⟨rfl, rfl⟩ | ⟨-, hold₁⟩
    · rcases (haccept i₂ x).mp h₂ with ⟨rfl, -⟩ | ⟨-, hold₂⟩
      · rfl
      · exact absurd hj ((hs.taken i₂ x hold₂).2 _)
    · rcases (haccept i₂ x).mp h₂ with ⟨-, rfl⟩ | ⟨-, hold₂⟩
      · exact absurd hj ((hs.taken i₁ x hold₁).2 _)
      · exact hs.once i₁ i₂ x hold₁ hold₂
  · by_cases hxj : x = j
    · exact .inr ⟨i, (haccept i x).mpr (.inl ⟨rfl, hxj⟩)⟩
    · rcases hs.sent x hx with hxq | ⟨i', hi'⟩
      · refine .inl ?_
        by_cases hk : C.enqueued x = C.accepted i
        · rw [hk, hq, mem_cons] at hxq
          simp only [hk, Function.update_self]
          exact hxq.resolve_left hxj
        · simp only [Function.update_of_ne hk]
          exact hxq
      · refine .inr ⟨i', (haccept i' x).mpr (.inr ⟨?_, hi'⟩)⟩
        rintro rfl
        rw [hi] at hi'
        cases hi'

variable {e : Event C}

theorem owned_step [Quicvarint] (h : Step s e t) (hs : Owned s) : Owned t := by
  cases h with
  | send hj _ _ => exact hs.send hj
  | acceptItem hi hq => exact hs.acceptItem hi hq
  | rlock | loadClosed | loadOpen | sendClosed | sendCancelled | drop =>
    refine hs.other rfl (fun x => ?_) fun _ _ => Iff.rfl
    grind
  | acceptClosed | acceptCtx | acceptDone | acceptCancelled =>
    refine hs.other rfl (fun _ => Iff.rfl) fun x y => ?_
    grind
  | _ => exact hs.other rfl (fun _ => Iff.rfl) fun _ _ => Iff.rfl

/-! ## 2. The channels -/

def AboutToClose (s : State C) (c : Closer C) : Prop := s.close c = .lock ∨ s.close c = .waiting

/-- Who closes the channels, and that nobody sends on them afterwards. -/
structure Guarded (s : State C) : Prop where
  flag : s.chanClosed = true → s.closed = true
  inside : s.chanClosed = true → ∀ j, s.enqueue j ≠ .select
  never : ∀ j, s.enqueue j ≠ .panicked
  closing : ∀ c, AboutToClose s c → s.closed = true ∧ s.chanClosed = false
  one : ∀ c c', AboutToClose s c → AboutToClose s c' → c = c'
  due : s.closed = true → s.chanClosed = false → ∃ c, AboutToClose s c

theorem guarded_new : Guarded (State.new C) where
  flag h := by cases h
  inside h := by cases h
  never _ h := by cases h
  closing _ h := by rcases h with h | h <;> cases h
  one _ _ h := by rcases h with h | h <;> cases h
  due h := by cases h

theorem Guarded.other (hs : Guarded s) (hclosed : t.closed = s.closed)
    (hchan : t.chanClosed = s.chanClosed) (hclose : ∀ c, AboutToClose t c ↔ AboutToClose s c)
    (hselect : s.chanClosed = true → ∀ j, t.enqueue j ≠ .select) (hnever : ∀ j, t.enqueue j ≠ .panicked) :
    Guarded t where
  flag h := by
    rw [hclosed]
    exact hs.flag (hchan ▸ h)
  inside h := hselect (hchan ▸ h)
  never := hnever
  closing c h := by
    rw [hclosed, hchan]
    exact hs.closing c ((hclose c).mp h)
  one c c' h h' := hs.one c c' ((hclose c).mp h) ((hclose c').mp h')
  due h h' := by
    obtain ⟨c, hc⟩ := hs.due (hclosed ▸ h) (hchan ▸ h')
    exact ⟨c, (hclose c).mpr hc⟩

variable {c : Closer C}

theorem Guarded.casWon (hs : Guarded s)
    (hopen : s.closed = false) :
    Guarded { s with closed := true, close := update s.close c .lock } := by
  have hchan : s.chanClosed = false := by
    by_contra h
    rw [Bool.not_eq_false] at h
    rw [hs.flag h] at hopen
    cases hopen
  have hnone : ∀ c', ¬ AboutToClose s c' := by
    intro c' h
    rw [(hs.closing c' h).1] at hopen
    cases hopen
  have honly : ∀ c', AboutToClose { s with closed := true, close := update s.close c .lock } c' ↔ c' = c := by
    intro c'
    unfold AboutToClose
    by_cases hc : c' = c
    · simp [hc]
    · have h := hnone c'
      unfold AboutToClose at h
      simp [hc, h]
  refine ⟨fun _ => rfl, hs.inside, hs.never, fun _ _ => ⟨rfl, hchan⟩, fun c₁ c₂ h₁ h₂ => ?_,
    fun _ _ => ⟨c, (honly c).mpr rfl⟩⟩
  rw [(honly c₁).mp h₁, (honly c₂).mp h₂]

theorem Guarded.locked (hs : Guarded s) (hc : s.close c = .waiting)
    (hout : ∀ j, ¬ s.inside j) :
    Guarded { s with
        writer := none
        closeErr := some c.reason
        chanClosed := true
        close := update s.close c .cancel } := by
  have hclosing : AboutToClose s c := .inr hc
  have hnone : ∀ c', ¬ AboutToClose { s with
        writer := none
        closeErr := some c.reason
        chanClosed := true
        close := update s.close c .cancel } c' := by
    intro c' h
    unfold AboutToClose at h
    by_cases hcc : c' = c
    · simp [hcc] at h
    · simp only [Function.update_of_ne hcc] at h
      exact hcc (hs.one c' c h hclosing)
  exact ⟨fun _ => (hs.closing c hclosing).1, fun _ j hj => hout j (.inr hj), hs.never,
    fun c' h => absurd h (hnone c'), fun c' _ h => absurd h (hnone c'), fun _ h => by cases h⟩

theorem guarded_step [Quicvarint] (h : Step s e t) (hwf : WellFormed s) (hs : Guarded s) : Guarded t := by
  cases h with
  | casWon hc hopen => exact hs.casWon hopen
  | locked hc hout => exact hs.locked hc hout
  | sendClosed hj hchan => exact absurd hj (hs.inside hchan _)
  | rlock hj | loadClosed hj | send hj | sendCancelled hj | drop hj =>
    refine hs.other rfl rfl (fun _ => Iff.rfl) (fun hchan x => ?_) fun x => ?_
    · have h := hs.inside hchan x
      simp only [update_apply]
      split_ifs <;> simp_all
    · have h := hs.never x
      simp only [update_apply]
      split_ifs <;> simp_all
  | loadOpen hj hopen =>
    refine hs.other rfl rfl (fun _ => Iff.rfl) (fun hchan x => ?_) fun x => ?_
    · rw [hs.flag hchan] at hopen
      cases hopen
    · have h := hs.never x
      simp only [update_apply]
      split_ifs <;> simp_all
  | begin hc | casLost hc | announce hc | cancel hc | encodeUnsent hc | encode hc | encodePanic hc =>
    refine hs.other rfl rfl (fun c' => ?_) hs.inside hs.never
    unfold AboutToClose
    simp only [update_apply]
    split_ifs <;> simp_all
  | loopCloseInvalid hloop | loopReason hloop =>
    refine hs.other rfl rfl (fun c' => ?_) hs.inside hs.never
    have hidle : s.close .loop = .idle := by
      rcases hwf.loop with h | h | h
      · exact h
      · rw [hloop] at h
        cases h
      · rw [hloop] at h
        cases h
    unfold AboutToClose
    simp only [update_apply]
    split_ifs <;> simp_all
  | _ => exact hs.other rfl rfl (fun _ => Iff.rfl) hs.inside hs.never

/-! ## 3. Nothing is leaked if nothing is queued -/

/-- The section of a `CloseWithError` that closes the channels is entered with no stream queued. -/
def NoneQueued (s : State C) (e : Event C) : Prop :=
  ∀ c, e = .close c → s.close c = .waiting → s.queue .bidi = [] ∧ s.queue .uni = []

structure Accounts (s : State C) : Prop where
  wf : WellFormed s
  owned : Owned s
  guarded : Guarded s
  empty : s.chanClosed = true → ∀ k, k ≠ .datagram → s.queue k = []

theorem accounts_new : Accounts (State.new C) :=
  ⟨wellFormed_new, owned_new, guarded_new, fun _ _ _ => rfl⟩

theorem empty_step [Quicvarint] (h : Step s e t) (hcond : NoneQueued s e)
    (hs : s.chanClosed = true → ∀ k, k ≠ .datagram → s.queue k = []) :
    t.chanClosed = true → ∀ k, k ≠ .datagram → t.queue k = [] := by
  intro hchan k hk
  cases h with
  | send hj hopen _ =>
    rw [hopen] at hchan
    cases hchan
  | acceptItem hi hq =>
    have hempty := hs hchan k hk
    simp only [update_apply]
    split_ifs with hkind
    · rw [hkind, hq] at hempty
      cases hempty
    · exact hempty
  | locked hc hout =>
    obtain ⟨hbidi, huni⟩ := hcond _ rfl hc
    cases k with
    | bidi => exact hbidi
    | uni => exact huni
    | datagram => exact absurd rfl hk
  | _ => exact hs hchan k hk

theorem accounts_step [Quicvarint] (h : When NoneQueued Step s e t) (hs : Accounts s) : Accounts t :=
  ⟨wellFormed_step h.2 hs.wf, owned_step h.2 hs.owned, guarded_step h.2 hs.wf hs.guarded,
    empty_step h.2 h.1 hs.empty⟩

/-- Every call has returned, and so has the `Close` of the loop if there was one. -/
structure AllReturned (s : State C) : Prop where
  enqueues : ∀ j, s.enqueue j = .sent ∨ s.enqueue j = .rejected ∨ s.enqueue j = .panicked
  accepts : ∀ i, ∃ a, s.accept i = .returned a
  closes : ∀ k, s.close (.call k) = .returned ∨ s.close (.call k) = .panicked
  loop : s.close .loop = .idle ∨ s.close .loop = .returned ∨ s.close .loop = .panicked

/-- The stream has been returned by exactly one `Accept` call, or its `Enqueue` call has closed it. -/
def Settled (s : State C) (j : Fin C.enqueues) : Prop :=
  (∃! i, s.accept i = .returned (.item j)) ∨ s.enqueue j = .rejected

theorem Guarded.chanClosed_of_returned (hs : Guarded s) (hret : AllReturned s)
    (hclosed : s.closed = true) : s.chanClosed = true := by
  by_contra hopen
  obtain ⟨c, hc⟩ := hs.due hclosed (Bool.eq_false_iff.mpr hopen)
  unfold AboutToClose at hc
  cases c with
  | call k => rcases hret.closes k with h | h <;> rw [h] at hc <;> simp at hc
  | loop => rcases hret.loop with h | h | h <;> rw [h] at hc <;> simp at hc

/-- **No stream is leaked and nothing panics**, in every run in which the channels are closed with no
stream queued: no `Enqueue` call sends on a closed channel, the channels are closed once, and when all
calls have returned on a closed session every stream is settled. -/
theorem streams_accounted [Quicvarint] {es : List (Event C)} {s : State C}
    (h : Run (When NoneQueued Step) (State.new C) es s) :
    (∀ j, s.enqueue j ≠ .panicked) ∧ (∀ c, s.close c = .waiting → s.chanClosed = false) ∧
      (AllReturned s → s.closed = true → ∀ j, C.enqueued j ≠ .datagram → Settled s j) := by
  have hs : Accounts s := h.invariant (fun _ _ _ => accounts_step) accounts_new
  refine ⟨hs.guarded.never, fun c hc => (hs.guarded.closing c (.inr hc)).2, fun hret hclosed j hj => ?_⟩
  have hchan := hs.guarded.chanClosed_of_returned hret hclosed
  rcases hret.enqueues j with hsent | hrej | hpanic
  · rcases hs.owned.sent j hsent with hq | ⟨i, hi⟩
    · rw [hs.empty hchan _ hj] at hq
      cases hq
    · exact .inl ⟨i, hi, fun i' hi' => hs.owned.once i' i j hi' hi⟩
  · exact .inr hrej
  · exact absurd hpanic (hs.guarded.never j)

namespace Example

/-- One stream comes in, the application asks for one at most, and closes the session. -/
def oneStream (accepts : Nat) : Calls where
  enqueues := 1
  accepts := accepts
  closes := 1
  enqueued _ := .bidi
  accepted _ := .bidi
  reason _ := ⟨0, []⟩

theorem allReturned_one {n : Nat} {s : State (oneStream n)} (hsent : s.enqueue (0 : Fin 1) = .sent)
    (haccept : ∀ i, ∃ a, s.accept i = .returned a) (hclose : s.close (.call (0 : Fin 1)) = .returned)
    (hloop : s.close .loop = .idle) : AllReturned s := by
  refine ⟨fun j => ?_, haccept, fun k => ?_, .inl hloop⟩
  · obtain rfl : j = (0 : Fin 1) := Fin.fin_one_eq_zero j
    exact .inl hsent
  · obtain rfl : k = (0 : Fin 1) := Fin.fin_one_eq_zero k
    exact .inl hclose

theorem outside_one {n : Nat} {s : State (oneStream n)} (hsent : s.enqueue (0 : Fin 1) = .sent) :
    ∀ j, ¬ s.inside j := by
  intro j hinside
  obtain rfl : j = (0 : Fin 1) := Fin.fin_one_eq_zero j
  rcases hinside with h | h <;> rw [hsent] at h <;> cases h

end Example

open Example in
theorem streams_accounted_accepted : ∃ es s, Run (When NoneQueued Step) (State.new (oneStream 1)) es s ∧
    AllReturned s ∧ s.closed = true ∧ Settled s (0 : Fin 1) := by
  have hother : ∀ {s : State (oneStream 1)} {e}, (∀ c, e ≠ .close c) → NoneQueued s e :=
    fun hne c he => absurd he (hne c)
  have hrun : Run (When NoneQueued Step) (State.new (oneStream 1)) _ _ :=
    .consWhen (.rlock (j := (0 : Fin 1)) rfl rfl) (hother (by simp)) <|
      .consWhen (.loadOpen (j := (0 : Fin 1)) rfl rfl) (hother (by simp)) <|
      .consWhen (.send (j := (0 : Fin 1)) rfl rfl (by decide)) (hother (by simp)) <|
      .consWhen (.acceptItem (i := (0 : Fin 1)) rfl rfl) (hother (by simp)) <|
      .consWhen (.begin (k := (0 : Fin 1)) rfl) (fun _ _ _ => ⟨rfl, rfl⟩) <|
      .consWhen (.casWon (c := .call (0 : Fin 1)) (by simp) rfl) (hother (by simp)) <|
      .consWhen (.announce (c := .call (0 : Fin 1)) (by simp) rfl) (fun _ _ _ => ⟨rfl, rfl⟩) <|
      .consWhen (.locked (c := .call (0 : Fin 1)) (by simp) (by exact outside_one rfl)) (fun _ _ _ => ⟨rfl, rfl⟩) <|
      .consWhen (.cancel (c := .call (0 : Fin 1)) (by simp)) (fun _ _ _ => ⟨rfl, rfl⟩) <|
      .consWhen (.encodeUnsent (c := .call (0 : Fin 1)) (by simp) rfl) (fun _ _ _ => ⟨rfl, rfl⟩) .nil
  have haccept : ∀ {s : State (oneStream 1)}, s.accept (0 : Fin 1) = .returned (.item (0 : Fin 1)) →
      ∀ i, ∃ a, s.accept i = .returned a := by
    intro s h i
    obtain rfl : i = (0 : Fin 1) := Fin.fin_one_eq_zero i
    exact ⟨_, h⟩
  refine ⟨_, _, hrun, allReturned_one rfl (haccept rfl) (by simp) (by simp [State.new]), rfl, ?_⟩
  exact (streams_accounted hrun).2.2 (allReturned_one rfl (haccept rfl) (by simp) (by simp [State.new])) rfl _
    (by decide)

open Example in
/-- **A queued stream is leaked**: nobody asks for it, the session is closed, all calls have
returned, and the stream is neither accepted nor closed. -/
theorem queued_stream_leaked : ∃ es s, Run Step (State.new (oneStream 0)) es s ∧
    AllReturned s ∧ s.closed = true ∧ ¬ Settled s (0 : Fin 1) := by
  have hrun : Run Step (State.new (oneStream 0)) _ _ := .cons (.rlock (j := (0 : Fin 1)) rfl rfl) <|
      .cons (.loadOpen (j := (0 : Fin 1)) rfl rfl) <|
      .cons (.send (j := (0 : Fin 1)) rfl rfl (by decide)) <|
      .cons (.begin (k := (0 : Fin 1)) rfl) <|
      .cons (.casWon (c := .call (0 : Fin 1)) (by simp) rfl) <|
      .cons (.announce (c := .call (0 : Fin 1)) (by simp) rfl) <|
      .cons (.locked (c := .call (0 : Fin 1)) (by simp) (by exact outside_one rfl)) <|
      .cons (.cancel (c := .call (0 : Fin 1)) (by simp)) <|
      .cons (.encodeUnsent (c := .call (0 : Fin 1)) (by simp) rfl) .nil
  refine ⟨_, _, hrun, allReturned_one rfl (fun i => Fin.elim0 i) (by simp) (by simp [State.new]), rfl, ?_⟩
  rintro (⟨i, -, -⟩ | hrejected)
  · exact Fin.elim0 i
  · cases hrejected

end AoniContrib.WebTransport
