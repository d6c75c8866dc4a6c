/-
# Why a `reconnectLoop` returns

A `reconnectLoop` is to return when it has reconnected, or when so many attempts in a row have failed as
the configuration allows.  It also returns when it finds the channel in `s.closed` closed, which is meant
for `Close`.  But a `heartbeatLoop` whose ping is not answered closes that channel too, before it closes
the connection: the `reconnectLoop` that follows returns without having dialled
(`abandoned_after_ping_timeout`).

Without ping timeouts, and without `Close`, every return has its reason (`returns_for_a_reason`).  The
counter behind it is shared: that it counts the failures of the loop that looks at it is an invariant of
the state and of the run so far (`Accounts`).
-/
import AoniContrib.SocketIO.Threads

namespace AoniContrib.SocketIO.Threads

open Function Concurrency List

/-! ## 1. The accounts of a loop -/

def Act.Fails (a : Act) : Prop := a = .dial false ∨ a = .handshake false

instance (a : Act) : Decidable a.Fails := inferInstanceAs (Decidable (_ ∨ _))

def failures (i : Nat) (as : List (Nat × Act)) : Nat := as.countP fun l => l.1 = i ∧ l.2.Fails

theorem failures_snoc_of_ne {i j : Nat} (h : j ≠ i) (as : List (Nat × Act)) (a : Act) :
    failures j (as ++ [(i, a)]) = failures j as := by
  simp [failures, countP_append, h.symm]

theorem failures_snoc (i : Nat) (as : List (Nat × Act)) (a : Act) :
    failures i (as ++ [(i, a)]) = failures i as + if a.Fails then 1 else 0 := by
  simp [failures, countP_append, countP_singleton]

theorem failures_eq_zero {i : Nat} {as : List (Nat × Act)} (h : ∀ a, (i, a) ∉ as) :
    failures i as = 0 := by
  refine countP_eq_zero.mpr ?_
  rintro ⟨j, a⟩ hl hfails
  obtain ⟨rfl, -⟩ := of_decide_eq_true hfails
  exact h a hl

/-- What a loop may return for: it has reconnected, or has failed so often without a success. -/
def Reason (cfg : Config) (i : Nat) (as : List (Nat × Act)) : Prop :=
  (i, .open) ∈ as ∨
    0 < cfg.reconnectionAttempts ∧ cfg.reconnectionAttempts ≤ failures i as ∧ (i, .handshake true) ∉ as

/-- By how much `attemptCount` is ahead of the failures, before the first success. -/
def ReconnectPc.ahead : ReconnectPc → Option Nat
  | .check | .polling _ | .sleep | .sleeping _ | .count | .closing _ | .failing => some 0
  | .dialing | .store _ | .reset _ | .handshake _ => some 1
  | _ => none

def ReconnectPc.Dialed : ReconnectPc → Prop
  | .store _ | .reset _ | .handshake _ | .closing _ | .failing | .opening => True
  | .resetCount | .startRead | .startHeartbeat | .returned => True
  | _ => False

def ReconnectPc.Opened : ReconnectPc → Prop
  | .resetCount | .startRead | .startHeartbeat => True
  | _ => False

/-- What the run so far says of loop `i`; `n` is `attemptCount`. -/
structure Ledger (cfg : Config) (as : List (Nat × Act)) (n i : Nat) (pc : ReconnectPc) : Prop where
  counted : ∀ d, pc.ahead = some d → n = failures i as + d ∧ (i, .handshake true) ∉ as
  dialed : pc.Dialed → ∃ ok, (i, .dial ok) ∈ as
  opened : pc.Opened → (i, .open) ∈ as
  cleared : pc = .startRead → n = 0
  reason : pc = .returned → Reason cfg i as

variable {cfg : Config} {as : List (Nat × Act)} {i n : Nat} {pc pc' : ReconnectPc}

theorem Ledger.quiet (h : Ledger cfg as n i pc) {a : Act} (ha : ¬ a.Fails) (ha' : a ≠ .handshake true)
    (hahead : ∀ d, pc'.ahead = some d → pc.ahead = some d) (hdialed : pc'.Dialed → pc.Dialed)
    (hopened : pc'.Opened → pc.Opened) (hread : pc' ≠ .startRead) (hret : pc' ≠ .returned) :
    Ledger cfg (as ++ [(i, a)]) n i pc' where
  counted d hd := by
    obtain ⟨hn, hnot⟩ := h.counted d (hahead d hd)
    rw [failures_snoc, if_neg ha]
    refine ⟨hn, ?_⟩
    simp [hnot, ha'.symm]
  dialed hd := by
    obtain ⟨ok, hdial⟩ := h.dialed (hdialed hd)
    exact ⟨ok, mem_append_left _ hdial⟩
  opened ho := mem_append_left _ (h.opened (hopened ho))
  cleared hr := absurd hr hread
  reason hr := absurd hr hret

theorem mem_snoc {α : Type*} (as : List α) (a : α) : a ∈ as ++ [a] :=
  mem_append_right _ (mem_singleton_self a)

theorem Ledger.fails (h : Ledger cfg as n i pc) {a : Act} (ha : a.Fails) (hahead : pc.ahead = some 1)
    (hahead' : pc'.ahead = some 0) (hdial : ∃ ok, (i, Act.dial ok) ∈ as ++ [(i, a)])
    (hopened : ¬ pc'.Opened) (hread : pc' ≠ .startRead) (hret : pc' ≠ .returned) :
    Ledger cfg (as ++ [(i, a)]) n i pc' where
  counted d hd := by
    obtain ⟨hn, hnot⟩ := h.counted 1 hahead
    have hne : a ≠ .handshake true := by
      rintro rfl
      exact absurd ha (by decide)
    rw [hahead'] at hd
    rw [failures_snoc, if_pos ha, ← Option.some.inj hd]
    refine ⟨hn, ?_⟩
    simp [hnot, hne.symm]
  dialed _ := hdial
  opened ho := absurd ho hopened
  cleared hr := absurd hr hread
  reason hr := absurd hr hret

/-- **One step of the loop**, while no channel is closed. -/
theorem Ledger.move {s s' : Shared} {a : Act} {y : Option Thread}
    (h : Ledger cfg as s.attemptCount i pc) (hmove : ReconnectMove cfg s pc a s' pc' y)
    (hopen : ∀ g, s.shut g = false) : Ledger cfg (as ++ [(i, a)]) s'.attemptCount i pc' := by
  cases hmove with
  | check => exact h.quiet (by decide) nofun (fun _ => id) id id nofun nofun
  | @checkClosed g hshut =>
    rw [hopen g] at hshut
    cases hshut
  | checkOpen | sleep => exact h.quiet (by decide) nofun (fun _ => id) id id nofun nofun
  | @sleepClosed g hshut =>
    rw [hopen g] at hshut
    cases hshut
  | timer => exact h.quiet (by decide) nofun (fun _ => id) id id nofun nofun
  | count =>
    obtain ⟨hn, hnot⟩ := h.counted 0 rfl
    refine ⟨fun d hd => ?_, False.elim, False.elim, nofun, nofun⟩
    rw [← Option.some.inj hd, failures_snoc, if_neg (by decide)]
    refine ⟨congrArg (· + 1) hn, ?_⟩
    simp [hnot]
  | dialFailed => exact h.fails (by decide) rfl rfl ⟨false, mem_snoc _ _⟩ id nofun nofun
  | dialed =>
    obtain ⟨hn, hnot⟩ := h.counted 1 rfl
    refine ⟨fun d hd => ?_, fun _ => ⟨true, mem_snoc _ _⟩, False.elim, nofun, nofun⟩
    rw [← Option.some.inj hd, failures_snoc, if_neg (by decide)]
    exact ⟨hn, by simp [hnot]⟩
  | store | reset => exact h.quiet (by decide) nofun (fun _ => id) id id nofun nofun
  | shaken =>
    obtain ⟨ok, hdial⟩ := h.dialed trivial
    exact ⟨nofun, fun _ => ⟨ok, mem_append_left _ hdial⟩, False.elim, nofun, nofun⟩
  | handshakeFailed =>
    obtain ⟨ok, hdial⟩ := h.dialed trivial
    exact h.fails (by decide) rfl rfl ⟨ok, mem_append_left _ hdial⟩ id nofun nofun
  | closing => exact h.quiet (by decide) nofun (fun _ => id) id id nofun nofun
  | failing =>
    split_ifs with hmax
    · obtain ⟨hn, hnot⟩ := h.counted 0 rfl
      obtain ⟨ok, hdial⟩ := h.dialed trivial
      refine ⟨nofun, fun _ => ⟨ok, mem_append_left _ hdial⟩, False.elim, nofun, fun _ => ?_⟩
      refine .inr ⟨hmax.1, ?_, by simp [hnot]⟩
      rw [failures_snoc, if_neg (by decide), ← hn]
      exact hmax.2
    · exact h.quiet (by decide) nofun (fun _ => id) False.elim id nofun nofun
  | opening =>
    obtain ⟨ok, hdial⟩ := h.dialed trivial
    exact ⟨nofun, fun _ => ⟨ok, mem_append_left _ hdial⟩, fun _ => mem_snoc _ _, nofun, nofun⟩
  | resetCount =>
    obtain ⟨ok, hdial⟩ := h.dialed trivial
    exact ⟨nofun, fun _ => ⟨ok, mem_append_left _ hdial⟩,
      fun _ => mem_append_left _ (h.opened trivial), fun _ => rfl, nofun⟩
  | startRead => exact h.quiet (by decide) nofun nofun id id nofun nofun
  | startHeartbeat =>
    obtain ⟨ok, hdial⟩ := h.dialed trivial
    exact ⟨nofun, fun _ => ⟨ok, mem_append_left _ hdial⟩, False.elim, nofun,
      fun _ => .inl (mem_append_left _ (h.opened trivial))⟩

theorem Ledger.other (h : Ledger cfg as n i pc) {j : Nat} (hj : i ≠ j) (a : Act) :
    Ledger cfg (as ++ [(j, a)]) n i pc where
  counted d hd := by
    obtain ⟨hn, hnot⟩ := h.counted d hd
    rw [failures_snoc_of_ne hj]
    exact ⟨hn, by simp [hnot, hj]⟩
  dialed hd := by
    obtain ⟨ok, hdial⟩ := h.dialed hd
    exact ⟨ok, mem_append_left _ hdial⟩
  opened ho := mem_append_left _ (h.opened ho)
  cleared := h.cleared
  reason hr := by
    rcases h.reason hr with hopen | ⟨hpos, hmax, hnot⟩
    · exact .inl (mem_append_left _ hopen)
    · refine .inr ⟨hpos, ?_, by simp [hnot, hj]⟩
      rwa [failures_snoc_of_ne hj]

theorem Ledger.of_not_holds (h : Ledger cfg as n i pc) (hpc : ¬ (Thread.reconnectLoop pc).Holds) (m : Nat) :
    Ledger cfg as m i pc where
  counted d hd := by
    cases pc with
    | startHeartbeat | returned => cases hd
    | _ => exact absurd trivial hpc
  dialed := h.dialed
  opened := h.opened
  cleared hr := by
    subst hr
    exact absurd trivial hpc
  reason := h.reason

/-! ## 2. Runs without `Close` and without ping timeouts -/

/-- No `heartbeatLoop` gets into the critical section of its ping-timeout branch. -/
def NoPingTimeout (_ : State) (l : Nat × Act) : Prop := l.2 ≠ .giveUp

/-- While there is a `readLoop` the counter is zero. -/
def Thread.Accounted (cfg : Config) (as : List (Nat × Act)) (s : Shared) (i : Nat) : Thread → Prop
  | .readLoop pc => pc ≠ .returned → s.attemptCount = 0
  | .reconnectLoop pc => Ledger cfg as s.attemptCount i pc
  | .heartbeatLoop _ => True
  | .close _ => False

structure Accounts (cfg : Config) (as : List (Nat × Act)) (s : State) : Prop where
  one : AtMostOne Thread.Holds s
  unshut : ∀ g, s.shared.shut g = false
  unborn : ∀ i, s.thread i = none → ∀ a, (i, a) ∉ as
  threads : Every (Thread.Accounted cfg as) s

theorem accounts_init : Accounts cfg [] init where
  one := holds_init
  unshut _ := rfl
  unborn _ _ _ := not_mem_nil
  threads := by
    rintro (_ | _ | i) x hx <;> cases hx
    · exact fun _ => rfl
    · trivial

section
variable {s s' : Shared} {x x' : Thread} {a : Act} {y : Option Thread}

theorem Move.attemptCount_eq (h : Move cfg i s x a s' x' y) (hx : ¬ x.Holds) :
    s'.attemptCount = s.attemptCount := by
  cases h with
  | readLoop h => cases h <;> rfl
  | reconnectLoop h =>
    cases h with
    | count => exact absurd trivial hx
    | resetCount => exact absurd trivial hx
    | _ => rfl
  | heartbeatLoop h | close h => cases h <;> rfl

theorem Move.shut_eq (h : Move cfg i s x a s' x' y) (ha : a ≠ .giveUp) (hx : ∀ pc, x ≠ .close pc) :
    s'.shut = s.shut := by
  cases h with
  | readLoop h | reconnectLoop h => cases h <;> rfl
  | heartbeatLoop h =>
    cases h with
    | giveUp => exact absurd rfl ha
    | _ => rfl
  | close h => exact absurd rfl (hx _)

theorem Move.accounted (h : Move cfg i s x a s' x' y) (hx : x.Accounted cfg as s i)
    (hopen : ∀ g, s.shut g = false) :
    x'.Accounted cfg (as ++ [(i, a)]) s' i ∧ ∀ z, y = some z → ∀ k, (∀ b, (k, b) ∉ as ++ [(i, a)]) →
        z.Accounted cfg (as ++ [(i, a)]) s' k := by
  cases h with
  | readLoop h =>
    have hcount : s'.attemptCount = s.attemptCount := by cases h <;> rfl
    have hzero : s.attemptCount = 0 := hx (by cases h <;> exact ReadPc.noConfusion)
    refine ⟨fun _ => hcount.trans hzero, ?_⟩
    rintro z rfl k hk
    cases h
    refine ⟨fun d hd => ?_, False.elim, False.elim, nofun, nofun⟩
    rw [← Option.some.inj hd, failures_eq_zero hk]
    exact ⟨hzero, hk _⟩
  | reconnectLoop h =>
    refine ⟨Ledger.move hx h hopen, ?_⟩
    rintro z rfl k hk
    cases h with
    | startRead => exact fun _ => hx.cleared rfl
    | startHeartbeat => trivial
  | heartbeatLoop h => exact ⟨trivial, nofun⟩
  | close h => exact hx.elim

theorem Thread.Accounted.other {j : Nat} {z : Thread} (hz : z.Accounted cfg as s j) (hj : j ≠ i) (a : Act)
    (hcount : z.Holds → s'.attemptCount = s.attemptCount) : z.Accounted cfg (as ++ [(i, a)]) s' j := by
  cases z with
  | readLoop pc =>
    intro hpc
    have hholds : (Thread.readLoop pc).Holds := by
      cases pc with
      | returned => exact absurd rfl hpc
      | _ => trivial
    exact (hcount hholds).trans (hz hpc)
  | reconnectLoop pc =>
    have hother := Ledger.other hz hj a
    by_cases hholds : (Thread.reconnectLoop pc).Holds
    · unfold Thread.Accounted
      rwa [hcount hholds]
    · exact hother.of_not_holds hholds _
  | heartbeatLoop pc => trivial
  | close pc => exact hz.elim

end

theorem Accounts.step {s t : State} {l : Nat × Act} (hs : Accounts cfg as s)
    (h : When NoPingTimeout (Step cfg) s l t) (hcall : l.2 ≠ .call) : Accounts cfg (as ++ [l]) t := by
  obtain ⟨i, a⟩ := l
  have hnone : ∀ j, t.thread j = none → j ≠ i ∧ s.thread j = none := by
    intro j hj
    rcases h.2.cases with ⟨x, x', y, k, hx, -, hx', hkeep, -⟩ | ⟨x, -, ⟨ha, -⟩, -⟩
    · have hji : j ≠ i := by
        rintro rfl
        rw [hx'] at hj
        cases hj
      refine ⟨hji, ?_⟩
      cases hold : s.thread j with
      | none => rfl
      | some z =>
        rw [hkeep j hji z hold] at hj
        cases hj
    · exact absurd ha hcall
  refine ⟨holds_step h.2 hs.one, ?_, ?_, ?_⟩
  · rcases h.2.cases with ⟨x, x', y, k, hx, hmove, -⟩ | ⟨x, -, ⟨ha, -⟩, -⟩
    · rw [hmove.shut_eq h.1 fun pc hpc => ?_]
      · exact hs.unshut
      · subst hpc
        exact hs.threads i _ hx
    · exact absurd ha hcall
  · intro j hj b hb
    obtain ⟨hji, hold⟩ := hnone j hj
    rcases mem_append.mp hb with hb | hb
    · exact hs.unborn j hold b hb
    · cases mem_singleton.mp hb
      exact hji rfl
  · refine hs.threads.step h.2 ?_ fun x henter => absurd henter.1 hcall
    intro x x' y hx hmove hacc
    obtain ⟨hself, hforked⟩ := hmove.accounted hacc hs.unshut
    refine ⟨hself, fun z hz k hk => hforked z hz k fun b hb => ?_, fun j hj z hz hold => ?_⟩
    · rcases mem_append.mp hb with hb | hb
      · exact hs.unborn k hk b hb
      · cases mem_singleton.mp hb
        rw [hx] at hk
        cases hk
    · refine hold.other hj a fun hholds => hmove.attemptCount_eq fun hx' => ?_
      exact hj (hs.one j i z x hz hx hholds hx')

/-- **A `reconnectLoop` returns for a reason**, in every run without `Close` and without ping timeouts: it
has reconnected, or as many of its attempts as are allowed have failed in a row; and it has dialled. -/
theorem returns_for_a_reason {s : State} (h : Run (When NoPingTimeout (Step cfg)) init as s)
    (hclose : ∀ m, (m, Act.call) ∉ as) (hret : s.thread i = some (.reconnectLoop .returned)) :
    Reason cfg i as ∧ ∃ ok, (i, .dial ok) ∈ as := by
  have haccounts : (∀ m, (m, Act.call) ∉ [] ++ as) → Accounts cfg ([] ++ as) s := by
    refine Run.history (P := fun as s => (∀ m, (m, Act.call) ∉ as) → Accounts cfg as s) ?_ h
      fun _ => accounts_init
    rintro as s ⟨i, a⟩ t hs hstep hcall
    refine (hs fun m hm => hcall m (mem_append_left _ hm)).step hstep ?_
    rintro rfl
    exact hcall i (mem_snoc _ _)
  have hledger : Ledger cfg as s.shared.attemptCount i .returned := (haccounts hclose).threads i _ hret
  exact ⟨hledger.reason rfl, hledger.dialed trivial⟩

/-! ## 3. A loop that gives up, and a loop that is not let try -/

def oneAttempt : Config := ⟨true, 1⟩

theorem exhausted_run : ∃ as s, Run (When NoPingTimeout (Step oneAttempt)) init as s ∧
    (∀ m, (m, Act.call) ∉ as) ∧ s.thread 2 = some (.reconnectLoop .returned) :=
  ⟨[(0, .tau), (0, .tau), (0, .tau), (0, .tau), (0, .tau), (0, .tau), (0, .tau), (2, .tau),
      (2, .tau), (2, .tau), (2, .timer), (2, .attempt), (2, .dial false), (2, .tau)], _,
    .consWhen (.move rfl (.readLoop .load)) nofun <|
    .consWhen (.move rfl (.readLoop .error)) nofun <|
    .consWhen (.move rfl (.readLoop .cleanup)) nofun <|
    .consWhen (.move rfl (.readLoop .loadConn)) nofun <|
    .consWhen (.move rfl (.readLoop .closeConn)) nofun <|
    .consWhen (.move rfl (.readLoop .readSkip)) nofun <|
    .consWhen (.fork 2 rfl (.readLoop .start) rfl) nofun <|
    .consWhen (.move rfl (.reconnectLoop .check)) nofun <|
    .consWhen (.move rfl (.reconnectLoop (.checkOpen rfl))) nofun <|
    .consWhen (.move rfl (.reconnectLoop .sleep)) nofun <|
    .consWhen (.move rfl (.reconnectLoop .timer)) nofun <|
    .consWhen (.move rfl (.reconnectLoop .count)) nofun <|
    .consWhen (.move rfl (.reconnectLoop .dialFailed)) nofun <|
    .consWhen (.move rfl (.reconnectLoop .failing)) nofun .nil, by simp, rfl⟩

theorem returns_for_a_reason_exhausted : ∃ as s, Run (Step oneAttempt) init as s ∧
    s.thread 2 = some (.reconnectLoop .returned) ∧ Reason oneAttempt 2 as ∧ ∃ ok, (2, .dial ok) ∈ as := by
  obtain ⟨as, s, h, hclose, hret⟩ := exhausted_run
  exact ⟨as, s, h.unrestricted, hret, returns_for_a_reason h hclose hret⟩

/-- **A ping is not answered in time.**  The `heartbeatLoop` closes the channel and the connection, the
`readLoop` ends, and the `reconnectLoop` that it starts returns at its first check. -/
theorem abandoned_after_ping_timeout : ∃ as s, Run (Step oneAttempt) init as s ∧
    (∀ m, (m, Act.call) ∉ as) ∧ s.thread 2 = some (.reconnectLoop .returned) ∧
    ¬ Reason oneAttempt 2 as ∧ ∀ ok, (2, .dial ok) ∉ as :=
  ⟨[(0, .tau), (1, .tau), (1, .tau), (1, .tau), (1, .tau), (1, .tau), (1, .timeout), (1, .giveUp),
      (0, .tau), (0, .tau), (0, .tau), (0, .tau), (0, .tau), (0, .tau), (2, .tau), (2, .tau)], _,
    .cons (.move rfl (.readLoop .load)) <|
    .cons (.move rfl (.heartbeatLoop .loop)) <|
    .cons (.move rfl (.heartbeatLoop .ticker)) <|
    .cons (.move rfl (.heartbeatLoop .tick)) <|
    .cons (.move rfl (.heartbeatLoop (.write rfl))) <|
    .cons (.move rfl (.heartbeatLoop .await)) <|
    .cons (.move rfl (.heartbeatLoop .timeout)) <|
    .cons (.move rfl (.heartbeatLoop .giveUp)) <|
    .cons (.move rfl (.readLoop .error)) <|
    .cons (.move rfl (.readLoop .cleanup)) <|
    .cons (.move rfl (.readLoop .loadConn)) <|
    .cons (.move rfl (.readLoop .closeConn)) <|
    .cons (.move rfl (.readLoop .readSkip)) <|
    .cons (.fork 2 rfl (.readLoop .start) rfl) <|
    .cons (.move rfl (.reconnectLoop .check)) <|
    .cons (.move rfl (.reconnectLoop (.checkClosed rfl))) .nil,
    by simp, rfl, by unfold Reason; decide, by decide⟩

end AoniContrib.SocketIO.Threads
