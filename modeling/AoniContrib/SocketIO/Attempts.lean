/-
# How reconnection attempts are numbered

`attemptCount` is shared by one `reconnectLoop` after the other.  It is raised once for an attempt and
reset in `finalizeReconnection`, and only the thread that has the connection in its hands does either.
So it counts the attempts since the last successful connection: they are numbered 1, 2, ... without
gaps up to the allowed number, and when the last of them has failed, `onReconnectFailed` is started and
nobody is left who could dial (`attempts_counted`).  This holds whatever `Close` and the
`heartbeatLoop`s do in between.
-/
import AoniContrib.SocketIO.Reconnect

namespace AoniContrib.SocketIO.Threads

open Function Concurrency List

/-! ## 1. What a `reconnectLoop` does that is seen from outside -/

inductive Mark where
  /-- `onReconnecting(attempt)` is started. -/
  | reconnecting (attempt : Nat)
  | dial (ok : Bool)
  | handshake (ok : Bool)
  /-- The connection is open again. -/
  | connected
  /-- `onReconnectFailed` is started. -/
  | reconnectFailed
  deriving DecidableEq, Repr

def Mark.attempt : Mark → Option Nat
  | .reconnecting attempt => some attempt
  | .dial _ | .handshake _ | .connected | .reconnectFailed => none

def Mark.fails : Mark → Bool
  | .dial ok | .handshake ok => !ok
  | .reconnecting _ | .connected | .reconnectFailed => false

/-- The mark that a step of a `reconnectLoop` makes, if any; `n` is `attemptCount`. -/
def ReconnectPc.marks (cfg : Config) (n : Nat) : ReconnectPc → Act → List Mark
  | .count, .attempt => [.reconnecting (n + 1)]
  | .dialing, .dial ok => [.dial ok]
  | .handshake _, .handshake ok => [.handshake ok]
  | .opening, .open => [.connected]
  | .failing, .tau =>
    if 0 < cfg.reconnectionAttempts ∧ cfg.reconnectionAttempts ≤ n then [.reconnectFailed] else []
  | _, _ => []

def Thread.marks (cfg : Config) (n : Nat) : Thread → Act → List Mark
  | .reconnectLoop pc, a => pc.marks cfg n a
  | .readLoop _, _ | .heartbeatLoop _, _ | .close _, _ => []

def marks (cfg : Config) (s : State) (l : Nat × Act) : List Mark :=
  match s.thread l.1 with
  | some x => x.marks cfg s.shared.attemptCount l.2
  | none => []

def LogStep (cfg : Config) (p : State × List Mark) (l : Nat × Act) (q : State × List Mark) : Prop :=
  Step cfg p.1 l q.1 ∧ q.2 = p.2 ++ marks cfg p.1 l

theorem consLog {cfg : Config} {s t u : State} {l : Nat × Act} {ls : List (Nat × Act)}
    {log log' : List Mark} (hstep : Step cfg s l t)
    (h : Run (LogStep cfg) (t, log ++ marks cfg s l) ls (u, log')) :
    Run (LogStep cfg) (s, log) (l :: ls) (u, log') :=
  .cons ⟨hstep, rfl⟩ h

/-! ## 2. The log -/

/-- What was logged since the last successful connection. -/
def since (log : List Mark) : List Mark := (log.reverse.takeWhile (· ≠ .connected)).reverse

def attempts (log : List Mark) : List Nat := log.filterMap Mark.attempt

def failed (log : List Mark) : Nat := log.countP Mark.fails

theorem since_snoc {m : Mark} (h : m ≠ .connected) (log : List Mark) :
    since (log ++ [m]) = since log ++ [m] := by
  simp [since, h]

theorem since_connected (log : List Mark) : since (log ++ [.connected]) = [] := by
  simp [since]

theorem attempts_snoc (log : List Mark) (m : Mark) :
    attempts (log ++ [m]) = attempts log ++ m.attempt.toList := by
  cases h : m.attempt <;> simp [attempts, filterMap_append, h]

theorem failed_snoc (log : List Mark) (m : Mark) :
    failed (log ++ [m]) = failed log + if m.fails then 1 else 0 := by
  simp [failed, countP_append, countP_singleton]

/-- The attempts since the last connection are 1, ..., `n`, at most `N`; so many of them have failed; and
nobody has given up. -/
structure Count (N : Nat) (log : List Mark) (n failures : Nat) : Prop where
  le : n ≤ N
  numbers : attempts (since log) = List.range' 1 n
  failures : failed (since log) = failures
  trying : .reconnectFailed ∉ log

def EndsFailing (log : List Mark) : Prop := ∃ m ∈ log.getLast?, m.fails = true

/-- The log ends with a start of `onReconnectFailed`, directly after the `N`-th failure in a row. -/
def GaveUp (N : Nat) (log : List Mark) : Prop :=
  ∃ before, log = before ++ [.reconnectFailed] ∧ Count N before N N ∧ EndsFailing before

section
variable {N n f : Nat} {log : List Mark}

theorem Count.snoc (h : Count N log n f) {m : Mark} (hm : m.attempt = none) (hc : m ≠ .connected)
    (hr : m ≠ .reconnectFailed) : Count N (log ++ [m]) n (f + if m.fails then 1 else 0) := by
  refine ⟨h.le, ?_, ?_, ?_⟩
  · rw [since_snoc hc, attempts_snoc, hm, h.numbers]
    exact append_nil _
  · rw [since_snoc hc, failed_snoc, h.failures]
  · intro hmem
    rcases mem_append.mp hmem with hold | hnew
    · exact h.trying hold
    · exact hr (mem_singleton.mp hnew).symm

theorem Count.attempt (h : Count N log n f) (hlt : n < N) :
    Count N (log ++ [.reconnecting (n + 1)]) (n + 1) f := by
  have hne : Mark.reconnecting (n + 1) ≠ .connected := nofun
  refine ⟨hlt, ?_, ?_, ?_⟩
  · rw [since_snoc hne, attempts_snoc, h.numbers, List.range'_concat]
    simp [Mark.attempt, Nat.add_comm]
  · rw [since_snoc hne, failed_snoc, h.failures]
    rfl
  · simpa using h.trying

theorem Count.fail (h : Count N log (n + 1) n) {m : Mark} (hm : m.fails = true) :
    Count N (log ++ [m]) (n + 1) (n + 1) ∧ EndsFailing (log ++ [m]) := by
  have hnot : m.attempt = none ∧ m ≠ .connected ∧ m ≠ .reconnectFailed := by
    cases m with
    | dial ok | handshake ok => exact ⟨rfl, nofun, nofun⟩
    | _ => cases hm
  have hsnoc := h.snoc hnot.1 hnot.2.1 hnot.2.2
  rw [if_pos hm] at hsnoc
  exact ⟨hsnoc, m, by simp, hm⟩

theorem Count.connected (h : Count N log n f) : Count N (log ++ [.connected]) 0 0 := by
  refine ⟨Nat.zero_le N, ?_, ?_, by simpa using h.trying⟩
  · rw [since_connected]
    rfl
  · rw [since_connected]
    rfl

theorem count_nil (N : Nat) : Count N [] 0 0 := ⟨Nat.zero_le N, rfl, rfl, not_mem_nil⟩

end

/-! ## 3. The books of the thread that has the connection -/

/-- What the log says where a thread is; `n` is `attemptCount`. -/
def Thread.Booked (N : Nat) (log : List Mark) (n : Nat) : Thread → Prop
  | .readLoop .returned => True
  | .readLoop _ => n = 0 ∧ Count N log 0 0
  | .reconnectLoop pc =>
    match pc with
    | .check | .polling _ | .sleep | .sleeping _ | .count => n < N ∧ Count N log n n
    | .dialing | .store _ | .reset _ | .handshake _ => ∃ f, n = f + 1 ∧ Count N log n f
    | .closing _ | .failing => Count N log n n ∧ EndsFailing log
    | .opening => ∃ f, Count N log n f
    | .resetCount => Count N log 0 0
    | .startRead => n = 0 ∧ Count N log 0 0
    | .startHeartbeat | .returned => True
  | .heartbeatLoop _ | .close _ => True

section
variable {cfg : Config} {N n i : Nat} {log : List Mark}

theorem booked_of_not_holds {x : Thread} (h : ¬ x.Holds) : x.Booked N log n := by
  cases x with
  | readLoop pc =>
    cases pc with
    | returned => trivial
    | _ => exact absurd trivial h
  | reconnectLoop pc =>
    cases pc with
    | startHeartbeat => trivial
    | returned => trivial
    | _ => exact absurd trivial h
  | heartbeatLoop pc | close pc => trivial

theorem Thread.Booked.count {x : Thread} (h : x.Booked N log n) (hholds : x.Holds) :
    ∃ k f, Count N log k f := by
  cases x with
  | readLoop pc =>
    cases pc with
    | returned => exact hholds.elim
    | _ => exact ⟨0, 0, h.2⟩
  | reconnectLoop pc =>
    cases pc with
    | check | polling g | sleep | sleeping g | count => exact ⟨n, n, h.2⟩
    | dialing | store c | reset c | handshake c =>
      obtain ⟨f, -, hcount⟩ := h
      exact ⟨n, f, hcount⟩
    | closing c | failing => exact ⟨n, n, h.1⟩
    | opening =>
      obtain ⟨f, hcount⟩ := h
      exact ⟨n, f, hcount⟩
    | resetCount => exact ⟨0, 0, h⟩
    | startRead => exact ⟨0, 0, h.2⟩
    | startHeartbeat => exact hholds.elim
    | returned => exact hholds.elim
  | heartbeatLoop pc | close pc => exact hholds.elim

theorem marks_of_not_holds {x : Thread} (h : ¬ x.Holds) (a : Act) : x.marks cfg n a = [] := by
  cases x with
  | reconnectLoop pc =>
    cases pc with
    | startHeartbeat => rfl
    | returned => rfl
    | _ => exact absurd trivial h
  | _ => rfl

theorem marks_call (s : State) (i : Nat) : Threads.marks cfg s (i, .call) = [] := by
  unfold Threads.marks
  cases s.thread i with
  | none => rfl
  | some x =>
    cases x with
    | reconnectLoop pc => cases pc <;> rfl
    | _ => rfl

section
variable {s s' : Shared} {pc pc' : ReconnectPc} {a : Act} {y : Option Thread}
  (hN : cfg.reconnectionAttempts = N) (hpos : 0 < N) (hmove : ReconnectMove cfg s pc a s' pc' y)
  (h : (Thread.reconnectLoop pc).Booked N log s.attemptCount)
include h hN hmove hpos

/-- **One step of the loop**: where it goes, the log is right for it. -/
theorem booked_reconnect :
    (Thread.reconnectLoop pc').Booked N (log ++ pc.marks cfg s.attemptCount a) s'.attemptCount ∧
      ∀ z, y = some z → z.Booked N (log ++ pc.marks cfg s.attemptCount a) s'.attemptCount := by
  cases hmove with
  | check | checkOpen | sleep | timer | store | reset | closing =>
    simp only [ReconnectPc.marks, append_nil]
    exact ⟨h, nofun⟩
  | checkClosed hshut | sleepClosed hshut =>
    exact ⟨trivial, nofun⟩
  | count =>
    obtain ⟨hlt, hcount⟩ := h
    exact ⟨⟨s.attemptCount, rfl, hcount.attempt hlt⟩, nofun⟩
  | dialFailed =>
    obtain ⟨f, hf, hcount⟩ := h
    rw [hf] at hcount
    refine ⟨?_, nofun⟩
    rw [hf]
    exact hcount.fail rfl
  | dialed =>
    obtain ⟨f, hf, hcount⟩ := h
    exact ⟨⟨f, hf, hcount.snoc (m := .dial true) rfl nofun nofun⟩, nofun⟩
  | shaken hdead =>
    obtain ⟨f, hf, hcount⟩ := h
    exact ⟨⟨f, hcount.snoc (m := .handshake true) rfl nofun nofun⟩, nofun⟩
  | handshakeFailed =>
    obtain ⟨f, hf, hcount⟩ := h
    rw [hf] at hcount
    refine ⟨?_, nofun⟩
    rw [hf]
    exact hcount.fail rfl
  | failing =>
    by_cases hmax : 0 < cfg.reconnectionAttempts ∧ cfg.reconnectionAttempts ≤ s.attemptCount
    · rw [if_pos hmax]
      exact ⟨trivial, nofun⟩
    · simp only [ReconnectPc.marks, if_neg hmax, append_nil]
      exact ⟨⟨by omega, h.1⟩, nofun⟩
  | opening =>
    obtain ⟨f, hcount⟩ := h
    exact ⟨hcount.connected, nofun⟩
  | resetCount =>
    simp only [ReconnectPc.marks, append_nil]
    exact ⟨⟨rfl, h⟩, nofun⟩
  | startRead =>
    simp only [ReconnectPc.marks, append_nil]
    refine ⟨trivial, ?_⟩
    rintro z ⟨⟩
    exact h
  | startHeartbeat =>
    refine ⟨trivial, ?_⟩
    rintro z ⟨⟩
    trivial

theorem ended_reconnect
    (hholds : (Thread.reconnectLoop pc).Holds) :
    (∃ k f, Count N (log ++ pc.marks cfg s.attemptCount a) k f) ∨
      GaveUp N (log ++ pc.marks cfg s.attemptCount a) ∧ pc' = .returned ∧ y = none := by
  by_cases hpc : (Thread.reconnectLoop pc').Holds
  · exact .inl ((booked_reconnect hN hpos hmove h).1.count hpc)
  · cases hmove with
    | checkClosed hshut | sleepClosed hshut | startRead =>
      simp only [ReconnectPc.marks, append_nil]
      exact .inl (h.count hholds)
    | startHeartbeat => exact hholds.elim
    | failing =>
      by_cases hmax : 0 < cfg.reconnectionAttempts ∧ cfg.reconnectionAttempts ≤ s.attemptCount
      · obtain ⟨hcount, hfailing⟩ := h
        have hall : s.attemptCount = N := le_antisymm hcount.le (by omega)
        rw [hall] at hcount
        refine .inr ⟨⟨log, ?_, hcount, hfailing⟩, if_pos hmax, rfl⟩
        rw [ReconnectPc.marks, if_pos hmax]
      · rw [if_neg hmax] at hpc
        exact absurd trivial hpc
    | _ => exact absurd trivial hpc

end

end

/-! ## 4. Runs -/

structure Books (N : Nat) (s : State) (log : List Mark) : Prop where
  one : AtMostOne Thread.Holds s
  threads : Every (fun shared _ x => x.Booked N log shared.attemptCount) s
  ended : (∃ k f, Count N log k f) ∨ GaveUp N log ∧ Nobody Thread.Holds s

theorem books_init (N : Nat) : Books N init [] where
  one := holds_init
  threads := by
    rintro (_ | _ | i) x hx <;> cases hx
    · exact ⟨rfl, count_nil N⟩
    · trivial
  ended := .inl ⟨0, 0, count_nil N⟩

section
variable {cfg : Config} {N i : Nat} {log : List Mark}

theorem Move.booked {s s' : Shared} {x x' : Thread} {a : Act} {y : Option Thread}
    (hN : cfg.reconnectionAttempts = N) (hpos : 0 < N) (h : Move cfg i s x a s' x' y)
    (hx : x.Booked N log s.attemptCount) (hholds : x.Holds) :
    x'.Booked N (log ++ x.marks cfg s.attemptCount a) s'.attemptCount ∧
      (∀ z, y = some z → z.Booked N (log ++ x.marks cfg s.attemptCount a) s'.attemptCount) ∧
      ((∃ k f, Count N (log ++ x.marks cfg s.attemptCount a) k f) ∨
        GaveUp N (log ++ x.marks cfg s.attemptCount a) ∧ ¬ x'.Holds ∧ y = none) := by
  cases h with
  | readLoop h =>
    have hcount : s'.attemptCount = s.attemptCount := by cases h <;> rfl
    obtain ⟨hzero, hc⟩ : s.attemptCount = 0 ∧ Count N log 0 0 := by cases h <;> exact hx
    simp only [Thread.marks, append_nil]
    refine ⟨?_, ?_, .inl ⟨0, 0, hc⟩⟩
    · rename_i pc pc'
      cases pc' with
      | returned => trivial
      | _ => exact ⟨hcount.trans hzero, hc⟩
    · rintro z rfl
      cases h
      rw [hcount, hzero]
      exact ⟨hpos, hc⟩
  | reconnectLoop h =>
    obtain ⟨hself, hforked⟩ := booked_reconnect hN hpos h hx
    refine ⟨hself, hforked, ?_⟩
    rcases ended_reconnect hN hpos h hx hholds with hcount | ⟨hgave, rfl, hy⟩
    · exact .inl hcount
    · exact .inr ⟨hgave, id, hy⟩
  | heartbeatLoop h | close h => exact hholds.elim

variable {s t : State} {l : Nat × Act}

theorem nobody_holds_step (h : Step cfg s l t)
    (hs : Nobody Thread.Holds s) : Nobody Thread.Holds t := by
  obtain ⟨i, a⟩ := l
  rcases h.cases with ⟨x, x', y, k, hx, hmove, hx', -, hothers⟩ | ⟨x, -, henter, rfl⟩
  · obtain ⟨hself, hforked⟩ := hmove.holds
    intro j z hz hholds
    by_cases hj : j = i
    · subst hj
      obtain rfl := Option.some.inj (hx'.symm.trans hz)
      exact hs j x hx (hself hholds)
    · rcases hothers j hj z hz with hold | ⟨-, -, hy⟩
      · exact hs j z hold hholds
      · exact hs i x hx (hforked z hy hholds).1
  · intro j z hz hholds
    rcases thread_enter hz with ⟨-, rfl⟩ | hold
    · exact not_holds_of_enter henter hholds
    · exact hs j z hold hholds

theorem nobody_holds_of_release {i : Nat} {a : Act} (h : Step cfg s (i, a) t)
    (hs : AtMostOne Thread.Holds s) {x : Thread} (hx : s.thread i = some x) (hholds : x.Holds)
    (hrelease : ∀ x' y, Move cfg i s.shared x a t.shared x' y → ¬ x'.Holds ∧ y = none) :
    Nobody Thread.Holds t := by
  rcases h.cases with ⟨w, x', y, k, hw, hmove, hx', -, hothers⟩ | ⟨w, hnone, -, -⟩
  · obtain rfl := Option.some.inj (hx.symm.trans hw)
    obtain ⟨hnot, rfl⟩ := hrelease x' y hmove
    intro j z hz hz'
    by_cases hj : j = i
    · subst hj
      obtain rfl := Option.some.inj (hx'.symm.trans hz)
      exact hnot hz'
    · rcases hothers j hj z hz with hold | ⟨-, -, hy⟩
      · exact hj (hs j i z x hold hx hz' hholds)
      · cases hy
  · rw [hx] at hnone
    cases hnone

theorem books_step (hN : cfg.reconnectionAttempts = N) (hpos : 0 < N)
    (h : Step cfg s l t) (hs : Books N s log) : Books N t (log ++ marks cfg s l) := by
  obtain ⟨i, a⟩ := l
  refine ⟨holds_step h hs.one, ?_, ?_⟩
  · refine hs.threads.step h ?_ ?_
    · intro x x' y hx hmove hbooked
      have hmarks : marks cfg s (i, a) = x.marks cfg s.shared.attemptCount a := by rw [marks, hx]
      rw [hmarks]
      by_cases hholds : x.Holds
      · obtain ⟨hself, hforked, -⟩ := hmove.booked hN hpos hbooked hholds
        refine ⟨hself, fun z hz _ _ => hforked z hz, ?_⟩
        intro j hj z hz _
        exact booked_of_not_holds fun hz' => hj (hs.one j i z x hz hx hz' hholds)
      · obtain ⟨hself, hforked⟩ := hmove.holds
        rw [marks_of_not_holds hholds, append_nil, hmove.attemptCount_eq hholds]
        refine ⟨booked_of_not_holds fun hx' => hholds (hself hx'), ?_, fun _ _ _ _ hz => hz⟩
        intro z hz _ _
        exact booked_of_not_holds fun hz' => hholds (hforked z hz hz').1
    · intro x henter
      rw [henter.1, marks_call, append_nil]
      exact ⟨booked_of_not_holds (not_holds_of_enter henter), fun _ _ _ _ hz => hz⟩
  · rcases h.cases with ⟨x, x', y, k, hx, hmove, -⟩ | ⟨x, -, henter, -⟩
    · have hmarks : marks cfg s (i, a) = x.marks cfg s.shared.attemptCount a := by rw [marks, hx]
      rw [hmarks]
      by_cases hholds : x.Holds
      · obtain ⟨-, -, hcount | ⟨hgave, -, -⟩⟩ := hmove.booked hN hpos (hs.threads i x hx) hholds
        · exact .inl hcount
        · -- every such step is the one that gives up
          refine .inr ⟨hgave, nobody_holds_of_release h hs.one hx hholds fun x'' y' hmove' => ?_⟩
          obtain ⟨-, -, ⟨k, f, hcount⟩ | ⟨-, hrelease⟩⟩ :=
            hmove'.booked hN hpos (hs.threads i x hx) hholds
          · obtain ⟨before, hlog, -⟩ := hgave
            rw [hlog] at hcount
            exact absurd (mem_snoc _ _) hcount.trying
          · exact hrelease
      · rw [marks_of_not_holds hholds, append_nil]
        exact hs.ended.imp_right fun ⟨hgave, hnobody⟩ => ⟨hgave, nobody_holds_step h hnobody⟩
    · rw [henter.1, marks_call, append_nil]
      exact hs.ended.imp_right fun ⟨hgave, hnobody⟩ => ⟨hgave, nobody_holds_step h hnobody⟩

end

/-! ## 5. Results -/

/-- What is said of the attempts: since the last successful connection they are numbered 1, ..., `k` with
`k ≤ N`; `onReconnectFailed` was started at most once, directly after the `N`-th failure in a row, and
nothing was dialled afterwards. -/
structure WellCounted (N : Nat) (log : List Mark) : Prop where
  numbers : ∃ k ≤ N, attempts (since log) = List.range' 1 k
  once : log.count .reconnectFailed ≤ 1
  last : ∀ before after, log = before ++ .reconnectFailed :: after →
    failed (since before) = N ∧ EndsFailing before ∧ ∀ ok, .dial ok ∉ after

variable {log : List Mark}

theorem Count.wellCounted {N n f : Nat} (h : Count N log n f) : WellCounted N log where
  numbers := ⟨n, h.le, h.numbers⟩
  once := by
    rw [count_eq_zero.mpr h.trying]
    exact Nat.zero_le 1
  last before after hlog := by
    refine absurd ?_ h.trying
    rw [hlog]
    exact mem_append_right _ mem_cons_self

theorem GaveUp.wellCounted {N : Nat} (h : GaveUp N log) : WellCounted N log := by
  obtain ⟨before, rfl, hcount, hfailing⟩ := h
  have hne : Mark.reconnectFailed ≠ .connected := nofun
  refine ⟨⟨N, le_rfl, ?_⟩, ?_, ?_⟩
  · rw [since_snoc hne, attempts_snoc, hcount.numbers]
    exact append_nil _
  · rw [count_append, count_eq_zero.mpr hcount.trying, count_singleton_self]
  · intro pre after hlog
    -- the first start of the callback is the last mark
    obtain ⟨rfl, rfl⟩ : pre = before ∧ after = [] := by
      rcases append_eq_append_iff.mp hlog with ⟨mid, rfl, hmid⟩ | ⟨mid, rfl, hmid⟩
      · cases mid with
        | nil => exact ⟨append_nil _, (List.cons.inj hmid).2.symm⟩
        | cons m mid => simp at hmid
      · cases mid with
        | nil => exact ⟨(append_nil _).symm, (List.cons.inj hmid).2⟩
        | cons m mid =>
          refine absurd ?_ hcount.trying
          rw [(List.cons.inj hmid).1]
          exact mem_append_right _ mem_cons_self
    exact ⟨hcount.failures, hfailing, fun _ => not_mem_nil⟩

/-- **Attempts are counted correctly** in every run, whatever dials and handshakes fail, however often
the connection breaks, and whatever `Close` and the `heartbeatLoop`s do. -/
theorem attempts_counted {cfg : Config} {N : Nat} (hpos : 0 < N) (hN : cfg.reconnectionAttempts = N)
    {as : List (Nat × Act)} {s : State} {log : List Mark}
    (h : Run (LogStep cfg) (init, []) as (s, log)) : WellCounted N log := by
  have hbooks : Books N s log := by
    refine h.invariant (I := fun p => Books N p.1 p.2) ?_ (books_init N)
    rintro ⟨s, log⟩ l ⟨t, log'⟩ ⟨hstep, rfl⟩ hs
    exact books_step hN hpos hstep hs
  rcases hbooks.ended with ⟨k, f, hcount⟩ | ⟨hgave, -⟩
  · exact hcount.wellCounted
  · exact hgave.wellCounted

theorem attempts_counted_exhausted : ∃ as s log, Run (LogStep oneAttempt) (init, []) as (s, log) ∧
    log = [.reconnecting 1, .dial false, .reconnectFailed] ∧ WellCounted 1 log := by
  obtain ⟨as, s, log, hrun, hlog⟩ : ∃ as s log, Run (LogStep oneAttempt) (init, []) as (s, log) ∧
      log = [.reconnecting 1, .dial false, .reconnectFailed] :=
    ⟨[(0, .tau), (0, .tau), (0, .tau), (0, .tau), (0, .tau), (0, .tau), (0, .tau), (2, .tau),
        (2, .tau), (2, .tau), (2, .timer), (2, .attempt), (2, .dial false), (2, .tau)], _, _,
      consLog (.move rfl (.readLoop .load)) <|
      consLog (.move rfl (.readLoop .error)) <|
      consLog (.move rfl (.readLoop .cleanup)) <|
      consLog (.move rfl (.readLoop .loadConn)) <|
      consLog (.move rfl (.readLoop .closeConn)) <|
      consLog (.move rfl (.readLoop .readSkip)) <|
      consLog (.fork 2 rfl (.readLoop .start) rfl) <|
      consLog (.move rfl (.reconnectLoop .check)) <|
      consLog (.move rfl (.reconnectLoop (.checkOpen rfl))) <|
      consLog (.move rfl (.reconnectLoop .sleep)) <|
      consLog (.move rfl (.reconnectLoop .timer)) <|
      consLog (.move rfl (.reconnectLoop .count)) <|
      consLog (.move rfl (.reconnectLoop .dialFailed)) <|
      consLog (.move rfl (.reconnectLoop .failing)) .nil, rfl⟩
  exact ⟨as, s, log, hrun, hlog, attempts_counted Nat.one_pos rfl hrun⟩

end AoniContrib.SocketIO.Threads
