/-
# One heartbeat per connection

A `heartbeatLoop` returns when it finds `s.closed` closed or cannot write.  After a read error neither need
be the case: the channel is open until `resetConnectionState` replaces it by another open one, and the ping
goes to whatever connection is in `s.conn`.  So the loop of the old connection lives on beside the one of
the new (`two_heartbeats`), and both of them use `pongCh`.

Suppose that a new connection is stored only when no `heartbeatLoop` is left, nor about to be started.  Then
there is one at a time, all pings on a connection are those of one loop, and the pong to a ping is put into
a channel of the loop that sent it.  Then also a ping timeout is a ping without an answer, provided that a
pong that was already read gets to the loop before the timer does (`one_heartbeat`).
-/
import AoniContrib.SocketIO.Threads

namespace AoniContrib.SocketIO.Threads

open Function Concurrency

/-! ## 1. At most one heartbeat -/

def Thread.Live : Thread → Prop
  | .heartbeatLoop .returned => False
  | .heartbeatLoop _ => True
  | _ => False

def Thread.Reads : Thread → Prop
  | .readLoop .returned => False
  | .readLoop _ => True
  | _ => False

/-- A `heartbeatLoop` is live, or the next step starts it. -/
def Thread.Beating : Thread → Prop
  | .reconnectLoop .startHeartbeat => True
  | x => x.Live

/-- A `heartbeatLoop` is live, or will be, for the connection that is stored. -/
def Thread.Beats : Thread → Prop
  | .reconnectLoop (.reset _) => True
  | .reconnectLoop (.handshake _) => True
  | .reconnectLoop .opening => True
  | .reconnectLoop .resetCount => True
  | .reconnectLoop .startRead => True
  | x => x.Beating

theorem Thread.Reads.holds : ∀ {x : Thread}, x.Reads → x.Holds
  | .readLoop pc, h => by
    cases pc with
    | returned => exact h.elim
    | _ => trivial

theorem Thread.Live.beats : ∀ {x : Thread}, x.Live → x.Beats
  | .heartbeatLoop _, h => h

/-- The pong to ping `p` is in the hands of a `readLoop`. -/
def Thread.Carries (p : PingId) : Thread → Prop
  | .readLoop (.gotPong q) => q = some p
  | .readLoop (.sendPong ch q) => ch = some p ∧ q = some p
  | _ => False

/-- A new connection is stored only when no `heartbeatLoop` is left or about to be started, and the
ping-timeout branch is taken only when no pong to that ping is on its way to the loop. -/
def Orderly (s : State) (l : Nat × Act) : Prop :=
  (l.2 = .store → Nobody Thread.Beating s) ∧
  (l.2 = .timeout → ∀ p g, s.thread l.1 = some (.heartbeatLoop (.awaiting p g)) →
    s.shared.wire.filled p = false ∧ Nobody (Thread.Carries p) s)

section
variable {cfg : Config} {i : Nat} {s s' : Shared} {x x' : Thread} {a : Act} {y : Option Thread}

theorem Move.beats (h : Move cfg i s x a s' x' y) :
    (x'.Beats → x.Beats ∨ a = .store ∧ ¬ x.Beats) ∧ ∀ z, y = some z → z.Beats → x.Beats ∧ ¬ x'.Beats := by
  cases h with
  | readLoop h => cases h <;> simp [Thread.Beats, Thread.Beating, Thread.Live]
  | reconnectLoop h =>
    cases h with
    | failing => split_ifs <;> simp [Thread.Beats, Thread.Beating, Thread.Live]
    | _ => simp [Thread.Beats, Thread.Beating, Thread.Live]
  | heartbeatLoop h => cases h <;> simp [Thread.Beats, Thread.Beating, Thread.Live]
  | close h => simp [Thread.Beats, Thread.Beating, Thread.Live]

theorem Move.holds_of_store (h : Move cfg i s x .store s' x' y) : x.Holds := by
  cases h with
  | readLoop h => cases h
  | reconnectLoop h => cases h; trivial
  | heartbeatLoop h | close h => cases h

end

theorem Thread.Beats.beating_or_holds : ∀ {x : Thread}, x.Beats → x.Beating ∨ x.Holds
  | .reconnectLoop pc, h => by
    cases pc with
    | startHeartbeat => exact .inl h
    | returned => exact h.elim
    | _ => exact .inr trivial
  | .heartbeatLoop _, h => .inl h

theorem beats_step {cfg : Config} {s t : State} {l : Nat × Act} (h : When Orderly (Step cfg) s l t)
    (hholds : AtMostOne Thread.Holds s) (hs : AtMostOne Thread.Beats s) : AtMostOne Thread.Beats t := by
  obtain ⟨i, a⟩ := l
  refine hs.step h.2 ?_ ?_
  · intro x x' y hx hmove
    refine ⟨fun hx' => (hmove.beats.1 hx').imp id ?_, hmove.beats.2⟩
    rintro ⟨rfl, hnot⟩ j z hz hbeats
    rcases hbeats.beating_or_holds with hbeating | hz'
    · exact h.1.1 rfl j z hz hbeating
    · cases hholds j i z x hz hx hz' hmove.holds_of_store
      rw [hx] at hz
      exact hnot (Option.some.inj hz ▸ hbeats)
  · rintro x ⟨-, rfl⟩
    exact id

theorem beats_init : AtMostOne Thread.Beats init := by
  have hone : ∀ i x, init.thread i = some x → x.Beats → i = 1 := by
    rintro (_ | _ | i) x hx hbeats
    · cases hx
      exact hbeats.elim
    · rfl
    · cases hx
  intro i j x y hx hy hbeats hbeats'
  rw [hone i x hx hbeats, hone j y hy hbeats']

/-! ## 2. Pings and pongs -/

def Shared.Unpinged (s : Shared) : Prop := ∀ p, s.wire.sent p ≠ some s.conn

def Shared.PingedBy (s : Shared) (i : Nat) : Prop := ∀ p, s.wire.sent p = some s.conn → p.1 = i

structure Shared.WireSound (s : Shared) : Prop where
  conn_lt : s.conn < s.conns
  sent_lt : ∀ p c, s.wire.sent p = some c → c < s.conns ∧ p.2 < s.wire.made
  made : ∀ q, s.wire.pongCh = some q → q.2 < s.wire.made
  answered : ∀ p, s.wire.answered p = true → s.wire.sent p ≠ none
  /-- `pongCh` has a channel of the loop whose pings are on the connection. -/
  pongCh : ∀ p, s.wire.sent p = some s.conn → ∃ q, s.wire.pongCh = some q ∧ q.1 = p.1

def ReadPc.Sound (s : Shared) : ReadPc → Prop
  | .reading c => c = s.conn
  | .gotPong (some p) => s.wire.sent p = some s.conn
  | .sendPong ch (some p) => ∃ q, ch = some q ∧ q.1 = p.1
  | _ => True

def ReconnectPc.Sound (s : Shared) : ReconnectPc → Prop
  | .store c => c ≠ s.conn ∧ c < s.conns ∧ ∀ p, s.wire.sent p ≠ some c
  | .reset _ | .handshake _ | .opening | .resetCount | .startRead | .startHeartbeat => s.Unpinged
  | _ => True

def HeartbeatPc.Sound (s : Shared) (i : Nat) : HeartbeatPc → Prop
  | .ping p => s.PingedBy i ∧ s.wire.pongCh = some p ∧ p.1 = i ∧ s.wire.sent p = none
  | .pinged p | .awaiting p _ => s.PingedBy i ∧ s.wire.pongCh = some p ∧ p.1 = i
  | .returned => True
  | _ => s.PingedBy i

def Thread.Sound (s : Shared) (i : Nat) : Thread → Prop
  | .readLoop pc => pc.Sound s
  | .reconnectLoop pc => pc.Sound s
  | .heartbeatLoop pc => pc.Sound s i
  | .close _ => True

def Thread.Awaits (p : PingId) : Thread → Prop
  | .heartbeatLoop (.pinged q) => q = p
  | .heartbeatLoop (.awaiting q _) => q = p
  | _ => False

section
variable {cfg : Config} {i : Nat} {s s' : Shared} {x x' : Thread} {a : Act} {y : Option Thread}

theorem Move.sound (h : Move cfg i s x a s' x' y) (hw : s.WireSound) (hx : x.Sound s i) :
    x'.Sound s' i ∧ ∀ z, y = some z → ∀ k, z.Sound s' k := by
  cases h with
  | readLoop h =>
    cases h with
    | load => exact ⟨rfl, nofun⟩
    | @pongPacket c p _ hp =>
      refine ⟨?_, nofun⟩
      cases p with
      | none => trivial
      | some p =>
        have hsent := (hp p rfl).1
        rw [show c = s.conn from hx] at hsent
        exact hsent
    | @loadPongCh p =>
      refine ⟨?_, nofun⟩
      cases p with
      | none => trivial
      | some p => exact hw.pongCh p hx
    | readSkip => split_ifs <;> exact ⟨trivial, nofun⟩
    | start => exact ⟨trivial, fun z hz k => Option.some.inj hz ▸ trivial⟩
    | _ => exact ⟨trivial, nofun⟩
  | reconnectLoop h =>
    cases h with
    | dialed =>
      refine ⟨⟨hw.conn_lt.ne', Nat.lt_succ_self _, fun p hp => ?_⟩, nofun⟩
      exact (hw.sent_lt p _ hp).1.false
    | store => exact ⟨hx.2.2, nofun⟩
    | reset => exact ⟨hx, nofun⟩
    | shaken => exact ⟨hx, nofun⟩
    | failing => split_ifs <;> exact ⟨trivial, nofun⟩
    | opening => exact ⟨hx, nofun⟩
    | resetCount => exact ⟨hx, nofun⟩
    | startRead => exact ⟨hx, fun z hz k => Option.some.inj hz ▸ trivial⟩
    | startHeartbeat =>
      exact ⟨trivial, fun z hz k => Option.some.inj hz ▸ fun p hp => absurd hp (hx p)⟩
    | _ => exact ⟨trivial, nofun⟩
  | heartbeatLoop h =>
    refine ⟨?_, nofun⟩
    cases h with
    | loop => exact hx
    | ticker => exact hx
    | tick =>
      refine ⟨hx, rfl, rfl, ?_⟩
      cases hsent : s.wire.sent (i, s.wire.made) with
      | none => exact hsent
      | some c => exact absurd (hw.sent_lt _ _ hsent).2 (lt_irrefl _)
    | @write p _ =>
      obtain ⟨hby, hch, hp, -⟩ := hx
      refine ⟨fun q hq => ?_, hch, hp⟩
      by_cases hqp : q = p
      · rw [hqp, hp]
      · exact hby q ((update_of_ne hqp _ _).symm.trans hq)
    | await => exact hx
    | pong => exact hx.1
    | timeout => exact hx.1
    | _ => trivial
  | close h => cases h <;> exact ⟨trivial, nofun⟩

theorem Thread.Sound.mono {z : Thread} (hz : z.Sound s i) (hconn : s'.conn = s.conn)
    (hconns : s.conns ≤ s'.conns) (hsent : s'.wire.sent = s.wire.sent)
    (hpongCh : s'.wire.pongCh = s.wire.pongCh) : z.Sound s' i := by
  cases z with
  | readLoop pc =>
    unfold Thread.Sound ReadPc.Sound
    rw [hconn, hsent]
    exact hz
  | reconnectLoop pc =>
    have hunpinged : s.Unpinged → s'.Unpinged := by
      unfold Shared.Unpinged
      rw [hconn, hsent]
      exact id
    cases pc with
    | store c =>
      unfold Thread.Sound ReconnectPc.Sound
      rw [hconn, hsent]
      exact ⟨hz.1, hz.2.1.trans_le hconns, hz.2.2⟩
    | reset | handshake | opening | resetCount | startRead | startHeartbeat => exact hunpinged hz
    | _ => trivial
  | heartbeatLoop pc =>
    unfold Thread.Sound HeartbeatPc.Sound Shared.PingedBy
    rw [hconn, hsent, hpongCh]
    exact hz
  | close pc => trivial

theorem Thread.Sound.of_not_beats {z : Thread} (hz : z.Sound s i) (hbeats : ¬ z.Beats)
    (hconn : s'.conn = s.conn) (hconns : s'.conns = s.conns)
    (hkeep : ∀ q, s.wire.sent q = some s.conn → s'.wire.sent q = some s.conn)
    (hnew : ∀ q c, c ≠ s.conn → s.wire.sent q ≠ some c → s'.wire.sent q ≠ some c) : z.Sound s' i := by
  cases z with
  | readLoop pc =>
    cases pc with
    | reading c => exact hz.trans hconn.symm
    | gotPong q =>
      cases q with
      | none => trivial
      | some q =>
        unfold Thread.Sound ReadPc.Sound
        rw [hconn]
        exact hkeep q hz
    | sendPong ch q =>
      cases q with
      | none => trivial
      | some q => exact hz
    | _ => trivial
  | reconnectLoop pc =>
    cases pc with
    | store c =>
      unfold Thread.Sound ReconnectPc.Sound
      rw [hconn, hconns]
      exact ⟨hz.1, hz.2.1, fun q => hnew q c hz.1 (hz.2.2 q)⟩
    | reset | handshake | opening | resetCount | startRead | startHeartbeat =>
      exact absurd trivial hbeats
    | _ => trivial
  | heartbeatLoop pc =>
    cases pc with
    | returned => trivial
    | _ => exact absurd trivial hbeats
  | close pc => trivial

theorem Thread.sound_of_idle {z : Thread} (hholds : ¬ z.Holds) (hbeating : ¬ z.Beating) : z.Sound s i := by
  cases z with
  | readLoop pc =>
    cases pc with
    | returned => trivial
    | _ => exact absurd trivial hholds
  | reconnectLoop pc =>
    cases pc with
    | returned => trivial
    | startHeartbeat => exact absurd trivial hbeating
    | _ => exact absurd trivial hholds
  | heartbeatLoop pc =>
    cases pc with
    | returned => trivial
    | _ => exact absurd trivial hbeating
  | close pc => trivial

variable (w : Wire) (p : Option PingId)

theorem Wire.sent_answer : (w.answer p).sent = w.sent := by
  cases p <;> rfl

theorem Wire.pongCh_answer : (w.answer p).pongCh = w.pongCh := by
  cases p <;> rfl

theorem Wire.sent_fill : (w.fill p).sent = w.sent := by
  cases p <;> rfl

theorem Wire.pongCh_fill : (w.fill p).pongCh = w.pongCh := by
  cases p <;> rfl

theorem Move.sound_other {j : Nat} {z : Thread} (h : Move cfg i s x a s' x' y) (hz : z.Sound s j)
    (hholds : ¬ (x.Holds ∧ z.Holds)) (hbeats : ¬ (x.Beats ∧ z.Beats))
    (hstore : a = .store → ¬ z.Beating) : z.Sound s' j := by
  cases h with
  | readLoop h =>
    cases h with
    | pongPacket p => exact hz.mono rfl le_rfl (s.wire.sent_answer p) (s.wire.pongCh_answer p)
    | @sendPong ch p => exact hz.mono rfl le_rfl (s.wire.sent_fill ch) (s.wire.pongCh_fill ch)
    | _ => exact hz.mono rfl le_rfl rfl rfl
  | reconnectLoop h =>
    cases h with
    | dialed => exact hz.mono rfl (Nat.le_succ _) rfl rfl
    | store => exact Thread.sound_of_idle (fun hz' => hholds ⟨trivial, hz'⟩) (hstore rfl)
    | _ => exact hz.mono rfl le_rfl rfl rfl
  | heartbeatLoop h =>
    cases h with
    | tick =>
      exact hz.of_not_beats (fun hz' => hbeats ⟨trivial, hz'⟩) rfl rfl (fun _ hq => hq)
        fun _ _ _ hq => hq
    | @write p _ =>
      refine hz.of_not_beats (fun hz' => hbeats ⟨trivial, hz'⟩) rfl rfl (fun q hq => ?_)
        fun q c hc hq hq' => ?_
      · by_cases hqp : q = p
        · subst hqp
          exact update_self _ _ _
        · exact (update_of_ne hqp _ _).trans hq
      · by_cases hqp : q = p
        · subst hqp
          exact hc (Option.some.inj (hq'.symm.trans (update_self _ _ _)))
        · exact hq ((update_of_ne hqp _ _).symm.trans hq')
    | _ => exact hz.mono rfl le_rfl rfl rfl
  | close h => cases h <;> exact hz.mono rfl le_rfl rfl rfl

theorem Move.wireSound (h : Move cfg i s x a s' x' y) (hw : s.WireSound) (hx : x.Sound s i) :
    s'.WireSound := by
  obtain ⟨hconn, hlt, hmade, hans, hch⟩ := hw
  cases h with
  | readLoop h =>
    cases h with
    | @pongPacket c p _ hp =>
      cases p with
      | none => exact ⟨hconn, hlt, hmade, hans, hch⟩
      | some p =>
        refine ⟨hconn, hlt, hmade, fun q hq => ?_, hch⟩
        by_cases hqp : q = p
        · subst hqp
          exact fun hnone => Option.some_ne_none _ ((hp q rfl).1.symm.trans hnone)
        · exact hans q ((update_of_ne hqp _ _).symm.trans hq)
    | @sendPong ch p => cases ch <;> exact ⟨hconn, hlt, hmade, hans, hch⟩
    | _ => exact ⟨hconn, hlt, hmade, hans, hch⟩
  | reconnectLoop h =>
    cases h with
    | dialed =>
      exact ⟨hconn.trans (Nat.lt_succ_self _),
        fun p c hp => ⟨(hlt p c hp).1.trans (Nat.lt_succ_self _), (hlt p c hp).2⟩, hmade, hans, hch⟩
    | store => exact ⟨hx.2.1, hlt, hmade, hans, fun p hp => absurd hp (hx.2.2 p)⟩
    | _ => exact ⟨hconn, hlt, hmade, hans, hch⟩
  | heartbeatLoop h =>
    cases h with
    | tick =>
      refine ⟨hconn, fun p c hp => ⟨(hlt p c hp).1, (hlt p c hp).2.trans (Nat.lt_succ_self _)⟩, ?_, hans,
        fun p hp => ⟨_, rfl, (hx p hp).symm⟩⟩
      intro q hq
      rw [← Option.some.inj hq]
      exact Nat.lt_succ_self _
    | @write p _ =>
      obtain ⟨hby, hpongCh, hp, -⟩ := hx
      have hsent : ∀ q c, update s.wire.sent p (some s.conn) q = some c →
          q = p ∧ c = s.conn ∨ s.wire.sent q = some c := by
        intro q c hq
        by_cases hqp : q = p
        · subst hqp
          rw [update_self] at hq
          exact .inl ⟨rfl, (Option.some.inj hq).symm⟩
        · rw [update_of_ne hqp] at hq
          exact .inr hq
      refine ⟨hconn, fun q c hq => ?_, hmade, fun q hq hnone => ?_, fun q hq => ?_⟩
      · rcases hsent q c hq with ⟨rfl, rfl⟩ | hold
        · exact ⟨hconn, hmade q hpongCh⟩
        · exact hlt q c hold
      · by_cases hqp : q = p
        · subst hqp
          change update s.wire.sent q (some s.conn) q = none at hnone
          rw [update_self] at hnone
          cases hnone
        · exact hans q hq ((update_of_ne hqp _ _).symm.trans hnone)
      · rcases hsent q _ hq with ⟨rfl, -⟩ | hold
        · exact ⟨q, hpongCh, rfl⟩
        · exact hch q hold
    | _ => exact ⟨hconn, hlt, hmade, hans, hch⟩
  | close h => cases h <;> exact ⟨hconn, hlt, hmade, hans, hch⟩

theorem Move.coming {p : PingId} (h : Move cfg i s x a s' x' y) (hch : s.wire.pongCh = some p)
    (hx : x.Sound s i) (hp : p.1 ≠ i) :
    (s'.wire.answered p = true → s.wire.answered p = true ∨ x'.Carries p) ∧
      (s.wire.filled p = true → s'.wire.filled p = true) ∧
      (x.Carries p → x'.Carries p ∨ s'.wire.filled p = true) := by
  cases h with
  | readLoop h =>
    cases h with
    | @pongPacket c q _ _ =>
      cases q with
      | none => exact ⟨.inl, id, False.elim⟩
      | some q =>
        refine ⟨fun hans => ?_, id, False.elim⟩
        by_cases hpq : p = q
        · exact .inr (congrArg some hpq.symm)
        · exact .inl ((update_of_ne hpq _ _).symm.trans hans)
    | loadPongCh => exact ⟨.inl, id, fun hq => .inl ⟨hch, hq⟩⟩
    | @sendPong ch q =>
      cases ch with
      | none => exact ⟨.inl, id, fun hq => absurd hq.1 nofun⟩
      | some ch =>
        refine ⟨.inl, fun hfilled => ?_, fun hq => .inr ?_⟩
        · by_cases hpc : p = ch
          · subst hpc
            exact update_self _ _ _
          · exact (update_of_ne hpc _ _).trans hfilled
        · cases hq.1
          exact update_self _ _ _
    | _ => exact ⟨.inl, id, False.elim⟩
  | reconnectLoop h => cases h <;> exact ⟨.inl, id, False.elim⟩
  | heartbeatLoop h =>
    cases h with
    | @pong q g _ =>
      refine ⟨.inl, fun hfilled => ?_, False.elim⟩
      have hpq : p ≠ q := by
        rintro rfl
        exact hp hx.2.2
      exact (update_of_ne hpq _ _).trans hfilled
    | _ => exact ⟨.inl, id, False.elim⟩
  | close h => cases h <;> exact ⟨.inl, id, False.elim⟩

theorem Move.awaits {p : PingId} (h : Move cfg i s x a s' x' y) (hx' : x'.Awaits p) :
    x = .heartbeatLoop (.ping p) ∧ s'.wire.answered = s.wire.answered ∨ x.Awaits p ∧ s' = s := by
  cases h with
  | readLoop h | reconnectLoop h => exact hx'.elim
  | heartbeatLoop h =>
    cases h with
    | write => exact .inl ⟨by rw [show _ = p from hx'], rfl⟩
    | await => exact .inr ⟨hx', rfl⟩
    | _ => exact hx'.elim
  | close h => exact hx'.elim

theorem Move.not_awaits_of_forked {p : PingId} {z : Thread} (h : Move cfg i s x a s' x' (some z)) :
    ¬ z.Awaits p := by
  cases h with
  | readLoop h =>
    cases h
    exact id
  | reconnectLoop h => cases h <;> exact id

end

/-! ## 3. Runs -/

variable {cfg : Config}

structure Heartbeats (s : State) : Prop where
  holds : AtMostOne Thread.Holds s
  beats : AtMostOne Thread.Beats s
  wire : s.shared.WireSound
  threads : Every Thread.Sound s
  /-- The answer to a ping that is waited for is in the channel, or a `readLoop` carries it there. -/
  coming : ∀ i x p, s.thread i = some x → x.Awaits p → s.shared.wire.answered p = true →
    s.shared.wire.filled p = true ∨ ∃ k z, s.thread k = some z ∧ z.Carries p

theorem Thread.Awaits.pongCh {s : Shared} {i : Nat} {p : PingId} : ∀ {x : Thread}, x.Awaits p → x.Sound s i →
    s.wire.pongCh = some p ∧ p.1 = i
  | .heartbeatLoop (.pinged _), rfl, hx => hx.2
  | .heartbeatLoop (.awaiting _ _), rfl, hx => hx.2

theorem heartbeats_init : Heartbeats init where
  holds := holds_init
  beats := beats_init
  wire := ⟨Nat.zero_lt_one, nofun, nofun, nofun, nofun⟩
  threads := by
    rintro (_ | _ | i) x hx <;> cases hx
    · trivial
    · exact nofun
  coming _ _ _ _ _ := nofun

section
variable {s t : State} {l : Nat × Act} (hs : Heartbeats s) (h : When Orderly (Step cfg) s l t)
include h hs

theorem Heartbeats.coming_step :
    ∀ j w p, t.thread j = some w → w.Awaits p → t.shared.wire.answered p = true →
      t.shared.wire.filled p = true ∨ ∃ k z, t.thread k = some z ∧ z.Carries p := by
  obtain ⟨i, a⟩ := l
  intro j w p hw hawaits hans
  rcases h.2.cases with ⟨x, x', y, k, hx, hmove, hx', hkeep, hothers⟩ | ⟨x, hi, ⟨-, rfl⟩, rfl⟩
  · by_cases hj : j = i
    · subst hj
      rw [hx'] at hw
      cases hw
      rcases hmove.awaits hawaits with ⟨rfl, hsame⟩ | ⟨hold, hsame⟩
      · -- the ping has just been written, and was not answered before
        rw [hsame] at hans
        exact absurd (hs.threads j _ hx).2.2.2 (hs.wire.answered p hans)
      · rw [hsame] at hans ⊢
        refine (hs.coming j x p hx hold hans).imp id ?_
        rintro ⟨k, z, hz, hcarries⟩
        have hk : k ≠ j := by
          rintro rfl
          rw [hx] at hz
          cases hz
          cases x with
          | heartbeatLoop => exact hcarries.elim
          | _ => exact hold.elim
        exact ⟨k, z, hkeep k hk z hz, hcarries⟩
    · rcases hothers j hj w hw with hold | ⟨-, -, rfl⟩
      · obtain ⟨hch, hp⟩ := hawaits.pongCh (hs.threads j w hold)
        obtain ⟨hnew, hfilled, hcarried⟩ := hmove.coming hch (hs.threads i x hx) (hp ▸ hj)
        rcases hnew hans with hans | hcarries
        · rcases hs.coming j w p hold hawaits hans with hfull | ⟨k, z, hz, hcarries⟩
          · exact .inl (hfilled hfull)
          · by_cases hk : k = i
            · subst hk
              rw [hx] at hz
              cases hz
              exact (hcarried hcarries).symm.imp id fun hc => ⟨k, x', hx', hc⟩
            · exact .inr ⟨k, z, hkeep k hk z hz, hcarries⟩
        · exact .inr ⟨i, x', hx', hcarries⟩
      · exact absurd hawaits hmove.not_awaits_of_forked
  · rcases thread_enter hw with ⟨-, rfl⟩ | hold
    · exact hawaits.elim
    · refine (hs.coming j w p hold hawaits hans).imp id ?_
      rintro ⟨k, z, hz, hcarries⟩
      refine ⟨k, z, ?_, hcarries⟩
      have hk : k ≠ i := by
        rintro rfl
        rw [hi] at hz
        cases hz
      exact (update_of_ne hk _ _).trans hz

theorem Heartbeats.step : Heartbeats t := by
  refine ⟨holds_step h.2 hs.holds, beats_step h hs.holds hs.beats, ?_, ?_, hs.coming_step h⟩
  · rcases h.2.cases with ⟨x, x', y, k, hx, hmove, -⟩ | ⟨x, -, -, rfl⟩
    · exact hmove.wireSound hs.wire (hs.threads _ x hx)
    · exact hs.wire
  · obtain ⟨i, a⟩ := l
    refine hs.threads.step h.2 ?_ ?_
    · intro x x' y hx hmove hsound
      obtain ⟨hself, hforked⟩ := hmove.sound hs.wire hsound
      refine ⟨hself, fun z hz k _ => hforked z hz k, fun j hj z hz hold => ?_⟩
      refine hmove.sound_other hold ?_ ?_ ?_
      · exact fun hboth => hj (hs.holds j i z x hz hx hboth.2 hboth.1)
      · exact fun hboth => hj (hs.beats j i z x hz hx hboth.2 hboth.1)
      · exact fun hstore => h.1.1 hstore j z hz
    · rintro x ⟨-, rfl⟩
      exact ⟨trivial, fun _ _ _ _ hz => hz⟩

end

/-- **One heartbeat per connection.**  In every run that is orderly, at most one `heartbeatLoop` and at most
one `readLoop` is live; the pong to a ping goes to a channel of the loop that sent the ping; and a loop that
takes its ping-timeout branch has had no answer to the ping. -/
theorem one_heartbeat {as : List (Nat × Act)} {s : State}
    (h : Run (When Orderly (Step cfg)) init as s) :
    AtMostOne Thread.Live s ∧ AtMostOne Thread.Reads s ∧
    (∀ i ch p, s.thread i = some (.readLoop (.sendPong ch (some p))) → ∃ q, ch = some q ∧ q.1 = p.1) ∧
    ∀ i t p g, When Orderly (Step cfg) s (i, .timeout) t →
      s.thread i = some (.heartbeatLoop (.awaiting p g)) → s.shared.wire.answered p = false := by
  have hs : Heartbeats s :=
    h.invariant (I := Heartbeats) (fun _ _ _ hstep hs => hs.step hstep) heartbeats_init
  refine ⟨?_, ?_, ?_, ?_⟩
  · exact fun i j x y hx hy hlive hlive' => hs.beats i j x y hx hy hlive.beats hlive'.beats
  · exact fun i j x y hx hy hreads hreads' => hs.holds i j x y hx hy hreads.holds hreads'.holds
  · exact fun i ch p hi => hs.threads i _ hi
  · intro i t p g hstep hi
    obtain ⟨hfilled, hnobody⟩ := hstep.1.2 rfl p g hi
    by_contra hans
    rw [Bool.not_eq_false] at hans
    rcases hs.coming i _ p hi rfl hans with hfull | ⟨k, z, hz, hcarries⟩
    · rw [hfull] at hfilled
      cases hfilled
    · exact hnobody k z hz hcarries

/-! ## 4. A pong that arrives, and one that does not -/

theorem orderly_of_ne {s : State} {l : Nat × Act} (hstore : l.2 ≠ .store) (htimeout : l.2 ≠ .timeout) :
    Orderly s l :=
  ⟨fun h => absurd h hstore, fun h => absurd h htimeout⟩

theorem pong_run : ∃ as s, Run (When Orderly (Step reconnecting)) init as s ∧
    s.thread 0 = some (.readLoop (.sendPong (some (1, 0)) (some (1, 0)))) := by
  have hquiet : ∀ (s : State) (i : Nat), Orderly s (i, .tau) :=
    fun _ _ => orderly_of_ne Act.noConfusion Act.noConfusion
  exact ⟨[(1, .tau), (1, .tau), (1, .tau), (1, .tau), (0, .tau), (0, .tau), (0, .tau)], _,
    .consWhen (.move rfl (.heartbeatLoop .loop)) (hquiet _ _) <|
    .consWhen (.move rfl (.heartbeatLoop .ticker)) (hquiet _ _) <|
    .consWhen (.move rfl (.heartbeatLoop .tick)) (hquiet _ _) <|
    .consWhen (.move rfl (.heartbeatLoop (.write rfl))) (hquiet _ _) <|
    .consWhen (.move rfl (.readLoop .load)) (hquiet _ _) <|
    .consWhen (.move rfl (.readLoop (.pongPacket (some (1, 0)) rfl fun q hq =>
      Option.some.inj hq ▸ ⟨rfl, rfl⟩))) (hquiet _ _) <|
    .consWhen (.move rfl (.readLoop .loadPongCh)) (hquiet _ _) .nil, rfl⟩

theorem one_heartbeat_pong : ∃ as s ch p, Run (Step reconnecting) init as s ∧ AtMostOne Thread.Live s ∧
    s.thread 0 = some (.readLoop (.sendPong ch (some p))) ∧ ∃ q, ch = some q ∧ q.1 = p.1 := by
  obtain ⟨as, s, h, hpong⟩ := pong_run
  obtain ⟨hone, -, hdelivered, -⟩ := one_heartbeat h
  exact ⟨as, s, _, _, h.unrestricted, hone, hpong, hdelivered 0 _ _ hpong⟩

/-- **The connection breaks and is replaced.**  The old `heartbeatLoop` lives on beside the new one and
replaces `pongCh` after the new one has written its ping.  The pong to that ping goes to the old loop, and
the new one runs into its timeout. -/
theorem two_heartbeats : ∃ as s t g, Run (Step reconnecting) init as s ∧ ¬ AtMostOne Thread.Live s ∧
    s.thread 4 = some (.heartbeatLoop (.awaiting (4, 0) g)) ∧ s.shared.wire.answered (4, 0) = true ∧
    s.shared.wire.filled (4, 0) = false ∧ s.shared.wire.filled (1, 1) = true ∧
    Step reconnecting s (4, .timeout) t := by
  have hlive : ∀ {s : State} {x y : Thread}, s.thread 1 = some x → s.thread 4 = some y → x.Live →
      y.Live → ¬ AtMostOne Thread.Live s := by
    intro s x y hx hy hlx hly hone
    cases hone 1 4 x y hx hy hlx hly
  exact ⟨[(1, .tau), (0, .tau), (0, .tau), (0, .tau), (0, .tau), (0, .tau), (0, .tau), (0, .tau),
      (2, .tau), (2, .tau), (2, .tau), (2, .timer), (2, .attempt), (2, .dial true), (2, .store),
      (2, .tau), (2, .handshake true), (2, .open), (2, .tau), (2, .tau), (2, .tau), (4, .tau),
      (4, .tau), (4, .tau), (4, .tau), (4, .tau), (1, .tau), (1, .tau), (1, .tau), (3, .tau),
      (3, .tau), (3, .tau), (3, .tau)], _, _, _,
    .cons (.move rfl (.heartbeatLoop .loop)) <|
    .cons (.move rfl (.readLoop .load)) <|
    .cons (.move rfl (.readLoop .error)) <|
    .cons (.move rfl (.readLoop .cleanup)) <|
    .cons (.move rfl (.readLoop .loadConn)) <|
    .cons (.move rfl (.readLoop .closeConn)) <|
    .cons (.move rfl (.readLoop .readSkip)) <|
    .cons (.fork 2 rfl (.readLoop .start) rfl) <|
    .cons (.move rfl (.reconnectLoop .check)) <|
    .cons (.move rfl (.reconnectLoop (.checkOpen rfl))) <|
    .cons (.move rfl (.reconnectLoop .sleep)) <|
    .cons (.move rfl (.reconnectLoop .timer)) <|
    .cons (.move rfl (.reconnectLoop .count)) <|
    .cons (.move rfl (.reconnectLoop .dialed)) <|
    .cons (.move rfl (.reconnectLoop .store)) <|
    .cons (.move rfl (.reconnectLoop .reset)) <|
    .cons (.move rfl (.reconnectLoop (.shaken rfl))) <|
    .cons (.move rfl (.reconnectLoop .opening)) <|
    .cons (.move rfl (.reconnectLoop .resetCount)) <|
    .cons (.fork 3 rfl (.reconnectLoop .startRead) rfl) <|
    .cons (.fork 4 rfl (.reconnectLoop .startHeartbeat) rfl) <|
    .cons (.move rfl (.heartbeatLoop .loop)) <|
    .cons (.move rfl (.heartbeatLoop .ticker)) <|
    .cons (.move rfl (.heartbeatLoop .tick)) <|
    .cons (.move rfl (.heartbeatLoop (.write rfl))) <|
    .cons (.move rfl (.heartbeatLoop .await)) <|
    .cons (.move rfl (.heartbeatLoop .ticker)) <|
    .cons (.move rfl (.heartbeatLoop .tick)) <|
    .cons (.move rfl (.heartbeatLoop (.write rfl))) <|
    .cons (.move rfl (.readLoop .load)) <|
    .cons (.move rfl (.readLoop (.pongPacket (some (4, 0)) rfl fun q hq =>
      Option.some.inj hq ▸ ⟨rfl, rfl⟩))) <|
    .cons (.move rfl (.readLoop .loadPongCh)) <|
    .cons (.move rfl (.readLoop .sendPong)) .nil,
    hlive (x := .heartbeatLoop (.pinged (1, 1))) (y := .heartbeatLoop (.awaiting (4, 0) 1)) rfl rfl trivial
      trivial, rfl, rfl, rfl, rfl, .move rfl (.heartbeatLoop .timeout)⟩

end AoniContrib.SocketIO.Threads
