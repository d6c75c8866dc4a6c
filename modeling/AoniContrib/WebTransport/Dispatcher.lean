/-
# Several sessions on one connection: `StartConnectionDispatcher`

`DialWithConn` starts three accept loops for EACH session on the shared connection.  A loop takes the
next item whoever it is for, reads the session id in its header, and hands the item to its own session
or throws it away: there is no table of sessions in which another one could be found.  So an item
reaches its session exactly when it is one of that session's own loops that takes it
(`items_routed`); with two sessions the other's loop may be faster (`stream_misrouted`).

A loop that has stopped takes nothing, so the runs of loops that stop are among the runs here.
-/
import AoniContrib.WebTransport.Session
import AoniContrib.WebTransport.Stream

namespace AoniContrib.WebTransport.Dispatcher

open Go Concurrency
open Function (update update_apply)

/-! ## 1. Headers -/

theorem encodeVarint_ne_nil (tag v : Nat) : encodeVarint tag v ≠ [] := by
  intro h
  have hlen := congrArg List.length h
  rw [encodeVarint, length_beBytes] at hlen
  exact absurd hlen (Nat.two_pow_pos tag).ne'

section
variable [Quicvarint]

/-- `handleIncomingBidi` and `handleIncomingUni` up to the `Enqueue` call: what is left of the stream
behind a header that names the session. -/
def routeStream (streamType sessionID : Nat) (r : Reader) : Option Bytes :=
  match readVarint r with
  | (.error _, _) => none
  | (.ok fType, r) =>
    if fType ≠ streamType then none
    else
      match readVarint r with
      | (.error _, _) => none
      | (.ok sessID, r) => if sessID = sessionID then some r.flatten else none

/-- The body of the datagram loop up to the `Enqueue` call; the product is of 64 bits. -/
def routeDatagram (sessionID : Nat) (dgram : Bytes) : Option Bytes :=
  if dgram = [] then none
  else
    match Quicvarint.parse dgram with
    | none => none
    | some (quarterID, n) => if quarterID * 4 % 2 ^ 64 = sessionID then some (dgram.drop n) else none

/-- What the loops of the session `sessionID` make of an item. -/
def route (sessionID : Nat) : Kind → Reader → Option Bytes
  | .bidi, r => routeStream frameTypeWebTransportBidi sessionID r
  | .uni, r => routeStream streamTypeWebTransportUni sessionID r
  | .datagram, r => routeDatagram sessionID r.flatten

/-- The headers that name a session, with varints of any width. -/
inductive Header : Kind → Nat → Bytes → Prop where
  | bidi {tag tag' n : Nat} : tag < 4 → tag' < 4 → frameTypeWebTransportBidi < 2 ^ varintBits tag →
      n < 2 ^ varintBits tag' →
      Header .bidi n (encodeVarint tag frameTypeWebTransportBidi ++ encodeVarint tag' n)
  | uni {tag tag' n : Nat} : tag < 4 → tag' < 4 → streamTypeWebTransportUni < 2 ^ varintBits tag →
      n < 2 ^ varintBits tag' →
      Header .uni n (encodeVarint tag streamTypeWebTransportUni ++ encodeVarint tag' n)
  | datagram {tag q : Nat} : tag < 4 → q < 2 ^ varintBits tag →
      Header .datagram (4 * q) (encodeVarint tag q)

/-- A well-formed item: its kind, the session it names, its payload, and the pieces it comes in. -/
structure Incoming where
  kind : Kind
  names : Nat
  payload : Bytes
  pieces : Reader
  wellFormed : ∃ header, Header kind names header ∧ pieces.flatten = header ++ payload

variable {payload : Bytes}

theorem routeStream_header {streamType sessionID tag tag' n : Nat} {r : Reader}
    (htag : tag < 4) (htag' : tag' < 4) (htype : streamType < 2 ^ varintBits tag)
    (hn : n < 2 ^ varintBits tag')
    (hr : r.flatten = encodeVarint tag streamType ++ encodeVarint tag' n ++ payload) :
    routeStream streamType sessionID r = if n = sessionID then some payload else none := by
  rw [List.append_assoc] at hr
  obtain ⟨r₁, hread₁, hr₁⟩ := readVarint_encode htag htype hr
  obtain ⟨r₂, hread₂, hr₂⟩ := readVarint_encode htag' hn hr₁
  simp only [routeStream, hread₁, ne_eq, not_true_eq_false, if_false, hread₂, hr₂]

theorem routeDatagram_header {sessionID tag q : Nat} (htag : tag < 4)
    (hq : q < 2 ^ varintBits tag) :
    routeDatagram sessionID (encodeVarint tag q ++ payload) =
      if 4 * q = sessionID then some payload else none := by
  have hdrop : (encodeVarint tag q ++ payload).drop (2 ^ tag) = payload :=
    List.drop_left' (by rw [encodeVarint, length_beBytes])
  have hne : encodeVarint tag q ++ payload ≠ [] := by simp [encodeVarint_ne_nil]
  have hsmall : q * 4 % 2 ^ 64 = 4 * q := by
    have hbits : varintBits tag ≤ 62 := by
      interval_cases tag <;> decide
    have hq62 : q < 2 ^ 62 := hq.trans_le (Nat.pow_le_pow_right (by decide) hbits)
    omega
  simp only [routeDatagram, if_neg hne, parse_encodeVarint htag hq, hdrop, hsmall]

/-- **A session's loops take what names the session, without its header, and nothing else.** -/
theorem route_incoming (x : Incoming) (sessionID : Nat) :
    route sessionID x.kind x.pieces = if x.names = sessionID then some x.payload else none := by
  obtain ⟨header, hheader, hflat⟩ := x.wellFormed
  cases x with
  | mk kind names payload pieces =>
    dsimp only at hheader hflat ⊢
    cases hheader with
    | bidi h h' htype hn => exact routeStream_header h h' htype hn hflat
    | uni h h' htype hn => exact routeStream_header h h' htype hn hflat
    | datagram h hq =>
      rw [route, hflat]
      exact routeDatagram_header h hq

end

/-! ## 2. The loops on one connection -/

/-- The sessions of a connection, and the items that come in on it. -/
structure Connection where
  sessions : Nat
  id : Fin sessions → Nat
  id_inj : ∀ d d', id d = id d' → d = d'
  items : Nat
  item : Fin items → Incoming

section
variable {C : Connection}

inductive Place (C : Connection) where
  /-- On the connection, not taken yet. -/
  | incoming
  /-- Taken by an accept loop of the session. -/
  | held (d : Fin C.sessions)
  /-- Enqueued on the session, with the bytes behind its header. -/
  | enqueued (d : Fin C.sessions) (payload : Bytes)
  /-- A datagram for which the queue was full. -/
  | dropped (d : Fin C.sessions)
  /-- Given up, for the session was ending. -/
  | refused (d : Fin C.sessions)
  /-- Thrown away by the loop of a session that it does not name. -/
  | misrouted (d : Fin C.sessions)

/-- How far the end of a session is. -/
inductive Phase where
  | active
  /-- The context is done, or `Close` has begun. -/
  | cancelled
  /-- `Close` has taken the lock. -/
  | closed
  deriving DecidableEq

structure State (C : Connection) where
  place : Fin C.items → Place C := fun _ => .incoming
  phase : Fin C.sessions → Phase := fun _ => .active
  queue : Fin C.sessions → Kind → List (Fin C.items) := fun _ _ => []

def State.new (C : Connection) : State C := {}

inductive Event (C : Connection) where
  | accept (d : Fin C.sessions) (j : Fin C.items)
  | handle (j : Fin C.items)
  | receive (d : Fin C.sessions) (k : Kind)
  | cancel (d : Fin C.sessions)
  | close (d : Fin C.sessions)

def State.put (s : State C) (d : Fin C.sessions) (j : Fin C.items) (payload : Bytes) : State C :=
  { s with
    place := update s.place j (.enqueued d payload)
    queue := fun d' k => if d' = d ∧ k = (C.item j).kind then s.queue d' k ++ [j] else s.queue d' k }

inductive Step [Quicvarint] : State C → Event C → State C → Prop where
  /-- A loop of the session takes the next item of its kind. -/
  | accept {s d j} : s.place j = .incoming →
      (∀ j' < j, (C.item j').kind = (C.item j).kind → s.place j' ≠ .incoming) →
      Step s (.accept d j) { s with place := update s.place j (.held d) }
  | misroute {s d j} : s.place j = .held d →
      route (C.id d) (C.item j).kind (C.item j).pieces = none →
      Step s (.handle j) { s with place := update s.place j (.misrouted d) }
  | enqueue {s d j payload} : s.place j = .held d →
      route (C.id d) (C.item j).kind (C.item j).pieces = some payload → s.phase d ≠ .closed →
      (s.queue d (C.item j).kind).length < (C.item j).kind.cap →
      Step s (.handle j) (s.put d j payload)
  /-- A datagram finds the queue full; a stream would wait. -/
  | drop {s d j payload} : s.place j = .held d →
      route (C.id d) (C.item j).kind (C.item j).pieces = some payload → s.phase d ≠ .closed →
      (C.item j).kind = .datagram → ¬ (s.queue d .datagram).length < Kind.cap .datagram →
      Step s (.handle j) { s with place := update s.place j (.dropped d) }
  /-- A stream may also be given up in the `select`, once the context is done. -/
  | refuse {s d j payload} : s.place j = .held d →
      route (C.id d) (C.item j).kind (C.item j).pieces = some payload →
      (s.phase d = .closed ∨ s.phase d = .cancelled ∧ (C.item j).kind ≠ .datagram) →
      Step s (.handle j) { s with place := update s.place j (.refused d) }
  | receive {s d k j rest} : s.queue d k = j :: rest →
      Step s (.receive d k)
        { s with queue := fun d' k' => if d' = d ∧ k' = k then rest else s.queue d' k' }
  | cancel {s d} : s.phase d = .active →
      Step s (.cancel d) { s with phase := update s.phase d .cancelled }
  | close {s d} : Step s (.close d) { s with phase := update s.phase d .closed }

/-! ## 3. Routing -/

/-- An item that names a session is taken by a loop of that session. -/
def TakenByNamed (_ : State C) : Event C → Prop
  | .accept d j => ∀ i, (C.item j).names = C.id i → i = d
  | _ => True

/-- Where an item that names the session `i` may be. -/
def Routed (s : State C) (j : Fin C.items) (i : Fin C.sessions) : Prop :=
  s.place j = .incoming ∨ s.place j = .held i ∨ s.place j = .enqueued i (C.item j).payload ∨
    s.place j = .dropped i ∧ (C.item j).kind = .datagram ∨
    s.place j = .refused i ∧ s.phase i ≠ .active

structure Correct (s : State C) : Prop where
  routed : ∀ j i, (C.item j).names = C.id i → Routed s j i
  queued : ∀ d k, ∀ j ∈ s.queue d k, ∃ payload, s.place j = .enqueued d payload

theorem correct_new : Correct (State.new C) := ⟨fun _ _ _ => .inl rfl, fun _ _ _ h => by cases h⟩

variable {s t : State C} {j : Fin C.items} {i : Fin C.sessions}

theorem Routed.congr (h : Routed s j i)
    (hplace : t.place j = s.place j) (hphase : s.phase i ≠ .active → t.phase i ≠ .active) :
    Routed t j i := by
  unfold Routed at h ⊢
  rw [hplace]
  rcases h with h | h | h | h | ⟨h, hended⟩
  · exact .inl h
  · exact .inr (.inl h)
  · exact .inr (.inr (.inl h))
  · exact .inr (.inr (.inr (.inl h)))
  · exact .inr (.inr (.inr (.inr ⟨h, hphase hended⟩)))

theorem Correct.move (hs : Correct s) {p : Place C}
    (hout : ∀ d payload, s.place j ≠ .enqueued d payload)
    (hp : ∀ i, (C.item j).names = C.id i → Routed { s with place := update s.place j p } j i) :
    Correct { s with place := update s.place j p } := by
  refine ⟨fun x i hx => ?_, fun d k x hx => ?_⟩
  · by_cases hxj : x = j
    · rw [hxj] at hx ⊢
      exact hp i hx
    · exact (hs.routed x i hx).congr (Function.update_of_ne hxj _ _) id
  · obtain ⟨payload, hpl⟩ := hs.queued d k x hx
    have hxj : x ≠ j := fun hxj => hout d payload (hxj ▸ hpl)
    exact ⟨payload, (Function.update_of_ne hxj _ _).trans hpl⟩

theorem Correct.ended (hs : Correct s) {d : Fin C.sessions} {phase : Phase}
    (hphase : phase ≠ .active) : Correct { s with phase := update s.phase d phase } := by
  refine ⟨fun j i hi => (hs.routed j i hi).congr rfl fun hended => ?_, hs.queued⟩
  simp only [update_apply]
  split_ifs
  · exact hphase
  · exact hended

variable {e : Event C} [Quicvarint]

theorem correct_step (h : When TakenByNamed Step s e t) (hs : Correct s) : Correct t := by
  obtain ⟨hcond, hstep⟩ := h
  -- a held item that names a session is held by that session
  have hheld : ∀ {j d i}, s.place j = .held d → (C.item j).names = C.id i → d = i := by
    intro j d i hd hi
    rcases hs.routed j i hi with h | h | h | ⟨h, -⟩ | ⟨h, -⟩ <;> rw [hd] at h <;> cases h
    rfl
  have hout : ∀ {j p}, s.place j = p → (∀ d payload, p ≠ .enqueued d payload) →
      ∀ d payload, s.place j ≠ .enqueued d payload := fun hp hne => hp ▸ hne
  cases hstep with
  | accept hj _ =>
    refine hs.move (hout hj (by simp)) fun i hi => .inr (.inl ?_)
    rw [hcond i hi]
    exact Function.update_self _ _ _
  | misroute hj hroute =>
    refine hs.move (hout hj (by simp)) fun i hi => ?_
    obtain rfl := hheld hj hi
    rw [route_incoming, if_pos hi] at hroute
    cases hroute
  | @enqueue d j payload hj hroute _ _ =>
    have hpayload : payload = (C.item j).payload := by
      rw [route_incoming] at hroute
      split_ifs at hroute
      exact (Option.some.inj hroute).symm
    refine ⟨fun x i hx => ?_, fun d' k x hx => ?_⟩
    · by_cases hxj : x = j
      · subst hxj
        obtain rfl := hheld hj hx
        exact .inr (.inr (.inl (by rw [← hpayload]; exact Function.update_self _ _ _)))
      · exact (hs.routed x i hx).congr (Function.update_of_ne hxj _ _) id
    · by_cases hxj : x = j
      · subst hxj
        by_cases hd : d' = d ∧ k = (C.item x).kind
        · exact ⟨payload, by rw [hd.1]; exact Function.update_self _ _ _⟩
        · simp only [State.put, if_neg hd] at hx
          obtain ⟨p, hp⟩ := hs.queued d' k x hx
          rw [hj] at hp
          cases hp
      · have hold : x ∈ s.queue d' k := by
          simp only [State.put] at hx
          split_ifs at hx
          · exact (List.mem_append.mp hx).resolve_right fun h => hxj (List.mem_singleton.mp h)
          · exact hx
        obtain ⟨p, hp⟩ := hs.queued d' k x hold
        exact ⟨p, (Function.update_of_ne hxj _ _).trans hp⟩
  | drop hj _ _ hkind _ =>
    refine hs.move (hout hj (by simp)) fun i hi => .inr (.inr (.inr (.inl ⟨?_, hkind⟩)))
    rw [← hheld hj hi]
    exact Function.update_self _ _ _
  | refuse hj _ hending =>
    refine hs.move (hout hj (by simp)) fun i hi => ?_
    obtain rfl := hheld hj hi
    refine .inr (.inr (.inr (.inr ⟨Function.update_self _ _ _, ?_⟩)))
    rcases hending with h | ⟨h, -⟩ <;> simp [h]
  | @receive d k y rest hq =>
    refine ⟨hs.routed, fun d' k' x hx => hs.queued d' k' x ?_⟩
    dsimp only at hx
    split_ifs at hx with hdk
    · rw [hdk.1, hdk.2, hq]
      exact List.mem_cons_of_mem _ hx
    · exact hx
  | cancel _ | close => exact hs.ended (by decide)

theorem correct_of_run {as : List (Event C)}
    (h : Run (When TakenByNamed Step) (State.new C) as s) : Correct s :=
  h.invariant (fun _ _ _ => correct_step) correct_new

theorem full_of_dropped
    (hstep : Step s e t) (ht : t.place j = .dropped i) :
    s.place j = .dropped i ∨ Kind.cap .datagram ≤ (s.queue i .datagram).length := by
  -- the place of an item that is set to something else is not `dropped`
  have hset : ∀ {x : Fin C.items} {p : Place C}, update s.place x p j = .dropped i →
      s.place j = .dropped i ∨ p = .dropped i := by
    intro x p h
    rw [update_apply] at h
    split_ifs at h
    · exact .inr h
    · exact .inl h
  cases hstep with
  | accept _ _ | misroute _ _ | enqueue _ _ _ _ | refuse _ _ _ =>
    exact .inl ((hset ht).resolve_right (by simp))
  | drop _ _ _ _ hfull =>
    rcases hset ht with h | h
    · exact .inl h
    · cases h
      exact .inr (Nat.le_of_not_lt hfull)
  | receive _ | cancel _ | close => exact .inl ht

/-- **Items reach their session if its own loops take them.**  An item that names a session of the
connection is nowhere but with that session: it is enqueued there without its header, dropped there
as a datagram that found the queue full, or given up since the session was ending.  While the session
is active and has room, its handler can do nothing but enqueue it. -/
theorem items_routed {as : List (Event C)} {s : State C}
    (h : Run (When TakenByNamed Step) (State.new C) as s) (j : Fin C.items) (i : Fin C.sessions)
    (hnames : (C.item j).names = C.id i) :
    Routed s j i ∧ (∀ d k, j ∈ s.queue d k → d = i) ∧ (s.place j = .held i → s.phase i = .active →
        (s.queue i (C.item j).kind).length < (C.item j).kind.cap →
        (∃ t, Step s (.handle j) t) ∧ ∀ t, Step s (.handle j) t → t = s.put i j (C.item j).payload) ∧
      (∀ e t, Step s e t → t.place j = .dropped i →
        s.place j = .dropped i ∨ Kind.cap .datagram ≤ (s.queue i .datagram).length) := by
  have hs := correct_of_run h
  have hroute : route (C.id i) (C.item j).kind (C.item j).pieces = some (C.item j).payload := by
    rw [route_incoming, if_pos hnames]
  refine ⟨hs.routed j i hnames, fun d k hj => ?_, fun hheld hactive hroom => ⟨?_, fun t ht => ?_⟩,
    fun e t => full_of_dropped⟩
  · obtain ⟨payload, hp⟩ := hs.queued d k j hj
    rcases hs.routed j i hnames with h | h | h | ⟨h, -⟩ | ⟨h, -⟩ <;> rw [hp] at h <;> cases h
    rfl
  · exact ⟨_, .enqueue hheld hroute (by simp [hactive]) hroom⟩
  · cases ht with
    | misroute hd hnone =>
      rw [hheld] at hd
      cases hd
      rw [hroute] at hnone
      cases hnone
    | enqueue hd hsome _ _ =>
      rw [hheld] at hd
      cases hd
      rw [hroute] at hsome
      cases hsome
      rfl
    | drop hd _ _ hkind hfull =>
      rw [hheld] at hd
      cases hd
      exact absurd (hkind ▸ hroom) hfull
    | refuse hd _ hending =>
      rw [hheld] at hd
      cases hd
      rcases hending with h | ⟨h, -⟩ <;> rw [hactive] at h <;> cases h

end

/-! ## 4. Two sessions -/

/-- A bidirectional stream for the session 4, with one byte behind its header. -/
def streamForFour : Incoming where
  kind := .bidi
  names := 4
  payload := [7]
  pieces := [[0x40, 0x41, 4, 7]]
  wellFormed := ⟨encodeVarint 1 frameTypeWebTransportBidi ++ encodeVarint 0 4,
    .bidi (by decide) (by decide) (by decide) (by decide), by decide⟩

def twoSessions : Connection where
  sessions := 2
  id d := 4 * d
  id_inj d d' h := Fin.ext (Nat.eq_of_mul_eq_mul_left (by decide) h)
  items := 1
  item _ := streamForFour

theorem twoSessions_first (s : State twoSessions) (j : Fin 1) : ∀ j' < j,
    (twoSessions.item j').kind = (twoSessions.item j).kind → s.place j' ≠ .incoming :=
  fun j' hlt => absurd hlt (by omega)

theorem route_twoSessions (d : Fin 2) : route (twoSessions.id d) (twoSessions.item (0 : Fin 1)).kind
    (twoSessions.item (0 : Fin 1)).pieces = if d = 1 then some [7] else none := by
  rw [route_incoming]
  revert d
  decide

def takenBy (d : Fin 2) : State twoSessions :=
  { State.new twoSessions with
    place := update (State.new twoSessions).place ⟨0, Nat.one_pos⟩ (.held d) }

theorem step_takenBy (d : Fin 2) : Step (State.new twoSessions) (.accept d (0 : Fin 1)) (takenBy d) :=
  .accept rfl (twoSessions_first _ 0)

theorem items_routed_four : ∃ s : State twoSessions,
    s.place (0 : Fin 1) = .enqueued (1 : Fin 2) [7] ∧ Routed s (0 : Fin 1) (1 : Fin 2) := by
  have henqueue : Step (takenBy 1) (.handle (0 : Fin 1)) ((takenBy 1).put (1 : Fin 2) (0 : Fin 1) [7]) :=
    .enqueue rfl (route_twoSessions 1) (by simp [takenBy, State.new]) (by decide)
  refine ⟨_, rfl, (items_routed (.consWhen (step_takenBy 1) (fun i hi => ?_)
    (.consWhen henqueue trivial .nil)) (0 : Fin 1) (1 : Fin 2) rfl).1⟩
  exact (twoSessions.id_inj (1 : Fin 2) i hi).symm

/-- The loop of session 0 is faster: it closes the stream of session 4, which is active and waits. -/
theorem stream_misrouted : ∃ as, ∃ s : State twoSessions, Run Step (State.new twoSessions) as s ∧
    (twoSessions.item (0 : Fin 1)).names = twoSessions.id (1 : Fin 2) ∧
    s.phase (1 : Fin 2) = .active ∧ s.queue (1 : Fin 2) .bidi = [] ∧
    s.place (0 : Fin 1) = .misrouted (0 : Fin 2) :=
  ⟨_, _, .cons (step_takenBy 0) (.cons (.misroute rfl (route_twoSessions 0)) .nil), rfl, rfl, rfl, rfl⟩

end AoniContrib.WebTransport.Dispatcher
