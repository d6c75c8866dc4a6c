/-
# Repair symbols: `raptor.Wrapper`

`SendDatagram` copies the payload into the datagram that it sends, but keeps the caller's slice itself
in `block` until `raptor.N` of them are there.  The repair symbol is computed from what the slices
hold THEN.  If no caller writes to a slice while it is in the block, the repair symbols describe what
was sent (`repair_describes_sent`); a caller that uses one buffer again and again breaks them
(`reused_buffer_misdescribed`).

The sequence numbers never get out of step: a call that fails changes neither them nor the block.
-/
import AoniContrib.Concurrency.Run
import AoniContrib.Go.Binary

namespace AoniContrib.Raptor

open Go Concurrency List

/-! ## 1. Memory -/

abbrev Memory := Nat → UInt8

structure Slice where
  addr : Nat
  len : Nat
  deriving DecidableEq, Repr

def Slice.read (m : Memory) (p : Slice) : Bytes := (List.range p.len).map fun i => m (p.addr + i)

/-! ## 2. The wrapper -/

/-- The package of `raptor.N` and `Encoder.Encode`, a function of the payloads and the sequence
number. -/
structure Encoder where
  blockSize : Nat
  blockSize_pos : 0 < blockSize
  encode : List Bytes → UInt32 → Bytes

/-- What the transport has sent. -/
inductive Datagram where
  | data (seq : UInt32) (payload : Bytes)
  | repair (seq : UInt32) (payload : Bytes)
  deriving DecidableEq, Repr

structure State where
  memory : Memory := fun _ => 0
  sendSeq : UInt32 := 0
  block : List Slice := []
  wire : List Datagram := []

/-- Between calls memory is overwritten; in a call either datagram may fail to be sent. -/
inductive Op where
  | overwrite (memory : Memory)
  | send (p : Slice) (dataSent repairSent : Bool)

variable (E : Encoder)

/-- The end of `SendDatagram`, when the block is full. -/
def State.generateRepair (s : State) (repairSent : Bool) : State :=
  let repair := E.encode (s.block.map (Slice.read s.memory)) s.sendSeq
  let s := { s with block := [] }
  if 0 < repair.length ∧ repairSent then { s with wire := s.wire ++ [.repair s.sendSeq repair] } else s

def State.sendDatagram (s : State) (p : Slice) (dataSent repairSent : Bool) : State :=
  if !dataSent then s
  else
    let s := { s with
      wire := s.wire ++ [.data s.sendSeq (p.read s.memory)]
      block := s.block ++ [p]
      sendSeq := s.sendSeq + 1 }
    if s.block.length = E.blockSize then s.generateRepair E repairSent else s

def State.exec (s : State) : Op → State
  | .overwrite memory => { s with memory }
  | .send p dataSent repairSent => s.sendDatagram E p dataSent repairSent

def State.run (s : State) (ops : List Op) : State := ops.foldl (State.exec E) s

def Step (s : State) (op : Op) (t : State) : Prop := t = s.exec E op

/-! ## 3. What was sent -/

def payloads (wire : List Datagram) : List Bytes :=
  wire.filterMap fun
    | .data _ payload => some payload
    | .repair _ _ => none

def sequence (wire : List Datagram) : List UInt32 :=
  wire.filterMap fun
    | .data seq _ => some seq
    | .repair _ _ => none

def lastOf (n : Nat) (xs : List Bytes) : List Bytes := xs.drop (xs.length - n)

/-- Each repair datagram encodes the last `raptor.N` payloads that were sent before it. -/
def Describes (wire : List Datagram) : Prop :=
  ∀ before seq repair after, wire = before ++ .repair seq repair :: after →
    E.blockSize ≤ (payloads before).length ∧
      repair = E.encode (lastOf E.blockSize (payloads before)) seq

/-- The data datagrams are numbered from 0 on, modulo 2^32. -/
def Numbered (wire : List Datagram) : Prop :=
  sequence wire = (List.range (sequence wire).length).map UInt32.ofNat

/-- Memory that the block refers to is left alone. -/
def BlockKept (s : State) : Op → Prop
  | .overwrite memory => ∀ p ∈ s.block, p.read memory = p.read s.memory
  | .send _ _ _ => True

/-- The block refers to the payloads that were sent last, and the next number is their count. -/
structure Aligned (s : State) : Prop where
  short : s.block.length < E.blockSize
  block : ∃ earlier, payloads s.wire = earlier ++ s.block.map (Slice.read s.memory)
  describes : Describes E s.wire

/-- What holds whatever the callers do. -/
structure InStep (s : State) : Prop where
  next : s.sendSeq = UInt32.ofNat (sequence s.wire).length
  numbered : Numbered s.wire

/-! ## 4. One datagram more -/

section
variable {E : Encoder} {wire : List Datagram} {seq : UInt32} {payload : Bytes}

@[simp] theorem payloads_data : payloads (wire ++ [.data seq payload]) = payloads wire ++ [payload] := by
  simp [payloads]

@[simp] theorem payloads_repair : payloads (wire ++ [.repair seq payload]) = payloads wire := by
  simp [payloads]

@[simp] theorem sequence_data : sequence (wire ++ [.data seq payload]) = sequence wire ++ [seq] := by
  simp [sequence]

@[simp] theorem sequence_repair : sequence (wire ++ [.repair seq payload]) = sequence wire := by
  simp [sequence]

theorem Numbered.data (h : Numbered wire) :
    Numbered (wire ++ [.data (UInt32.ofNat (sequence wire).length) payload]) := by
  unfold Numbered at h ⊢
  rw [sequence_data, length_append, length_singleton, range_succ, map_append, ← h]
  rfl

theorem describes_snoc {d : Datagram} (h : Describes E wire)
    (hlast : ∀ seq repair, d = .repair seq repair → E.blockSize ≤ (payloads wire).length ∧
      repair = E.encode (lastOf E.blockSize (payloads wire)) seq) : Describes E (wire ++ [d]) := by
  intro before seq repair after hsplit
  rcases eq_nil_or_concat after with rfl | ⟨after, d', rfl⟩
  · obtain ⟨rfl, hd⟩ := append_inj' hsplit rfl
    exact hlast seq repair (singleton_inj.mp hd)
  · rw [concat_eq_append, ← cons_append, ← append_assoc] at hsplit
    exact h before seq repair after (append_inj' hsplit rfl).1

theorem lastOf_append {n : Nat} {earlier xs : List Bytes} (h : xs.length = n) :
    lastOf n (earlier ++ xs) = xs := by
  rw [lastOf, length_append, h, Nat.add_sub_cancel]
  exact drop_left

/-! ## 5. Runs -/

variable {s : State}

theorem inStep_repair (h : InStep s) (repairSent : Bool) : InStep (s.generateRepair E repairSent) := by
  unfold State.generateRepair
  dsimp only
  split_ifs
  · exact ⟨by rw [sequence_repair]; exact h.next, by
      unfold Numbered
      rw [sequence_repair]
      exact h.numbered⟩
  · exact ⟨h.next, h.numbered⟩

theorem inStep_exec (h : InStep s) (op : Op) : InStep (s.exec E op) := by
  cases op with
  | overwrite memory => exact ⟨h.next, h.numbered⟩
  | send p dataSent repairSent =>
    have hsent : InStep { s with
        wire := s.wire ++ [.data s.sendSeq (p.read s.memory)]
        block := s.block ++ [p]
        sendSeq := s.sendSeq + 1 } := by
      refine ⟨?_, ?_⟩
      · dsimp only
        rw [h.next, sequence_data, length_append, length_singleton, UInt32.ofNat_add]
        rfl
      · dsimp only
        rw [h.next]
        exact h.numbered.data
    simp only [State.exec, State.sendDatagram]
    split_ifs
    · exact h
    · exact inStep_repair hsent repairSent
    · exact hsent

theorem aligned_repair {earlier : List Bytes} (hfull : s.block.length = E.blockSize)
    (hblock : payloads s.wire = earlier ++ s.block.map (Slice.read s.memory))
    (hdescribes : Describes E s.wire) (repairSent : Bool) :
    Aligned E (s.generateRepair E repairSent) := by
  have hlast : lastOf E.blockSize (payloads s.wire) = s.block.map (Slice.read s.memory) := by
    rw [hblock, lastOf_append (by rw [length_map, hfull])]
  have hempty : ([] : List Slice).length < E.blockSize := E.blockSize_pos
  unfold State.generateRepair
  dsimp only
  split_ifs
  · refine ⟨hempty, ⟨payloads s.wire, by simp⟩, describes_snoc hdescribes ?_⟩
    rintro seq repair ⟨⟩
    refine ⟨?_, by rw [hlast]⟩
    rw [hblock, length_append, length_map, hfull]
    exact Nat.le_add_left _ _
  · exact ⟨hempty, ⟨payloads s.wire, by simp⟩, hdescribes⟩

theorem aligned_exec (h : Aligned E s) {op : Op} (hkept : BlockKept s op) :
    Aligned E (s.exec E op) := by
  obtain ⟨earlier, hblock⟩ := h.block
  cases op with
  | overwrite memory =>
    refine ⟨h.short, ⟨earlier, ?_⟩, h.describes⟩
    exact hblock.trans (congrArg (earlier ++ ·) (map_congr_left fun p hp => (hkept p hp).symm))
  | send p dataSent repairSent =>
    have hdescribes : Describes E (s.wire ++ [.data s.sendSeq (p.read s.memory)]) :=
      describes_snoc h.describes fun seq repair hd => by cases hd
    have hsent : payloads (s.wire ++ [.data s.sendSeq (p.read s.memory)]) =
        earlier ++ (s.block ++ [p]).map (Slice.read s.memory) := by
      rw [payloads_data, hblock, map_append, append_assoc]
      rfl
    simp only [State.exec, State.sendDatagram]
    split_ifs with hfailed hfull
    · exact h
    · exact aligned_repair hfull hsent hdescribes repairSent
    · refine ⟨?_, ⟨earlier, hsent⟩, hdescribes⟩
      have hshort := h.short
      simp only [length_append, length_singleton] at hfull ⊢
      omega

end

/-- **Repair symbols describe what was sent**, in every run in which no slice is written to while the
block refers to it: each is the encoding of the last `raptor.N` payloads on the wire.  The data
datagrams are numbered consecutively in any case. -/
theorem repair_describes_sent (E : Encoder) {ops : List Op} {s : State}
    (h : Run (When BlockKept (Step E)) {} ops s) : Describes E s.wire ∧ Numbered s.wire := by
  have hboth : Aligned E s ∧ InStep s := by
    refine h.invariant (I := fun s => Aligned E s ∧ InStep s) ?_ ⟨⟨E.blockSize_pos, ⟨[], rfl⟩, ?_⟩, rfl, rfl⟩
    · rintro s op t ⟨hkept, rfl⟩ ⟨haligned, hstep⟩
      exact ⟨aligned_exec haligned hkept, inStep_exec hstep op⟩
    · intro before seq repair after hsplit
      simp at hsplit
  exact ⟨hboth.1.describes, hboth.2.numbered⟩

/-! ## 6. One buffer or many -/

def concatEncoder : Encoder := ⟨32, by decide, fun block _ => block.flatten⟩

theorem run_sends (E : Encoder) : ∀ (ps : List Slice) (s : State),
    Run (When BlockKept (Step E)) s (ps.map fun p => .send p true true)
      (s.run E (ps.map fun p => .send p true true))
  | [], _ => .nil
  | _ :: ps, _ => .consWhen rfl trivial (run_sends E ps _)

theorem repair_describes_sent_slices : ∃ ops s, Run (When BlockKept (Step concatEncoder)) {} ops s ∧
    s.wire.length = 33 ∧ Describes concatEncoder s.wire ∧ Numbered s.wire := by
  have hrun := run_sends concatEncoder ((List.range 32).map fun i => ⟨i, 1⟩) {}
  exact ⟨_, _, hrun, by decide +kernel, repair_describes_sent concatEncoder hrun⟩

/-- The caller fills one buffer with 0, 1, … before each of 32 calls. -/
def reuse : List Op :=
  (List.range 32).flatMap fun i => [.overwrite fun _ => i.toUInt8, .send ⟨0, 1⟩ true true]

/-- The repair symbol is the encoding of 32 times the last payload. -/
theorem reused_buffer_misdescribed :
    payloads (State.run concatEncoder {} reuse).wire = (List.range 32).map (fun i => [i.toUInt8]) ∧
      (State.run concatEncoder {} reuse).wire.getLast? =
        some (.repair 32 (concatEncoder.encode (List.replicate 32 [31]) 32)) ∧
      concatEncoder.encode (List.replicate 32 [31]) 32 ≠
        concatEncoder.encode (payloads (State.run concatEncoder {} reuse).wire) 32 := by
  decide +kernel

end AoniContrib.Raptor
