/-
# Concurrent sends: `NetConnWrapper.Send`

`Send` encrypts the data if there is a cipher and hands the payload to `WriteFrame`, which makes two
`Write` calls on the connection.  Nothing keeps the two together: `cipherMu` guards the cipher only.
A header that another `Send` writes between them is read as payload (`sends_mixed`).  Where every
header is written while no other frame is half written, the frames are read back whole, in some
order (`sends_whole`).
-/
import AoniContrib.Concurrency.Run
import AoniContrib.Socket.Frame

namespace AoniContrib.Socket

open Go Concurrency List
open Function (update update_apply update_self)

/-! ## 1. The calls -/

/-- A call of `Send`: the data, and the `Encrypt` of the cipher it finds, which may fail. -/
structure SendCall where
  data : Bytes
  encrypt : Option (Bytes → Option Bytes) := none

/-- What the call hands to `WriteFrame`, unless encryption fails. -/
def SendCall.payload (c : SendCall) : Option Bytes :=
  match c.encrypt with
  | none => some c.data
  | some encrypt => encrypt c.data

inductive SendPc where
  | start
  /-- Between the two `Write` calls. -/
  | body
  | returned (ok : Bool)
  deriving DecidableEq, Repr

structure SendState (n : Nat) where
  pc : Fin n → SendPc := fun _ => .start
  /-- The bytes written to the connection. -/
  out : Bytes := []
  /-- The calls that have written their frame, in the order of their second `Write`. -/
  sent : List (Fin n) := []

/-- The `Write` of a header, the `Write` of a payload, or a return without a `Write`. -/
inductive SendEvent (n : Nat) where
  | header (j : Fin n)
  | body (j : Fin n)
  | refused (j : Fin n)
  deriving DecidableEq, Repr

inductive SendStep {n : Nat} (f : LengthPrefixedFramer) (calls : Fin n → SendCall) :
    SendState n → SendEvent n → SendState n → Prop where
  | encryptFails {s j} : s.pc j = .start → (calls j).payload = none →
      SendStep f calls s (.refused j) { s with pc := update s.pc j (.returned false) }
  | frameFails {s j data err} : s.pc j = .start → (calls j).payload = some data →
      f.writeFrame data = .error err →
      SendStep f calls s (.refused j) { s with pc := update s.pc j (.returned false) }
  | header {s j data header body} : s.pc j = .start → (calls j).payload = some data →
      f.writeFrame data = .ok [header, body] →
      SendStep f calls s (.header j) { s with pc := update s.pc j .body, out := s.out ++ header }
  | body {s j data header body} : s.pc j = .body → (calls j).payload = some data →
      f.writeFrame data = .ok [header, body] →
      SendStep f calls s (.body j) { s with
          pc := update s.pc j (.returned true)
          out := s.out ++ body
          sent := s.sent ++ [j] }

/-! ## 2. Whole frames -/

/-- A header is written only while no frame is half written. -/
def FrameByFrame {n : Nat} (s : SendState n) : SendEvent n → Prop
  | .header _ => ∀ k, s.pc k ≠ .body
  | _ => True

instance {n : Nat} (s : SendState n) : DecidablePred (FrameByFrame s)
  | .header _ => inferInstanceAs (Decidable (∀ k, s.pc k ≠ .body))
  | .body _ | .refused _ => inferInstanceAs (Decidable True)

section
variable {n : Nat} {f : LengthPrefixedFramer} {calls : Fin n → SendCall}

def payloadOf (calls : Fin n → SendCall) (j : Fin n) : Bytes := (calls j).payload.getD []

def framesOf (f : LengthPrefixedFramer) (calls : Fin n → SendCall) (sent : List (Fin n)) : Bytes :=
  sent.flatMap fun j => f.header (payloadOf calls j) ++ payloadOf calls j

theorem writeFrame_eq_ok {data header body : Bytes} (h : f.writeFrame data = .ok [header, body]) :
    f.headerLen ≤ LengthPrefixedFramer.headerCap ∧ header = f.header data ∧ body = data := by
  unfold LengthPrefixedFramer.writeFrame at h
  split at h
  · cases h
  · rename_i hcap
    simp only [Except.ok.injEq, List.cons.injEq, and_true] at h
    exact ⟨Nat.not_lt.mp hcap, h.1.symm, h.2.symm⟩

structure WholeFrames (f : LengthPrefixedFramer) (calls : Fin n → SendCall) (s : SendState n) :
    Prop where
  /-- Between two frames the bytes are those of the frames sent. -/
  between : (∀ k, s.pc k ≠ .body) → s.out = framesOf f calls s.sent
  /-- One frame at most is half written. -/
  within : ∀ j, s.pc j = .body →
    s.out = framesOf f calls s.sent ++ f.header (payloadOf calls j) ∧ ∀ k, s.pc k = .body → k = j
  nodup : s.sent.Nodup
  mem_sent : ∀ j, j ∈ s.sent ↔ s.pc j = .returned true
  fits : ∀ j ∈ s.sent,
    f.headerLen ≤ LengthPrefixedFramer.headerCap ∧ (calls j).payload = some (payloadOf calls j)

theorem wholeFrames_start : WholeFrames f calls {} where
  between _ := rfl
  within _ h := by cases h
  nodup := nodup_nil
  mem_sent _ := by simp
  fits _ h := by cases h

theorem wholeFrames_refused {s : SendState n} {j : Fin n} (hj : s.pc j = .start)
    (hs : WholeFrames f calls s) :
    WholeFrames f calls { s with pc := update s.pc j (.returned false) } := by
  obtain ⟨hbetween, hwithin, hnodup, hmem, hfits⟩ := hs
  refine ⟨?_, ?_, hnodup, ?_, hfits⟩
  all_goals
    simp only [update_apply]
    grind

theorem wholeFrames_step {s t : SendState n} {a : SendEvent n} (ha : FrameByFrame s a)
    (h : SendStep f calls s a t) (hs : WholeFrames f calls s) : WholeFrames f calls t := by
  cases h with
  | encryptFails hj _ | frameFails hj _ _ => exact wholeFrames_refused hj hs
  | @header j data header body hj hdata hframe =>
    obtain ⟨hbetween, hwithin, hnodup, hmem, hfits⟩ := hs
    obtain ⟨-, rfl, rfl⟩ := writeFrame_eq_ok hframe
    have hpayload : payloadOf calls j = body := by simp [payloadOf, hdata]
    refine ⟨fun hnone => absurd (update_self ..) (hnone j), fun k hk => ?_, hnodup, fun k => ?_, hfits⟩
    · obtain rfl : j = k := by
        by_contra hne
        exact ha k (by simpa [Ne.symm hne] using hk)
      refine ⟨by rw [hpayload, hbetween ha], fun k hk => ?_⟩
      by_contra hne
      exact ha k (by simpa [hne] using hk)
    · rw [hmem]
      simp only [update_apply]
      grind
  | @body j data header body hj hdata hframe =>
    obtain ⟨hbetween, hwithin, hnodup, hmem, hfits⟩ := hs
    obtain ⟨hcap, rfl, rfl⟩ := writeFrame_eq_ok hframe
    have hpayload : payloadOf calls j = body := by simp [payloadOf, hdata]
    obtain ⟨hout, honly⟩ := hwithin j hj
    refine ⟨fun _ => ?_, fun k hk => ?_, ?_, fun k => ?_, fun k hk => ?_⟩
    · simp [hout, framesOf, hpayload]
    · exfalso
      simp only [update_apply] at hk
      grind
    · have hfresh : j ∉ s.sent := by simp [hmem, hj]
      simpa using hnodup.concat hfresh
    · simp only [mem_append, mem_singleton, hmem, update_apply]
      grind
    · rcases mem_append.mp hk with hk | hk
      · exact hfits k hk
      · obtain rfl := mem_singleton.mp hk
        exact ⟨hcap, by rw [hpayload, hdata]⟩

/-- **When concurrent sends keep frames whole.**  If every header is written while no frame is half
written and no payload exceeds `MaxLength`, then, once all calls have returned, `ReadFrame` returns
the payloads of those that succeeded, each once, and nothing else. -/
theorem sends_whole {s : SendState n} {as : List (SendEvent n)} {r : Reader}
    (hlen : ∀ j data, (calls j).payload = some data → data.length ≤ f.maxLength.toNat)
    (hrun : Run (When FrameByFrame (SendStep f calls)) {} as s)
    (hdone : ∀ j, ∃ ok, s.pc j = .returned ok) (hr : r.flatten = s.out) :
    ∃ (payloads : List Bytes) (err : FrameErr),
      f.readFrames (payloads.length + 1) r = payloads.map .ok ++ [.error err] ∧
      (payloads : Multiset Bytes) =
        (Finset.univ.filter fun j => s.pc j = .returned true).val.map (payloadOf calls) := by
  have hs : WholeFrames f calls s :=
    hrun.invariant (fun _ _ _ h => wholeFrames_step h.1 h.2) wholeFrames_start
  have hout : s.out = framesOf f calls s.sent := by
    refine hs.between fun k hk => ?_
    obtain ⟨ok, hok⟩ := hdone k
    simp [hk] at hok
  have hsent : (s.sent : Multiset (Fin n)) =
      (Finset.univ.filter fun j => s.pc j = .returned true).val := by
    refine (Multiset.Nodup.ext (Multiset.coe_nodup.mpr hs.nodup) (Finset.nodup _)).mpr fun j => ?_
    simp [hs.mem_sent]
  by_cases hcap : f.headerLen ≤ LengthPrefixedFramer.headerCap
  · refine ⟨s.sent.map (payloadOf calls), .read .eof, ?_, ?_⟩
    · refine LengthPrefixedFramer.readFrames_frames hcap ?_ ?_
      · simp only [mem_map]
        rintro _ ⟨j, hj, rfl⟩
        exact hlen j _ (hs.fits j hj).2
      · rw [hr, hout, framesOf, flatMap_map]
    · rw [← hsent, Multiset.map_coe]
  · have hnil : s.sent = [] := by
      rw [eq_nil_iff_forall_not_mem]
      exact fun j hj => hcap (hs.fits j hj).1
    refine ⟨[], .headerSize, ?_, ?_⟩
    · simp [LengthPrefixedFramer.readFrames, LengthPrefixedFramer.readFrame, Nat.not_le.mp hcap]
    · rw [← hsent, hnil]
      rfl

end

/-! ## 3. Two sends -/

def twoSends : Fin 2 → SendCall
  | 0 => { data := lit "a" }
  | 1 => { data := lit "b" }

def defaultFramer : LengthPrefixedFramer := newLengthPrefixedFramer {}

theorem sends_whole_in_turn : ∃ (s : SendState 2) (as : List (SendEvent 2)),
      Run (When FrameByFrame (SendStep defaultFramer twoSends)) {} as s ∧
      ∃ (payloads : List Bytes) (err : FrameErr),
        defaultFramer.readFrames (payloads.length + 1) [s.out] = payloads.map .ok ++ [.error err] ∧
        (payloads : Multiset Bytes) =
          (Finset.univ.filter fun j => s.pc j = .returned true).val.map (payloadOf twoSends) := by
  obtain ⟨s, as, hrun, hdone⟩ : ∃ (s : SendState 2) (as : List (SendEvent 2)),
      Run (When FrameByFrame (SendStep defaultFramer twoSends)) {} as s ∧
      ∀ j, ∃ ok, s.pc j = .returned ok :=
    ⟨_, _, .consWhen (.header (j := 0) rfl rfl rfl) (by decide) <|
      .consWhen (.body (j := 0) rfl rfl rfl) trivial <|
      .consWhen (.header (j := 1) rfl rfl rfl) (by decide) <|
      .consWhen (.body (j := 1) rfl rfl rfl) trivial .nil, fun j => ⟨true, by revert j; decide⟩⟩
  refine ⟨s, as, hrun, sends_whole ?_ hrun hdone (by simp)⟩
  intro j data hdata
  obtain rfl : (twoSends j).data = data := by
    revert hdata
    fin_cases j <;> exact Option.some.inj
  fin_cases j <;> decide

/-- Both headers are written before the payloads.  The first frame read is the first byte of the
second header, and the second one has a length beyond the limit. -/
theorem sends_mixed : ∃ (s : SendState 2) (as : List (SendEvent 2)),
      Run (SendStep defaultFramer twoSends) {} as s ∧ (∀ j, s.pc j = .returned true) ∧
      defaultFramer.readFrames 2 [s.out] =
        [.ok [1], .error (.frameTooLarge 0x61000000 defaultMaxFrame)] :=
  ⟨_, _, .cons (.header (j := 0) rfl rfl rfl) <| .cons (.header (j := 1) rfl rfl rfl) <|
    .cons (.body (j := 0) rfl rfl rfl) <| .cons (.body (j := 1) rfl rfl rfl) .nil,
    by decide, by decide⟩

end AoniContrib.Socket
