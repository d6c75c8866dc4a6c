/-
# Cancelled tunnel dials: `Client.DialContext` and `Client.DialUnix` of `ssh`

Both open the channel in a goroutine that sends its result into a channel with room for one, and wait
for that result or for the context.  A call that leaves with the context does not look at the result
any more: a channel that the goroutine opens is then neither returned nor closed
(`cancelled_dial_leaks`).  Nothing leaks where a call leaves only with a failed open
(`dial_leaks_nothing`).

The `ssh.DiscardRequests` that goes with an opened channel lives as long as the channel, and is not
counted among the goroutines of the call.
-/
import AoniContrib.Concurrency.Run

namespace AoniContrib.Ssh

open Concurrency List

inductive DialCaller where
  | waiting
  -- with `ctx.Err()`
  | left
  -- with what came out of `resCh`
  | returned
  deriving DecidableEq, Repr

/-- A call and its goroutine.  `result` is what the open gave, `some true` a channel; `sent` says
whether `resCh` has been given it. -/
structure Dial where
  cancelled : Bool := false
  result : Option Bool := none
  sent : Bool := false
  caller : DialCaller := .waiting
  closed : Bool := false
  deriving DecidableEq, Repr

inductive DialAct where
  | cancel
  | opens
  | fails
  | sends
  | leaves
  | receives
  -- the remote side closes the channel, or the connection ends
  | peerCloses
  deriving DecidableEq, Repr

inductive DialStep : Dial → DialAct → Dial → Prop where
  | cancel {s : Dial} : DialStep s .cancel { s with cancelled := true }
  | opens {s : Dial} (h : s.result = none) : DialStep s .opens { s with result := some true }
  | fails {s : Dial} (h : s.result = none) : DialStep s .fails { s with result := some false }
  | sends {s : Dial} (h : s.result ≠ none) (hsent : s.sent = false) :
      DialStep s .sends { s with sent := true }
  | leaves {s : Dial} (h : s.caller = .waiting) (hdone : s.cancelled = true) :
      DialStep s .leaves { s with caller := .left }
  | receives {s : Dial} (h : s.caller = .waiting) (hsent : s.sent = true) :
      DialStep s .receives { s with caller := .returned }
  | peerCloses {s : Dial} (h : s.result = some true) :
      DialStep s .peerCloses { s with closed := true }

namespace Dial

def Finished (s : Dial) : Prop := s.sent = true ∧ s.caller ≠ .waiting

/-- **The property**: a channel that was opened has been returned, or is closed. -/
def LeaksNothing (s : Dial) : Prop := s.result = some true → s.caller = .returned ∨ s.closed = true

/-- The select takes the cancellation only once the open has failed. -/
def LeavesFailed (s : Dial) (a : DialAct) : Prop := a = .leaves → s.result = some false

/-- A result stays, so a call that has left under `LeavesFailed` keeps a failed open. -/
theorem failed_of_left {s t : Dial} {a : DialAct} (hcond : LeavesFailed s a) (hstep : DialStep s a t)
    (h : s.caller = .left → s.result = some false) : t.caller = .left → t.result = some false := by
  cases hstep with
  | opens hnone | fails hnone =>
    intro hleft
    exact absurd (hnone.symm.trans (h hleft)) (by decide)
  | leaves => exact fun _ => hcond rfl
  | receives => exact fun hleft => by cases hleft
  | cancel | sends | peerCloses => exact h

/-- **When a dial leaks nothing**: on every schedule on which the select takes the cancellation only
once the open has failed. -/
theorem dial_leaks_nothing {as : List DialAct} {s : Dial}
    (h : Run (When LeavesFailed DialStep) {} as s) (hfinished : s.Finished) : s.LeaksNothing := by
  have hleft : s.caller = .left → s.result = some false :=
    h.invariant (fun _ _ _ hstep => failed_of_left hstep.1 hstep.2) fun hleft => absurd hleft (by decide)
  intro hopened
  cases hcaller : s.caller with
  | waiting => exact absurd hcaller hfinished.2
  | left => exact absurd (hopened.symm.trans (hleft hcaller)) (by decide)
  | returned => exact .inl rfl

/-- The context is cancelled while the call waits, and the select still takes the channel. -/
theorem dial_leaks_nothing_taken : LeaksNothing ⟨true, some true, true, .returned, false⟩ :=
  dial_leaks_nothing (.consWhen .cancel nofun (.consWhen (.opens rfl) nofun (.consWhen
    (.sends (by decide) rfl) nofun (.consWhen (.receives rfl rfl) nofun .nil)))) ⟨rfl, by decide⟩

/-- The context ends first; the channel opened behind that stays open. -/
theorem cancelled_dial_leaks : ∃ s, Run DialStep {} [.cancel, .leaves, .opens, .sends] s ∧
    s.Finished ∧ ¬ s.LeaksNothing :=
  ⟨⟨true, some true, true, .left, false⟩, .cons .cancel (.cons (.leaves rfl rfl) (.cons (.opens rfl)
    (.cons (.sends (by decide) rfl) .nil))), ⟨rfl, by decide⟩, by simp [LeaksNothing]⟩

end Dial
end AoniContrib.Ssh
