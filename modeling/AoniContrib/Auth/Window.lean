/-
# The time windows of `auth/dpop` and `auth/httpsig`

`VerifyProof` checks `iat` and `Verify` checks a positive `created` in the same two comparisons, so one
statement about the window (`Go/Window.lean`) settles both.  Each adds the skew to `MaxAge` in 64 bits.
A `MaxAge` chosen as the largest duration, to switch the check off, makes the sum negative, and then
every proof and every signature is too old (`fresh_rejected`).
-/
import AoniContrib.Go.Window
import AoniContrib.Dpop.Verify
import AoniContrib.HttpSig.Freshness

namespace AoniContrib.Auth

open Go

/-! ## 1. `VerifyProof` -/

variable {cfg : Dpop.VerifierConfig}

theorem dpop_skew (hskew : 0 < cfg.allowedClockSkew.toInt) : cfg.skew = cfg.allowedClockSkew := by
  rw [Dpop.VerifierConfig.skew, if_neg]
  rw [Int64.le_iff_toInt_le, not_le]
  exact hskew

theorem dpop_age (hage : 0 < cfg.maxAge.toInt) : cfg.age = cfg.maxAge := by
  rw [Dpop.VerifierConfig.age, if_neg]
  rw [Int64.le_iff_toInt_le, not_le]
  exact hage

theorem checkTime_eq_ok_iff {now : Time} {iat : Int64} :
    Dpop.checkTime cfg now iat = .ok () ↔ Time.Passes now iat cfg.age cfg.skew := by
  have hage : now.sub (Time.unix iat) ≤ cfg.age + cfg.skew ↔
      ¬ cfg.age + cfg.skew < now.sub (Time.unix iat) := by
    rw [Int64.le_iff_toInt_le, Int64.lt_iff_toInt_lt, not_lt]
  unfold Dpop.checkTime Time.Passes
  dsimp only
  rw [hage]
  constructor
  · intro h
    split_ifs at h with h1 h2
    exact ⟨Bool.eq_false_iff.mpr h1, h2⟩
  · intro ⟨h1, h2⟩
    rw [if_neg (Bool.eq_false_iff.mp h1), if_neg h2]

/-! ## 2. `Verify` -/

theorem httpsig_skew {cfg : HttpSig.VerifyConfig} (hskew : 0 < cfg.allowedClockSkew.toInt) :
    cfg.skew = cfg.allowedClockSkew := by
  rw [HttpSig.VerifyConfig.skew, if_neg]
  rw [Int64.le_iff_toInt_le, not_le]
  exact hskew

/-- What `Verify` checks before it comes to `created`. -/
def ReachesCreated (cfg : HttpSig.VerifyConfig) (verifier : HttpSig.Verifier)
    (params : HttpSig.SignatureParams) (now : Time) : Prop :=
  HttpSig.Identified cfg verifier params ∧
    ¬ (0 < params.expires ∧ now.after ((Time.unix params.expires).add cfg.skew) = true)

theorem checkPolicy_eq_ok_iff {cfg : HttpSig.VerifyConfig} {verifier : HttpSig.Verifier}
    {params : HttpSig.SignatureParams} {now : Time} (hage : 0 < cfg.maxAge)
    (hcreated : 0 < params.created) (hbefore : ReachesCreated cfg verifier params now) :
    HttpSig.checkPolicy cfg verifier params now = .ok () ↔
      Time.Passes now params.created cfg.maxAge cfg.skew := by
  obtain ⟨hid, hexpires⟩ := hbefore
  rw [HttpSig.checkPolicy_ok_iff, Time.Passes, Time.sub_le_iff]
  constructor
  · intro ⟨_, htime⟩
    exact ⟨htime.future hcreated, htime.age hcreated hage⟩
  · intro ⟨hfuture, hold⟩
    refine ⟨hid, ?_, ?_, ?_⟩
    · intro hpos
      exact Time.after_eq_false_iff.mp (Bool.eq_false_iff.mpr fun h => hexpires ⟨hpos, h⟩)
    · intro _
      exact hfuture
    · intro _ _
      exact hold

/-! ## 3. Both -/

/-- **The time windows are exact over the integers exactly on the undistorted inputs**, in both
packages. -/
theorem windows_exact_iff (now : Time) :
    (∀ (cfg : Dpop.VerifierConfig) (iat : Int64), 0 < cfg.maxAge → 0 < cfg.allowedClockSkew →
      ((Dpop.checkTime cfg now iat = .ok () ↔ now.InWindow iat cfg.maxAge cfg.allowedClockSkew) ↔
        now.Undistorted iat cfg.maxAge cfg.allowedClockSkew)) ∧
    (∀ (cfg : HttpSig.VerifyConfig) (verifier : HttpSig.Verifier) (params : HttpSig.SignatureParams),
      0 < cfg.maxAge → 0 < cfg.allowedClockSkew → 0 < params.created →
      ReachesCreated cfg verifier params now →
      ((HttpSig.checkPolicy cfg verifier params now = .ok () ↔
          now.InWindow params.created cfg.maxAge cfg.allowedClockSkew) ↔
        now.Undistorted params.created cfg.maxAge cfg.allowedClockSkew)) := by
  constructor
  · intro cfg iat hage hskew
    rw [Int64.lt_iff_toInt_lt] at hage hskew
    rw [checkTime_eq_ok_iff, dpop_age hage, dpop_skew hskew]
    exact Time.passes_iff_inWindow hage hskew
  · intro cfg verifier params hage hskew hcreated hbefore
    rw [checkPolicy_eq_ok_iff hage hcreated hbefore]
    rw [Int64.lt_iff_toInt_lt] at hage hskew
    rw [httpsig_skew hskew]
    exact Time.passes_iff_inWindow hage hskew

/-- Five minutes and a minute, for a proof and a signature that are one second old. -/
theorem windows_exact_iff_minutes :
    Dpop.checkTime { maxAge := 5 * Time.minute, allowedClockSkew := Time.minute }
      (Time.unix 1700000001) 1700000000 = .ok () ∧
    HttpSig.checkPolicy { maxAge := 5 * Time.minute, allowedClockSkew := Time.minute }
      (.transparent []) { created := 1700000000 } (Time.unix 1700000001) = .ok () := by
  obtain ⟨hdpop, hhttpsig⟩ := windows_exact_iff (Time.unix 1700000001)
  have hwindow : (Time.unix 1700000001).InWindow 1700000000 (5 * Time.minute) Time.minute := by
    unfold Time.InWindow
    decide
  have hexact : (Time.unix 1700000001).Undistorted 1700000000 (5 * Time.minute) Time.minute := by
    unfold Time.Undistorted
    decide
  have hbefore : ReachesCreated { maxAge := 5 * Time.minute, allowedClockSkew := Time.minute }
      (.transparent []) { created := 1700000000 } (Time.unix 1700000001) := by
    unfold ReachesCreated HttpSig.Identified
    decide
  constructor
  · exact ((hdpop { maxAge := 5 * Time.minute, allowedClockSkew := Time.minute } 1700000000
      (by decide) (by decide)).mpr hexact).mpr hwindow
  · exact ((hhttpsig { maxAge := 5 * Time.minute, allowedClockSkew := Time.minute }
      (.transparent []) { created := 1700000000 } (by decide) (by decide) (by decide)
      hbefore).mpr hexact).mpr hwindow

/-- With the largest duration as `MaxAge`, a proof and a signature made at this very second are
refused as too old. -/
theorem fresh_rejected : Dpop.checkTime { maxAge := Int64.maxValue, allowedClockSkew := Time.minute }
      (Time.unix 1700000000) 1700000000 = .error .proofExpired ∧
    HttpSig.checkPolicy { maxAge := Int64.maxValue, allowedClockSkew := Time.minute }
      (.transparent []) { created := 1700000000 } (Time.unix 1700000000) =
        .error (.sentinel .errSignatureTooOld) ∧
    (Time.unix 1700000000).InWindow 1700000000 Int64.maxValue Time.minute := by
  unfold Time.InWindow
  refine ⟨by decide, by decide, by decide⟩

end AoniContrib.Auth
