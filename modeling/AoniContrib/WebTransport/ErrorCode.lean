/-
# Application error codes: `webtransport/errors.go`

The 32-bit codes of an application are laid out in a range of the HTTP/3 code space that leaves out
the RESERVED code points, one in 31.  In natural numbers nothing overflows
(`toNat_webTransportCodeToHTTPCode`); the two directions are inverse on the whole range, and no code
point outside it is accepted (`codes_inverse`).
-/
import Mathlib

namespace AoniContrib.WebTransport

/-! ## 1. The code -/

def wtApplicationErrorFirst : UInt64 := 0x52e4a40fa8db
def wtApplicationErrorLast : UInt64 := 0x52e5ac983162

def webTransportCodeToHTTPCode (n : UInt32) : UInt64 :=
  let n64 := n.toUInt64
  wtApplicationErrorFirst + n64 + n64 / 0x1e

def httpCodeToWebTransportCode (h : UInt64) : UInt32 × Bool :=
  if h < wtApplicationErrorFirst ∨ wtApplicationErrorLast < h then (0, false)
  else if (h - 0x21) % 0x1f = 0 then (0, false)
  else
    let shifted := h - wtApplicationErrorFirst
    let wtCode := shifted - shifted / 0x1f
    if 0xffffffff < wtCode then (0, false) else (wtCode.toUInt32, true)

/-! ## 2. The layout -/

def InErrorRange (h : UInt64) : Prop := wtApplicationErrorFirst ≤ h ∧ h ≤ wtApplicationErrorLast

/-- A reserved code point is 0x21 and a multiple of 0x1f. -/
def Reserved (h : UInt64) : Prop := (0x1f : Int) ∣ h.toNat - 0x21

theorem toNat_webTransportCodeToHTTPCode (n : UInt32) :
    (webTransportCodeToHTTPCode n).toNat = 0x52e4a40fa8db + n.toNat + n.toNat / 30 := by
  have hn := n.toNat_lt
  simp only [webTransportCodeToHTTPCode, wtApplicationErrorFirst, UInt64.toNat_add, UInt64.toNat_div,
    UInt32.toNat_toUInt64, UInt64.reduceToNat]
  omega

theorem inErrorRange_iff {h : UInt64} :
    InErrorRange h ↔ 0x52e4a40fa8db ≤ h.toNat ∧ h.toNat ≤ 0x52e5ac983162 := by
  simp [InErrorRange, wtApplicationErrorFirst, wtApplicationErrorLast, UInt64.le_iff_toNat_le]

theorem not_outside {h : UInt64} :
    (¬ h < wtApplicationErrorFirst ∧ ¬ wtApplicationErrorLast < h) ↔ InErrorRange h := by
  rw [UInt64.not_lt, UInt64.not_lt, InErrorRange]

theorem httpCodeToWebTransportCode_of_free {h : UInt64} (hrange : InErrorRange h) (hfree : ¬ Reserved h) :
    ∃ n, httpCodeToWebTransportCode h = (n, true) ∧ h.toNat = 0x52e4a40fa8db + n.toNat + n.toNat / 30 := by
  obtain ⟨hlow, hhigh⟩ := inErrorRange_iff.mp hrange
  have hmod : (h - 0x21).toNat = h.toNat - 0x21 :=
    UInt64.toNat_sub_of_le _ _ (UInt64.le_iff_toNat_le.mpr (by simp; omega))
  have hshift : (h - wtApplicationErrorFirst).toNat = h.toNat - 0x52e4a40fa8db :=
    UInt64.toNat_sub_of_le _ _ hrange.1
  have hcode : ∀ d : UInt64, (d - d / 0x1f).toNat = d.toNat - d.toNat / 31 := by
    intro d
    rw [UInt64.toNat_sub_of_le _ _ (UInt64.le_iff_toNat_le.mpr (by simp; omega)), UInt64.toNat_div]
    rfl
  have hnot : ¬ (h - 0x21) % 0x1f = 0 := by
    rw [← UInt64.toNat_inj, UInt64.toNat_mod, hmod]
    intro hzero
    have hdvd : (h.toNat - 0x21) % 31 = 0 := hzero
    exact hfree (by unfold Reserved; omega)
  have hsmall : (h.toNat - 0x52e4a40fa8db) - (h.toNat - 0x52e4a40fa8db) / 31 ≤ 0xffffffff := by omega
  have hle : ¬ 0xffffffff < h - wtApplicationErrorFirst - (h - wtApplicationErrorFirst) / 0x1f := by
    rw [UInt64.lt_iff_toNat_lt, hcode, hshift]
    exact Nat.not_lt.mpr hsmall
  refine ⟨(h - wtApplicationErrorFirst - (h - wtApplicationErrorFirst) / 0x1f).toUInt32, ?_, ?_⟩
  · rw [httpCodeToWebTransportCode, if_neg (not_or.mpr (not_outside.mpr hrange)), if_neg hnot]
    exact if_neg hle
  · rw [UInt64.toNat_toUInt32, hcode, hshift]
    unfold Reserved at hfree
    omega

/-- **The two directions.**  A code has a code point in the range that is not reserved and leads back to
it, and a code point is accepted exactly if it is one of those, and then it is the code point of what it is
mapped to. -/
theorem codes_inverse : (∀ n : UInt32, InErrorRange (webTransportCodeToHTTPCode n) ∧
      ¬ Reserved (webTransportCodeToHTTPCode n) ∧
      httpCodeToWebTransportCode (webTransportCodeToHTTPCode n) = (n, true)) ∧
    ∀ h : UInt64, ((httpCodeToWebTransportCode h).2 = true ↔ InErrorRange h ∧ ¬ Reserved h) ∧
      ((httpCodeToWebTransportCode h).2 = true →
        webTransportCodeToHTTPCode (httpCodeToWebTransportCode h).1 = h) := by
  have hback : ∀ h : UInt64, InErrorRange h → ¬ Reserved h → (httpCodeToWebTransportCode h).2 = true ∧
      webTransportCodeToHTTPCode (httpCodeToWebTransportCode h).1 = h := by
    intro h hrange hfree
    obtain ⟨n, hn, hpoint⟩ := httpCodeToWebTransportCode_of_free hrange hfree
    rw [hn, ← UInt64.toNat_inj, toNat_webTransportCodeToHTTPCode, hpoint]
    exact ⟨rfl, rfl⟩
  have hthere : ∀ n : UInt32, InErrorRange (webTransportCodeToHTTPCode n) ∧
      ¬ Reserved (webTransportCodeToHTTPCode n) := by
    intro n
    have hn := n.toNat_lt
    rw [inErrorRange_iff, Reserved, toNat_webTransportCodeToHTTPCode]
    omega
  constructor
  · intro n
    obtain ⟨hrange, hfree⟩ := hthere n
    obtain ⟨m, hm, hpoint⟩ := httpCodeToWebTransportCode_of_free hrange hfree
    refine ⟨hrange, hfree, ?_⟩
    rw [toNat_webTransportCodeToHTTPCode] at hpoint
    rw [hm, ← UInt32.toNat_inj.mp (by omega : n.toNat = m.toNat)]
  · intro h
    have haccepted : (httpCodeToWebTransportCode h).2 = true → InErrorRange h ∧ ¬ Reserved h := by
      intro htrue
      unfold httpCodeToWebTransportCode at htrue
      split_ifs at htrue with hout hres
      have hrange := not_outside.mp (not_or.mp hout)
      refine ⟨hrange, fun hdvd => hres ?_⟩
      obtain ⟨hlow, -⟩ := inErrorRange_iff.mp hrange
      rw [← UInt64.toNat_inj, UInt64.toNat_mod,
        UInt64.toNat_sub_of_le _ _ (UInt64.le_iff_toNat_le.mpr (by simp; omega))]
      unfold Reserved at hdvd
      show (h.toNat - 0x21) % 31 = 0
      omega
    exact ⟨⟨haccepted, fun hfree => (hback h hfree.1 hfree.2).1⟩,
      fun htrue => (hback h (haccepted htrue).1 (haccepted htrue).2).2⟩

end AoniContrib.WebTransport
