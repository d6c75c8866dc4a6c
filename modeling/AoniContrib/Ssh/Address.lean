/-
# Target addresses: `formatTargetAddr` of `ssh/client.go`

With an explicit port the address goes through `net.JoinHostPort`, which puts a host with colons into
brackets.  The default port is appended by hand, and a host with a colon in it is taken for an address
that has its port already: an IPv6 literal without brackets is returned as it is
(`target_addr_iff`).
-/
import AoniContrib.Go.NetIP

namespace AoniContrib.Ssh

open Go List

/-! ## 1. `net.SplitHostPort` -/

inductive AddrError where
  | missingPort
  | tooManyColons
  | missingBracket
  | unexpectedOpen
  | unexpectedClose
  deriving DecidableEq, Repr

def lbracket : UInt8 := 0x5b
def rbracket : UInt8 := 0x5d

/-- What stands before the last colon, and behind it. -/
def beforeColon (s : Bytes) : Bytes := ((s.reverse.dropWhile (· ≠ colon)).drop 1).reverse

def afterColon (s : Bytes) : Bytes := (s.reverse.takeWhile (· ≠ colon)).reverse

def splitHostPort (hostport : Bytes) : Except AddrError (Bytes × Bytes) :=
  if colon ∉ hostport then .error .missingPort
  else if hostport.head? = some lbracket then
    -- the first `]` is to stand right before the last colon
    let host := (hostport.drop 1).takeWhile (· ≠ rbracket)
    match (hostport.drop 1).dropWhile (· ≠ rbracket) with
    | [] => .error .missingBracket
    | [_] => .error .missingPort
    | _ :: b :: port =>
      if b = colon ∧ colon ∉ port then
        if lbracket ∈ hostport.drop 1 then .error .unexpectedOpen
        else if rbracket ∈ port then .error .unexpectedClose
        else .ok (host, port)
      else if b = colon then .error .tooManyColons
      else .error .missingPort
  else if colon ∈ beforeColon hostport then .error .tooManyColons
  else if lbracket ∈ hostport then .error .unexpectedOpen
  else if rbracket ∈ hostport then .error .unexpectedClose
  else .ok (beforeColon hostport, afterColon hostport)

def formatTargetAddr (addr : Bytes) (port : Nat) : Bytes :=
  if port = 22 ∨ port = 0 then
    if colon ∈ addr then addr else addr ++ lit ":22"
  else joinHostPort addr (decimal port)

/-! ## 2. What is split again -/

variable {host port : Bytes}

theorem split_append (h : colon ∉ port) :
    beforeColon (host ++ colon :: port) = host ∧ afterColon (host ++ colon :: port) = port := by
  have hall : ∀ b ∈ port.reverse, (decide (b ≠ colon)) = true := by
    intro b hb
    rw [decide_eq_true_eq]
    rintro rfl
    exact h (mem_reverse.mp hb)
  simp only [beforeColon, afterColon, reverse_append, reverse_cons, append_assoc, singleton_append,
    dropWhile_append_of_pos hall, takeWhile_append_of_pos hall]
  simp

def Bare (s : Bytes) : Prop := lbracket ∉ s ∧ rbracket ∉ s

theorem splitHostPort_plain (hhost : Bare host) (hport : Bare port) (hc : colon ∉ host)
    (hp : colon ∉ port) : splitHostPort (host ++ colon :: port) = .ok (host, port) := by
  obtain ⟨hbefore, hafter⟩ := @split_append host port hp
  have hbare : ∀ b, b ≠ colon → b ∉ host → b ∉ port → b ∉ host ++ colon :: port := by
    intro b h1 h2 h3
    simp [h1, h2, h3]
  have hl := hbare lbracket (by decide) hhost.1 hport.1
  have hr := hbare rbracket (by decide) hhost.2 hport.2
  have hhead : (host ++ colon :: port).head? ≠ some lbracket := fun h => hl (mem_of_mem_head? h)
  rw [splitHostPort, if_neg (by simp), if_neg hhead, hbefore, hafter, if_neg hc, if_neg hl, if_neg hr]

theorem splitHostPort_bracketed (hhost : Bare host) (hport : Bare port) (hp : colon ∉ port) :
    splitHostPort (lbracket :: host ++ rbracket :: colon :: port) = .ok (host, port) := by
  have hall : ∀ b ∈ host, (decide (b ≠ rbracket)) = true := by
    intro b hb
    rw [decide_eq_true_eq]
    rintro rfl
    exact hhost.2 hb
  have hopen : lbracket ∉ host ++ rbracket :: colon :: port := by
    simp only [mem_append, mem_cons, not_or]
    exact ⟨hhost.1, by decide, by decide, hport.1⟩
  rw [splitHostPort, if_neg (by simp), if_pos (by rfl)]
  simp only [cons_append, drop_succ_cons, drop_zero, dropWhile_append_of_pos hall,
    takeWhile_append_of_pos hall]
  simp [hp, hopen, hport.2]

theorem splitHostPort_ne_self (hhost : Bare host) (hc : colon ∈ host) :
    splitHostPort host ≠ .ok (host, port) := by
  intro h
  have hhead : host.head? ≠ some lbracket := fun h => hhost.1 (mem_of_mem_head? h)
  rw [splitHostPort, if_neg (not_not.mpr hc), if_neg hhead] at h
  split_ifs at h with hmany
  rw [(Prod.mk.inj (Except.ok.inj h)).1] at hmany
  exact hmany hc

theorem bare_decimal (n : Nat) : Bare (decimal n) ∧ colon ∉ decimal n := by
  have hno : ∀ b : UInt8, isDigit b = true → b ≠ lbracket ∧ b ≠ rbracket ∧ b ≠ colon := by
    decide +kernel
  exact ⟨⟨fun h => (hno _ (isDigit_of_mem_decimal h)).1 rfl,
    fun h => (hno _ (isDigit_of_mem_decimal h)).2.1 rfl⟩,
    fun h => (hno _ (isDigit_of_mem_decimal h)).2.2 rfl⟩

/-- **When the target address is split into the host and the port**: when the port is given and is not
22, or the host has no colon. -/
theorem target_addr_iff (hhost : Bare host) (port : Nat) : splitHostPort (formatTargetAddr host port) =
        .ok (host, decimal (if port = 0 then 22 else port)) ↔
      colon ∉ host ∨ port ≠ 22 ∧ port ≠ 0 := by
  obtain ⟨hport, hp⟩ := bare_decimal port
  by_cases hdefault : port = 22 ∨ port = 0
  · have hdec : decimal (if port = 0 then 22 else port) = lit "22" := by
      rcases hdefault with rfl | rfl <;> decide
    rw [formatTargetAddr, if_pos hdefault, hdec]
    by_cases hc : colon ∈ host
    · rw [if_pos hc]
      refine iff_of_false (splitHostPort_ne_self hhost hc) ?_
      rintro (h | ⟨h22, h0⟩)
      · exact h hc
      · exact hdefault.elim h22 h0
    · rw [if_neg hc]
      exact iff_of_true (splitHostPort_plain hhost ⟨by decide, by decide⟩ hc (by decide)) (.inl hc)
  · rw [not_or] at hdefault
    refine iff_of_true ?_ (.inr hdefault)
    rw [formatTargetAddr, if_neg (not_or.mpr hdefault), if_neg hdefault.2, joinHostPort]
    split_ifs with hc
    · have htext : lit "[" ++ host ++ lit "]:" ++ decimal port =
          lbracket :: host ++ rbracket :: colon :: decimal port := by
        simp [show lit "[" = [lbracket] by decide, show lit "]:" = [rbracket, colon] by decide]
      rw [htext]
      exact splitHostPort_bracketed hhost hport hp
    · rw [append_assoc]
      exact splitHostPort_plain hhost hport hc hp

theorem target_addr_iff_loopback : splitHostPort (formatTargetAddr (lit "::1") 2222) =
    .ok (lit "::1", lit "2222") :=
  (@target_addr_iff (lit "::1") ⟨by decide, by decide⟩ 2222).mpr (.inr (by decide))

theorem ipv6_default_port : formatTargetAddr (lit "::1") 0 = lit "::1" ∧
    splitHostPort (lit "::1") = .error .tooManyColons := by
  decide

end AoniContrib.Ssh
