/-
# Commands: `Client.Run` and `Client.Command` of `ssh/client.go`

`Run` asks for `/bin/sh`, `-c` and the command, and `Command` joins the three with blanks.  What is
sent is ONE string, which the shell at the other end splits again: it finds the three words only if
the command has no blank, quote or backslash in it (`run_words_iff`).

* §1 is the splitting of a shell, which takes quotes and backslashes out.  The words are SHORTER
  than the text if there was anything to take out (`length_words_lt`), so such a text is never its
  own only word.
* §2 is the client, up to the request for the command.
-/
import AoniContrib.Go.Bytes

namespace AoniContrib.Ssh

open Go List

/-! ## 1. The words of a shell -/

/-- Where the splitting stands: between quotes, behind a backslash, or neither. -/
inductive Quoting where
  | plain
  | escaped
  | single
  | double
  | doubleEscaped
  deriving DecidableEq, Repr

def squote : UInt8 := 0x27

def isBlank (b : UInt8) : Bool := b == space || b == 0x09 || b == newline

/-- The bytes that a backslash escapes between double quotes. -/
def escapable (b : UInt8) : Bool := b == 0x24 || b == 0x60 || b == dquote || b == backslash

/-- The words of a text; `word` is the one begun before it.  There are none if a quote is left open
or a backslash has nothing behind it. -/
def words (q : Quoting) (word : Option Bytes) : Bytes → Option (List Bytes)
  | [] => if q = .plain then some word.toList else none
  | b :: s =>
    let more (bs : Bytes) := some (word.getD [] ++ bs)
    match q with
    | .plain =>
      if isBlank b then (words .plain none s).map (word.toList ++ ·)
      else if b = squote then words .single (more []) s
      else if b = dquote then words .double (more []) s
      else if b = backslash then words .escaped word s
      else words .plain (more [b]) s
    | .escaped => if b = newline then words .plain word s else words .plain (more [b]) s
    | .single => if b = squote then words .plain word s else words .single (more [b]) s
    | .double =>
      if b = dquote then words .plain word s
      else if b = backslash then words .doubleEscaped word s
      else words .double (more [b]) s
    | .doubleEscaped =>
      if escapable b then words .double (more [b]) s
      else if b = newline then words .double word s
      else words .double (more [backslash, b]) s

/-- `words` between two words. -/
abbrev shellWords (s : Bytes) : Option (List Bytes) := words .plain none s

def isPlain (b : UInt8) : Bool := ! (isBlank b || b == squote || b == dquote || b == backslash)

variable {q : Quoting} {word : Option Bytes} {s : Bytes} {ws : List Bytes}

theorem words_cons_plain {b : UInt8} (h : isPlain b = true) :
    words .plain word (b :: s) = words .plain (some (word.getD [] ++ [b])) s := by
  simp only [isPlain, Bool.not_eq_true', Bool.or_eq_false_iff, beq_eq_false_iff_ne] at h
  obtain ⟨⟨⟨hblank, hs⟩, hd⟩, hb⟩ := h
  simp only [words, hblank, Bool.false_eq_true, if_false, if_neg hs, if_neg hd, if_neg hb]

theorem words_append_plain {p : Bytes} (h : ∀ b ∈ p, isPlain b = true) (hne : p ≠ []) :
    words .plain word (p ++ s) = words .plain (some (word.getD [] ++ p)) s := by
  induction p generalizing word with
  | nil => exact absurd rfl hne
  | cons b p ih =>
    rw [cons_append, words_cons_plain (h b mem_cons_self)]
    rcases eq_or_ne p [] with rfl | hp
    · rfl
    · rw [ih (forall_mem_cons.mp h).2 hp]
      simp

/-- What the bytes read so far may still add: a backslash that is kept. -/
def Quoting.held : Quoting → Nat
  | .doubleEscaped => 1
  | _ => 0

def Quoting.opened : Quoting → Nat
  | .single | .double | .doubleEscaped => 1
  | _ => 0

theorem words_cons_special {b : UInt8} (hb : isPlain b = false)
    (h : words .plain word (b :: s) = some ws) :
    ∃ q' word' ws', words q' word' s = some ws' ∧ q'.held = 0 ∧
      ws.flatten.length + (word'.getD []).length = (word.getD []).length + ws'.flatten.length := by
  simp only [words] at h
  split_ifs at h with hblank hs hd hback
  · obtain ⟨ws', h', rfl⟩ := Option.map_eq_some_iff.mp h
    refine ⟨_, _, ws', h', rfl, ?_⟩
    cases word <;> simp
  · exact ⟨_, _, ws, h, rfl, by simp [Nat.add_comm]⟩
  · exact ⟨_, _, ws, h, rfl, by simp [Nat.add_comm]⟩
  · exact ⟨_, _, ws, h, rfl, Nat.add_comm ..⟩
  · simp [isPlain, hblank, hs, hd, hback] at hb

theorem length_words (h : words q word s = some ws) :
    ws.flatten.length + q.opened ≤ (word.getD []).length + q.held + s.length := by
  induction s generalizing q word ws with
  | nil =>
    rw [words] at h
    split_ifs at h with hq
    obtain rfl := Option.some.inj h
    subst hq
    cases word <;> simp [Quoting.opened, Quoting.held]
  | cons b s ih =>
    cases q with
    | plain =>
      cases hb : isPlain b with
      | true =>
        have := ih (words_cons_plain hb ▸ h)
        simp [Quoting.opened, Quoting.held] at this ⊢
        omega
      | false =>
        obtain ⟨q', word', ws', h', hheld, hlen⟩ := words_cons_special hb h
        have := ih h'
        change ws.flatten.length + 0 ≤ (word.getD []).length + 0 + (s.length + 1)
        omega
    | escaped | single | double | doubleEscaped =>
      simp only [words] at h
      split_ifs at h
      all_goals
        have := ih h
        simp [Quoting.opened, Quoting.held] at this ⊢
        omega

theorem length_words_lt {b : UInt8} (hb : b ∈ s) (hspecial : isPlain b = false)
    (h : words .plain word s = some ws) :
    ws.flatten.length < (word.getD []).length + s.length := by
  induction s generalizing word with
  | nil => cases hb
  | cons c s ih =>
    rw [length_cons]
    cases hc : isPlain c with
    | true =>
      rcases mem_cons.mp hb with rfl | hb
      · rw [hc] at hspecial
        cases hspecial
      · have := ih hb (words_cons_plain hc ▸ h)
        rw [Option.getD_some, length_append, length_singleton] at this
        omega
    | false =>
      obtain ⟨q', word', ws', h', hheld, hlen⟩ := words_cons_special hc h
      have := length_words h'
      omega

/-- **A text is its own only word if every byte stands for itself**, and only then. -/
theorem shellWords_eq_self_iff : shellWords s = some [s] ↔ s ≠ [] ∧ ∀ b ∈ s, isPlain b = true := by
  constructor
  · intro h
    refine ⟨?_, fun b hb => ?_⟩
    · rintro rfl
      cases h
    · by_contra hno
      have := length_words_lt hb (Bool.eq_false_iff.mpr hno) h
      simp at this
  · rintro ⟨hne, hall⟩
    have := @words_append_plain none [] s hall hne
    simpa [words] using this

/-! ## 2. The client -/

inductive Err where
  | errSSHClosed
  | session (err : Bytes)
  /-- `ErrPtyRequestFailed`, wrapped with the cause. -/
  | errPtyRequestFailed (err : Bytes)
  deriving DecidableEq, Repr

structure PtyRequest where
  term : Bytes
  width : Int64
  height : Int64
  deriving DecidableEq, Repr

/-- The fields of `Client` that a command depends on. -/
structure Client where
  closed : Bool := false
  /-- The embedded client is not nil. -/
  connected : Bool := true
  requestPty : Bool := false
  ptyTerm : Bytes := []
  ptyWidth : Int64 := 0
  ptyHeight : Int64 := 0

/-- How the server answers: `none` is success. -/
structure Server where
  newSession : Option Bytes := none
  requestPty : PtyRequest → Option Bytes := fun _ => none

structure Cmd where
  pty : Option PtyRequest
  path : Bytes
  args : List Bytes
  cmdStr : Bytes

namespace Client

variable (c : Client) (S : Server)

/-- The terminal to ask for, with the defaults of `Command`. -/
def ptyRequest : PtyRequest where
  term := if c.ptyTerm = [] then lit "xterm" else c.ptyTerm
  width := if c.ptyWidth ≤ 0 then 80 else c.ptyWidth
  height := if c.ptyHeight ≤ 0 then 40 else c.ptyHeight

def command (name : Bytes) (args : List Bytes) : Except Err Cmd :=
  if c.closed || ! c.connected then .error .errSSHClosed
  else
    match S.newSession with
    | some err => .error (.session err)
    | none =>
      let cmdStr := if args ≠ [] then name ++ [space] ++ join [space] args else name
      if c.requestPty then
        match S.requestPty c.ptyRequest with
        | some err => .error (.errPtyRequestFailed err)
        | none => .ok ⟨some c.ptyRequest, name, args, cmdStr⟩
      else .ok ⟨none, name, args, cmdStr⟩

end Client

def Cmd.string (cmd : Cmd) : Bytes :=
  if cmd.cmdStr ≠ [] then cmd.cmdStr
  else if cmd.args = [] then cmd.path
  else cmd.path ++ [space] ++ join [space] cmd.args

/-- `Run`: the string of the exec request. -/
def Client.run (c : Client) (S : Server) (cmdStr : Bytes) : Except Err Bytes := do
  let cmd ← c.command S (lit "/bin/sh") [lit "-c", cmdStr]
  .ok cmd.string

variable {c : Client} {S : Server} {sent : Bytes}

theorem command_ok {name : Bytes} {args : List Bytes} {cmd : Cmd} (hne : args ≠ [])
    (h : c.command S name args = .ok cmd) : cmd.cmdStr = name ++ [space] ++ join [space] args := by
  unfold Client.command at h
  rcases ite_eq_iff.mp h with ⟨-, h⟩ | ⟨-, h⟩
  · cases h
  · split at h
    · cases h
    · simp only [if_pos hne] at h
      rcases ite_eq_iff.mp h with ⟨-, h⟩ | ⟨-, h⟩
      · split at h <;> cases h
        rfl
      · cases h
        rfl

theorem run_ok {cmd : Bytes} (h : c.run S cmd = .ok sent) :
    sent = lit "/bin/sh" ++ space :: (lit "-c" ++ space :: cmd) := by
  obtain ⟨cmd', hcmd, h⟩ := bind_eq_ok.mp h
  rw [← Except.ok.inj h, Cmd.string, command_ok (cons_ne_nil _ _) hcmd, if_pos (by simp)]
  simp [join]

/-- **When the remote shell finds the command as one word**: when it is not empty and holds no
blank, quote or backslash. -/
theorem run_words_iff {cmd : Bytes} (h : c.run S cmd = .ok sent) :
    shellWords sent = some [lit "/bin/sh", lit "-c", cmd] ↔ cmd ≠ [] ∧ ∀ b ∈ cmd, isPlain b = true := by
  have hblank : ∀ {word s}, words .plain word (space :: s) =
      (words .plain none s).map (word.toList ++ ·) := rfl
  rw [run_ok h, shellWords, words_append_plain (by decide +kernel) (by decide), hblank,
    words_append_plain (by decide +kernel) (by decide), hblank, ← shellWords_eq_self_iff]
  simp

theorem run_words_iff_reboot : Client.run {} {} (lit "reboot") = .ok (lit "/bin/sh -c reboot") ∧
    shellWords (lit "/bin/sh -c reboot") = some [lit "/bin/sh", lit "-c", lit "reboot"] := by
  have hrun : Client.run {} {} (lit "reboot") = .ok (lit "/bin/sh -c reboot") := by decide +kernel
  exact ⟨hrun, (run_words_iff hrun).mpr (by decide +kernel)⟩

/-- The remote shell runs `echo`, with `hello` as its name. -/
theorem echo_without_argument :
    Client.run {} {} (lit "echo hello") = .ok (lit "/bin/sh -c echo hello") ∧
    shellWords (lit "/bin/sh -c echo hello") =
      some [lit "/bin/sh", lit "-c", lit "echo", lit "hello"] := by
  decide +kernel

end AoniContrib.Ssh
