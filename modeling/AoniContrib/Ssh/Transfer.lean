/-
# Files over SSH: `WriteFile` of `ssh/sftp/scp.go`, and the downloads

* §1 is the sender of `WriteFile`.  It announces `size` and then copies the reader to its END, so the
  frame is the announced one only if the reader holds exactly `size` bytes (`scp_framed_iff`).
* §2 is the three downloads, up to the transfer.  `os.Create` empties the local file; two of them
  call it before the remote file is open (`download_keeps_iff`).
* §3 is the command `WriteFile` starts.  A shell reads the quoted path back as ONE word, and meets no
  byte of it outside quotes or a backslash (`scp_command_words`).
-/
import AoniContrib.Go.Strconv
import AoniContrib.Ssh.Command

namespace AoniContrib.Ssh

open Go List

/-! ## 1. The frame of a file -/

abbrev Fault := Bytes

/-- What the reader gives, and the error it ends with; `none` is the end of the input. -/
structure Source where
  content : Bytes
  err : Option Fault := none

/-- The answers of the session; `none` is success.  `room` is how many bytes its stdin takes before it
fails. -/
structure ScpSession where
  newSession : Option Fault := none
  stdinPipe : Option Fault := none
  start : Option Fault := none
  wait : Option Fault := none
  room : Option Nat := none
  broken : Fault := []

inductive ScpError where
  | errClientClosed
  | errInvalidTargetFile
  | fault (err : Fault)
  deriving DecidableEq, Repr

/-- `w.Write` behind what stdin has. -/
def ScpSession.write (S : ScpSession) (had bs : Bytes) : Except Fault Bytes :=
  if S.room.all ((had ++ bs).length ≤ ·) then .ok (had ++ bs) else .error S.broken

/-- `C0644 <size> <name>\\n`. -/
def scpHeader (size : Int64) (fileName : Bytes) : Bytes :=
  lit "C0644 " ++ formatInt size ++ [space] ++ fileName ++ [newline]

/-- The goroutine of `WriteFile`: what it has written to stdin, or the error for `copyErrCh`. -/
def scpSender (S : ScpSession) (r : Source) (size : Int64) (fileName : Bytes) : Except Fault Bytes := do
  let had ← S.write [] (scpHeader size fileName)
  if 0 < size then
    -- `io.CopyBuffer`, which ends with an error of either side
    let had ← S.write had r.content
    match r.err with
    | some err => .error err
    | none => S.write had [0]
  else S.write had [0]

def filepathBase (path : Bytes) : Bytes :=
  if path = [] then lit "."
  else
    let name := ((path.reverse.dropWhile (· = slash)).takeWhile (· ≠ slash)).reverse
    if name = [] then [slash] else name

def containsControlChars (s : Bytes) : Bool := s.any fun b => b = 0 || b = newline || b = carriageReturn

/-- `WriteFile` with a client: what was written to stdin, or the error. -/
def writeFile (S : ScpSession) (r : Source) (size : Int64) (remoteFilePath : Bytes) :
    Except ScpError Bytes :=
  let fileName := filepathBase remoteFilePath
  if containsControlChars remoteFilePath || containsControlChars fileName then
    .error .errInvalidTargetFile
  else match S.newSession, S.stdinPipe, S.start, scpSender S r size fileName, S.wait with
    | some err, _, _, _, _ | none, some err, _, _, _ | none, none, some err, _, _
    | none, none, none, .error err, _ | none, none, none, .ok _, some err => .error (.fault err)
    | none, none, none, .ok sent, none => .ok sent

section
variable {S : ScpSession} {r : Source} {size : Int64} {path sent : Bytes}

/-- **The property**: what a sender without errors wrote is the announced frame, and too short a
reader is an error. -/
def ScpFramed (S : ScpSession) (r : Source) (size : Int64) (path : Bytes) : Prop :=
  (∀ sent, scpSender S r size (filepathBase path) = .ok sent →
    sent = scpHeader size (filepathBase path) ++ r.content.take size.toInt.toNat ++ [0] ∧
      size.toInt.toNat ≤ r.content.length) ∧
  (r.content.length < size.toInt.toNat → ∀ sent, writeFile S r size path ≠ .ok sent)

theorem ScpSession.write_ok {had bs : Bytes} (h : S.write had bs = .ok sent) : sent = had ++ bs := by
  rcases ite_eq_iff.mp h with ⟨-, h⟩ | ⟨-, h⟩
  · exact (Except.ok.inj h).symm
  · cases h

theorem scpSender_ok {name : Bytes} (h : scpSender S r size name = .ok sent) :
    sent = scpHeader size name ++ (if 0 < size then r.content else []) ++ [0] := by
  obtain ⟨had, hhad, h⟩ := bind_eq_ok.mp h
  obtain rfl := ScpSession.write_ok hhad
  rcases ite_eq_iff.mp h with ⟨hsize, h⟩ | ⟨hsize, h⟩
  · obtain ⟨had, hhad, h⟩ := bind_eq_ok.mp h
    obtain rfl := ScpSession.write_ok hhad
    split at h
    · cases h
    · rw [ScpSession.write_ok h, if_pos hsize, nil_append]
  · rw [ScpSession.write_ok h, if_neg hsize, nil_append, append_nil]

theorem scpSender_reads {name : Bytes} (h : scpSender S r size name = .ok sent) (hs : 0 < size) :
    r.err = none := by
  obtain ⟨had, -, h⟩ := bind_eq_ok.mp h
  rw [if_pos hs] at h
  obtain ⟨had, -, h⟩ := bind_eq_ok.mp h
  split at h
  · cases h
  · assumption

theorem writeFile_ok (h : writeFile S r size path = .ok sent) :
    scpSender S r size (filepathBase path) = .ok sent := by
  unfold writeFile at h
  rcases ite_eq_iff.mp h with ⟨-, h⟩ | ⟨-, h⟩
  · cases h
  · split at h <;> cases h
    assumption

/-- **When SCP frames exactly the announced bytes**, whatever the session does: when the reader holds
exactly as many or fails, or none are announced. -/
theorem scp_framed_iff (hsize : 0 ≤ size) : (∀ S, ScpFramed S r size path) ↔
    size = 0 ∨ r.err ≠ none ∨ r.content.length = size.toInt.toNat := by
  have hnonneg : 0 ≤ size.toInt := by simpa using Int64.le_iff_toInt_le.mp hsize
  have hpos : 0 < size ↔ 0 < size.toInt := by rw [Int64.lt_iff_toInt_lt, Int64.toInt_zero]
  have hzero : size = 0 ↔ size.toInt = 0 := by rw [← Int64.toInt_inj, Int64.toInt_zero]
  constructor
  · intro hall
    by_contra! hbad
    obtain ⟨h0, herr, hlen⟩ := hbad
    rw [Ne, hzero] at h0
    have hsize : 0 < size := hpos.mpr (by omega)
    -- a session that takes everything
    have h : ∃ sent, scpSender {} r size (filepathBase path) = .ok sent := by
      simp [scpSender, ScpSession.write, hsize, herr, bind, Except.bind]
    obtain ⟨sent, h⟩ := h
    obtain ⟨heq, hle⟩ := (hall {}).1 sent h
    rw [scpSender_ok h, if_pos hsize] at heq
    have := congrArg List.length (append_cancel_left (append_cancel_right heq))
    rw [length_take] at this
    omega
  · intro hcase S
    have hframe : ∀ sent, scpSender S r size (filepathBase path) = .ok sent →
        (if 0 < size then r.content else []) = r.content.take size.toInt.toNat ∧
          size.toInt.toNat ≤ r.content.length := by
      intro sent h
      by_cases hs : 0 < size
      · have hlen := (hcase.resolve_left (mt hzero.mp (hpos.mp hs).ne')).resolve_left
          (not_not.mpr (scpSender_reads h hs))
        rw [if_pos hs, take_of_length_le hlen.le]
        exact ⟨rfl, hlen.ge⟩
      · rw [if_neg hs, Int.toNat_eq_zero.mpr (not_lt.mp (mt hpos.mpr hs))]
        exact ⟨rfl, Nat.zero_le _⟩
    refine ⟨fun sent h => ?_, fun hshort sent h => ?_⟩
    · rw [scpSender_ok h, (hframe sent h).1]
      exact ⟨rfl, (hframe sent h).2⟩
    · exact absurd (hframe sent (writeFile_ok h)).2 (by omega)

end

theorem scp_framed_iff_exact : ScpFramed {} ⟨lit "abc", none⟩ 3 (lit "/tmp/f") :=
  (scp_framed_iff (by decide)).mpr (.inr (.inr (by decide))) {}

/-- Two bytes are announced; the third is the first of what the remote `scp` takes for a command. -/
theorem scp_surplus : writeFile {} ⟨lit "abc", none⟩ 2 (lit "/tmp/f") =
      .ok (lit "C0644 2 f\nabc" ++ [0]) ∧
    writeFile {} ⟨lit "a", none⟩ 2 (lit "/tmp/f") = .ok (lit "C0644 2 f\na" ++ [0]) := by
  decide +kernel

/-! ## 2. The downloads -/

/-- The outcomes of the calls of a download; `none` is success.  A closed client opens no session. -/
structure Fetch where
  closed : Bool := false
  -- `GetSftp`, or `NewClient`
  session : Option Fault := none
  gone : closed → session ≠ none
  openRemote : Option Fault := none
  stat : Option Fault := none
  create : Option Fault := none
  -- the copy and `Sync`: their error, and the local file behind them
  transfer : Option Fault × Bytes

inductive DownloadError where
  | errSSHClosed
  | errInvalidChunkSize
  | fault (err : Fault)
  deriving DecidableEq, Repr

/-- What a download leaves: its error, and the local file. -/
abbrev Fetched := Option DownloadError × Bytes

/-- `if err != nil { return err }` with the local file as it is then. -/
def orReturn (err : Option Fault) (file : Bytes) (next : Fetched) : Fetched :=
  match err with
  | some err => (some (.fault err), file)
  | none => next

namespace Fetch

def copied (E : Fetch) : Fetched := (E.transfer.1.map .fault, E.transfer.2)

/-- `Client.Download`.  `os.Create` truncates: the local file behind it is empty. -/
def clientDownload (E : Fetch) (file : Bytes) : Fetched :=
  if E.closed then (some .errSSHClosed, file)
  else orReturn E.session file <| orReturn E.create file <| orReturn E.openRemote [] E.copied

def download (E : Fetch) (file : Bytes) : Fetched :=
  orReturn E.create file <| orReturn E.session [] <| orReturn E.openRemote [] E.copied

def downloadParallel (E : Fetch) (chunkSize : Int64) (file : Bytes) : Fetched :=
  if chunkSize ≤ 0 then (some .errInvalidChunkSize, file)
  else orReturn E.session file <| orReturn E.openRemote file <| orReturn E.stat file <|
    orReturn E.create file E.copied

/-- **The property** of one download: an error, and the local file as it was. -/
def Kept (file : Bytes) (r : Fetched) : Prop := r.1 ≠ none ∧ r.2 = file

variable {E : Fetch} {file kept : Bytes} {next : Fetched}

@[simp] theorem kept_orReturn {err : Option Fault} :
    Kept file (orReturn err kept next) ↔ if err = none then Kept file next else kept = file := by
  cases err <;> simp [orReturn, Kept]

/-- **When a failed download keeps the local file**: the parallel one always; the others when
`os.Create` fails or the file was empty, or, for `Client.Download`, when there is no session. -/
theorem download_keeps_iff (chunkSize : Int64) (hfail : E.session ≠ none ∨ E.openRemote ≠ none) :
    (Kept file (E.clientDownload file) ↔ E.closed ∨ E.session ≠ none ∨ E.create ≠ none ∨ file = []) ∧
    (Kept file (E.download file) ↔ E.create ≠ none ∨ file = []) ∧
    Kept file (E.downloadParallel chunkSize file) := by
  have hempty : [] = file ↔ file = [] := eq_comm
  refine ⟨?_, ?_, ?_⟩
  · by_cases hclosed : E.closed
    · simp [clientDownload, hclosed, Kept]
    · by_cases hsession : E.session = none
      · have hopen := hfail.resolve_left (not_not.mpr hsession)
        simp [clientDownload, hclosed, hsession, hopen, hempty]
        tauto
      · simp [clientDownload, hclosed, hsession]
  · by_cases hsession : E.session = none
    · have hopen := hfail.resolve_left (not_not.mpr hsession)
      simp [download, hsession, hopen, hempty]
      tauto
    · simp [download, hsession, hempty]
      tauto
  · by_cases hchunk : chunkSize ≤ 0
    · simp [downloadParallel, hchunk, Kept]
    · by_cases hsession : E.session = none
      · have hopen := hfail.resolve_left (not_not.mpr hsession)
        simp [downloadParallel, hchunk, hsession, hopen]
      · simp [downloadParallel, hchunk, hsession]

def absent : Fetch :=
  { gone := by simp, openRemote := some (lit "file does not exist"), transfer := (none, []) }

theorem download_keeps_iff_absent : Kept (lit "old") (absent.downloadParallel 1024 (lit "old")) :=
  (download_keeps_iff 1024 (.inr (by decide))).2.2

theorem absent_truncates :
    absent.clientDownload (lit "old") = (some (.fault (lit "file does not exist")), []) ∧
    absent.download (lit "old") = (some (.fault (lit "file does not exist")), []) := by
  decide +kernel

end Fetch

/-! ## 3. The command -/

def escapeQuotes (s : Bytes) : Bytes := s.flatMap fun b => if b = squote then lit "'\\''" else [b]

def shellQuote (s : Bytes) : Bytes := squote :: (escapeQuotes s ++ [squote])

/-- What `WriteFile` gives to `sess.Start`. -/
def scpCommand (remoteFilePath : Bytes) : Bytes := lit "scp -tr " ++ shellQuote remoteFilePath

/-- The bytes a shell looks at for operators, patterns and expansions: those outside quotes and not
behind a backslash, and between double quotes `$` and the backquote. -/
def live (q : Quoting) : Bytes → Bytes
  | [] => []
  | b :: s =>
    match q with
    | .plain =>
      if b = squote then live .single s
      else if b = dquote then live .double s
      else if b = backslash then live .escaped s
      else b :: live .plain s
    | .escaped => live .plain s
    | .single => if b = squote then live .plain s else live .single s
    | .double =>
      if b = dquote then live .plain s
      else if b = backslash then live .doubleEscaped s
      else if b = 0x24 ∨ b = 0x60 then b :: live .double s
      else live .double s
    | .doubleEscaped => live .double s

/-- From quote to quote: what was escaped is added to the word, and nothing of it is live. -/
theorem words_escapeQuotes (s rest word : Bytes) :
    words .single (some word) (escapeQuotes s ++ rest) = words .single (some (word ++ s)) rest ∧
    live .single (escapeQuotes s ++ rest) = live .single rest := by
  induction s generalizing word with
  | nil => simp [escapeQuotes]
  | cons b s ih =>
    obtain ⟨hwords, hlive⟩ := ih (word ++ [b])
    rw [escapeQuotes, flatMap_cons, ← escapeQuotes, append_assoc]
    split_ifs with hb
    · -- `'\''` closes the quotes, adds a quote behind a backslash and opens them again
      subst hb
      constructor
      · change words .single (some (word ++ [squote] ++ [])) (escapeQuotes s ++ rest) = _
        rw [append_nil, hwords]
        simp
      · exact hlive
    · constructor
      · rw [singleton_append, words, if_neg hb]
        simpa using hwords
      · rw [singleton_append, live, if_neg hb, hlive]

/-- **The command is read back**: its words are `scp`, `-tr` and the path, and nothing of the path is
live. -/
theorem scp_command_words (s : Bytes) : shellWords (scpCommand s) = some [lit "scp", lit "-tr", s] ∧
    live .plain (scpCommand s) = lit "scp -tr " := by
  obtain ⟨hwords, hlive⟩ := words_escapeQuotes s [squote] []
  constructor
  · change (((words .single (some []) (escapeQuotes s ++ [squote])).map _).map _) = _
    rw [hwords]
    rfl
  · change 0x73 :: 0x63 :: 0x70 :: 0x20 :: 0x2d :: 0x74 :: 0x72 :: 0x20 ::
      live .single (escapeQuotes s ++ [squote]) = _
    rw [hlive]
    rfl

end AoniContrib.Ssh
