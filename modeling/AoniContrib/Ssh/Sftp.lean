/-
# Parallel transfers: `dispatchParallelUpload` and `dispatchParallelDownload`

A producer cuts the file into chunks and sends them to workers.  A worker copies its chunk by `ReadAt`
and `WriteAt`; if that fails it puts the error into `errCh`, cancels the context and returns.  When all
workers have returned, an error in `errCh` is the result, and without one the result is nil.

The producer returns early when the context is done.  Where a worker has cancelled it there is an error
in `errCh`.  Where the caller has cancelled it there is none, and the result is nil although chunks were
never sent (`cancelled_transfer_succeeds`).  If the producer returns early only after a worker's failure,
a transfer that returns nil is complete (`nil_complete`).
-/
import AoniContrib.Concurrency.Run
import AoniContrib.Go.Bytes

namespace AoniContrib.Ssh.Sftp

open Function Go Concurrency List

/-! ## 1. Files -/

abbrev File := Nat → Option UInt8

inductive Err where
  | eof
  | failed (text : Bytes)
  deriving DecidableEq, Repr

def Holds (f : File) (off : Int64) (data : Bytes) : Prop :=
  ∀ i b, data[i]? = some b → 0 ≤ off.toInt ∧ f (off.toInt.toNat + i) = some b

/-- `ReadAt` into a buffer of `len` bytes returns `data` and `err`, as `io.ReaderAt` requires: it may
read less than asked for, but not without an error. -/
structure ReadAt (f : File) (len off : Int64) (data : Bytes) (err : Option Err) : Prop where
  length_le : data.length ≤ len.toInt
  holds : Holds f off data
  short : data.length < len.toInt → err ≠ none

/-- `WriteAt` returns `err` and leaves the file as `f'`, as `io.WriterAt` requires: without an error all
was written.  Nothing is said of a gap between the old end and the offset. -/
structure WriteAt (f : File) (data : Bytes) (off : Int64) (err : Option Err) (f' : File) : Prop where
  written : err = none → Holds f' off data
  others : ∀ p : Nat, (p < off.toInt ∨ off.toInt + data.length ≤ p) → f p ≠ none → f' p = f p

/-! ## 2. The program -/

structure TransferTask where
  offset : Int64
  size : Int64
  deriving DecidableEq, Repr

/-- The two files that every transfer has open. -/
inductive Side where
  | localFile
  | remoteFile
  deriving DecidableEq, Repr

inductive Direction where
  | upload
  | download
  deriving DecidableEq, Repr

def Direction.source : Direction → Side
  | .upload => .localFile
  | .download => .remoteFile

def Direction.dest : Direction → Side
  | .upload => .remoteFile
  | .download => .localFile

theorem Direction.source_ne_dest : ∀ d : Direction, d.source ≠ d.dest
  | .upload => by decide
  | .download => by decide

/-- The arguments, after the checks of `UploadParallel` and `DownloadParallel`. -/
structure Args where
  direction : Direction
  totalSize : Int64
  chunkSize : Int64
  workers : Nat
  chunkSize_pos : 0 < chunkSize
  workers_pos : 0 < workers

inductive Worker where
  /-- At the head of `for task := range taskCh`. -/
  | range
  /-- In the chunk's loop, before `ReadAt`. -/
  | reading (task : TransferTask) (written : Int64)
  /-- Before `WriteAt`, with what `ReadAt` returned. -/
  | writing (task : TransferTask) (written : Int64) (data : Bytes) (err : Option Err)
  /-- The chunk returned an error. -/
  | failed (err : Err)
  /-- The error was sent, and `cancel` comes next. -/
  | reported
  | done
  deriving DecidableEq, Repr

def bufLen : Int64 := 64 * 1024

def readLen (task : TransferTask) (written : Int64) : Int64 := min bufLen (task.size - written)

/-- `for written < size`. -/
def Worker.next (task : TransferTask) (written : Int64) : Worker :=
  if written < task.size then .reading task written else .range

/-- `if err != nil && written < size`. -/
def Worker.check (task : TransferTask) (written : Int64) : Option Err → Worker
  | some err => if written < task.size then .failed err else .next task written
  | none => .next task written

/-- `if n > 0`. -/
def Worker.afterRead (task : TransferTask) (written : Int64) (data : Bytes) (err : Option Err) : Worker :=
  if 0 < data.length then .writing task written data err else .check task written err

def Worker.afterWrite (task : TransferTask) (written : Int64) (data : Bytes) (err : Option Err) :
    Option Err → Worker
  | some wErr => .failed wErr
  | none => .check task (written + Int64.ofNat data.length) err

structure State (a : Args) where
  file : Side → File
  /-- The loop variable of `produceChunks`. -/
  offset : Int64
  taskCh : List TransferTask
  /-- `taskCh` is closed: `produceChunks` has returned. -/
  closed : Bool
  /-- `ctx.Done()`. -/
  cancelled : Bool
  worker : Fin a.workers → Worker
  errCh : List Err
  /-- What the dispatcher returned: nil, or the error that `ErrParallelTransferFailed` wraps. -/
  returned : Option (Option Err)

def State.init (a : Args) (file : Side → File) : State a where
  file := file
  offset := 0
  taskCh := []
  closed := false
  cancelled := false
  worker _ := .range
  errCh := []
  returned := none

/-- What happens, and for a worker's step which worker makes it. -/
inductive Act (n : Nat) where
  | cancelCaller
  | send
  | stop
  | finish
  | take (i : Fin n)
  | leave (i : Fin n)
  | read (i : Fin n)
  | write (i : Fin n)
  | report (i : Fin n)
  | cancel (i : Fin n)
  | wait
  deriving DecidableEq, Repr

variable (a : Args)

def nextTask (offset : Int64) : TransferTask := ⟨offset, min a.chunkSize (a.totalSize - offset)⟩

inductive Step : State a → Act a.workers → State a → Prop where
  /-- The caller's context ends. -/
  | cancelCaller {s : State a} : Step s .cancelCaller { s with cancelled := true }
  /-- `case taskCh <- transferTask{...}`. -/
  | send {s : State a} : s.closed = false → s.offset < a.totalSize → s.taskCh.length < a.workers * 2 →
      Step s .send { s with
        taskCh := s.taskCh ++ [nextTask a s.offset], offset := s.offset + a.chunkSize }
  /-- `case <-ctx.Done()`. -/
  | stop {s : State a} : s.closed = false → s.offset < a.totalSize → s.cancelled = true →
      Step s .stop { s with closed := true }
  | finish {s : State a} : s.closed = false → ¬ s.offset < a.totalSize →
      Step s .finish { s with closed := true }
  | take {s : State a} {i : Fin a.workers} {task : TransferTask} {rest : List TransferTask} :
      s.worker i = .range → s.taskCh = task :: rest →
      Step s (.take i) { s with taskCh := rest, worker := update s.worker i (.next task 0) }
  /-- `range` ends: the channel is closed and empty. -/
  | leave {s : State a} {i : Fin a.workers} : s.worker i = .range → s.taskCh = [] → s.closed = true →
      Step s (.leave i) { s with worker := update s.worker i .done }
  | read {s : State a} {i : Fin a.workers} {task : TransferTask} {written : Int64} {data : Bytes}
      {err : Option Err} : s.worker i = .reading task written →
      ReadAt (s.file a.direction.source) (readLen task written) (task.offset + written) data err →
      Step s (.read i) { s with worker := update s.worker i (.afterRead task written data err) }
  | write {s : State a} {i : Fin a.workers} {task : TransferTask} {written : Int64} {data : Bytes}
      {err wErr : Option Err} {f : File} : s.worker i = .writing task written data err →
      WriteAt (s.file a.direction.dest) data (task.offset + written) wErr f →
      Step s (.write i) { s with
        file := update s.file a.direction.dest f
        worker := update s.worker i (.afterWrite task written data err wErr) }
  /-- `select` with a default: a full channel drops the error. -/
  | report {s : State a} {i : Fin a.workers} {err : Err} : s.worker i = .failed err →
      Step s (.report i) { s with
        errCh := if s.errCh.length < a.workers then s.errCh ++ [err] else s.errCh
        worker := update s.worker i .reported }
  | cancel {s : State a} {i : Fin a.workers} : s.worker i = .reported →
      Step s (.cancel i) { s with cancelled := true, worker := update s.worker i .done }
  /-- `wg.Wait`, and the first error of the closed `errCh`. -/
  | wait {s : State a} : (∀ i, s.worker i = .done) → s.returned = none →
      Step s .wait { s with returned := some s.errCh.head? }

/-- The producer takes `<-ctx.Done()` only after the failure of a worker. -/
def StopsOnFailure (s : State a) (act : Act a.workers) : Prop := act = .stop → s.errCh ≠ []

variable {a}

/-! ## 3. Offsets and sizes -/

theorem toInt_add_of_bounds {x y : Int64} (hlow : -2 ^ 63 ≤ x.toInt + y.toInt)
    (hhigh : x.toInt + y.toInt < 2 ^ 63) : (x + y).toInt = x.toInt + y.toInt := by
  rw [Int64.toInt_add]
  exact Int.bmod_eq_of_le (by omega) (by omega)

theorem toInt_min (x y : Int64) : (min x y).toInt = min x.toInt y.toInt := by
  have hmin : min x y = if x ≤ y then x else y := rfl
  rw [hmin]
  split_ifs with h
  · exact (min_eq_left (Int64.le_iff_toInt_le.mp h)).symm
  · rw [Int64.le_iff_toInt_le, not_le] at h
    exact (min_eq_right h.le).symm

/-- A task with something in it ends inside the file. -/
def TransferTask.Fits (a : Args) (task : TransferTask) : Prop :=
  0 < task.size.toInt → task.offset.toInt + task.size.toInt ≤ a.totalSize.toInt

/-- The task has that position, and it is not among the first `written`. -/
def TransferTask.Covers (task : TransferTask) (written : Int64) (p : Nat) : Prop :=
  task.offset.toInt + written.toInt ≤ p ∧ p < task.offset.toInt + task.size.toInt

variable {offset : Int64}

theorem toInt_remaining (h : offset < a.totalSize) :
    (a.totalSize - offset).toInt = a.totalSize.toInt - offset.toInt ∨
      (a.totalSize - offset).toInt < 0 := by
  have hlt := Int64.lt_iff_toInt_lt.mp h
  have hlow : -2 ^ 63 ≤ offset.toInt := offset.le_toInt
  have hhigh : a.totalSize.toInt < 2 ^ 63 := a.totalSize.toInt_lt
  rw [Int64.toInt_sub]
  rcases lt_or_ge (a.totalSize.toInt - offset.toInt) (2 ^ 63) with hfits | hwraps
  · exact .inl (Int.bmod_eq_of_le (by omega) (by omega))
  · have hwrap : (a.totalSize.toInt - offset.toInt).bmod (2 ^ 64) =
        a.totalSize.toInt - offset.toInt - 2 ^ 64 := by
      rw [← Int.sub_bmod_right]
      exact Int.bmod_eq_of_le (by omega) (by omega)
    exact .inr (by omega)

theorem nextTask_fits (h : offset < a.totalSize) : (nextTask a offset).Fits a := by
  intro hpos
  simp only [nextTask, toInt_min] at hpos ⊢
  rcases toInt_remaining h with heq | hneg <;> omega

theorem nextTask_covers {p : Nat} (hoffset : 0 ≤ offset.toInt) (hle : offset.toInt ≤ p)
    (hp : p < a.totalSize.toInt) :
    (nextTask a offset).Covers 0 p ∨
      0 ≤ (offset + a.chunkSize).toInt ∧ (offset + a.chunkSize).toInt ≤ p := by
  have hchunk := Int64.lt_iff_toInt_lt.mp a.chunkSize_pos
  have hhigh : a.totalSize.toInt < 2 ^ 63 := a.totalSize.toInt_lt
  have hrest : (a.totalSize - offset).toInt = a.totalSize.toInt - offset.toInt :=
    Int64.toInt_sub_of_le _ _ (Int64.le_iff_toInt_le.mpr hoffset) (Int64.le_iff_toInt_le.mpr (by omega))
  rw [Int64.toInt_zero] at hchunk
  simp only [TransferTask.Covers, nextTask, toInt_min, hrest, Int64.toInt_zero]
  rcases lt_or_ge (p : Int) (offset.toInt + a.chunkSize.toInt) with hin | hafter
  · exact .inl (by omega)
  · have hadd := toInt_add_of_bounds (x := offset) (y := a.chunkSize) (by omega) (by omega)
    exact .inr (by omega)

/-! ## 4. Workers -/

/-- The positions that a worker has still to write. -/
def Worker.Covers (p : Nat) : Worker → Prop
  | .reading task written => task.Covers written p
  | .writing task written _ _ => task.Covers written p
  | _ => False

/-- What a worker knows of its chunk; `src` is the source. -/
def Worker.Sound (a : Args) (src : File) : Worker → Prop
  | .reading task written => task.Fits a ∧ 0 ≤ written.toInt ∧ written.toInt < task.size.toInt
  | .writing task written data _ => task.Fits a ∧ 0 ≤ written.toInt ∧
      written.toInt + data.length ≤ task.size.toInt ∧ 0 < data.length ∧
      Holds src (task.offset + written) data
  | _ => True

def Worker.Failed (w : Worker) : Prop := ∃ err, w = .failed err

section
variable {task : TransferTask} {written : Int64} {src : File} {p : Nat} {data : Bytes}

theorem Worker.sound_next (hfits : task.Fits a) (hwritten : 0 ≤ written.toInt) :
    (Worker.next task written).Sound a src := by
  unfold Worker.next
  split_ifs with h
  · exact ⟨hfits, hwritten, Int64.lt_iff_toInt_lt.mp h⟩
  · trivial

theorem Worker.covers_next (h : task.Covers written p) : (Worker.next task written).Covers p := by
  have hlt : written < task.size := by
    rw [Int64.lt_iff_toInt_lt]
    have := h.1
    have := h.2
    omega
  rw [Worker.next, if_pos hlt]
  exact h

theorem Worker.check_eq (task : TransferTask) (written : Int64) (err : Option Err) :
    (Worker.check task written err).Failed ∨ Worker.check task written err = .next task written := by
  cases err with
  | none => exact .inr rfl
  | some err =>
    unfold Worker.check
    split_ifs
    · exact .inl ⟨err, rfl⟩
    · exact .inr rfl

theorem Worker.sound_check (hfits : task.Fits a) (hwritten : 0 ≤ written.toInt) (err : Option Err) :
    (Worker.check task written err).Sound a src := by
  rcases Worker.check_eq task written err with ⟨e, h⟩ | h
  · rw [h]
    trivial
  · rw [h]
    exact sound_next hfits hwritten

theorem Worker.covers_check (err : Option Err)
    (hok : ¬ (Worker.check task written err).Failed) (h : task.Covers written p) :
    (Worker.check task written err).Covers p := by
  rw [(Worker.check_eq task written err).resolve_left hok]
  exact covers_next h

theorem toInt_position (hfits : task.Fits a) (hwritten : 0 ≤ written.toInt)
    (hlt : written.toInt < task.size.toInt) :
    (task.offset + written).toInt = task.offset.toInt + written.toInt := by
  have hend := hfits (by omega)
  have hlow : -2 ^ 63 ≤ task.offset.toInt := task.offset.le_toInt
  have hhigh : a.totalSize.toInt < 2 ^ 63 := a.totalSize.toInt_lt
  exact toInt_add_of_bounds (by omega) (by omega)

theorem toInt_readLen_le (hwritten : 0 ≤ written.toInt) (hlt : written.toInt < task.size.toInt) :
    (readLen task written).toInt ≤ task.size.toInt - written.toInt := by
  have hsub : (task.size - written).toInt = task.size.toInt - written.toInt :=
    Int64.toInt_sub_of_le _ _ (Int64.le_iff_toInt_le.mpr hwritten) (Int64.le_iff_toInt_le.mpr hlt.le)
  rw [readLen, toInt_min, hsub]
  exact min_le_right _ _

variable {err : Option Err}

theorem Worker.sound_afterRead
    (h : (Worker.reading task written).Sound a src)
    (hread : ReadAt src (readLen task written) (task.offset + written) data err) :
    (Worker.afterRead task written data err).Sound a src := by
  obtain ⟨hfits, hwritten, hlt⟩ := h
  unfold Worker.afterRead
  split_ifs with hsome
  · have hlen := hread.length_le
    have hmax := toInt_readLen_le hwritten hlt
    exact ⟨hfits, hwritten, by omega, hsome, hread.holds⟩
  · exact sound_check hfits hwritten err

theorem Worker.covers_afterRead
    (hok : ¬ (Worker.afterRead task written data err).Failed) (hp : task.Covers written p) :
    (Worker.afterRead task written data err).Covers p := by
  unfold Worker.afterRead at hok ⊢
  split_ifs at hok ⊢ with hsome
  · exact hp
  · exact covers_check err hok hp

theorem Worker.check_live (task : TransferTask) (written : Int64) (err : Option Err) :
    Worker.check task written err ≠ .done ∧ Worker.check task written err ≠ .reported := by
  rcases Worker.check_eq task written err with ⟨e, h⟩ | h
  · simp [h]
  · rw [h, Worker.next]
    split_ifs <;> simp

theorem Worker.afterRead_live (task : TransferTask) (written : Int64) (data : Bytes) (err : Option Err) :
    Worker.afterRead task written data err ≠ .done ∧
      Worker.afterRead task written data err ≠ .reported := by
  unfold Worker.afterRead
  split_ifs
  · simp
  · exact check_live task written err

theorem Worker.afterWrite_live (task : TransferTask) (written : Int64) (data : Bytes) (err : Option Err) :
    ∀ wErr, Worker.afterWrite task written data err wErr ≠ .done ∧
      Worker.afterWrite task written data err wErr ≠ .reported
  | some _ => by simp [Worker.afterWrite]
  | none => check_live task _ err

theorem toInt_written (h : (Worker.writing task written data err).Sound a src) :
    (written + Int64.ofNat data.length).toInt = written.toInt + data.length := by
  obtain ⟨-, hwritten, hlen, -, -⟩ := h
  have hhigh : task.size.toInt < 2 ^ 63 := task.size.toInt_lt
  have hn : (Int64.ofNat data.length).toInt = data.length := Int64.toInt_ofNat_of_lt (by omega)
  have hadd := toInt_add_of_bounds (x := written) (y := Int64.ofNat data.length) (by omega) (by omega)
  rw [hadd, hn]

theorem Worker.sound_afterWrite (h : (Worker.writing task written data err).Sound a src)
    (wErr : Option Err) : (Worker.afterWrite task written data err wErr).Sound a src := by
  cases wErr with
  | some e => trivial
  | none =>
    have hadd := toInt_written h
    exact sound_check h.1 (by have := h.2.1; omega) err

theorem Worker.covers_afterWrite (h : (Worker.writing task written data err).Sound a src)
    (hok : ¬ (Worker.afterWrite task written data err none).Failed) (hp : task.Covers written p) :
    p < (task.offset + written).toInt + data.length ∨
      (Worker.afterWrite task written data err none).Covers p := by
  have hadd := toInt_written h
  obtain ⟨hfits, hwritten, hlen, hsome, -⟩ := h
  have hpos := toInt_position hfits hwritten (by omega)
  rcases lt_or_ge (p : Int) ((task.offset + written).toInt + data.length) with hin | hafter
  · exact .inl hin
  · exact .inr (covers_check err hok ⟨by omega, hp.2⟩)

end

/-! ## 5. What holds in every reachable state -/

variable {src : File}

def State.Clean (s : State a) : Prop := s.errCh = [] ∧ ∀ i, ¬ (s.worker i).Failed

def State.Written (src : File) (s : State a) (p : Nat) : Prop :=
  ∃ b, src p = some b ∧ s.file a.direction.dest p = some b

/-- Where a position of the file is. -/
inductive State.Covered (src : File) (s : State a) (p : Nat) : Prop where
  | written : s.Written src p → Covered src s p
  | queued {task : TransferTask} : task ∈ s.taskCh → task.Covers 0 p → Covered src s p
  | working {i : Fin a.workers} : (s.worker i).Covers p → Covered src s p
  | coming : s.closed = false → 0 ≤ s.offset.toInt → s.offset.toInt ≤ p → Covered src s p

structure State.Sound (src : File) (s : State a) : Prop where
  source : s.file a.direction.source = src
  tasks : ∀ task ∈ s.taskCh, task.Fits a
  workers : ∀ i, (s.worker i).Sound a src
  reported : ∀ i, s.worker i = .reported → s.errCh ≠ []
  left : s.Clean → ∀ i, s.worker i = .done → s.taskCh = [] ∧ s.closed = true
  covered : s.Clean → ∀ p : Nat, p < a.totalSize.toInt → s.Covered src p
  returned : s.returned = some none → s.errCh = [] ∧ ∀ i, s.worker i = .done

theorem sound_init (file : Side → File) : (State.init a file).Sound (file a.direction.source) where
  source := rfl
  tasks _ h := absurd h not_mem_nil
  workers _ := trivial
  reported _ h := nomatch h
  left _ _ h := nomatch h
  covered _ p _ := .coming rfl (Int.le_refl 0) (Int.natCast_nonneg p)
  returned h := nomatch h

variable {i : Fin a.workers} {x : Worker} {p : Nat}

theorem covers_update {w : Fin a.workers → Worker} {j : Fin a.workers}
    (hx : (w i).Covers p → x.Covers p) (hj : (w j).Covers p) : (update w i x j).Covers p := by
  by_cases h : j = i
  · subst h
    rw [update_self]
    exact hx hj
  · rwa [update_of_ne h]

variable {s t : State a}

theorem State.Covered.of_workers (h : s.Covered src p)
    (hfile : t.file = s.file) (htasks : t.taskCh = s.taskCh) (hclosed : t.closed = s.closed)
    (hoffset : t.offset = s.offset)
    (hworkers : ∀ i, (s.worker i).Covers p → (t.worker i).Covers p) : t.Covered src p := by
  cases h with
  | written hw =>
    unfold State.Written at hw
    rw [← hfile] at hw
    exact .written hw
  | queued hmem hcov => exact .queued (htasks ▸ hmem) hcov
  | @working i hw => exact .working (hworkers i hw)
  | coming hopen hnonneg hle =>
    rw [← hoffset] at hnonneg hle
    exact .coming (hclosed.trans hopen) hnonneg hle

theorem State.Sound.worker (h : s.Sound src)
    (hworker : t.worker = update s.worker i x) (herr : t.errCh = s.errCh)
    (hret : t.returned = s.returned)
    (hsource : t.file a.direction.source = s.file a.direction.source)
    (hclosed : t.closed = s.closed) (htasks : ∀ task ∈ t.taskCh, task ∈ s.taskCh)
    (hlive : s.worker i ≠ .done) (hold : ¬ (s.worker i).Failed)
    (hx : x.Sound a src) (hreported : x ≠ .reported)
    (hleft : x = .done → t.taskCh = [] ∧ t.closed = true)
    (hcovered : s.Clean → ¬ x.Failed → ∀ p : Nat, s.Covered src p → t.Covered src p) :
    t.Sound src := by
  have hclean : t.Clean → s.Clean ∧ ¬ x.Failed := by
    rintro ⟨hnil, hok⟩
    rw [hworker, forall_update_iff s.worker fun _ w => ¬ w.Failed] at hok
    refine ⟨⟨herr ▸ hnil, fun j => ?_⟩, hok.1⟩
    by_cases hj : j = i
    · rwa [hj]
    · exact hok.2 j hj
  refine ⟨hsource.trans h.source, fun task ht => h.tasks task (htasks task ht), ?_, ?_, ?_, ?_, ?_⟩
  · rw [hworker, forall_update_iff s.worker fun _ w => w.Sound a src]
    exact ⟨hx, fun j _ => h.workers j⟩
  · rw [hworker, herr, forall_update_iff s.worker fun _ w => w = .reported → s.errCh ≠ []]
    exact ⟨fun he => absurd he hreported, fun j _ => h.reported j⟩
  · intro hc
    rw [hworker, forall_update_iff s.worker fun _ w => w = .done → t.taskCh = [] ∧ t.closed = true]
    refine ⟨hleft, fun j _ hj => ?_⟩
    obtain ⟨hempty, hshut⟩ := h.left (hclean hc).1 j hj
    rw [hempty] at htasks
    exact ⟨eq_nil_iff_forall_not_mem.mpr fun task ht => not_mem_nil (htasks task ht),
      hclosed.trans hshut⟩
  · intro hc p hp
    exact hcovered (hclean hc).1 (hclean hc).2 p (h.covered (hclean hc).1 p hp)
  · intro hr
    rw [hret] at hr
    exact absurd ((h.returned hr).2 i) hlive

theorem State.Sound.other (h : s.Sound src) (hworker : t.worker = s.worker)
    (herr : t.errCh = s.errCh) (hsource : t.file = s.file)
    (htasks : ∀ task ∈ t.taskCh, task.Fits a)
    (hleft : s.Clean → ∀ i, s.worker i = .done → t.taskCh = [] ∧ t.closed = true)
    (hcovered : s.Clean → ∀ p : Nat, p < a.totalSize.toInt → s.Covered src p → t.Covered src p)
    (hret : t.returned = some none → s.errCh = [] ∧ ∀ i, s.worker i = .done) : t.Sound src := by
  have hclean : t.Clean → s.Clean := by
    rintro ⟨hnil, hok⟩
    exact ⟨herr ▸ hnil, hworker ▸ hok⟩
  refine ⟨hsource ▸ h.source, htasks, hworker ▸ h.workers, ?_, ?_, ?_, ?_⟩
  · rw [hworker, herr]
    exact h.reported
  · intro hc
    rw [hworker]
    exact hleft (hclean hc)
  · exact fun hc p hp => hcovered (hclean hc) p hp (h.covered (hclean hc) p hp)
  · rw [hworker, herr]
    exact hret

variable {data : Bytes}

theorem written_write {off : Int64}
    {f : File} (hdata : Holds src off data)
    (hwrite : WriteAt (s.file a.direction.dest) data off none f)
    (hp : s.Written src p ∨ off.toInt ≤ p ∧ p < off.toInt + data.length) :
    State.Written src { s with
      file := update s.file a.direction.dest f, worker := update s.worker i x } p := by
  simp only [State.Written, update_self]
  rcases lt_or_ge (p : Int) off.toInt with hbefore | hfrom
  · obtain ⟨b, hb, hdst⟩ := hp.resolve_right (by omega)
    refine ⟨b, hb, ?_⟩
    rw [hwrite.others p (.inl hbefore) (by simp [hdst]), hdst]
  · rcases lt_or_ge (p : Int) (off.toInt + data.length) with hin | hafter
    · -- the byte of the source that was read
      have hi : p - off.toInt.toNat < data.length := by omega
      have hget := getElem?_eq_getElem hi
      obtain ⟨hoff, hsrc⟩ := hdata _ _ hget
      have hdst := (hwrite.written rfl _ _ hget).2
      have hpos : off.toInt.toNat + (p - off.toInt.toNat) = p := by omega
      rw [hpos] at hsrc hdst
      exact ⟨_, hsrc, hdst⟩
    · obtain ⟨b, hb, hdst⟩ := hp.resolve_right (by omega)
      refine ⟨b, hb, ?_⟩
      rw [hwrite.others p (.inr hafter) (by simp [hdst]), hdst]

variable {task : TransferTask}

theorem State.Sound.take
    {rest : List TransferTask} (h : s.Sound src) (hrange : s.worker i = .range)
    (htask : s.taskCh = task :: rest) :
    State.Sound src { s with taskCh := rest, worker := update s.worker i (.next task 0) } := by
  have hfits : task.Fits a := h.tasks task (by rw [htask]; exact mem_cons_self)
  have hzero : (0 : Int) ≤ (0 : Int64).toInt := le_rfl
  have hnext : Worker.next task 0 = .reading task 0 ∨ Worker.next task 0 = .range := by
    unfold Worker.next
    split_ifs <;> simp
  refine h.worker rfl rfl rfl rfl rfl (fun task' ht => ?_) (by simp [hrange])
    (by rintro ⟨err, he⟩; simp [hrange] at he) (Worker.sound_next hfits hzero) ?_ ?_ ?_
  · rw [htask]
    exact mem_cons_of_mem _ ht
  · rcases hnext with he | he <;> simp [he]
  · rcases hnext with he | he <;> simp [he]
  · intro _ _ p hp
    have hkeep : (s.worker i).Covers p → (Worker.next task 0).Covers p := by
      rw [hrange]
      exact False.elim
    cases hp with
    | written hw => exact .written hw
    | working hw => exact .working (covers_update hkeep hw)
    | coming hopen hoffset hle => exact .coming hopen hoffset hle
    | @queued task' hmem hcov =>
      rw [htask] at hmem
      rcases mem_cons.mp hmem with rfl | hmem
      · refine .working (i := i) ?_
        dsimp only
        rw [update_self]
        exact Worker.covers_next hcov
      · exact .queued hmem hcov

variable {written offset : Int64}

theorem State.Sound.read {err : Option Err} (h : s.Sound src) (hworker : s.worker i = .reading task written)
    (hread : ReadAt (s.file a.direction.source) (readLen task written) (task.offset + written) data err) :
    State.Sound src { s with worker := update s.worker i (.afterRead task written data err) } := by
  have hsound := h.workers i
  rw [hworker] at hsound
  rw [h.source] at hread
  refine h.worker rfl rfl rfl rfl rfl (fun _ ht => ht) (by simp [hworker])
    (by rintro ⟨err, he⟩; simp [hworker] at he) (Worker.sound_afterRead hsound hread) ?_ ?_ ?_
  · exact (Worker.afterRead_live task written data err).2
  · exact fun he => absurd he (Worker.afterRead_live task written data err).1
  · intro _ hok p hp
    have hkeep : (s.worker i).Covers p → (Worker.afterRead task written data err).Covers p := by
      rw [hworker]
      exact Worker.covers_afterRead hok
    exact hp.of_workers rfl rfl rfl rfl fun j hw => covers_update hkeep hw

theorem State.Sound.write {err wErr : Option Err} {f : File} (h : s.Sound src)
    (hworker : s.worker i = .writing task written data err)
    (hwrite : WriteAt (s.file a.direction.dest) data (task.offset + written) wErr f) :
    State.Sound src { s with
      file := update s.file a.direction.dest f
      worker := update s.worker i (.afterWrite task written data err wErr) } := by
  have hsound := h.workers i
  rw [hworker] at hsound
  refine h.worker rfl rfl rfl (update_of_ne a.direction.source_ne_dest _ _) rfl (fun _ ht => ht)
    (by simp [hworker]) (by rintro ⟨err, he⟩; simp [hworker] at he)
    (Worker.sound_afterWrite hsound wErr) ?_ ?_ ?_
  · exact (Worker.afterWrite_live task written data err wErr).2
  · exact fun he => absurd he (Worker.afterWrite_live task written data err wErr).1
  · intro _ hok p hp
    cases wErr with
    | some e => exact absurd ⟨e, rfl⟩ hok
    | none =>
      cases hp with
      | written hw => exact .written (written_write hsound.2.2.2.2 hwrite (.inl hw))
      | queued hmem hcov => exact .queued hmem hcov
      | coming hopen hoffset hle => exact .coming hopen hoffset hle
      | @working j hw =>
        by_cases hj : j = i
        · subst hj
          rw [hworker] at hw
          have hpos := toInt_position hsound.1 hsound.2.1 (by have := hsound.2.2; omega)
          rcases Worker.covers_afterWrite hsound hok hw with hin | hcov
          · have hfrom : (task.offset + written).toInt ≤ p := hpos ▸ hw.1
            exact .written (written_write hsound.2.2.2.2 hwrite (.inr ⟨hfrom, hin⟩))
          · refine .working (i := j) ?_
            dsimp only
            rwa [update_self]
        · refine .working (i := j) ?_
          dsimp only
          rwa [update_of_ne hj]

theorem State.Sound.errorPath (h : s.Sound src)
    (hworker : t.worker = update s.worker i x) (hx : x.Sound a src) (hlive : s.worker i ≠ .done)
    (hfile : t.file = s.file) (htasks : t.taskCh = s.taskCh) (hret : t.returned = s.returned)
    (herr : t.errCh ≠ []) : t.Sound src where
  source := hfile ▸ h.source
  tasks := htasks ▸ h.tasks
  workers := by
    rw [hworker, forall_update_iff s.worker fun _ w => w.Sound a src]
    exact ⟨hx, fun j _ => h.workers j⟩
  reported _ _ := herr
  left hc := absurd hc.1 herr
  covered hc := absurd hc.1 herr
  returned hr := absurd ((h.returned (hret ▸ hr)).2 i) hlive

theorem State.Sound.step {act : Act a.workers} (hstep : Step a s act t)
    (hcond : StopsOnFailure a s act) (h : s.Sound src) : t.Sound src := by
  cases hstep with
  | cancelCaller =>
    exact h.other rfl rfl rfl h.tasks h.left
      (fun _ p _ hp => hp.of_workers rfl rfl rfl rfl fun _ hw => hw) h.returned
  | send hopen hlt hroom =>
    refine h.other rfl rfl rfl ?_ ?_ ?_ h.returned
    · intro task ht
      rcases mem_append.mp ht with ht | ht
      · exact h.tasks task ht
      · rw [mem_singleton.mp ht]
        exact nextTask_fits hlt
    · -- the channel is open, so no worker has left
      intro hc i hi
      rw [(h.left hc i hi).2] at hopen
      cases hopen
    · intro _ p hlast hp
      cases hp with
      | written hw => exact .written hw
      | queued hmem hcov => exact .queued (mem_append_left _ hmem) hcov
      | working hw => exact .working hw
      | coming hopen hoffset hle =>
        rcases nextTask_covers hoffset hle hlast with hcov | ⟨hoffset', hle'⟩
        · exact .queued (mem_append_right _ (mem_singleton_self _)) hcov
        · exact .coming hopen hoffset' hle'
  | stop hopen hlt hdone =>
    have herr := hcond rfl
    refine h.other rfl rfl rfl h.tasks ?_ ?_ h.returned
    · exact fun hc => absurd hc.1 herr
    · exact fun hc => absurd hc.1 herr
  | finish hopen hall =>
    refine h.other rfl rfl rfl h.tasks ?_ ?_ h.returned
    · intro hc i hi
      rw [(h.left hc i hi).2] at hopen
      cases hopen
    · intro _ p hlast hp
      cases hp with
      | written hw => exact .written hw
      | queued hmem hcov => exact .queued hmem hcov
      | working hw => exact .working hw
      | coming _ _ hle =>
        rw [Int64.lt_iff_toInt_lt] at hall
        omega
  | take hrange htask => exact h.take hrange htask
  | leave hrange hempty hclosed =>
    refine h.worker rfl rfl rfl rfl rfl (fun _ ht => ht) (by simp [hrange])
      (by rintro ⟨err, he⟩; simp [hrange] at he) trivial (by simp) (fun _ => ⟨hempty, hclosed⟩) ?_
    intro _ _ p hp
    refine hp.of_workers rfl rfl rfl rfl fun j hw => covers_update ?_ hw
    rw [hrange]
    exact False.elim
  | read hworker hread => exact h.read hworker hread
  | write hworker hwrite => exact h.write hworker hwrite
  | report hfailed =>
    refine h.errorPath rfl trivial (by simp [hfailed]) rfl rfl rfl ?_
    -- the channel has room, or has an error already
    dsimp only
    split_ifs with hroom
    · exact append_ne_nil_of_right_ne_nil _ (cons_ne_nil _ _)
    · intro hnil
      rw [hnil] at hroom
      exact hroom a.workers_pos
  | @cancel i hreported =>
    exact h.errorPath rfl trivial (by simp [hreported]) rfl rfl rfl (h.reported i hreported)
  | wait hall hnone =>
    exact h.other rfl rfl rfl h.tasks h.left
      (fun _ p _ hp => hp.of_workers rfl rfl rfl rfl fun _ hw => hw)
      fun hr => ⟨head?_eq_none_iff.mp (Option.some.inj hr), hall⟩

/-- **A transfer that returns nil is complete**, for every size, chunk size and number of workers, for
every behaviour of the two files and in every interleaving, if the producer returns early only after the
failure of a worker. -/
theorem nil_complete (file : Side → File) {acts : List (Act a.workers)} {s : State a}
    (h : Run (When (StopsOnFailure a) (Step a)) (State.init a file) acts s)
    (hnil : s.returned = some none) (p : Nat) (hp : p < a.totalSize.toInt) :
    ∃ b, file a.direction.source p = some b ∧ s.file a.direction.dest p = some b := by
  have hsound : s.Sound (file a.direction.source) :=
    h.invariant (I := State.Sound (file a.direction.source)) (fun _ _ _ hstep hs => hs.step hstep.2 hstep.1)
      (sound_init file)
  obtain ⟨herr, hall⟩ := hsound.returned hnil
  have hclean : s.Clean := ⟨herr, fun i => by rintro ⟨err, he⟩; simp [hall i] at he⟩
  obtain ⟨hempty, hclosed⟩ := hsound.left hclean ⟨0, a.workers_pos⟩ (hall _)
  cases hsound.covered hclean p hp with
  | written hw => exact hw
  | queued hmem _ =>
    rw [hempty] at hmem
    cases hmem
  | @working i hw =>
    rw [hall i] at hw
    exact hw.elim
  | coming hopen _ _ =>
    rw [hclosed] at hopen
    cases hopen

/-! ## 6. An upload of two chunks by two workers -/

theorem holds_one {f : File} {off : Int64} {b : UInt8} (hoff : 0 ≤ off.toInt)
    (h : f off.toInt.toNat = some b) : Holds f off [b] := by
  intro i c hc
  cases i with
  | zero => exact ⟨hoff, h.trans hc⟩
  | succ i => simp at hc

theorem readAt_one {f : File} {len off : Int64} {b : UInt8} (hlen : len.toInt = 1)
    (hoff : 0 ≤ off.toInt) (h : f off.toInt.toNat = some b) : ReadAt f len off [b] none :=
  ⟨hlen.ge, holds_one hoff h, fun hshort => by simp [hlen] at hshort⟩

theorem writeAt_one (f : File) {off : Int64} (b : UInt8) (hoff : 0 ≤ off.toInt) :
    WriteAt f [b] off none (update f off.toInt.toNat (some b)) := by
  refine ⟨fun _ => holds_one hoff (update_self ..), fun p hp _ => update_of_ne ?_ ..⟩
  rw [length_singleton] at hp
  omega

def twoChunks : Args where
  direction := .upload
  totalSize := 2
  chunkSize := 1
  workers := 2
  chunkSize_pos := by decide
  workers_pos := by decide

theorem eq_done {w : Fin twoChunks.workers → Worker} (h : w (0 : Fin 2) = .done)
    (h' : w (1 : Fin 2) = .done) (i : Fin twoChunks.workers) : w i = .done :=
  (Fin.forall_fin_two (p := fun i : Fin 2 => w i = .done)).mpr ⟨h, h'⟩ i

def twoBytes : Side → File
  | .localFile => update (update (fun _ => none) 0 (some 0x41)) 1 (some 0x42)
  | .remoteFile => fun _ => none

/-- The second worker writes first. -/
theorem twoChunks_run : ∃ acts s, Run (When (StopsOnFailure twoChunks) (Step twoChunks))
    (State.init twoChunks twoBytes) acts s ∧ s.returned = some none :=
  ⟨_, _, .consWhen (.send rfl (by decide) (by decide)) nofun <|
    .consWhen (.take (i := (0 : Fin 2)) rfl rfl) nofun <|
    .consWhen (.send rfl (by decide) (by decide)) nofun <|
    .consWhen (.take (i := (1 : Fin 2)) rfl rfl) nofun <|
    .consWhen (.finish rfl (by decide)) nofun <|
    .consWhen (.read (i := (0 : Fin 2)) rfl (readAt_one (b := 0x41) rfl (by decide) rfl)) nofun <|
    .consWhen (.read (i := (1 : Fin 2)) rfl (readAt_one (b := 0x42) rfl (by decide) rfl)) nofun <|
    .consWhen (.write (i := (1 : Fin 2)) rfl (writeAt_one _ _ (by decide))) nofun <|
    .consWhen (.write (i := (0 : Fin 2)) rfl (writeAt_one _ _ (by decide))) nofun <|
    .consWhen (.leave (i := (0 : Fin 2)) rfl rfl rfl) nofun <|
    .consWhen (.leave (i := (1 : Fin 2)) rfl rfl rfl) nofun <|
    .consWhen (.wait (eq_done rfl rfl) rfl) nofun .nil, rfl⟩

theorem nil_complete_twoChunks : ∃ s : State twoChunks, s.returned = some none ∧
    ∀ p < 2, ∃ b, twoBytes .localFile p = some b ∧ s.file .remoteFile p = some b := by
  obtain ⟨acts, s, hrun, hnil⟩ := twoChunks_run
  exact ⟨s, hnil, fun p hp => nil_complete twoBytes hrun hnil p (show (p : Int) < 2 by omega)⟩

/-- The caller cancels before the first chunk is sent, and the upload of nothing succeeds. -/
theorem cancelled_transfer_succeeds : ∃ acts s,
    Run (Step twoChunks) (State.init twoChunks twoBytes) acts s ∧ s.returned = some none ∧
      s.file .remoteFile 0 ≠ twoBytes .localFile 0 :=
  ⟨_, _, .cons .cancelCaller <| .cons (.stop rfl (by decide) rfl) <|
    .cons (.leave (i := (0 : Fin 2)) rfl rfl rfl) <| .cons (.leave (i := (1 : Fin 2)) rfl rfl rfl) <|
    .cons (.wait (eq_done rfl rfl) rfl) .nil, rfl, by decide⟩

/-! ## 7. The chunks of a file -/

/-- `produceChunks` from `offset` on, with a receiver that always accepts: what it sends, if it returns
within `n` passes. -/
def produceChunks (a : Args) : Nat → Int64 → Option (List TransferTask)
  | 0, _ => none
  | n + 1, offset =>
    if offset < a.totalSize then (produceChunks a n (offset + a.chunkSize)).map (nextTask a offset :: ·)
    else some []

/-- **The property**: the tasks tile the file from `start` on, in order. -/
structure Tiles (a : Args) (start : Int) (tasks : List TransferTask) : Prop where
  size : ∀ t ∈ tasks, 0 < t.size.toInt ∧ t.size.toInt ≤ a.chunkSize.toInt
  disjoint : tasks.Pairwise fun t u => t.offset.toInt + t.size.toInt ≤ u.offset.toInt
  union : ∀ p : Int, (∃ t ∈ tasks, t.offset.toInt ≤ p ∧ p < t.offset.toInt + t.size.toInt) ↔
    start ≤ p ∧ p < a.totalSize.toInt

/-- The condition: behind a chunk of the file the offset does not overflow. -/
def Args.NoOverflow (a : Args) : Prop :=
  ∀ k : Nat, k * a.chunkSize.toInt < a.totalSize.toInt → k * a.chunkSize.toInt + a.chunkSize.toInt < 2 ^ 63

theorem chunkSize_toInt_pos (a : Args) : 0 < a.chunkSize.toInt := by
  simpa using Int64.lt_iff_toInt_lt.mp a.chunkSize_pos

theorem succ_mul_chunkSize (a : Args) (k : Nat) :
    ((k + 1 : Nat) : Int) * a.chunkSize.toInt = k * a.chunkSize.toInt + a.chunkSize.toInt := by
  rw [Nat.cast_add, Nat.cast_one, Int.add_mul, Int.one_mul]

theorem toInt_nextTask_size (h0 : 0 ≤ offset.toInt) (hlt : offset < a.totalSize) :
    (nextTask a offset).size.toInt = min a.chunkSize.toInt (a.totalSize.toInt - offset.toInt) := by
  have hlt := Int64.lt_iff_toInt_lt.mp hlt
  rw [nextTask, toInt_min, Int64.toInt_sub_of_le _ _ (Int64.le_iff_toInt_le.mpr h0)
    (Int64.le_iff_toInt_le.mpr hlt.le)]

variable {tasks : List TransferTask}

/-- One pass puts a task in front of those that tile the rest. -/
theorem Tiles.cons (h0 : 0 ≤ offset.toInt)
    (hlt : offset < a.totalSize) (h : Tiles a (offset.toInt + a.chunkSize.toInt) tasks) :
    Tiles a offset.toInt (nextTask a offset :: tasks) := by
  have hsize := toInt_nextTask_size h0 hlt
  have hchunk := chunkSize_toInt_pos a
  have hoffset : (nextTask a offset).offset = offset := rfl
  rw [Int64.lt_iff_toInt_lt] at hlt
  refine ⟨forall_mem_cons.mpr ⟨by omega, h.size⟩, pairwise_cons.mpr ⟨fun t ht => ?_, h.disjoint⟩,
    fun p => ?_⟩
  · have hpos := (h.size t ht).1
    have := ((h.union t.offset.toInt).mp ⟨t, ht, le_rfl, by omega⟩).1
    rw [hoffset]
    omega
  · simp only [mem_cons, exists_eq_or_imp, h.union, hoffset]
    omega

theorem produceChunks_tiles (h : a.NoOverflow) (k : Nat) (offset : Int64)
    (hk : offset.toInt = k * a.chunkSize.toInt) :
    ∃ n tasks, produceChunks a n offset = some tasks ∧ Tiles a offset.toInt tasks := by
  have hchunk := chunkSize_toInt_pos a
  have hk0 : (0 : Int) ≤ k * a.chunkSize.toInt := by positivity
  by_cases hlt : offset < a.totalSize
  · have hlt' := Int64.lt_iff_toInt_lt.mp hlt
    have hfits := h k (by omega)
    have hnext : (offset + a.chunkSize).toInt = offset.toInt + a.chunkSize.toInt :=
      toInt_add_of_bounds (by omega) (by omega)
    obtain ⟨n, tasks, htasks, htiles⟩ := produceChunks_tiles h (k + 1) (offset + a.chunkSize)
      (by rw [hnext, hk, succ_mul_chunkSize])
    refine ⟨n + 1, nextTask a offset :: tasks, ?_, (hnext ▸ htiles).cons (by omega) hlt⟩
    rw [produceChunks, if_pos hlt, htasks]
    rfl
  · refine ⟨1, [], if_neg hlt, by simp, .nil, fun p => ?_⟩
    rw [Int64.lt_iff_toInt_lt] at hlt
    simp only [not_mem_nil, false_and, exists_false, false_iff]
    omega
termination_by (a.totalSize.toInt - offset.toInt).toNat
decreasing_by omega

theorem produceChunks_cons {n : Nat}
    (h : produceChunks a n offset = some tasks) (hlt : offset < a.totalSize) :
    ∃ m rest, produceChunks a m (offset + a.chunkSize) = some rest ∧ tasks = nextTask a offset :: rest := by
  cases n with
  | zero => cases h
  | succ n =>
    rw [produceChunks, if_pos hlt] at h
    obtain ⟨rest, hrest, rfl⟩ := Option.map_eq_some_iff.mp h
    exact ⟨n, rest, hrest, rfl⟩

theorem produceChunks_reaches {n : Nat} {tasks : List TransferTask} (h : produceChunks a n 0 = some tasks)
    (k : Nat) (hk : k * a.chunkSize.toInt < a.totalSize.toInt) : ∃ m rest offset,
      produceChunks a m offset = some rest ∧ rest ⊆ tasks ∧ offset.toInt = k * a.chunkSize.toInt := by
  induction k with
  | zero => exact ⟨n, tasks, 0, h, fun _ => id, by simp⟩
  | succ k ih =>
    have hchunk := chunkSize_toInt_pos a
    have hk0 : (0 : Int) ≤ k * a.chunkSize.toInt := by positivity
    have htotal : a.totalSize.toInt < 2 ^ 63 := a.totalSize.toInt_lt
    rw [succ_mul_chunkSize] at hk ⊢
    obtain ⟨m, rest, offset, hrest, hsub, hoffset⟩ := ih (by omega)
    obtain ⟨m', rest', hrest', rfl⟩ := produceChunks_cons hrest (Int64.lt_iff_toInt_lt.mpr (by omega))
    refine ⟨m', rest', _, hrest', fun t ht => hsub (mem_cons_of_mem _ ht), ?_⟩
    rw [toInt_add_of_bounds (by omega) (by omega), hoffset]

theorem noOverflow_of_tiles {n : Nat} {tasks : List TransferTask} (h : produceChunks a n 0 = some tasks)
    (htiles : Tiles a 0 tasks) : a.NoOverflow := by
  intro k hk
  by_contra! hwraps
  have hchunk : a.chunkSize.toInt < 2 ^ 63 := a.chunkSize.toInt_lt
  have htotal : a.totalSize.toInt < 2 ^ 63 := a.totalSize.toInt_lt
  have hk0 : (0 : Int) ≤ k * a.chunkSize.toInt := by have := chunkSize_toInt_pos a; positivity
  obtain ⟨m, rest, offset, hrest, hsub, hoffset⟩ := produceChunks_reaches h k hk
  obtain ⟨m', rest', hrest', rfl⟩ := produceChunks_cons hrest (Int64.lt_iff_toInt_lt.mpr (by omega))
  -- the offset behind this chunk is below zero, and a task is sent for it
  have hnext : (offset + a.chunkSize).toInt = offset.toInt + a.chunkSize.toInt - 2 ^ 64 := by
    rw [Int64.toInt_add, ← Int.sub_bmod_right]
    exact Int.bmod_eq_of_le (by omega) (by omega)
  obtain ⟨_, _, -, rfl⟩ := produceChunks_cons hrest' (Int64.lt_iff_toInt_lt.mpr (by omega))
  have ht := hsub (mem_cons_of_mem _ mem_cons_self)
  have hpos := (htiles.size _ ht).1
  have hfrom := ((htiles.union (offset + a.chunkSize).toInt).mp ⟨_, ht, le_rfl, lt_add_of_pos_right _ hpos⟩).1
  omega

/-- **When the chunks tile the file**: when no offset overflows. -/
theorem chunks_tile_iff (a : Args) :
    (∃ n tasks, produceChunks a n 0 = some tasks ∧ Tiles a 0 tasks) ↔ a.NoOverflow := by
  constructor
  · rintro ⟨n, tasks, htasks, htiles⟩
    exact noOverflow_of_tiles htasks htiles
  · intro hfits
    exact produceChunks_tiles hfits 0 0 (by simp)

/-- The largest size there is, in chunks of a quarter of the range. -/
def hugeFile : Args :=
  { twoChunks with totalSize := Int64.maxValue, chunkSize := 4611686018427387904, chunkSize_pos := by decide }

/-- Behind its two chunks the offset overflows, and a third task is sent, below zero. -/
theorem third_chunk_below_zero :
    nextTask hugeFile (0 + hugeFile.chunkSize + hugeFile.chunkSize) = ⟨Int64.minValue, -1⟩ ∧
    Int64.minValue < hugeFile.totalSize ∧
    ¬ ∃ n tasks, produceChunks hugeFile n 0 = some tasks ∧ Tiles hugeFile 0 tasks := by
  refine ⟨by decide, by decide, ?_⟩
  rintro ⟨n, tasks, hn, htiles⟩
  exact absurd (noOverflow_of_tiles hn htiles 1 (by decide)) (by decide)

end AoniContrib.Ssh.Sftp
