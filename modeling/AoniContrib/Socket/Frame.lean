/-
# Framing: `socket/frame.go`

`LengthPrefixedFramer`: a header of four length bytes and the magic bytes, then the payload.
`WriteFrame` makes two `Write` calls, one for the header and one for the payload.  What it writes
for a payload within `MaxLength` is read back whole (`readFrame_frame`), and so is a sequence of
such frames (`readFrames_frames`), however the bytes are split into reads.  `WriteFrame` does not
look at `MaxLength`, so it also writes what is not read back: `frames_read_back_iff` says exactly
which sequences are, and `frame_written_not_read` is one that is not.
-/
import AoniContrib.Go.Binary

namespace AoniContrib.Socket

open Go List

/-! ## 1. The framer -/

structure LengthPrefixedConfig where
  byteOrder : Option ByteOrder := none
  magic : Bytes := []
  maxLength : UInt32 := 0

structure LengthPrefixedFramer where
  byteOrder : ByteOrder
  magic : Bytes
  maxLength : UInt32
  deriving DecidableEq, Repr

def defaultMaxFrame : UInt32 := 10 * 1024 * 1024

def newLengthPrefixedFramer (cfg : LengthPrefixedConfig) : LengthPrefixedFramer where
  byteOrder := cfg.byteOrder.getD .littleEndian
  magic := cfg.magic
  maxLength := if cfg.maxLength = 0 then defaultMaxFrame else cfg.maxLength

inductive FrameErr where
  /-- "framer: header size exceeds fixed buffer" -/
  | headerSize
  /-- An error of `io.ReadFull`, returned as it is. -/
  | read (err : ReadErr)
  /-- `ErrFrameTooLarge`, with the two values its text names. -/
  | frameTooLarge (length max : UInt32)
  | invalidMagic
  deriving DecidableEq, Repr

namespace LengthPrefixedFramer

variable (f : LengthPrefixedFramer)

def headerLen : Nat := 4 + f.magic.length

def headerCap : Nat := 16

def readFrame (r : Reader) : Except FrameErr Bytes × Reader :=
  if headerCap < f.headerLen then (.error .headerSize, r)
  else match readFull f.headerLen r with
    | (.error err, r) => (.error (.read err), r)
    | (.ok header, r) =>
      let length := f.byteOrder.uint32 (header.take 4)
      if f.maxLength < length then (.error (.frameTooLarge length f.maxLength), r)
      else if 0 < f.magic.length ∧ header.drop 4 ≠ f.magic then (.error .invalidMagic, r)
      else match readFull length.toNat r with
        | (.error err, r) => (.error (.read err), r)
        | (.ok payload, r) => (.ok payload, r)

def header (data : Bytes) : Bytes := f.byteOrder.putUint32 (UInt32.ofNat data.length) ++ f.magic

/-- `WriteFrame`: what its `Write` calls get, one by one. -/
def writeFrame (data : Bytes) : Except FrameErr (List Bytes) :=
  if headerCap < f.headerLen then .error .headerSize else .ok [f.header data, data]

def readFrames : Nat → Reader → List (Except FrameErr Bytes)
  | 0, _ => []
  | n + 1, r => (f.readFrame r).1 :: readFrames n (f.readFrame r).2

/-! ## 2. Reading what was written -/

variable {f}

theorem length_header (data : Bytes) : (f.header data).length = f.headerLen := by
  simp [header, headerLen]

theorem take_header (data : Bytes) :
    (f.header data).take 4 = f.byteOrder.putUint32 (UInt32.ofNat data.length) := by
  rw [header, take_left' (by simp)]

variable {r : Reader} {data rest : Bytes}

theorem readFrame_frame (hcap : f.headerLen ≤ headerCap)
    (hdata : data.length ≤ f.maxLength.toNat) (h : r.flatten = f.header data ++ (data ++ rest)) :
    ∃ r', f.readFrame r = (.ok data, r') ∧ r'.flatten = rest := by
  obtain ⟨r₁, hheader, h₁⟩ := readFull_append h
  obtain ⟨r₂, hpayload, h₂⟩ := readFull_append h₁
  rw [length_header] at hheader
  have hlt := f.maxLength.toNat_lt
  have hdrop : (f.header data).drop 4 = f.magic := by
    rw [header, drop_left' (by simp)]
  have hlen : (UInt32.ofNat data.length).toNat = data.length := by
    rw [UInt32.toNat_ofNat', Nat.mod_eq_of_lt (by omega)]
  have hmax : ¬ f.maxLength < UInt32.ofNat data.length := by
    rw [UInt32.lt_iff_toNat_lt, hlen]
    omega
  refine ⟨r₂, ?_, h₂⟩
  simp only [readFrame, if_neg (Nat.not_lt.mpr hcap), hheader, take_header, hdrop,
    ByteOrder.uint32_putUint32, if_neg hmax, hlen, hpayload, ne_eq, not_true_eq_false, and_false,
    if_false]

theorem readFrame_end (hcap : f.headerLen ≤ headerCap) (h : r.flatten = []) :
    f.readFrame r = (.error (.read .eof), []) := by
  have hshort : r.flatten.length < f.headerLen := by simp [h, headerLen]
  simp only [readFrame, if_neg (Nat.not_lt.mpr hcap), readFull_short hshort, h, if_true]

/-- **A sequence of frames is read back**, and then the end of the input. -/
theorem readFrames_frames (hcap : f.headerLen ≤ headerCap) :
    ∀ {datas : List Bytes} {r : Reader}, (∀ data ∈ datas, data.length ≤ f.maxLength.toNat) →
    r.flatten = datas.flatMap (fun data => f.header data ++ data) →
    f.readFrames (datas.length + 1) r = datas.map .ok ++ [.error (.read .eof)]
  | [], r, _, h => by
    simp [readFrames, readFrame_end hcap (by simpa using h)]
  | data :: datas, r, hlen, h => by
    rw [flatMap_cons, append_assoc] at h
    obtain ⟨r', hread, hrest⟩ := readFrame_frame hcap (hlen data mem_cons_self) h
    have ih := readFrames_frames hcap (forall_mem_cons.mp hlen).2 hrest
    rw [length_cons, readFrames, hread, ih]
    rfl

/-! ## 3. What is not read back -/

/-- The bytes that a `WriteFrame` without error has written. -/
def written (f : LengthPrefixedFramer) (data : Bytes) : Bytes :=
  match f.writeFrame data with
  | .ok writes => writes.flatten
  | .error _ => []

theorem written_eq (hcap : f.headerLen ≤ headerCap) (data : Bytes) :
    f.written data = f.header data ++ data := by
  rw [written, writeFrame, if_neg (Nat.not_lt.mpr hcap)]
  simp

theorem le_headerCap_of_writeFrame {writes : List Bytes}
    (h : f.writeFrame data = .ok writes) : f.headerLen ≤ headerCap := by
  rw [writeFrame] at h
  split_ifs at h with hcap
  exact Nat.not_lt.mp hcap

theorem readFrame_ne (hcap : f.headerLen ≤ headerCap)
    (hdata : f.maxLength.toNat < data.length) (h : r.flatten = f.header data ++ (data ++ rest)) :
    (f.readFrame r).1 ≠ .ok data := by
  obtain ⟨r₁, hheader, -⟩ := readFull_append h
  rw [length_header] at hheader
  simp only [readFrame, if_neg (Nat.not_lt.mpr hcap), hheader, take_header, ByteOrder.uint32_putUint32]
  split_ifs with hmax hmagic
  · exact nofun
  · exact nofun
  · rcases hpayload : readFull (UInt32.ofNat data.length).toNat r₁ with ⟨result, r₂⟩
    cases result with
    | error err => exact nofun
    | ok payload =>
      intro heq
      have hlen := length_of_readFull hpayload
      rw [UInt32.lt_iff_toNat_lt] at hmax
      have : payload.length = data.length := congrArg List.length (Except.ok.inj heq)
      omega

/-- **A sequence of frames that were written without error is read back exactly if the header fits
its buffer and no payload is longer than `MaxLength`.** -/
theorem frames_read_back_iff (f : LengthPrefixedFramer) (datas : List Bytes) (r : Reader)
    (hwrite : ∀ data ∈ datas, ∃ writes, f.writeFrame data = .ok writes)
    (h : r.flatten = datas.flatMap f.written) :
    f.readFrames (datas.length + 1) r = datas.map .ok ++ [.error (.read .eof)] ↔
      f.headerLen ≤ headerCap ∧ ∀ data ∈ datas, data.length ≤ f.maxLength.toNat := by
  constructor
  · induction datas generalizing r with
    | nil =>
      intro hread
      refine ⟨?_, fun data hdata => absurd hdata not_mem_nil⟩
      by_contra hcap
      simp [readFrames, readFrame, Nat.not_le.mp hcap] at hread
    | cons data datas ih =>
      intro hread
      obtain ⟨writes, hok⟩ := hwrite data mem_cons_self
      have hcap := le_headerCap_of_writeFrame hok
      rw [flatMap_cons, written_eq hcap, append_assoc] at h
      rw [length_cons, readFrames, map_cons, cons_append, List.cons.injEq] at hread
      have hdata : data.length ≤ f.maxLength.toNat := by
        by_contra hlong
        exact readFrame_ne hcap (Nat.not_le.mp hlong) h hread.1
      obtain ⟨r', hframe, hrest⟩ := readFrame_frame hcap hdata h
      rw [hframe] at hread
      obtain ⟨-, hdatas⟩ := ih r' (forall_mem_cons.mp hwrite).2 hrest hread.2
      exact ⟨hcap, fun d hd => (mem_cons.mp hd).elim (fun heq => heq ▸ hdata) (hdatas d)⟩
  · rintro ⟨hcap, hdatas⟩
    have hflat : r.flatten = datas.flatMap (fun data => f.header data ++ data) := by
      rw [h]
      exact flatMap_congr fun data _ => written_eq hcap data
    exact readFrames_frames hcap hdatas hflat

def oneByte : LengthPrefixedFramer := newLengthPrefixedFramer { maxLength := 1 }

theorem frames_read_back_iff_oneByte :
    (oneByte.readFrames 3 [oneByte.written [7] ++ oneByte.written []] =
        [.ok [7], .ok [], .error (.read .eof)] ↔
      oneByte.headerLen ≤ headerCap ∧ ∀ data ∈ ([[7], []] : List Bytes),
        data.length ≤ oneByte.maxLength.toNat) :=
  frames_read_back_iff oneByte [[7], []] [oneByte.written [7] ++ oneByte.written []]
    (fun data _ => ⟨[oneByte.header data, data], rfl⟩) (by simp)

theorem frame_written_not_read : oneByte.writeFrame [7, 8] = .ok [[2, 0, 0, 0], [7, 8]] ∧
      (oneByte.readFrame [[2, 0, 0, 0], [7, 8]]).1 = .error (.frameTooLarge 2 1) := by
  decide

/-! ## 4. The end of the input -/

/-- The input is a header that announces a payload, and nothing behind it. -/
def HeaderOnly (f : LengthPrefixedFramer) (bs : Bytes) : Prop :=
  f.headerLen ≤ headerCap ∧ bs.length = f.headerLen ∧ f.byteOrder.uint32 (bs.take 4) ≠ 0 ∧
    f.byteOrder.uint32 (bs.take 4) ≤ f.maxLength ∧ bs.drop 4 = f.magic

theorem readFull_eof_iff {n : Nat} : (readFull n r).1 = .error .eof ↔ r.flatten = [] ∧ 0 < n := by
  by_cases hshort : r.flatten.length < n
  · rw [readFull_short hshort]
    by_cases hnil : r.flatten = []
    · simp [hnil, Nat.zero_lt_of_lt hshort]
    · simp [hnil]
  · obtain ⟨r', hread, -⟩ := readFull_append (take_append_drop n r.flatten).symm
    rw [length_take_of_le (Nat.not_lt.mp hshort)] at hread
    rw [hread]
    refine iff_of_false (by simp) ?_
    rintro ⟨hnil, hpos⟩
    rw [hnil, length_nil] at hshort
    exact hshort hpos

theorem readFrame_eof_iff {r' : Reader} {x : Bytes} (hcap : f.headerLen ≤ headerCap)
    (h : readFull f.headerLen r = (.ok x, r')) :
    (f.readFrame r).1 = .error (.read .eof) ↔ f.byteOrder.uint32 (x.take 4) ≤ f.maxLength ∧
      x.drop 4 = f.magic ∧ r'.flatten = [] ∧ f.byteOrder.uint32 (x.take 4) ≠ 0 := by
  have hmagic : (0 < f.magic.length ∧ x.drop 4 ≠ f.magic) ↔ x.drop 4 ≠ f.magic := by
    refine and_iff_right_of_imp fun hne => length_pos_iff.mpr fun hnil => hne ?_
    rw [hnil]
    exact drop_eq_nil_iff.mpr (by rw [length_of_readFull h, headerLen, hnil]; simp)
  have hpos : 0 < (f.byteOrder.uint32 (x.take 4)).toNat ↔ f.byteOrder.uint32 (x.take 4) ≠ 0 := by
    rw [Nat.pos_iff_ne_zero, Ne, Ne, ← UInt32.toNat_inj]
    rfl
  have heof := readFull_eof_iff (r := r') (n := (f.byteOrder.uint32 (x.take 4)).toNat)
  simp only [readFrame, if_neg (Nat.not_lt.mpr hcap), h, hmagic]
  split_ifs with hlarge hother
  · simp [hlarge]
  · simp [hother]
  · rw [hpos] at heof
    rw [← heof, and_iff_right (UInt32.not_lt.mp hlarge), and_iff_right (not_not.mp hother)]
    split <;> rename_i hpayload <;> simp [hpayload]

/-- **When a bare `io.EOF` means that nothing was left to read**: unless the input ends right behind a
header that announces a payload. -/
theorem bare_eof_iff (f : LengthPrefixedFramer) (r : Reader) :
    ((f.readFrame r).1 = .error (.read .eof) → r.flatten = []) ↔ ¬ HeaderOnly f r.flatten := by
  by_cases hcap : f.headerLen ≤ headerCap
  swap
  · refine iff_of_true (fun h => ?_) fun h => hcap h.1
    rw [readFrame, if_pos (Nat.not_le.mp hcap)] at h
    cases h
  by_cases hshort : r.flatten.length < f.headerLen
  · refine iff_of_true (fun h => ?_) fun h => (Nat.ne_of_lt hshort) h.2.1
    simp only [readFrame, if_neg (Nat.not_lt.mpr hcap), readFull_short hshort] at h
    by_contra hne
    simp [hne] at h
  -- a whole header `x`, and what is behind it
  obtain ⟨x, y, hxy, hx⟩ : ∃ x y, r.flatten = x ++ y ∧ x.length = f.headerLen :=
    ⟨_, _, (take_append_drop f.headerLen _).symm, length_take_of_le (by omega)⟩
  obtain ⟨r', hread, rfl⟩ := readFull_append hxy
  have h4 : 4 ≤ x.length := by
    rw [hx, headerLen]
    omega
  have hne : x ++ r'.flatten ≠ [] := by
    intro hnil
    rw [(append_eq_nil_iff.mp hnil).1] at h4
    simp at h4
  rw [hx] at hread
  have hlen : (x ++ r'.flatten).length = f.headerLen ↔ r'.flatten = [] := by
    rw [length_append, hx, Nat.add_eq_left, length_eq_zero_iff]
  rw [readFrame_eof_iff hcap hread, hxy, HeaderOnly, take_append_of_le_length h4, hlen]
  constructor
  · rintro h ⟨-, hnil, hzero, hmax, hmagic⟩
    rw [hnil, append_nil] at hmagic
    exact hne (h ⟨hmax, hmagic, hnil, hzero⟩)
  · rintro h ⟨hmax, hmagic, hnil, hzero⟩
    exact absurd ⟨hcap, hnil, hzero, hmax, by rw [hnil, append_nil, hmagic]⟩ h

/-- A header that announces one byte, and the end: the same error as at the end of the stream. -/
theorem cut_frame_ends_normally :
    (readFrame ⟨.bigEndian, [], 10⟩ [[0, 0, 0, 1]]).1 = .error (.read .eof) := by
  decide

end LengthPrefixedFramer

end AoniContrib.Socket
