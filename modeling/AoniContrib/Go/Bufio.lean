/-
# Buffered readers: `bufio.Reader`

A `bufio.Reader` asks its source for as much as its buffer holds whenever the buffer is empty and
bytes are wanted, and keeps what was not wanted.  So what it has taken from the source is a number of
whole reads: what was read so far, and what is still buffered (`Taken`).  Nothing is buffered exactly
if what was read ends where a read of the source ended (`Taken.buffered_eq_nil_iff`).
-/
import AoniContrib.Go.Io

namespace AoniContrib.Go

open List

/-! ## 1. Reads into a buffer -/

/-- The reads that bring a piece into a buffer of `size + 1` bytes. -/
def pieceReads (size : Nat) (piece : Bytes) : Reader := (List.toChunksAux size piece 0).2

theorem toChunksAux_append {α : Type*} (size : Nat) (xs : List α) (i : Nat) :
    (List.toChunksAux size xs i).1 ++ (List.toChunksAux size xs i).2.flatten = xs := by
  induction xs generalizing i with
  | nil => rfl
  | cons x xs ih =>
    cases i with
    | zero => simpa [List.toChunksAux] using ih size
    | succ i => simpa [List.toChunksAux] using ih i

theorem flatten_pieceReads (size : Nat) (piece : Bytes) : (pieceReads size piece).flatten = piece := by
  have h := toChunksAux_append size piece 0
  cases piece with
  | nil => rfl
  | cons b piece => simpa [pieceReads, List.toChunksAux] using h

/-- All reads of a source, by a buffer of that size. -/
def reads (size : Nat) (r : Reader) : Reader := r.flatMap (pieceReads size)

theorem flatten_reads (size : Nat) (r : Reader) : (reads size r).flatten = r.flatten := by
  induction r with
  | nil => rfl
  | cons piece r ih =>
    rw [reads, flatMap_cons, flatten_append, flatten_pieceReads, flatten_cons, ← ih, reads]

/-! ## 2. The reader -/

/-- The bytes in the buffer, and the reads that have not been made. -/
structure BufReader where
  buffered : Bytes
  rest : Reader

/-- `bufio.NewReader`: the buffer has 4096 bytes. -/
def BufReader.new (r : Reader) : BufReader := ⟨[], reads 4095 r⟩

/-- The loop of `io.ReadFull` on a buffered reader. -/
def BufReader.readFullFrom (got : Bytes) (n : Nat) (buffered : Bytes) :
    Reader → Except ReadErr Bytes × BufReader
  | [] =>
    if n ≤ buffered.length then (.ok (got ++ buffered.take n), ⟨buffered.drop n, []⟩)
    else (.error (if got ++ buffered = [] then .eof else .unexpectedEOF), ⟨[], []⟩)
  | piece :: rest =>
    if n ≤ buffered.length then (.ok (got ++ buffered.take n), ⟨buffered.drop n, piece :: rest⟩)
    else readFullFrom (got ++ buffered) (n - buffered.length) piece rest

def BufReader.readFull (n : Nat) (br : BufReader) : Except ReadErr Bytes × BufReader :=
  readFullFrom [] n br.buffered br.rest

/-- Of the reads `rs` of its source the reader has made those that it needed to read `x`. -/
def Taken (rs : Reader) (x : Bytes) (br : BufReader) : Prop :=
  ∃ made, rs = made ++ br.rest ∧ made.flatten = x ++ br.buffered ∧
    ∀ before last, made = before ++ [last] → before.flatten.length < x.length

theorem taken_new (r : Reader) : Taken (reads 4095 r) [] (BufReader.new r) :=
  ⟨[], rfl, rfl, fun before last h => by simp at h⟩

theorem BufReader.readFullFrom_append : ∀ (rest made : Reader) (x got y z buffered : Bytes),
    made.flatten = x ++ buffered → buffered ++ rest.flatten = y ++ z →
    (∀ before last, made = before ++ [last] → before.flatten.length < (x ++ y).length) →
    ∃ br, readFullFrom got y.length buffered rest = (.ok (got ++ y), br) ∧
      Taken (made ++ rest) (x ++ y) br
  | rest, made, x, got, y, z, buffered, hmade, hbytes, hneeded => by
    by_cases hle : y.length ≤ buffered.length
    · -- the buffer has it all
      obtain ⟨left, rfl⟩ : y <+: buffered :=
        prefix_of_prefix_length_le ⟨z, hbytes.symm⟩ ⟨rest.flatten, rfl⟩ hle
      refine ⟨⟨left, rest⟩, ?_, made, rfl, by rw [hmade, append_assoc], hneeded⟩
      cases rest <;> simp [readFullFrom]
    · obtain ⟨y', rfl⟩ : buffered <+: y :=
        prefix_of_prefix_length_le ⟨rest.flatten, rfl⟩ ⟨z, hbytes.symm⟩ (Nat.le_of_not_le hle)
      cases rest with
      | nil =>
        have hlen := congrArg List.length hbytes
        simp only [flatten_nil, append_nil, length_append] at hlen hle
        omega
      | cons piece rest =>
        -- what is buffered goes out, and the next read is made
        rw [append_assoc, append_cancel_left_eq, flatten_cons] at hbytes
        have hlen : (buffered ++ y').length - buffered.length = y'.length := by simp
        obtain ⟨br, hread, htaken⟩ := readFullFrom_append rest (made ++ [piece]) (x ++ buffered)
          (got ++ buffered) y' z piece (by simp [hmade]) hbytes fun before last h => by
            obtain ⟨rfl, -⟩ := append_inj' h rfl
            simp only [hmade, length_append] at hle ⊢
            omega
        refine ⟨br, ?_, by simpa using htaken⟩
        rw [readFullFrom, if_neg hle, hlen, hread, append_assoc]

variable {rs : Reader} {x z : Bytes} {br : BufReader}

theorem BufReader.readFull_append {y : Bytes}
    (h : Taken rs x br) (hbytes : rs.flatten = x ++ (y ++ z)) :
    ∃ br', br.readFull y.length = (.ok y, br') ∧ Taken rs (x ++ y) br' := by
  obtain ⟨made, rfl, hmade, hneeded⟩ := h
  rw [flatten_append, hmade, append_assoc, append_cancel_left_eq] at hbytes
  obtain ⟨br', hread, htaken⟩ := readFullFrom_append br.rest made x [] y z br.buffered hmade hbytes
    fun before last h => (hneeded before last h).trans_le (by simp)
  exact ⟨br', hread, htaken⟩

theorem Taken.bytes (h : Taken rs x br)
    (hbytes : rs.flatten = x ++ z) : br.buffered ++ br.rest.flatten = z := by
  obtain ⟨made, rfl, hmade, -⟩ := h
  rwa [flatten_append, hmade, append_assoc, append_cancel_left_eq] at hbytes

/-- **Nothing is buffered exactly if a read ended where the reader is.** -/
theorem Taken.buffered_eq_nil_iff (h : Taken rs x br) :
    br.buffered = [] ↔ ∃ k, (rs.take k).flatten = x := by
  obtain ⟨made, rfl, hmade, hneeded⟩ := h
  constructor
  · intro hnil
    refine ⟨made.length, ?_⟩
    rw [take_left, hmade, hnil, append_nil]
  · rintro ⟨k, hk⟩
    have hlen := congrArg List.length hmade
    rw [length_append] at hlen
    -- fewer reads than were made do not bring so much
    have hall : made.length ≤ k := by
      by_contra hlt
      obtain ⟨before, last, hlast⟩ : ∃ before last, made = before ++ [last] :=
        ⟨_, _, (dropLast_append_getLast (l := made) (by rintro rfl; simp at hlt)).symm⟩
      have hbefore := hneeded before last hlast
      have hsub : (made ++ br.rest).take k = before.take k := by
        rw [hlast] at hlt ⊢
        simp only [length_append, length_singleton] at hlt
        rw [append_assoc, take_append_of_le_length (by omega)]
      have hle : (before.take k).flatten.length ≤ before.flatten.length :=
        (List.Sublist.flatten (take_sublist k before)).length_le
      rw [hsub] at hk
      rw [hk] at hle
      omega
    have hle : made.flatten.length ≤ ((made ++ br.rest).take k).flatten.length := by
      rw [take_append, take_of_length_le hall, flatten_append, length_append]
      omega
    rw [hk] at hle
    exact length_eq_zero_iff.mp (by omega)

end AoniContrib.Go
