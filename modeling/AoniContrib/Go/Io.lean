/-
# Readers: `io.ReadFull`

A reader is what is left to read, in the pieces in which it comes: a `Read` gives from the first
piece what fits.  An empty piece is a `Read` that returns nothing and no error, and behind the last
piece every `Read` returns `io.EOF`.  `io.ReadFull` does not depend on the pieces
(`readFull_append`, `readFull_short`).
-/
import AoniContrib.Go.Bytes

namespace AoniContrib.Go

open List

abbrev Reader := List Bytes

inductive ReadErr where
  | eof
  | unexpectedEOF
  deriving DecidableEq, Repr

/-- The loop of `io.ReadFull`: `n` bytes are missing behind those in `got`. -/
def readFullFrom : Bytes → Nat → Reader → Except ReadErr Bytes × Reader
  | got, 0, r => (.ok got, r)
  | got, _ + 1, [] => (.error (if got = [] then .eof else .unexpectedEOF), [])
  | got, n + 1, piece :: r =>
    if piece.length ≤ n + 1 then readFullFrom (got ++ piece) (n + 1 - piece.length) r
    else (.ok (got ++ piece.take (n + 1)), piece.drop (n + 1) :: r)

/-- `io.ReadFull` into a buffer of `n` bytes. -/
def readFull (n : Nat) (r : Reader) : Except ReadErr Bytes × Reader := readFullFrom [] n r

theorem readFullFrom_append : ∀ (r : Reader) (got x y : Bytes), r.flatten = x ++ y →
    ∃ r', readFullFrom got x.length r = (.ok (got ++ x), r') ∧ r'.flatten = y
  | r, got, [], y, h => ⟨r, by simp [readFullFrom], h⟩
  | [], got, b :: x, y, h => by simp at h
  | piece :: r, got, b :: x, y, h => by
    simp only [length_cons, readFullFrom]
    by_cases hle : piece.length ≤ x.length + 1
    · obtain ⟨z, hz, hr⟩ : ∃ z, b :: x = piece ++ z ∧ r.flatten = z ++ y := by
        rw [flatten_cons, append_eq_append_iff] at h
        rcases h with ⟨z, hz, hr⟩ | ⟨z, hz, hr⟩
        · exact ⟨z, hz, hr⟩
        · have hlen : z = [] := by
            have := congrArg List.length hz
            simp only [length_append, length_cons] at this
            exact length_eq_zero_iff.mp (by omega)
          subst hlen
          exact ⟨[], by simpa using hz.symm, by simpa using hr.symm⟩
      have hlen : x.length + 1 - piece.length = z.length := by
        have := congrArg List.length hz
        simp only [length_append, length_cons] at this
        omega
      obtain ⟨r', hread, hrest⟩ := readFullFrom_append r (got ++ piece) z y hr
      exact ⟨r', by rw [if_pos hle, hlen, hread, hz, append_assoc], hrest⟩
    · rw [if_neg hle]
      have htake : (b :: x) <+: piece := prefix_of_prefix_length_le ⟨y, h.symm⟩ ⟨r.flatten, rfl⟩
          (by simp only [length_cons]; omega)
      obtain ⟨z, rfl⟩ := htake
      exact ⟨z :: r, by simp, by simpa using h⟩

theorem readFull_append {r : Reader} {x y : Bytes} (h : r.flatten = x ++ y) :
    ∃ r', readFull x.length r = (.ok x, r') ∧ r'.flatten = y :=
  readFullFrom_append r [] x y h

theorem readFullFrom_short : ∀ (r : Reader) (got : Bytes) (n : Nat), r.flatten.length < n →
    readFullFrom got n r = (.error (if got ++ r.flatten = [] then .eof else .unexpectedEOF), [])
  | _, _, 0, h => by omega
  | [], got, n + 1, _ => by simp [readFullFrom]
  | piece :: r, got, n + 1, h => by
    simp only [flatten_cons, length_append] at h
    have hle : piece.length ≤ n + 1 := by omega
    rw [readFullFrom, if_pos hle, readFullFrom_short r _ _ (by omega)]
    simp

theorem readFull_short {r : Reader} {n : Nat} (h : r.flatten.length < n) :
    readFull n r = (.error (if r.flatten = [] then .eof else .unexpectedEOF), []) :=
  readFullFrom_short r [] n h

theorem length_of_readFullFrom : ∀ (r : Reader) (got : Bytes) (n : Nat) {bs : Bytes} {r' : Reader},
    readFullFrom got n r = (.ok bs, r') → bs.length = got.length + n
  | r, got, 0, bs, r', h => by
    rw [readFullFrom] at h
    cases h
    rfl
  | [], got, n + 1, bs, r', h => by
    rw [readFullFrom] at h
    cases h
  | piece :: r, got, n + 1, bs, r', h => by
    rw [readFullFrom] at h
    split_ifs at h with hle
    · have ih := length_of_readFullFrom r _ _ h
      rw [length_append] at ih
      omega
    · cases h
      rw [length_append, length_take]
      omega

theorem length_of_readFull {r r' : Reader} {n : Nat} {bs : Bytes}
    (h : readFull n r = (.ok bs, r')) : bs.length = n := by
  rw [length_of_readFullFrom r [] n h]
  exact Nat.zero_add n

end AoniContrib.Go
