/-
# Header maps: the part of package `net/http` the repository calls

An `http.Header` is a Go map from keys to lists of values.  Its keys are distinct, which the
structure carries, and a `range` over it visits the entries in an order the language leaves
open.  A `MapOrder` is one such choice, so a statement about every run quantifies over it.
-/
import AoniContrib.Go.Url

namespace AoniContrib.Go

open List

/-- A token byte of RFC 9110, as `validHeaderFieldByte` has it. -/
def isTokenByte (b : UInt8) : Bool := isAlnum b || b ∈ lit "!#$%&'*+-.^_`|~"

/-- The loop of `canonicalMIMEHeaderKey`: upper case at the start and behind a hyphen. -/
def canonicalizeFrom : Bool → Bytes → Bytes
  | _, [] => []
  | upper, b :: s =>
    let c := if upper && (0x61 ≤ b && b ≤ 0x7a) then b - 32
      else if !upper && (0x41 ≤ b && b ≤ 0x5a) then b + 32 else b
    c :: canonicalizeFrom (c == minus) s

/-- `textproto.CanonicalMIMEHeaderKey`: a key with a byte that is no token byte is left
alone. -/
def canonicalMIMEHeaderKey (key : Bytes) : Bytes :=
  if key.all isTokenByte then canonicalizeFrom true key else key

/-- `http.Header`: a map, so its keys are distinct. -/
structure Header where
  entries : List (Bytes × List Bytes)
  nodup : (entries.map Prod.fst).Nodup
  deriving DecidableEq

namespace Header

def empty : Header := ⟨[], by simp⟩

def lookup (h : Header) (key : Bytes) : List Bytes :=
  ((h.entries.find? (fun e => e.1 == key)).map Prod.snd).getD []

/-- `Header.Get`: the first value under the canonical form of the key, or the empty string. -/
def get (h : Header) (key : Bytes) : Bytes := (h.lookup (canonicalMIMEHeaderKey key)).head?.getD []

def set (h : Header) (key value : Bytes) : Header where
  entries := h.entries.filter (fun e => e.1 ≠ canonicalMIMEHeaderKey key) ++
    [(canonicalMIMEHeaderKey key, [value])]
  nodup := by
    have hsub : ((h.entries.filter (fun e => e.1 ≠ canonicalMIMEHeaderKey key)).map Prod.fst).Sublist
        (h.entries.map Prod.fst) := List.Sublist.map _ filter_sublist
    rw [map_append, nodup_append]
    refine ⟨h.nodup.sublist hsub, by simp, ?_⟩
    intro a ha b hb
    simp only [mem_map, mem_filter] at ha
    obtain ⟨e, ⟨-, hne⟩, rfl⟩ := ha
    simp only [map_cons, map_nil, mem_singleton] at hb
    subst hb
    simpa using hne

theorem lookup_set_same (h : Header) (key value : Bytes) :
    (h.set key value).lookup (canonicalMIMEHeaderKey key) = [value] := by
  have hnone : (h.entries.filter (fun e => e.1 ≠ canonicalMIMEHeaderKey key)).find?
      (fun e => e.1 == canonicalMIMEHeaderKey key) = none := by
    rw [find?_eq_none]
    intro e he
    simpa using (mem_filter.mp he).2
  rw [lookup, set, find?_append, hnone]
  simp

theorem lookup_set_of_ne {key k : Bytes} (hne : k ≠ canonicalMIMEHeaderKey key) (h : Header)
    (value : Bytes) : (h.set key value).lookup k = h.lookup k := by
  have hkept : (h.entries.filter (fun e => e.1 ≠ canonicalMIMEHeaderKey key)).find?
      (fun e => e.1 == k) = h.entries.find? (fun e => e.1 == k) := by
    rw [find?_filter]
    congr 1
    funext e
    by_cases he : e.1 = k
    · simp [he, hne]
    · simp [he]
  have hnew : [(canonicalMIMEHeaderKey key, [value])].find? (fun e => e.1 == k) = none := by
    simp [hne.symm]
  rw [lookup, lookup, set, find?_append, hkept, hnew, Option.or_none]

theorem get_set_same (h : Header) (key value : Bytes) : (h.set key value).get key = value := by
  rw [get, lookup_set_same]
  rfl

theorem get_set_of_ne {key key' : Bytes}
    (hne : canonicalMIMEHeaderKey key' ≠ canonicalMIMEHeaderKey key) (h : Header) (value : Bytes) :
    (h.set key value).get key' = h.get key' := by
  rw [get, get, lookup_set_of_ne hne]

theorem filter_set {p : Bytes → Bool} {key : Bytes} (hk : p (canonicalMIMEHeaderKey key) = false)
    (h : Header) (value : Bytes) :
    (h.set key value).entries.filter (fun e => p e.1) = h.entries.filter (fun e => p e.1) := by
  rw [set, filter_append, filter_cons_of_neg (by simp [hk]), filter_nil, append_nil, filter_filter]
  refine filter_congr fun e _ => ?_
  by_cases he : e.1 = canonicalMIMEHeaderKey key
  · simp [he, hk]
  · simp [he]

end Header

/-- One order in which a `range` statement visits the entries of each map. -/
structure MapOrder where
  visit : Header → List (Bytes × List Bytes)
  perm : ∀ h, (visit h).Perm h.entries

def MapOrder.listed : MapOrder := ⟨Header.entries, fun _ => List.Perm.refl _⟩

/-- The fields of `http.Request` that the repository reads. -/
structure Request where
  method : Bytes
  url : Option URL
  header : Header
  host : Bytes := []
  deriving DecidableEq

end AoniContrib.Go
