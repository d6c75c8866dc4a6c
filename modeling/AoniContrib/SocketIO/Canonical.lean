/-
# Decoding a packet again: `encodeSIOPacket` after `decodeSIOPacket`

The decoder of `socketio/packet.go` takes many spellings of one packet: a count with leading zeros or
a plus sign and without its dash, a namespace without its comma, an id that is out of range.  What it
answers is written in one way, and read back as the same packet, whatever the spelling was.

There is one exception.  The encoder leaves out the default namespace `/`, and the decoder takes any
slash behind the type for the begin of a namespace.  JSON never begins with a slash, but the decoder
does not look: data that do, behind a default namespace that was spelled out, are read back as a
namespace.  `reencode_iff` says that this is all.
-/
import AoniContrib.SocketIO.Packet

namespace AoniContrib.SocketIO

open Go List

/-! ## 1. What the decoder answers -/

/-- What follows the type, and the count of a binary packet. -/
def fieldText : Bytes → Bytes
  | [] => []
  | type :: data => if isBinaryType type then (data.dropWhile (· ≠ minus)).drop 1 else data

variable {b : Bytes} {pkt : SioPacket}

theorem decode_eq_fields (h : decodeSIOPacket b = .ok pkt) :
    pkt = decodeFields pkt.type pkt.attachments (fieldText b) := by
  cases b with
  | nil => cases h
  | cons type data =>
    rw [decodeSIOPacket] at h
    rw [fieldText]
    split at h
    · rename_i hbin
      rw [if_pos hbin]
      simp only [parseAttachments] at h
      split at h
      · cases h
      · cases h
        rfl
    · rename_i htext
      rw [if_neg htext]
      cases h
      rfl

theorem parseNamespace_head (d : Bytes) :
    (parseNamespace d).1.head? = some slash ∧ comma ∉ (parseNamespace d).1 := by
  unfold parseNamespace
  split
  · rename_i hslash
    cases d with
    | nil => cases hslash
    | cons c d =>
      cases hslash
      refine ⟨rfl, fun h => ?_⟩
      simpa using mem_takeWhile_imp h
  · exact ⟨rfl, (by decide : comma ∉ [slash])⟩

theorem parseAckID_nonneg (d : Bytes) : ∀ id ∈ (parseAckID d).1, 0 ≤ id := by
  intro id hid
  unfold parseAckID at hid
  split at hid
  · rename_i hdigit
    cases d with
    | nil => simp at hdigit
    | cons c d =>
      have hc : isDigit c = true := by simpa using hdigit
      have hsign : c ≠ plus ∧ c ≠ minus := by grind [isDigit]
      cases hid
      refine parseInt_nonneg ?_
      rw [takeWhile_cons_of_pos hc, splitSign, if_neg hsign.1, if_neg hsign.2]
  · cases hid

theorem parseAckID_rest (d : Bytes) : ∀ b ∈ (parseAckID d).2.head?, isDigit b = false := by
  intro b hb
  unfold parseAckID at hb
  split at hb
  · have hend := head?_dropWhile_not isDigit d
    rw [Option.mem_def.mp hb] at hend
    exact hend
  · rename_i hno
    rw [Option.mem_def.mp hb] at hno
    simpa using hno

theorem parseAckID_length (d : Bytes) : (parseAckID d).2.length ≤ d.length := by
  unfold parseAckID
  split
  · exact length_dropWhile_le _ _
  · exact Nat.le_refl _

theorem parseAckID_none {d : Bytes} (h : (parseAckID d).1 = none) : (parseAckID d).2 = d := by
  unfold parseAckID at h ⊢
  split at h
  · cases h
  · rename_i hno
    rw [if_neg hno]

/-! ## 2. Reading it back -/

/-- The default namespace is left out in front of data that look like a namespace. -/
def Hidden (pkt : SioPacket) : Prop :=
  pkt.nsp = [slash] ∧ pkt.id = none ∧ (pkt.data.getD []).head? = some slash

theorem decodeFields_of_hidden (h : Hidden pkt) :
    decodeFields pkt.type pkt.attachments (encodeFields pkt) ≠ pkt := by
  obtain ⟨hnsp, hid, hslash⟩ := h
  -- the comma, or the end, behind what is read as a namespace is lost
  intro hback
  cases hd : pkt.data with
  | none =>
    rw [hd] at hslash
    cases hslash
  | some data =>
    rw [hd, Option.getD_some] at hslash
    have htext : encodeFields pkt = data := by
      rw [encodeFields, hnsp, hid, hd]
      rfl
    have hshort : ((parseNamespace data).2).length < data.length := by
      rw [parseNamespace, if_pos hslash, length_drop]
      have hle := length_dropWhile_le (fun b => decide (b ≠ comma)) data
      have hpos : 0 < data.length := by
        cases data with
        | nil => cases hslash
        | cons => exact Nat.succ_pos _
      cases hrest : data.dropWhile (fun b => decide (b ≠ comma)) with
      | nil => simpa using hpos
      | cons c rest =>
        rw [hrest] at hle
        rw [length_cons] at hle ⊢
        omega
    have hle := parseAckID_length (parseNamespace data).2
    have hdata : (decodeFields pkt.type pkt.attachments data).data = some data := by
      rw [← hd, ← htext, hback]
    simp only [decodeFields] at hdata
    split at hdata
    · cases hdata
    · have heq : (parseAckID (parseNamespace data).2).2 = data := Option.some.inj hdata
      rw [heq] at hle
      omega

theorem decode_encode_iff (h : decodeSIOPacket b = .ok pkt) :
    decodeSIOPacket (encodeSIOPacket pkt) = .ok pkt ↔ ¬ Hidden pkt := by
  rw [decode_encode_fields (attachments_le_of_decode h) (attachments_eq_zero_of_decode h)]
  constructor
  · intro hback hidden
    exact decodeFields_of_hidden hidden (Except.ok.inj hback)
  · intro hvisible
    have hpkt := decode_eq_fields h
    have hnsp := parseNamespace_head (fieldText b)
    refine congrArg Except.ok (decodeFields_encodeFields ?_ ?_ ?_ ?_ ?_)
    · rw [hpkt]
      exact hnsp.1
    · rw [hpkt]
      exact hnsp.2
    · rw [hpkt]
      exact parseAckID_nonneg _
    · rw [hpkt]
      intro data hd
      simp only [decodeFields] at hd
      split at hd
      · cases hd
      · rename_i hne
        cases hd
        exact ⟨hne, parseAckID_rest _⟩
    · exact fun hroot hid hslash => hvisible ⟨hroot, hid, hslash⟩

theorem hidden_iff (h : decodeSIOPacket b = .ok pkt) :
    Hidden pkt ↔ [slash, comma, slash] <+: fieldText b := by
  rw [decode_eq_fields h]
  generalize fieldText b = d
  constructor
  · rintro ⟨hnsp, hid, hslash⟩
    simp only [decodeFields] at hnsp hid hslash
    have hrest := parseAckID_none hid
    have hhead : (parseNamespace d).2.head? = some slash := by
      rw [hrest] at hslash
      split at hslash
      · cases hslash
      · exact hslash
    unfold parseNamespace at hnsp hhead
    split at hnsp
    · rename_i hstart
      rw [if_pos hstart] at hhead
      dsimp only at hnsp hhead
      have hsplit := takeWhile_append_dropWhile (p := fun b => decide (b ≠ comma)) (l := d)
      have hend := head?_dropWhile_not (fun b => decide (b ≠ comma)) d
      rw [hnsp] at hsplit
      cases hr : d.dropWhile (fun b => decide (b ≠ comma)) with
      | nil =>
        rw [hr] at hhead
        cases hhead
      | cons c rest =>
        rw [hr] at hsplit hend hhead
        have hc : c = comma := by simpa using hend
        cases rest with
        | nil => cases hhead
        | cons c' rest =>
          cases hhead
          exact ⟨rest, by rw [← hsplit, hc]; rfl⟩
    · rename_i hno
      rw [if_neg hno] at hhead
      exact absurd hhead hno
  · rintro ⟨rest, rfl⟩
    exact ⟨rfl, rfl, rfl⟩

/-- **Decoding is canonical**, up to one spelling.  What an accepted text is decoded to can be
encoded and decoded again; the packet that comes back is the same in every field, unless the text
behind its type and count begins with the default namespace and another slash. -/
theorem reencode_iff {b : Bytes} {pkt : SioPacket} (h : decodeSIOPacket b = .ok pkt) :
    (∃ pkt', decodeSIOPacket (encodeSIOPacket pkt) = .ok pkt') ∧
      (decodeSIOPacket (encodeSIOPacket pkt) = .ok pkt ↔ ¬ [slash, comma, slash] <+: fieldText b) := by
  refine ⟨⟨_, decode_encode_fields (attachments_le_of_decode h) (attachments_eq_zero_of_decode h)⟩, ?_⟩
  rw [decode_encode_iff h, hidden_iff h]

/-- A count with a sign and a zero, and a namespace without a comma. -/
theorem reencode_iff_spelling : decodeSIOPacket [0x35, plus, 0x30, 0x32, minus, slash, 0x61] =
        .ok ⟨sioBinaryEvent, [slash, 0x61], none, 2, none⟩ ∧
      decodeSIOPacket (encodeSIOPacket ⟨sioBinaryEvent, [slash, 0x61], none, 2, none⟩) =
        .ok ⟨sioBinaryEvent, [slash, 0x61], none, 2, none⟩ := by
  have h : decodeSIOPacket [0x35, plus, 0x30, 0x32, minus, slash, 0x61] =
      .ok ⟨sioBinaryEvent, [slash, 0x61], none, 2, none⟩ := by decide
  exact ⟨h, (reencode_iff h).2.mpr (by decide)⟩

/-- The data `/x` of the event `2/,/x` come back as its namespace. -/
theorem reencode_hidden : decodeSIOPacket [0x32, slash, comma, slash, 0x78] =
        .ok ⟨sioEvent, [slash], none, 0, some [slash, 0x78]⟩ ∧
      decodeSIOPacket (encodeSIOPacket ⟨sioEvent, [slash], none, 0, some [slash, 0x78]⟩) =
        .ok ⟨sioEvent, [slash, 0x78], none, 0, none⟩ ∧
      decodeSIOPacket (encodeSIOPacket ⟨sioEvent, [slash], none, 0, some [slash, 0x78]⟩) ≠
        decodeSIOPacket [0x32, slash, comma, slash, 0x78] := by
  decide

end AoniContrib.SocketIO
