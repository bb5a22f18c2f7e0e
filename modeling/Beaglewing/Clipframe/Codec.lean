/-
# `Clipframe.Codec` — the frame codec over all 1024-byte arrays

`frame` and `parse` in both directions.  What `frame` writes is read back
(`parse_frame`); conversely a frame parses unless its length field is over
`maxPayload`, and `frame` gives it back exactly if it is in normal form: a
zero flags byte, zeros after the payload (`frame_of_parse_iff`).  The peer is
built apart from this program, so nothing says that what arrives is in normal
form.
-/
import Beaglewing.Clipframe.Reassembler

namespace Beaglewing.Clipframe

open Base

/-- Bytes 4 and 5. -/
def Frame.lengthField (f : Frame) : Nat := (fromLe16 (f.byte 4) (f.byte 5)).toNat

theorem parse_eq_none_iff {f : Frame} : parse f = none ↔ maxPayload < f.lengthField := by
  unfold parse
  simp only [dite_eq_left_iff, reduceCtorEq, imp_false, not_not]
  exact Iff.rfl

/-- What `parse` reads, where it reads anything. -/
theorem parse_fields {f : Frame} {p : Parsed} (h : parse f = some p) :
    f.lengthField ≤ maxPayload ∧ p.t = f.byte 0 ∧ p.seq = fromLe16 (f.byte 2) (f.byte 3) ∧
      p.payload.val = (f.bytes.drop 6).take f.lengthField := by
  simp only [parse] at h
  split at h
  · cases h
  · next hlen =>
      cases h
      exact ⟨Nat.le_of_not_gt hlen, rfl, rfl, rfl⟩

/-- The header, byte by byte, and what comes after it. -/
theorem Frame.bytes_eq (f : Frame) :
    f.bytes = f.byte 0 :: f.byte 1 :: f.byte 2 :: f.byte 3 :: f.byte 4 :: f.byte 5 ::
      f.bytes.drop 6 := by
  rcases f with ⟨bytes, hsize⟩
  rcases bytes with _ | ⟨b₀, _ | ⟨b₁, _ | ⟨b₂, _ | ⟨b₃, _ | ⟨b₄, _ | ⟨b₅, rest⟩⟩⟩⟩⟩⟩
  · cases hsize
  · cases hsize
  · cases hsize
  · cases hsize
  · cases hsize
  · cases hsize
  · rfl

theorem Frame.length_drop (f : Frame) : (f.bytes.drop 6).length = maxPayload := by
  rw [List.length_drop, f.size, maxPayload]

/-- The bytes from `6 + n` on are zero exactly if each of them is. -/
theorem Frame.drop_eq_replicate_iff {f : Frame} {n : Nat} :
    (f.bytes.drop 6).drop n = List.replicate (maxPayload - n) 0 ↔
      ∀ i, 6 + n ≤ i → i < frameLen → f.byte i = 0 := by
  have hlen : ((f.bytes.drop 6).drop n).length = maxPayload - n := by
    rw [List.length_drop, f.length_drop]
  have hbyte : ∀ k, f.byte (6 + n + k) = ((f.bytes.drop 6).drop n).getD k 0 := by
    intro k
    rw [Frame.byte, List.getD_eq_getElem?_getD, List.getD_eq_getElem?_getD, List.getElem?_drop,
      List.getElem?_drop, Nat.add_assoc]
  constructor
  · intro h i hi _
    obtain ⟨k, rfl⟩ := Nat.exists_eq_add_of_le hi
    rw [hbyte, h, List.getD_eq_getElem?_getD, List.getElem?_getD_replicate_default_eq]
  · intro h
    refine List.eq_replicate_iff.mpr ⟨hlen, ?_⟩
    intro b hb
    obtain ⟨k, hk, rfl⟩ := List.getElem_of_mem hb
    have hlt : 6 + n + k < frameLen := by
      simp only [maxPayload] at hlen
      omega
    rw [← h (6 + n + k) (Nat.le_add_right _ _) hlt, hbyte, List.getD_eq_getElem _ _ hk]

/-- A frame is what `frame` makes of its contents exactly if the flags byte and
all bytes after the payload are zero. -/
theorem frame_of_parse_iff {f : Frame} {p : Parsed} (h : parse f = some p) :
    frame p.t p.seq p.payload = f ↔
      f.byte 1 = 0 ∧ ∀ i, 6 + p.payload.val.length ≤ i → i < frameLen → f.byte i = 0 := by
  obtain ⟨hlen, ht, hseq, hpayload⟩ := parse_fields h
  have hlength : p.payload.val.length = f.lengthField := by
    rw [hpayload, List.length_take, f.length_drop, Nat.min_eq_left hlen]
  have hfield : toLe16 (UInt16.ofNat f.lengthField) = [f.byte 4, f.byte 5] := by
    rw [Frame.lengthField, UInt16.ofNat_toNat, toLe16_fromLe16]
  have hframe : (frame p.t p.seq p.payload).bytes =
      f.byte 0 :: 0 :: f.byte 2 :: f.byte 3 :: f.byte 4 :: f.byte 5 ::
        ((f.bytes.drop 6).take f.lengthField ++
          List.replicate (maxPayload - f.lengthField) 0) := by
    show frameBytes _ _ _ = _
    rw [frameBytes, hlength, hfield, ht, hseq, toLe16_fromLe16, hpayload]
    rfl
  have hext : frame p.t p.seq p.payload = f ↔ (frame p.t p.seq p.payload).bytes = f.bytes :=
    ⟨congrArg Frame.bytes, fun h => by cases f; cases h; rfl⟩
  rw [hext, hframe, f.bytes_eq]
  simp only [List.cons.injEq, true_and, List.drop_succ_cons, List.drop_zero]
  rw [hlength, ← Frame.drop_eq_replicate_iff, eq_comm (a := (0 : UInt8))]
  refine and_congr_right fun _ => ?_
  conv_lhs => rhs; rw [← List.take_append_drop f.lengthField (f.bytes.drop 6)]
  rw [List.append_cancel_left_eq, eq_comm]

/-- An ACK leaves the receiver as it is. -/
theorem feed_of_parseAck {f : Frame} {n : UInt32} (h : parseAck f = some n) (r : Reassembler) :
    r.feed f = (r, .none) := by
  obtain ⟨seq, hp⟩ := parseAck_eq_some.mp h
  rw [r.feed_of_parse hp]
  rfl

/-- The codec, both ways, and what it makes of an ACK. -/
theorem frame_codec :
    (∀ t seq payload, parse (frame t seq payload) = some ⟨t, seq, payload⟩) ∧
      (∀ f, parse f = none ↔ maxPayload < f.lengthField) ∧
      (∀ f p, parse f = some p → (frame p.t p.seq p.payload = f ↔
        f.byte 1 = 0 ∧ ∀ i, 6 + p.payload.val.length ≤ i → i < frameLen → f.byte i = 0)) ∧
      ∀ f n, (parseAck f = some n ↔ ∃ seq, parse f = some ⟨tAck, seq, wordPayload n⟩) ∧
        (parseAck f = some n → ∀ r : Reassembler, (r.feed f).1 = r) := by
  refine ⟨parse_frame, fun f => parse_eq_none_iff, fun f p => frame_of_parse_iff, ?_⟩
  intro f n
  refine ⟨parseAck_eq_some, ?_⟩
  intro h r
  rw [feed_of_parseAck h]

end Beaglewing.Clipframe
