/-
# `Clipframe.Frame` — the 1024-byte frames of the clipboard channel

`protocol/clipframe/src/lib.rs`, the part below the transfers.  Every frame
is exactly `frameLen` bytes:

    byte 0     frame type
    byte 1     flags (reserved, 0)
    bytes 2-3  sequence number (u16 LE, wraps)
    bytes 4-5  payload length (u16 LE, max frameLen - 6)
    bytes 6..  payload

A `Frame` carries its length and a `Payload` its bound, so the `assert!` of
`frame` and the slice bounds of `parse` hold by construction.
-/
import Beaglewing.Base.Bytes

namespace Beaglewing.Clipframe

open Base

def frameLen : Nat := 1024
def maxPayload : Nat := frameLen - 6

def tPing : UInt8 := 0x01
def tPong : UInt8 := 0x02
def tStart : UInt8 := 0x10
def tData : UInt8 := 0x11
def tEnd : UInt8 := 0x12
def tAbort : UInt8 := 0x13
def tAck : UInt8 := 0x14
def tOffer : UInt8 := 0x20
def tPull : UInt8 := 0x21

/-- Receivers send an ACK every `ackEvery` DATA frames. -/
def ackEvery : UInt32 := 128
/-- Senders keep at most `ackWindow` DATA frames in flight. -/
def ackWindow : UInt32 := 256

def kindText : UInt8 := 1
def kindPng : UInt8 := 2
def kindTar : UInt8 := 3

/-- Refuse absurd transfers before allocating for them. -/
def maxTransfer : UInt32 := 64 * 1024 * 1024

/-- `[u8; FRAME_LEN]`. -/
structure Frame where
  bytes : List UInt8
  size : bytes.length = frameLen
deriving DecidableEq

/-- `f[i]`. -/
def Frame.byte (f : Frame) (i : Nat) : UInt8 := f.bytes.getD i 0

/-- What a frame can carry. -/
abbrev Payload : Type := Bounded UInt8 maxPayload

/-- The bytes of a frame: header, payload, zeros. -/
def frameBytes (t : UInt8) (seq : UInt16) (payload : Payload) : List UInt8 :=
  t :: 0 :: toLe16 seq ++ toLe16 (UInt16.ofNat payload.val.length) ++ payload.val ++
    List.replicate (maxPayload - payload.val.length) 0

theorem length_frameBytes (t : UInt8) (seq : UInt16) (payload : Payload) :
    (frameBytes t seq payload).length = frameLen := by
  have hp := payload.property
  simp only [maxPayload, frameLen] at hp
  simp only [frameBytes, List.length_append, List.length_cons, length_toLe16,
    List.length_replicate, maxPayload, frameLen]
  omega

def frame (t : UInt8) (seq : UInt16) (payload : Payload) : Frame where
  bytes := frameBytes t seq payload
  size := length_frameBytes t seq payload

structure Parsed where
  t : UInt8
  seq : UInt16
  payload : Payload
deriving DecidableEq

/-- A payload length over `maxPayload` is the only way a frame fails to parse. -/
def parse (f : Frame) : Option Parsed :=
  let len := (fromLe16 (f.byte 4) (f.byte 5)).toNat
  if h : len > maxPayload then none
  else some {
    t := f.byte 0
    seq := fromLe16 (f.byte 2) (f.byte 3)
    payload := ⟨(f.bytes.drop 6).take len,
      Nat.le_trans (List.length_take_le _ _) (Nat.le_of_not_gt h)⟩ }

/-! ## Control frames -/

structure Offer where
  kind : UInt8
  total : UInt32
  items : UInt16
  id : UInt32
deriving DecidableEq

/-- `p[0..11]` of an OFFER. -/
def offerPayload (o : Offer) : Payload :=
  ⟨o.kind :: toLe32 o.total ++ toLe16 o.items ++ toLe32 o.id, by simp [maxPayload, frameLen]⟩

/-- The four bytes of a count or an id. -/
def wordPayload (n : UInt32) : Payload := ⟨toLe32 n, by simp [maxPayload, frameLen]⟩

/-- A payload of one byte. -/
def bytePayload (b : UInt8) : Payload := ⟨[b], by simp [maxPayload, frameLen]⟩

def offerFrame (o : Offer) : Frame := frame tOffer 0 (offerPayload o)

def pullFrame (id : UInt32) : Frame := frame tPull 0 (wordPayload id)

def ackFrame (count : UInt32) : Frame := frame tAck 0 (wordPayload count)

/-- `u32::from_le_bytes` of a payload of exactly four bytes. -/
def readWord (p : Payload) : Option UInt32 :=
  match p.val with
  | [b₀, b₁, b₂, b₃] => some (fromLe32 b₀ b₁ b₂ b₃)
  | _ => none

def parseAck (f : Frame) : Option UInt32 :=
  match parse f with
  | none => none
  | some p => if p.t = tAck then readWord p.payload else none

/-! ## The codec -/

@[simp] theorem frame_byte_type (t : UInt8) (seq : UInt16) (payload : Payload) :
    (frame t seq payload).byte 0 = t := rfl

/-- A frame that was built parses to what it was built from. -/
@[simp] theorem parse_frame (t : UInt8) (seq : UInt16) (payload : Payload) :
    parse (frame t seq payload) = some ⟨t, seq, payload⟩ := by
  obtain ⟨p, hp⟩ := payload
  have hlt : p.length < 65536 := by simp only [maxPayload, frameLen] at hp; omega
  have hlen : fromLe16 ((frame t seq ⟨p, hp⟩).byte 4) ((frame t seq ⟨p, hp⟩).byte 5)
      = UInt16.ofNat p.length := fromLe16_toLe16 _
  have hnat : (UInt16.ofNat p.length).toNat = p.length := by
    simp only [UInt16.toNat_ofNat']; omega
  have hseq : fromLe16 ((frame t seq ⟨p, hp⟩).byte 2) ((frame t seq ⟨p, hp⟩).byte 3) = seq :=
    fromLe16_toLe16 _
  have hdrop : (frame t seq ⟨p, hp⟩).bytes.drop 6
      = p ++ List.replicate (maxPayload - p.length) 0 := by
    simp [frame, frameBytes, toLe16]
  simp only [parse, hlen, hnat, hseq, hdrop, Nat.not_lt.mpr hp, dite_false,
    List.take_left']
  rfl

/-- The type of a frame is its first byte. -/
theorem type_of_parse {f : Frame} {p : Parsed} (h : parse f = some p) : p.t = f.byte 0 := by
  simp only [parse] at h
  split at h
  · cases h
  · cases h
    rfl

@[simp] theorem readWord_wordPayload (n : UInt32) : readWord (wordPayload n) = some n := by
  show some (fromLe32 _ _ _ _) = some n
  rw [fromLe32_toLe32]

/-- The payloads that read as the word `n` are its four bytes. -/
theorem readWord_eq_some {p : Payload} {n : UInt32} :
    readWord p = some n ↔ p = wordPayload n := by
  constructor
  · intro h
    obtain ⟨l, hl⟩ := p
    unfold readWord at h
    split at h
    next b₀ b₁ b₂ b₃ heq =>
      cases h
      exact Subtype.ext (heq.trans (toLe32_fromLe32 b₀ b₁ b₂ b₃).symm)
    next => cases h
  · rintro rfl
    exact readWord_wordPayload n

@[simp] theorem parseAck_ackFrame (n : UInt32) : parseAck (ackFrame n) = some n := by
  simp [parseAck, ackFrame]

/-- `parseAck` accepts exactly the ACKs with a four-byte payload. -/
theorem parseAck_eq_some {f : Frame} {n : UInt32} :
    parseAck f = some n ↔ ∃ seq, parse f = some ⟨tAck, seq, wordPayload n⟩ := by
  constructor
  · intro h
    unfold parseAck at h
    split at h
    next => cases h
    next p hp =>
      split at h
      next ht =>
        obtain ⟨t, seq, payload⟩ := p
        cases ht
        rw [readWord_eq_some] at h
        exact ⟨seq, h ▸ hp⟩
      next => cases h
  · rintro ⟨seq, hp⟩
    simp [parseAck, hp]

end Beaglewing.Clipframe
