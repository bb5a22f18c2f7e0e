/-
# `Bridge.Session` — one client of the bridge

`handle_client`: the accumulator, the parser that takes complete frames off
it, and what each message does.  A turn of the loop is a read with what came
of it; the loop ends at a shutdown, a heartbeat timeout, the end of the
stream, a read error, a reply that cannot be written, and at anything that
is not a well-formed frame of a greeted client (`Session.turn`).

The frames are a `Framing`, so that the loop is the library's `drain`
followed by the flush at the end of a batch, and what a session has acted on
is what it has been sent (`tracks_turn`).
-/
import Beaglewing.Base.Bytes
import Beaglewing.Base.Framing
import Beaglewing.Base.Tcp
import Beaglewing.Bridge.Hid

namespace Beaglewing.Bridge

open Base

def protocolVersion : UInt16 := 1
def maxPayload : Nat := 32

def msgHello : UInt8 := 0x01
def msgHelloAck : UInt8 := 0x02
def msgKeepalive : UInt8 := 0x03
def msgKeyDown : UInt8 := 0x10
def msgKeyUp : UInt8 := 0x11
def msgKeyState : UInt8 := 0x12
def msgPointerAbs : UInt8 := 0x20
def msgPointerButton : UInt8 := 0x21
def msgPointerWheel : UInt8 := 0x22
def msgReleaseAll : UInt8 := 0x30
def msgGetStatus : UInt8 := 0x40
def msgStatus : UInt8 := 0x41

/-- Expected payload length per message type; `none` for an unknown type. -/
def expectedLen (msgType : UInt8) : Option Nat :=
  if msgType = msgHello then some 2
  else if msgType = msgKeepalive ∨ msgType = msgReleaseAll ∨ msgType = msgGetStatus then some 0
  else if msgType = msgKeyDown ∨ msgType = msgKeyUp ∨ msgType = msgPointerButton ∨
      msgType = msgPointerWheel then some 1
  else if msgType = msgKeyState then some 7
  else if msgType = msgPointerAbs then some 4
  else none

/-- A message type and its payload. -/
abbrev Item : Type := UInt8 × List UInt8

/-- The frame at the front of the accumulator.  A header is judged before its
payload has arrived. -/
def nextFrame : List UInt8 → Next UInt8 Item
  | msgType :: len :: rest =>
      if expectedLen msgType = some len.toNat ∧ len.toNat ≤ maxPayload then
        if rest.length < len.toNat then .more
        else .item (msgType, rest.take len.toNat) (rest.drop len.toNat)
      else .bad
  | _ => .more

def framing : Framing UInt8 Item where
  next := nextFrame
  next_nil := rfl
  item_lt := by
    rintro (_ | ⟨t, _ | ⟨len, rest⟩⟩) m rest' h
    · cases h
    · cases h
    · simp only [nextFrame] at h
      split at h
      · split at h
        · cases h
        · cases h
          simp only [List.length_drop, List.length_cons]
          omega
      · cases h
  item_append := by
    rintro (_ | ⟨t, _ | ⟨len, rest⟩⟩) m rest' cs h
    · cases h
    · cases h
    · simp only [nextFrame] at h
      simp only [nextFrame, List.cons_append]
      split at h
      · next hlen =>
          split at h
          · cases h
          · next hle =>
              cases h
              rw [if_pos hlen, if_neg (by rw [List.length_append]; omega),
                List.take_append_of_le_length (by omega), List.drop_append_of_le_length (by omega)]
      · cases h
  bad_append := by
    rintro (_ | ⟨t, _ | ⟨len, rest⟩⟩) cs h
    · cases h
    · cases h
    · simp only [nextFrame] at h
      simp only [nextFrame, List.cons_append]
      split at h
      · split at h <;> cases h
      · next hlen => rw [if_neg hlen]

/-- The variables of `handle_client` besides the accumulator. -/
structure Client where
  hid : Hid
  stream : TcpStream
  greeted : Bool
  pendingAbs : Option (UInt16 × UInt16)

namespace Client

/-- Write one message; whether that succeeded. -/
def send (c : Client) (msgType : UInt8) (payload : List UInt8) : Client × Bool :=
  let (stream, ok) := c.stream.writeAll (msgType :: UInt8.ofNat payload.length :: payload)
  ({ c with stream := stream }, ok)

/-- One report for the newest position. -/
def flushAbs (c : Client) : Client :=
  match c.pendingAbs with
  | some (x, y) => { c with hid := { c.hid with x := x, y := y }.flushPtr 0, pendingAbs := none }
  | none => c

/-- The first message of a client. -/
def greet (c : Client) (msgType : UInt8) (payload : List UInt8) : Flow Client :=
  if msgType ≠ msgHello then .stop c
  else if fromLe16 (payload.getD 0 0) (payload.getD 1 0) ≠ protocolVersion then .stop c
  else
    let (c, ok) := c.send msgHelloAck (toLe16 protocolVersion)
    if ok then .go { c with greeted := true } else .stop c

/-- Any non-position pointer action must see the newest position. -/
def needsFlush (msgType : UInt8) : Bool :=
  msgType = msgPointerButton ∨ msgType = msgPointerWheel ∨ msgType = msgReleaseAll

/-- A message of a greeted client.  The parser has checked its length. -/
def dispatch (c : Client) (msgType : UInt8) (payload : List UInt8) : Flow Client :=
  if msgType = msgKeyDown then .go { c with hid := c.hid.keyEvent (payload.getD 0 0) true }
  else if msgType = msgKeyUp then .go { c with hid := c.hid.keyEvent (payload.getD 0 0) false }
  else if msgType = msgKeyState then
    .go { c with
      hid := { c.hid with
        modifiers := payload.getD 0 0
        keys := fun i => payload.getD (1 + i) 0 }.flushKbd }
  else if msgType = msgPointerAbs then
    .go { c with
      pendingAbs := some (fromLe16 (payload.getD 0 0) (payload.getD 1 0),
        fromLe16 (payload.getD 2 0) (payload.getD 3 0)) }
  else if msgType = msgPointerButton then
    .go { c with hid := { c.hid with buttons := payload.getD 0 0 &&& 0x07 }.flushPtr 0 }
  else if msgType = msgPointerWheel then
    .go { c with hid := c.hid.flushPtr (payload.getD 0 0).toInt8 }
  else if msgType = msgReleaseAll then .go { c with hid := c.hid.releaseAll }
  else if msgType = msgGetStatus then
    let (c, ok) := c.send msgStatus
      [c.hid.modifiers, c.hid.heldKeyCount, c.hid.buttons, if c.hid.hidOk then 1 else 0]
    if ok then .go c else .stop c
  else .go c -- KEEPALIVE, and a redundant HELLO

def act (c : Client) (m : Item) : Flow Client :=
  if c.greeted then (if needsFlush m.1 then c.flushAbs else c).dispatch m.1 m.2
  else c.greet m.1 m.2

end Client

/-- What a read gives: one to 256 bytes. -/
structure Chunk where
  bytes : List UInt8
  nonempty : 0 < bytes.length
  le_chunk : bytes.length ≤ 256

inductive ReadResult where
  | eof
  | bytes (chunk : Chunk)
  | wouldBlock
  | error

/-- A turn of the loop: the shutdown flag, whether the heartbeat has timed
out, and the read. -/
structure Turn where
  shutdown : Bool
  stale : Bool
  read : ReadResult

/-- A turn that reads one byte. -/
def Turn.one (b : UInt8) : Turn where
  shutdown := false
  stale := false
  read := .bytes ⟨[b], by simp, by simp⟩

structure Session where
  client : Client
  buf : List UInt8

namespace Session

/-- The session of a client that has just connected. -/
def new (hid : Hid) (room : Option Nat) : Session where
  client := { hid := hid, stream := .opened room, greeted := false, pendingAbs := none }
  buf := []

def turn (s : Session) (t : Turn) : Flow Session :=
  if t.shutdown then .stop s
  else if t.stale then .stop s
  else
    match t.read with
    | .eof => .stop s
    | .error => .stop s
    | .wouldBlock => .go s
    | .bytes chunk =>
        match framing.drain Client.act s.client (s.buf ++ chunk.bytes) with
        | .go (c, rest) => .go { client := c.flushAbs, buf := rest }
        | .stop (c, rest) => .stop { client := c, buf := rest }

end Session

/-! ## The first message -/

/-- The client is turned away, greeted, or cannot be answered. -/
theorem greet_cases (c : Client) (t : UInt8) (p : List UInt8) :
    c.greet t p = .stop c ∨
      t = msgHello ∧ ∃ c', (c' = (c.send msgHelloAck (toLe16 protocolVersion)).1) ∧
        ((c.send msgHelloAck (toLe16 protocolVersion)).2 = true ∧
            c.greet t p = .go { c' with greeted := true } ∨
          c.greet t p = .stop c') := by
  by_cases ht : t = msgHello
  · rw [Client.greet, if_neg (not_not_intro ht)]
    split
    · exact .inl rfl
    · refine .inr ⟨ht, _, rfl, ?_⟩
      cases hok : (c.send msgHelloAck (toLe16 protocolVersion)).2 with
      | true => exact .inl ⟨rfl, if_pos hok⟩
      | false => exact .inr (if_neg (Bool.not_eq_true _ ▸ hok))
  · rw [Client.greet, if_pos ht]
    exact .inl rfl

theorem greet_go {c c' : Client} {t : UInt8} {p : List UInt8} (h : c.greet t p = .go c') :
    t = msgHello ∧ (c.send msgHelloAck (toLe16 protocolVersion)).2 = true ∧
      c' = { (c.send msgHelloAck (toLe16 protocolVersion)).1 with greeted := true } := by
  rcases greet_cases c t p with hstop | ⟨ht, c₁, rfl, ⟨hok, hgo⟩ | hstop⟩
  · rw [h] at hstop
    cases hstop
  · rw [h, Flow.go.injEq] at hgo
    exact ⟨ht, hok, hgo⟩
  · rw [h] at hstop
    cases hstop

/-! ## What a session has acted on -/

/-- The bytes that a turn reads. -/
def Turn.received (t : Turn) : List UInt8 :=
  match t.read with
  | .bytes chunk => chunk.bytes
  | _ => []

/-- The session has been sent the stream. -/
def Tracks (s₀ : Client) (stream : List UInt8) (s : Session) : Prop :=
  framing.Tracks Client.act Client.flushAbs s₀ stream s.client s.buf

theorem tracks_new (hid : Hid) (room : Option Nat) :
    Tracks (Session.new hid room).client [] (.new hid room) :=
  framing.tracks_start _ _ _

theorem tracks_turn {s₀ : Client} {stream : List UInt8} {s s' : Session} {t : Turn}
    (h : Tracks s₀ stream s) (ht : s.turn t = .go s') : Tracks s₀ (stream ++ t.received) s' := by
  simp only [Session.turn] at ht
  split at ht
  · cases ht
  · split at ht
    · cases ht
    · split at ht
      · cases ht
      · cases ht
      · next hread =>
          cases ht
          simp only [Turn.received, hread, List.append_nil]
          exact h
      · next chunk hread =>
          split at ht
          · next c rest hdrain =>
              cases ht
              simp only [Turn.received, hread]
              exact framing.tracks_read h hdrain
          · cases ht

end Beaglewing.Bridge
