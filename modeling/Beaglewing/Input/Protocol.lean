/-
# `Input.Protocol` — the bridge protocol, client side

`protocol.rs`: a message is a type byte, a length byte and the payload, and
the client has one call for each message it sends.  `Message` lists the
calls with their arguments, and a connection that is not broken has carried
HELLO and then the messages sent on it, one after the other.

`Carries` states that for a property of the messages so far.  It is kept by
a call that keeps the property (`carries_send`) and says nothing of a broken
connection: what the peer has of the last message is then unknown.

| statement | lemma |
|---|---|
| a new connection has carried HELLO alone | `carries_connect` |
| a call appends its message | `carries_send` |
-/
import Beaglewing.Base.Bytes
import Beaglewing.Base.Tcp

namespace Beaglewing.Input

open Base

namespace Protocol

def version : UInt16 := 1

def msgHello : UInt8 := 0x01
def msgHelloAck : UInt8 := 0x02
def msgKeepalive : UInt8 := 0x03
def msgKeyDown : UInt8 := 0x10
def msgKeyUp : UInt8 := 0x11
def msgPointerAbs : UInt8 := 0x20
def msgPointerButton : UInt8 := 0x21
def msgPointerWheel : UInt8 := 0x22
def msgReleaseAll : UInt8 := 0x30

def frame (msgType : UInt8) (payload : List UInt8) : List UInt8 :=
  msgType :: UInt8.ofNat payload.length :: payload

end Protocol

open Protocol

structure BridgeClient where
  stream : TcpStream
  deriving DecidableEq

/-- What a connection attempt meets: no connection, or one that breaks after
`room` bytes and on which `reply` comes in before the read timeout. -/
inductive Dial where
  | refused
  | opened (room : Option Nat) (reply : List UInt8)

namespace BridgeClient

/-- Write one message; whether that succeeded. -/
def send (c : BridgeClient) (msgType : UInt8) (payload : List UInt8) : BridgeClient × Bool :=
  let (stream, ok) := c.stream.writeAll (frame msgType payload)
  ({ stream := stream }, ok)

/-- Read one message off the bytes that come in. -/
def recv : List UInt8 → Option (UInt8 × List UInt8)
  | t :: len :: rest => if len.toNat ≤ rest.length then some (t, rest.take len.toNat) else none
  | _ => none

/-- Connect and complete the HELLO handshake. -/
def connect : Dial → Option BridgeClient
  | .refused => none
  | .opened room reply =>
      let (c, ok) := send { stream := .opened room } msgHello (toLe16 version)
      if ok then
        match recv reply with
        | some (t, p) => if t ≠ msgHelloAck ∨ p ≠ toLe16 version then none else some c
        | none => none
      else none

def keepalive (c : BridgeClient) : BridgeClient × Bool := c.send msgKeepalive []

def keyDown (c : BridgeClient) (usage : UInt8) : BridgeClient × Bool := c.send msgKeyDown [usage]

def keyUp (c : BridgeClient) (usage : UInt8) : BridgeClient × Bool := c.send msgKeyUp [usage]

/-- Canonical coordinates, 0 to 65535. -/
def pointerAbs (c : BridgeClient) (x y : UInt16) : BridgeClient × Bool :=
  c.send msgPointerAbs (toLe16 x ++ toLe16 y)

/-- Full absolute button state: bit 0 left, bit 1 right, bit 2 middle. -/
def pointerButton (c : BridgeClient) (buttons : UInt8) : BridgeClient × Bool :=
  c.send msgPointerButton [buttons]

def pointerWheel (c : BridgeClient) (detents : Int8) : BridgeClient × Bool :=
  c.send msgPointerWheel [detents.toUInt8]

def releaseAll (c : BridgeClient) : BridgeClient × Bool := c.send msgReleaseAll []

end BridgeClient

/-! ## The messages of a connection -/

/-- The calls after HELLO. -/
inductive Message where
  | keepalive
  | keyDown (usage : UInt8)
  | keyUp (usage : UInt8)
  | pointerAbs (x y : UInt16)
  | pointerButton (buttons : UInt8)
  | pointerWheel (detents : Int8)
  | releaseAll

namespace Message

def msgType : Message → UInt8
  | .keepalive => msgKeepalive
  | .keyDown _ => msgKeyDown
  | .keyUp _ => msgKeyUp
  | .pointerAbs _ _ => msgPointerAbs
  | .pointerButton _ => msgPointerButton
  | .pointerWheel _ => msgPointerWheel
  | .releaseAll => msgReleaseAll

def payload : Message → List UInt8
  | .keepalive => []
  | .keyDown usage => [usage]
  | .keyUp usage => [usage]
  | .pointerAbs x y => toLe16 x ++ toLe16 y
  | .pointerButton buttons => [buttons]
  | .pointerWheel detents => [detents.toUInt8]
  | .releaseAll => []

def bytes (m : Message) : List UInt8 := frame m.msgType m.payload

end Message

/-- What a connection carries for some messages. -/
def wire (msgs : List Message) : List UInt8 :=
  frame msgHello (toLe16 version) ++ msgs.flatMap Message.bytes

theorem wire_snoc (msgs : List Message) (m : Message) :
    wire (msgs ++ [m]) = wire msgs ++ m.bytes := by
  simp [wire]

/-- The connection has carried messages with the property, unless it is
broken. -/
def Carries (P : List Message → Prop) (c : BridgeClient) : Prop :=
  c.stream.broken = false → ∃ msgs, P msgs ∧ c.stream.written = wire msgs

theorem carries_mono {P Q : List Message → Prop} {c : BridgeClient} (h : ∀ msgs, P msgs → Q msgs)
    (hc : Carries P c) : Carries Q c := by
  intro hb
  obtain ⟨msgs, hP, hw⟩ := hc hb
  exact ⟨msgs, h msgs hP, hw⟩

theorem written_send {c : BridgeClient} {t : UInt8} {p : List UInt8}
    (h : (c.send t p).1.stream.broken = false) :
    c.stream.broken = false ∧ (c.send t p).1.stream.written = c.stream.written ++ frame t p :=
  TcpStream.written_writeAll h

theorem carries_send {P Q : List Message → Prop} {c : BridgeClient} {m : Message}
    (hc : Carries P c) (h : ∀ msgs, P msgs → Q (msgs ++ [m])) :
    Carries Q (c.send m.msgType m.payload).1 := by
  intro hb
  obtain ⟨hb₀, hw⟩ := written_send hb
  obtain ⟨msgs, hP, hw₀⟩ := hc hb₀
  refine ⟨msgs ++ [m], h msgs hP, ?_⟩
  rw [wire_snoc, ← hw₀, hw]
  rfl

theorem carries_connect {P : List Message → Prop} {d : Dial} {c : BridgeClient}
    (h : BridgeClient.connect d = some c) (hP : P []) : Carries P c := by
  intro hb
  refine ⟨[], hP, ?_⟩
  cases d with
  | refused => cases h
  | opened room reply =>
      have hc : (BridgeClient.send { stream := .opened room } msgHello (toLe16 version)).1 = c := by
        simp only [BridgeClient.connect] at h
        split at h
        · split at h
          · split at h
            · cases h
            · exact Option.some.inj h
          · cases h
        · cases h
      subst hc
      rw [(written_send hb).2]
      rfl

end Beaglewing.Input
