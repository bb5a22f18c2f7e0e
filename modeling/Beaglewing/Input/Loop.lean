/-
# `Input.Loop` — the router's event loop

`router::run` from the point where the portal is armed.  An iteration has
two halves: `top` goes from the head of the loop to `rx.recv_timeout`, and
`receive` from there back to the head or out of the loop.  What the program
does not decide is in the labels: what the clock says at each test
(`Top`), how a connection attempt goes (`Dial`), what is received and what
the portal answers (`Recv`).  So instants are no state, and a write whose
result only moves an instant is a write whose result is dropped.  The
statistics and the line for the clipboard agent are left out.

A panic of the geometry ends the program (`Loop.panicked`); integer
arithmetic wraps, as it does in a release build.
-/
import Beaglewing.Base.Lts
import Beaglewing.Input.Geometry
import Beaglewing.Input.Hidmap
import Beaglewing.Input.Protocol

namespace Beaglewing.Input

open Base

structure Zone where
  width : UInt32
  height : UInt32
  x : Int32
  y : Int32

inductive PortalEvent (F : Type) where
  | activated (activationId : UInt32) (cursorX cursorY : F)
  | deactivated
  | disabled
  | zonesChanged

inductive CaptureEvent (F : Type) where
  /-- Evdev keycode, pressed, compositor timestamp. -/
  | key (code : UInt32) (pressed : Bool) (time : UInt64)
  | button (code : UInt32) (pressed : Bool)
  | motion (dx dy : F)
  | scrollDiscrete (x y : Int32)
  | scrollDelta (dx dy : F)
  | frame
  | disconnected

inductive Event (F : Type) where
  | portal (e : PortalEvent F)
  | capture (e : CaptureEvent F)
  | screenSaver (locked : Bool)

/-- The states given to `publish_state` once the loop runs. -/
inductive Published where
  | «local»
  | remote
  | noBridge
  deriving DecidableEq

/-- Which keys of the emergency combination are held. -/
structure Emergency where
  lCtrl : Bool
  lAlt : Bool
  backslash : Bool
  deriving DecidableEq

namespace Emergency

def new : Emergency := ⟨false, false, false⟩

/-- Track a usage; whether the full combination is held. -/
def update (e : Emergency) (usage : UInt8) (pressed : Bool) : Emergency × Bool :=
  let e := match usage with
    | 0xe0 => { e with lCtrl := pressed }
    | 0xe2 => { e with lAlt := pressed }
    | 0x31 => { e with backslash := pressed }
    | _ => e
  (e, e.lCtrl && e.lAlt && e.backslash)

end Emergency

/-- The variables of the loop, the last state published, and the calls of
`portal.release`. -/
structure Router (F : Type) where
  bridge : Option BridgeClient
  space : Space F
  activeId : Option UInt32
  eventsThisActivation : Bool
  emergency : Emergency
  accDx : F
  accDy : F
  accScroll : F
  buttons : UInt8
  pendingPos : Option (UInt16 × UInt16)
  pendingWheel : Int32
  published : Published
  released : List (UInt32 × F × F)

/-- What the clock says on the way to `rx.recv_timeout`, and how a connection
attempt goes. -/
structure Top where
  shutdown : Bool
  /-- `last_send.elapsed() > 1 s` -/
  keepaliveDue : Bool
  /-- `last_reconnect.elapsed() > 2 s` -/
  reconnectDue : Bool
  dial : Dial
  /-- `activated_at.elapsed() > 3 s` -/
  silent : Bool
  /-- `last_ptr_send.elapsed() >= POINTER_SEND_INTERVAL` -/
  flushDue : Bool

/-- The portal's answers, when an event asks for them. -/
structure Portal where
  armBarriers : Except String Unit
  enable : Except String Unit

inductive Recv (F : Type) where
  | timeout
  | disconnected
  | event (e : Event F) (portal : Portal)

/-- Where the program is. -/
inductive Loop (F : Type) where
  | head (r : Router F)
  | waiting (r : Router F)
  | returned (r : Router F) (result : Except String Unit)
  | panicked

/-- The state at the head of the loop. -/
def Loop.atHead {F : Type} : Loop F → Option (Router F)
  | .head r => some r
  | _ => none

/-- The state at the wait. -/
def Loop.atWait {F : Type} : Loop F → Option (Router F)
  | .waiting r => some r
  | _ => none

theorem Loop.atHead_eq_some {F : Type} {l : Loop F} {r : Router F} :
    l.atHead = some r ↔ l = .head r := by
  cases l <;> simp [Loop.atHead]

theorem Loop.atWait_eq_some {F : Type} {l : Loop F} {r : Router F} :
    l.atWait = some r ↔ l = .waiting r := by
  cases l <;> simp [Loop.atWait]

theorem Loop.bind_atHead_eq_some {F : Type} {o : Option (Loop F)} {r : Router F} :
    o.bind Loop.atHead = some r ↔ o = some (.head r) := by
  simp only [Option.bind_eq_some_iff, Loop.atHead_eq_some, exists_eq_right]

theorem Loop.bind_atWait_eq_some {F : Type} {o : Option (Loop F)} {r : Router F} :
    o.bind Loop.atWait = some r ↔ o = some (.waiting r) := by
  simp only [Option.bind_eq_some_iff, Loop.atWait_eq_some, exists_eq_right]

/-- Go on, unless the computation has panicked. -/
def Loop.orPanic {F α : Type} (o : Option α) (k : α → Loop F) : Loop F :=
  match o with
  | some r => k r
  | none => .panicked

variable {F : Type} [F64 F]

/-- The state in which the loop starts, after the first connection attempt. -/
def Router.start (zone : Zone) (remote : Screen F) (dial : Dial) : Router F where
  bridge := BridgeClient.connect dial
  space := .new { width := F64.ofInt zone.width.toNat, height := F64.ofInt zone.height.toNat }
    remote .right
  activeId := none
  eventsThisActivation := false
  emergency := .new
  accDx := F64.ofInt 0
  accDy := F64.ofInt 0
  accScroll := F64.ofInt 0
  buttons := 0
  pendingPos := none
  pendingWheel := 0
  published := if (BridgeClient.connect dial).isSome then .local else .noBridge
  released := []

namespace Router
variable (zone : Zone)

/-- Return capture to the compositor, placing the local cursor at the right
edge with the model's current local y. -/
def goLocal (r : Router F) : Option (Router F) := do
  let bridge := r.bridge.map fun b => b.releaseAll.1
  let space ← r.space.forceLocal
  let cursor := (F64.ofInt zone.x.toInt + space.x, F64.ofInt zone.y.toInt + space.y)
  return { r with
    bridge := bridge
    buttons := 0
    space := space
    activeId := none
    released := r.released ++ (r.activeId.map fun id => (id, cursor)).toList
    published := if bridge.isSome then .local else .noBridge }

/-! ## From the head of the loop to the wait -/

/-- Bridge keepalive; a bridge that does not take it is dropped. -/
def keepalive (due : Bool) (r : Router F) : Option (Router F) :=
  match r.bridge with
  | none => some r
  | some b =>
      if due then
        let (b, ok) := b.keepalive
        if ok then some { r with bridge := some b }
        else
          let r := { r with bridge := none, published := .noBridge }
          if r.activeId.isSome then r.goLocal zone else some r
      else some r

def reconnect (due : Bool) (dial : Dial) (r : Router F) : Router F :=
  if r.bridge.isNone && due then
    match BridgeClient.connect dial with
    | some b => { r with bridge := some b.releaseAll.1, published := .local }
    | none => r
  else r

/-- Capture active but no events arriving. -/
def failsafe (silent : Bool) (r : Router F) : Option (Router F) :=
  if r.activeId.isSome && !r.eventsThisActivation && silent then r.goLocal zone else some r

/-- Coalesced pointer state is only meaningful while remote. -/
def clearPending (r : Router F) : Router F :=
  if r.activeId.isNone then { r with pendingPos := none, pendingWheel := 0 } else r

/-- The detents of one report: `.clamp(-127, 127) as i8`. -/
def detents (wheel : Int32) : Int8 := (max (-127) (min 127 wheel)).toInt8

/-- The coalesced position, if there is one. -/
def sendPos (b : BridgeClient) (pos : Option (UInt16 × UInt16)) : BridgeClient :=
  match pos with
  | some (x, y) => (b.pointerAbs x y).1
  | none => b

/-- The coalesced detents, if there are any. -/
def sendWheel (b : BridgeClient) (wheel : Int32) : BridgeClient :=
  if wheel ≠ 0 then (b.pointerWheel (detents wheel)).1 else b

/-- Flush coalesced position and wheel once the throttle window opens. -/
def flush (due : Bool) (r : Router F) : Router F :=
  if (r.pendingPos.isSome || r.pendingWheel != 0) && due then
    { r with
      bridge := r.bridge.map fun b => sendWheel (sendPos b r.pendingPos) r.pendingWheel
      pendingPos := none
      pendingWheel := 0 }
  else r

def top (t : Top) (r : Router F) : Loop F :=
  if t.shutdown then .orPanic (r.goLocal zone) fun r => .returned r (.ok ())
  else
    .orPanic (r.keepalive zone t.keepaliveDue) fun r =>
      .orPanic ((r.reconnect t.reconnectDue t.dial).failsafe zone t.silent) fun r =>
        .waiting (r.clearPending.flush t.flushDue)

/-! ## From the wait to the head of the loop -/

/-- The activation of a capture that the bridge can take. -/
def activate (r : Router F) (b : BridgeClient) (activationId : UInt32) (cursorY : F) :
    Option (Router F) := do
  let space ← r.space.enterRemote (cursorY - F64.ofInt zone.y.toInt)
  let (cx, cy) ← space.canonical
  return { r with
    activeId := some activationId
    eventsThisActivation := false
    emergency := .new
    accDx := F64.ofInt 0
    accDy := F64.ofInt 0
    accScroll := F64.ofInt 0
    pendingPos := none
    pendingWheel := 0
    space := space
    bridge := some (b.pointerAbs cx cy).1
    published := .remote }

/-- `go_local`, if there is something to return from. -/
def goLocalIfActive (r : Router F) : Option (Router F) :=
  if r.activeId.isSome then r.goLocal zone else some r

def onPortal (portal : Portal) (r : Router F) : PortalEvent F → Loop F
  | .activated activationId _ cursorY =>
      match r.bridge with
      | none =>
          -- Never capture into a void.
          .orPanic ({ r with activeId := some activationId }.goLocal zone) .head
      | some b => .orPanic (r.activate zone b activationId cursorY) .head
  | .deactivated => .orPanic (r.goLocalIfActive zone) .head
  | .disabled =>
      .orPanic (r.goLocalIfActive zone) fun r =>
        match portal.enable with
        | .error e => .returned r (.error ("re-enable failed: " ++ e))
        | .ok () => .head r
  | .zonesChanged => .orPanic (r.goLocal zone) fun r => .returned r (.error "zones changed")

/-- A lock ends the capture; an unlock re-arms the barriers. -/
def onScreenSaver (portal : Portal) (r : Router F) (locked : Bool) : Loop F :=
  if locked then .orPanic (r.goLocalIfActive zone) .head
  else
    match portal.armBarriers with
    | .error e => .returned r (.error ("re-arm after unlock: " ++ e))
    | .ok () =>
        match portal.enable with
        | .error e => .returned r (.error ("re-enable after unlock: " ++ e))
        | .ok () => .head r

def onKey (r : Router F) (code : UInt32) (pressed : Bool) : Loop F :=
  match keycodeToUsage code.toUInt16 with
  | none => .head r
  | some usage =>
      let (emergency, full) := r.emergency.update usage pressed
      if full then .orPanic ({ r with emergency := .new }.goLocal zone) .head
      else
        .head { r with
          emergency := emergency
          bridge := r.bridge.map fun b => (if pressed then b.keyDown usage else b.keyUp usage).1 }

def onButton (r : Router F) (code : UInt32) (pressed : Bool) : Loop F :=
  match buttonToBit code.toUInt16 with
  | none => .head r
  | some bit =>
      let buttons := if pressed then r.buttons ||| bit else r.buttons &&& ~~~bit
      match r.bridge with
      | none => .head { r with buttons := buttons }
      | some b =>
          -- Clicks must land at the newest position.
          .head { r with
            buttons := buttons
            pendingPos := none
            bridge := some ((sendPos b r.pendingPos).pointerButton buttons).1 }

/-- 120ths of a detent, or whole detents. -/
def discreteClicks (y : Int32) : Int32 := if y.abs ≥ 120 then y / 120 else y

def onScrollDelta (r : Router F) (dy : F) : Router F :=
  let acc := r.accScroll + dy
  let clicks := F64.truncI32 (acc / F64.ofInt 15)
  if clicks ≠ 0 then
    { r with
      accScroll := acc - F64.ofInt clicks.toInt * F64.ofInt 15
      pendingWheel := r.pendingWheel - clicks }
  else { r with accScroll := acc }

def onFrame (r : Router F) : Loop F :=
  if F64.eq r.accDx (F64.ofInt 0) && F64.eq r.accDy (F64.ofInt 0) then .head r
  else
    .orPanic (r.space.applyDelta r.accDx r.accDy) fun (space, crossing) =>
      let r := { r with space := space, accDx := F64.ofInt 0, accDy := F64.ofInt 0 }
      if crossing = .toLocal then .orPanic (r.goLocal zone) .head
      else if r.space.target = .remote then
        .orPanic r.space.canonical fun pos => .head { r with pendingPos := some pos }
      else .head r

def onCapture (r : Router F) (e : CaptureEvent F) : Loop F :=
  if r.activeId.isNone then .head r -- stray events while local
  else
    let r := { r with eventsThisActivation := true }
    match e with
    | .key code pressed _ => r.onKey zone code pressed
    | .button code pressed => r.onButton code pressed
    | .motion dx dy => .head { r with accDx := r.accDx + dx, accDy := r.accDy + dy }
    | .scrollDiscrete _ y => .head { r with pendingWheel := r.pendingWheel - discreteClicks y }
    | .scrollDelta _ dy => .head (r.onScrollDelta dy)
    | .frame => r.onFrame zone
    | .disconnected =>
        .orPanic (r.goLocal zone) fun r => .returned r (.error "EI stream disconnected")

def receive (r : Router F) : Recv F → Loop F
  | .timeout => .head r
  | .disconnected => .returned r (.error "event channel closed")
  | .event (.portal e) portal => r.onPortal zone portal e
  | .event (.capture e) _ => r.onCapture zone e
  | .event (.screenSaver locked) portal => r.onScreenSaver zone portal locked

end Router

/-- One half of an iteration. -/
inductive Half (F : Type) where
  | top (t : Top)
  | receive (e : Recv F)

/-- The loop, half an iteration at a time. -/
def router (zone : Zone) : Lts (Loop F) (Half F) where
  step
    | .head r, .top t => some (r.top zone t)
    | .waiting r, .receive e => some (r.receive zone e)
    | _, _ => none

/-- What the clock says is asked at the head. -/
theorem step_top {zone : Zone} {l l' : Loop F} {t : Top}
    (h : (router zone).step l (.top t) = some l') : ∃ r, l = .head r ∧ r.top zone t = l' := by
  cases l with
  | head r => exact ⟨r, rfl, Option.some.inj h⟩
  | waiting r => cases h
  | returned r result => cases h
  | panicked => cases h

/-- Events are received at the wait. -/
theorem step_receive {zone : Zone} {l l' : Loop F} {e : Recv F}
    (h : (router zone).step l (.receive e) = some l') :
    ∃ r, l = .waiting r ∧ r.receive zone e = l' := by
  cases l with
  | head r => cases h
  | waiting r => exact ⟨r, rfl, Option.some.inj h⟩
  | returned r result => cases h
  | panicked => cases h

theorem exec_receive {zone : Zone} {l l' : Loop F} {before : List (Half F)} {e : Recv F}
    (h : (router zone).exec l (before ++ [.receive e]) = some l') :
    ∃ r, (router zone).exec l before = some (.waiting r) ∧ r.receive zone e = l' := by
  obtain ⟨l₁, hbefore, hstep⟩ := (router zone).exec_snoc.mp h
  obtain ⟨r, rfl, hr⟩ := step_receive hstep
  exact ⟨r, hbefore, hr⟩

/-! ## What the parts of an iteration leave behind -/

namespace Router
variable {zone : Zone} {r r' : Router F}

theorem activeId_goLocal (h : r.goLocal zone = some r') : r'.activeId = none := by
  obtain ⟨space, -, h⟩ := Option.bind_eq_some_iff.mp h
  cases h
  rfl

theorem goLocalIfActive_cases (h : r.goLocalIfActive zone = some r') :
    r.goLocal zone = some r' ∨ r.activeId = none ∧ r' = r := by
  rw [goLocalIfActive] at h
  split at h
  · exact .inl h
  · next hid =>
      cases h
      exact .inr ⟨by simpa using hid, rfl⟩

theorem activeId_goLocalIfActive (h : r.goLocalIfActive zone = some r') :
    r'.activeId = none := by
  rcases goLocalIfActive_cases h with hlocal | ⟨hid, rfl⟩
  · exact activeId_goLocal hlocal
  · exact hid

theorem failsafe_cases {silent : Bool} (h : r.failsafe zone silent = some r') :
    r.goLocal zone = some r' ∨ r' = r := by
  rw [failsafe] at h
  split at h
  · exact .inl h
  · exact .inr (Option.some.inj h).symm

/-- Without the bridge a capture goes back to the compositor. -/
theorem keepalive_cases {due : Bool} (h : r.keepalive zone due = some r') :
    r' = r ∨ (∃ b, r.bridge = some b ∧ r' = { r with bridge := some b.keepalive.1 }) ∨
      (r.activeId = none ∧ r' = { r with bridge := none, published := .noBridge }) ∨
      { r with bridge := none, published := .noBridge }.goLocal zone = some r' := by
  rw [keepalive] at h
  split at h
  · exact .inl (Option.some.inj h).symm
  · next b hb =>
      split at h
      · simp only at h
        split at h
        · exact .inr (.inl ⟨b, hb, (Option.some.inj h).symm⟩)
        · split at h
          · exact .inr (.inr (.inr h))
          · next hid => exact .inr (.inr (.inl ⟨by simpa using hid, (Option.some.inj h).symm⟩))
      · exact .inl (Option.some.inj h).symm

theorem reconnect_cases {F : Type} (r : Router F) (due : Bool) (dial : Dial) :
    r.reconnect due dial = r ∨ r.bridge = none ∧ ∃ b, BridgeClient.connect dial = some b ∧
      r.reconnect due dial = { r with bridge := some b.releaseAll.1, published := .local } := by
  rw [reconnect]
  split
  · next hdue =>
      rw [Bool.and_eq_true, Option.isNone_iff_eq_none] at hdue
      cases hdial : BridgeClient.connect dial with
      | none => exact .inl rfl
      | some b => exact .inr ⟨hdue.1, b, rfl, rfl⟩
  · exact .inl rfl

/-- While a capture is on, what is pending stays. -/
theorem clearPending_of_active {F : Type} {r : Router F} (hid : r.activeId.isSome) :
    r.clearPending = r := by
  rw [clearPending, if_neg]
  rw [Option.isNone_iff_eq_none]
  exact Option.ne_none_iff_isSome.mpr hid

theorem activeId_clearPending {F : Type} (r : Router F) :
    r.clearPending.activeId = r.activeId := by
  rw [clearPending]
  split <;> rfl

theorem activate_eq_some {b : BridgeClient} {id : UInt32} {y : F}
    (h : r.activate zone b id y = some r') :
    ∃ space cx cy, r.space.enterRemote (y - F64.ofInt zone.y.toInt) = some space ∧
      space.canonical = some (cx, cy) ∧
      r' = { r with
        activeId := some id
        eventsThisActivation := false
        emergency := .new
        accDx := F64.ofInt 0
        accDy := F64.ofInt 0
        accScroll := F64.ofInt 0
        pendingPos := none
        pendingWheel := 0
        space := space
        bridge := some (b.pointerAbs cx cy).1
        published := .remote } := by
  obtain ⟨space, hspace, h⟩ := Option.bind_eq_some_iff.mp h
  obtain ⟨⟨cx, cy⟩, hcanonical, h⟩ := Option.bind_eq_some_iff.mp h
  cases h
  exact ⟨space, cx, cy, hspace, hcanonical, rfl⟩

/-- An activation is taken, or refused and given back, unless the loop panics. -/
theorem receive_activated_cases (zone : Zone) (r : Router F) (id : UInt32) (x y : F)
    (portal : Portal) :
    r.receive zone (.event (.portal (.activated id x y)) portal) = .panicked ∨
      ∃ r', r.receive zone (.event (.portal (.activated id x y)) portal) = .head r' ∧
        ({ r with activeId := some id, bridge := none }.goLocal zone = some r' ∨
          ∃ b, r.bridge = some b ∧ r.activate zone b id y = some r') := by
  rw [receive, onPortal]
  cases hb : r.bridge with
  | none =>
      cases hlocal : Router.goLocal zone { r with activeId := some id, bridge := none } with
      | none => exact .inl rfl
      | some r' => exact .inr ⟨r', rfl, .inl rfl⟩
  | some b =>
      simp only
      cases hact : r.activate zone b id y with
      | none => exact .inl rfl
      | some r' => exact .inr ⟨r', rfl, .inr ⟨b, rfl, hact⟩⟩

/-- An activation that is on afterwards was taken. -/
theorem activate_of_receive {id : UInt32} {x y : F} {portal : Portal}
    (h : r.receive zone (.event (.portal (.activated id x y)) portal) = .head r')
    (hactive : r'.activeId.isSome) : ∃ b, r.bridge = some b ∧ r.activate zone b id y = some r' := by
  rcases receive_activated_cases zone r id x y portal with heq | ⟨r₁, heq, htaken⟩
  · rw [heq] at h
    cases h
  · rw [heq] at h
    cases h
    rcases htaken with hlocal | htaken
    · rw [activeId_goLocal hlocal] at hactive
      cases hactive
    · exact htaken

end Router

end Beaglewing.Input
