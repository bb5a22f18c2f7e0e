/-
# `Input.Order` — keys, buttons and the wheel on the wire

What the hand does during one activation, without the connection and without
the coalescing of positions: `hand` reads the halves of the loop and says
which key, button and wheel messages they mean, and where a button is meant.
Motion counts from its frame on, and detents from the next opening of the
throttle window.

The router writes these messages in this order, and before each button
message the last position it has written is the one that the button is meant
at (`discrete_order`).

| half | the hand | its messages |
|---|---|---|
| key | | the key |
| button | the buttons | all buttons, at the position |
| motion, scroll | adds up | |
| frame | moves the position | |
| throttle | takes the detents | the detents, if there are any |
-/
import Beaglewing.Base.Mealy
import Beaglewing.Input.Newest

namespace Beaglewing.Input

open Base Bridge

/-! ## The messages of a connection, and those with an order -/

/-- The connection after some calls, whether they succeed or not. -/
def BridgeClient.sendAll (b : BridgeClient) (msgs : List Message) : BridgeClient :=
  msgs.foldl (fun b m => (b.send m.msgType m.payload).1) b

theorem sendAll_append (b : BridgeClient) (msgs msgs' : List Message) :
    b.sendAll (msgs ++ msgs') = (b.sendAll msgs).sendAll msgs' :=
  List.foldl_append

theorem send_of_broken {b : BridgeClient} (h : b.stream.broken = true) (msgType : UInt8)
    (payload : List UInt8) : (b.send msgType payload).1 = b := by
  rw [BridgeClient.send, TcpStream.writeAll_of_broken h]

/-- As long as no call has failed, each has written its message; after that
nothing is written. -/
theorem written_sendAll (b : BridgeClient) (msgs : List Message) :
    (b.sendAll msgs).stream.written <+: b.stream.written ++ msgs.flatMap Message.bytes ∧
      ((b.sendAll msgs).stream.broken = false →
        (b.sendAll msgs).stream.written = b.stream.written ++ msgs.flatMap Message.bytes) := by
  induction msgs using List.reverseRecOn with
  | nil => simp [BridgeClient.sendAll]
  | append_singleton msgs m ih =>
      obtain ⟨hpre, hall⟩ := ih
      rw [sendAll_append, List.flatMap_append, List.flatMap_singleton, ← List.append_assoc]
      cases hb : (b.sendAll msgs).stream.broken with
      | true =>
          have hsend : (b.sendAll msgs).sendAll [m] = b.sendAll msgs := send_of_broken hb _ _
          rw [hsend, hb]
          exact ⟨hpre.trans (List.prefix_append _ _), nofun⟩
      | false =>
          rw [← hall hb]
          exact ⟨TcpStream.prefix_writeAll _ _, fun h => (written_send h).2⟩

/-- A message that has a place among the others, a button with the position
it is at. -/
inductive Discrete where
  | key (usage : UInt8) (pressed : Bool)
  | button (buttons : UInt8) (pos : Option (UInt16 × UInt16))
  | wheel (detents : Int8)
  deriving DecidableEq

def Message.discrete (pos : Option (UInt16 × UInt16)) : Message → Option Discrete
  | .keyDown usage => some (.key usage true)
  | .keyUp usage => some (.key usage false)
  | .pointerButton buttons => some (.button buttons pos)
  | .pointerWheel detents => some (.wheel detents)
  | .keepalive => none
  | .pointerAbs _ _ => none
  | .releaseAll => none

/-- The key, button and wheel messages, each button with the last position
before it. -/
def discretes : Option (UInt16 × UInt16) → List Message → List Discrete
  | _, [] => []
  | pos, m :: msgs => (m.discrete pos).toList ++ discretes (m.position.or pos) msgs

theorem lastAbs_append (msgs msgs' : List Message) :
    lastAbs (msgs ++ msgs') = (lastAbs msgs').or (lastAbs msgs) := by
  rw [lastAbs, List.filterMap_append, List.getLast?_append]
  rfl

theorem lastAbs_cons (m : Message) (msgs : List Message) :
    lastAbs (m :: msgs) = (lastAbs msgs).or m.position := by
  rw [← List.singleton_append, lastAbs_append]
  cases m <;> rfl

theorem discretes_append (pos : Option (UInt16 × UInt16)) (msgs msgs' : List Message) :
    discretes pos (msgs ++ msgs') =
      discretes pos msgs ++ discretes ((lastAbs msgs).or pos) msgs' := by
  induction msgs generalizing pos with
  | nil => rfl
  | cons m msgs ih =>
      rw [List.cons_append, discretes, discretes, ih, lastAbs_cons, Option.or_assoc,
        List.append_assoc]

/-! ## The hand -/

structure Hand (F : Type) where
  space : Space F
  accDx : F
  accDy : F
  accScroll : F
  buttons : UInt8
  wheel : Int32

def Router.hand {F : Type} (r : Router F) : Hand F :=
  ⟨r.space, r.accDx, r.accDy, r.accScroll, r.buttons, r.pendingWheel⟩

/-- A captured bridge is there. -/
theorem reconnect_of_active {F : Type} {r : Router F} {due : Bool} {dial : Dial} (h : Ok r)
    (hid : (r.reconnect due dial).activeId.isSome) : r.reconnect due dial = r := by
  rcases r.reconnect_cases due dial with heq | ⟨hb, b, -, heq⟩
  · exact heq
  · have hnone := h.local_of_bridge hb
    rw [heq, show ({ r with bridge := _, published := _ } : Router F).activeId = none from hnone]
      at hid
    cases hid

variable {F : Type} [F64 F]

namespace Hand

def scrollDelta (h : Hand F) (dy : F) : Hand F :=
  let acc := h.accScroll + dy
  let clicks := F64.truncI32 (acc / F64.ofInt 15)
  if clicks ≠ 0 then
    { h with
      accScroll := acc - F64.ofInt clicks.toInt * F64.ofInt 15
      wheel := h.wheel - clicks }
  else { h with accScroll := acc }

/-- The position after the motion of the frame. -/
def frame (h : Hand F) : Hand F :=
  if F64.eq h.accDx (F64.ofInt 0) && F64.eq h.accDy (F64.ofInt 0) then h
  else
    match h.space.applyDelta h.accDx h.accDy with
    | none => h
    | some (space, _) => { h with space := space, accDx := F64.ofInt 0, accDy := F64.ofInt 0 }

def button (h : Hand F) (bit : UInt8) (pressed : Bool) : Hand F :=
  { h with buttons := if pressed then h.buttons ||| bit else h.buttons &&& ~~~bit }

def capture (h : Hand F) : CaptureEvent F → Hand F × List Discrete
  | .key code pressed _ => (h, ((keycodeToUsage code.toUInt16).map (.key · pressed)).toList)
  | .button code pressed =>
      match buttonToBit code.toUInt16 with
      | none => (h, [])
      | some bit =>
          (h.button bit pressed, [.button (h.button bit pressed).buttons h.space.canonical])
  | .motion dx dy => ({ h with accDx := h.accDx + dx, accDy := h.accDy + dy }, [])
  | .scrollDiscrete _ y => ({ h with wheel := h.wheel - Router.discreteClicks y }, [])
  | .scrollDelta _ dy => (h.scrollDelta dy, [])
  | .frame => (h.frame, [])
  | .disconnected => (h, [])

/-- The throttle window opens. -/
def flush (h : Hand F) (due : Bool) : Hand F × List Discrete :=
  if due && h.wheel != 0 then ({ h with wheel := 0 }, [.wheel (Router.detents h.wheel)])
  else (h, [])

end Hand

/-- The key, button and wheel messages that the halves of an activation mean. -/
def hand : Mealy (Hand F) (Half F) (List Discrete) where
  step h
    | .top t => h.flush t.flushDue
    | .receive (.event (.capture e) _) => h.capture e
    | .receive _ => (h, [])

/-! ## One half of an iteration -/

/-- What a half does while the activation goes on: the hand moves, and what
is sent are the messages it means. -/
structure Does (r : Router F) (out : Hand F × List Discrete) (r' : Router F) : Prop where
  active : r.activeId.isSome
  hand : r'.hand = out.1
  sends : ∀ b, r.bridge = some b → ∃ msgs, r'.bridge = some (b.sendAll msgs) ∧
    ∀ pos, r.pendingPos.or pos = r.space.canonical →
      discretes pos msgs = out.2 ∧ r'.pendingPos.or ((lastAbs msgs).or pos) = r'.space.canonical

def LoopDoes (r : Router F) (out : Hand F × List Discrete) (l : Loop F) : Prop :=
  ∀ r', l.atHead = some r' ∨ l.atWait = some r' → r'.activeId.isSome → Does r out r'

theorem loopDoes_head {r r' : Router F} {out : Hand F × List Discrete}
    (h : r'.activeId.isSome → Does r out r') : LoopDoes r out (.head r') := by
  rintro r₁ (h₁ | h₁)
  · cases h₁
    exact h
  · cases h₁

theorem loopDoes_orPanic {α : Type} {r : Router F} {out : Hand F × List Discrete} {o : Option α}
    {k : α → Loop F} (h : ∀ a, o = some a → LoopDoes r out (k a)) :
    LoopDoes r out (.orPanic o k) := by
  cases o with
  | none => rintro r₁ (h₁ | h₁) <;> cases h₁
  | some a => exact h a rfl

theorem loopDoes_returned (r r' : Router F) (out : Hand F × List Discrete)
    (result : Except String Unit) : LoopDoes r out (.returned r' result) := by
  rintro r₁ (h₁ | h₁) <;> cases h₁

/-- The activation is over. -/
theorem loopDoes_over (r : Router F) {r' : Router F} (hid : r'.activeId = none)
    (out : Hand F × List Discrete) : LoopDoes r out (.head r') := by
  refine loopDoes_head ?_
  intro hactive
  rw [hid] at hactive
  cases hactive

/-- `go_local` ends the activation. -/
theorem loopDoes_goLocal {zone : Zone} (r r₁ : Router F) (out : Hand F × List Discrete) :
    LoopDoes r out (.orPanic (r₁.goLocal zone) .head) := by
  refine loopDoes_orPanic ?_
  intro r' hr'
  exact loopDoes_over r (Router.activeId_goLocal hr') out

/-- Nothing is sent, and no position held back. -/
theorem does_quiet {r r' : Router F} {h : Hand F} (hid : r.activeId.isSome) (hhand : r'.hand = h)
    (hbridge : r'.bridge = r.bridge) (hpending : r'.pendingPos = r.pendingPos)
    (hspace : r'.space = r.space) : Does r (h, []) r' where
  active := hid
  hand := hhand
  sends b hb := by
    refine ⟨[], hbridge.trans hb, ?_⟩
    intro pos hpos
    refine ⟨rfl, ?_⟩
    rw [hpending, hspace]
    exact hpos

theorem sendPos_eq (b : BridgeClient) (pos : Option (UInt16 × UInt16)) :
    Router.sendPos b pos = b.sendAll (pos.toList.map fun p => .pointerAbs p.1 p.2) := by
  cases pos <;> rfl

theorem lastAbs_pos (pos : Option (UInt16 × UInt16)) :
    lastAbs (pos.toList.map fun p => .pointerAbs p.1 p.2) = pos := by
  cases pos <;> rfl

theorem discretes_pos (pos pos' : Option (UInt16 × UInt16)) :
    discretes pos (pos'.toList.map fun p => .pointerAbs p.1 p.2) = [] := by
  cases pos' <;> rfl

theorem sendWheel_eq (b : BridgeClient) (wheel : Int32) :
    Router.sendWheel b wheel =
      b.sendAll (if wheel ≠ 0 then [.pointerWheel (Router.detents wheel)] else []) := by
  rw [Router.sendWheel]
  split <;> rfl

/-- The throttle sends the position that was held back, then the detents. -/
theorem does_flush {r : Router F} {due : Bool} (hid : r.activeId.isSome) :
    Does r (r.hand.flush due) (r.flush due) := by
  have hwheel : r.hand.wheel = r.pendingWheel := rfl
  rw [Router.flush, Hand.flush, hwheel]
  by_cases hpending : (r.pendingPos.isSome || r.pendingWheel != 0) && due
  · rw [if_pos hpending]
    obtain ⟨-, rfl⟩ := Bool.and_eq_true_iff.mp hpending
    refine ⟨hid, ?_, ?_⟩
    · by_cases hw : r.pendingWheel = 0
      · simp [Router.hand, hw]
      · simp [Router.hand, hw]
    · intro b' hb'
      refine ⟨(r.pendingPos.toList.map fun p => .pointerAbs p.1 p.2) ++
        if r.pendingWheel ≠ 0 then [.pointerWheel (Router.detents r.pendingWheel)] else [], ?_, ?_⟩
      · rw [sendAll_append, ← sendPos_eq, ← sendWheel_eq, hb']
        rfl
      · intro pos hpos
        rw [discretes_append, discretes_pos, lastAbs_pos]
        by_cases hw : r.pendingWheel = 0
        · simp [hw, lastAbs_pos, discretes, hpos]
        · simp [hw, lastAbs_snoc, lastAbs_pos, discretes, hpos, Message.discrete, Message.position]
  · rw [if_neg hpending]
    have hnone : ¬ (due && r.pendingWheel != 0) = true := by
      intro h
      obtain ⟨hdue, hw⟩ := Bool.and_eq_true_iff.mp h
      exact hpending (by simp [hdue, hw])
    rw [if_neg hnone]
    exact does_quiet hid rfl rfl rfl rfl

theorem does_onButton {r : Router F} {code : UInt32} {pressed : Bool}
    (hid : r.activeId.isSome) (hbridge : r.bridge.isSome) :
    LoopDoes r (r.hand.capture (.button code pressed)) (r.onButton code pressed) := by
  rw [Router.onButton, Hand.capture]
  cases buttonToBit code.toUInt16 with
  | none => exact loopDoes_head fun _ => does_quiet hid rfl rfl rfl rfl
  | some bit =>
      obtain ⟨b, hb⟩ := Option.isSome_iff_exists.mp hbridge
      simp only [hb]
      refine loopDoes_head fun _ => ⟨hid, rfl, ?_⟩
      intro b' hb'
      rw [hb] at hb'
      cases hb'
      refine ⟨(r.pendingPos.toList.map fun p => .pointerAbs p.1 p.2) ++
        [.pointerButton (r.hand.button bit pressed).buttons], ?_, ?_⟩
      · rw [sendAll_append, ← sendPos_eq]
        rfl
      · intro pos hpos
        rw [discretes_append, discretes_pos, lastAbs_pos, hpos, lastAbs_snoc, lastAbs_pos]
        exact ⟨rfl, hpos⟩

theorem does_onKey {zone : Zone} {r : Router F} {code : UInt32} {pressed : Bool} {time : UInt64}
    (hid : r.activeId.isSome) :
    LoopDoes r (r.hand.capture (.key code pressed time)) (r.onKey zone code pressed) := by
  rw [Router.onKey, Hand.capture]
  cases keycodeToUsage code.toUInt16 with
  | none => exact loopDoes_head fun _ => does_quiet hid rfl rfl rfl rfl
  | some usage =>
      cases hfull : (r.emergency.update usage pressed).2 with
      | true =>
          simp only [hfull, if_true]
          exact loopDoes_goLocal _ _ _
      | false =>
          simp only [hfull, Bool.false_eq_true, if_false]
          refine loopDoes_head fun _ => ⟨hid, rfl, ?_⟩
          intro b hb
          refine ⟨[if pressed then .keyDown usage else .keyUp usage], ?_, ?_⟩
          · rw [hb]
            cases pressed <;> rfl
          · intro pos hpos
            cases pressed <;> exact ⟨rfl, hpos⟩

theorem does_onFrame {zone : Zone} {r : Router F} (h : Captured r) :
    LoopDoes r (r.hand.capture .frame) (r.onFrame zone) := by
  have hdx : r.hand.accDx = r.accDx := rfl
  have hdy : r.hand.accDy = r.accDy := rfl
  have hspace : r.hand.space = r.space := rfl
  rw [Router.onFrame, Hand.capture, Hand.frame, hdx, hdy, hspace]
  split
  · exact loopDoes_head fun _ => does_quiet h.active rfl rfl rfl rfl
  · refine loopDoes_orPanic ?_
    rintro ⟨space, crossing⟩ hs
    by_cases hc : crossing = .toLocal
    · simp only [hc, if_true]
      exact loopDoes_goLocal _ _ _
    · have hremote := Space.remote_of_applyDelta hs hc h.remote
      simp only [hc, if_false, hremote, if_true, hs]
      refine loopDoes_orPanic ?_
      intro pos hpos
      refine loopDoes_head fun _ => ⟨h.active, rfl, ?_⟩
      intro b hb
      refine ⟨[], hb, ?_⟩
      intro last _
      exact ⟨rfl, hpos.symm⟩

theorem hand_onScrollDelta (r : Router F) (dy : F) :
    (r.onScrollDelta dy).hand = r.hand.scrollDelta dy := by
  have hscroll : r.hand.accScroll = r.accScroll := rfl
  rw [Router.onScrollDelta, Hand.scrollDelta, hscroll]
  split <;> rfl

theorem does_onCapture {zone : Zone} {r : Router F} {e : CaptureEvent F} (h : Ok r) :
    LoopDoes r (r.hand.capture e) (r.onCapture zone e) := by
  rw [Router.onCapture]
  split
  · next hid => exact loopDoes_over r (Option.isNone_iff_eq_none.mp hid) _
  · next hid =>
      have hcap := h.capturing (Bool.eq_false_of_not_eq_true hid)
      have hid := hcap.active
      -- The flag is no part of what the hand does.
      have hflag : ∀ {out : Hand F × List Discrete} {l : Loop F},
          LoopDoes { r with eventsThisActivation := true } out l → LoopDoes r out l := by
        intro out l hl r' hr' hid'
        obtain ⟨hactive, hhand, hsends⟩ := hl r' hr' hid'
        exact ⟨hactive, hhand, hsends⟩
      cases e with
      | key code pressed time =>
          exact hflag (does_onKey hid)
      | button code pressed =>
          exact hflag (does_onButton hid hcap.bridge)
      | motion dx dy => exact loopDoes_head fun _ => does_quiet hid rfl rfl rfl rfl
      | scrollDiscrete x y => exact loopDoes_head fun _ => does_quiet hid rfl rfl rfl rfl
      | scrollDelta dx dy =>
          have hhand := hand_onScrollDelta { r with eventsThisActivation := true } dy
          refine loopDoes_head fun _ => ?_
          rw [Router.onScrollDelta] at hhand ⊢
          split at hhand
          · next hclicks =>
              simp only [if_pos hclicks]
              exact does_quiet hid hhand rfl rfl rfl
          · next hclicks =>
              simp only [if_neg hclicks]
              exact does_quiet hid hhand rfl rfl rfl
      | frame => exact hflag (does_onFrame hcap)
      | disconnected => exact loopDoes_orPanic fun _ _ => loopDoes_returned _ _ _ _

/-- No other event leaves an activation on, or it changes nothing. -/
theorem does_receive {zone : Zone} {r : Router F} {e : Recv F} (h : Ok r)
    (he : ∀ id x y portal, e ≠ .event (.portal (.activated id x y)) portal) :
    LoopDoes r (hand.step r.hand (.receive e)) (r.receive zone e) := by
  cases e with
  | timeout => exact loopDoes_head fun hid => does_quiet hid rfl rfl rfl rfl
  | disconnected => exact loopDoes_returned _ _ _ _
  | event e portal =>
      cases e with
      | portal e =>
          cases e with
          | activated id x y => exact absurd rfl (he id x y portal)
          | deactivated =>
              refine loopDoes_orPanic ?_
              intro r' hr'
              exact loopDoes_over r (Router.activeId_goLocalIfActive hr') _
          | disabled =>
              refine loopDoes_orPanic ?_
              intro r' hr'
              cases portal.enable with
              | error e => exact loopDoes_returned _ _ _ _
              | ok _ => exact loopDoes_over r (Router.activeId_goLocalIfActive hr') _
          | zonesChanged => exact loopDoes_orPanic fun _ _ => loopDoes_returned _ _ _ _
      | capture e => exact does_onCapture h
      | screenSaver locked =>
          cases locked with
          | true =>
              refine loopDoes_orPanic ?_
              intro r' hr'
              exact loopDoes_over r (Router.activeId_goLocalIfActive hr') _
          | false =>
              show LoopDoes r _ (r.onScreenSaver zone portal false)
              rw [Router.onScreenSaver, if_neg (by decide)]
              cases portal.armBarriers with
              | error e => exact loopDoes_returned _ _ _ _
              | ok _ =>
                  cases portal.enable with
                  | error e => exact loopDoes_returned _ _ _ _
                  | ok _ => exact loopDoes_head fun hid => does_quiet hid rfl rfl rfl rfl

theorem does_trans {r r₁ r₂ : Router F} {out out' : Hand F × List Discrete}
    (h : Does r out r₁) (h' : Does r₁ out' r₂) : Does r (out'.1, out.2 ++ out'.2) r₂ where
  active := h.active
  hand := h'.hand
  sends b hb := by
    obtain ⟨msgs, hb₁, hmsgs⟩ := h.sends b hb
    obtain ⟨msgs', hb₂, hmsgs'⟩ := h'.sends _ hb₁
    refine ⟨msgs ++ msgs', ?_, ?_⟩
    · rw [sendAll_append]
      exact hb₂
    · intro pos hpos
      obtain ⟨hdiscrete, hpos₁⟩ := hmsgs pos hpos
      obtain ⟨hdiscrete', hpos₂⟩ := hmsgs' _ hpos₁
      refine ⟨by rw [discretes_append, hdiscrete, hdiscrete'], ?_⟩
      rw [lastAbs_append, Option.or_assoc]
      exact hpos₂

theorem does_keepalive {zone : Zone} {r r' : Router F} {due : Bool}
    (h : r.keepalive zone due = some r') (hid : r'.activeId.isSome) :
    Does r (r.hand, []) r' := by
  rcases Router.keepalive_cases h with rfl | ⟨b, hb, rfl⟩ | ⟨hnone, rfl⟩ | hlocal
  · exact does_quiet hid rfl rfl rfl rfl
  · refine ⟨hid, rfl, ?_⟩
    intro b' hb'
    rw [hb] at hb'
    cases hb'
    exact ⟨[.keepalive], rfl, fun pos hpos => ⟨rfl, hpos⟩⟩
  · rw [hnone] at hid
    cases hid
  · rw [Router.activeId_goLocal hlocal] at hid
    cases hid

theorem eq_of_failsafe {zone : Zone} {r r' : Router F} {silent : Bool}
    (h : r.failsafe zone silent = some r') (hid : r'.activeId.isSome) : r' = r := by
  rcases Router.failsafe_cases h with hlocal | heq
  · rw [Router.activeId_goLocal hlocal] at hid
    cases hid
  · exact heq

theorem activeId_flush {F : Type} (r : Router F) (due : Bool) :
    (r.flush due).activeId = r.activeId := by
  rw [Router.flush]
  split <;> rfl

theorem does_top {zone : Zone} {r : Router F} (t : Top) (h : Ok r) :
    LoopDoes r (hand.step r.hand (.top t)) (r.top zone t) := by
  rw [Router.top]
  split
  · exact loopDoes_orPanic fun _ _ => loopDoes_returned _ _ _ _
  · refine loopDoes_orPanic ?_
    intro r₁ h₁
    refine loopDoes_orPanic ?_
    rintro r₂ h₂ r' (hr' | hr') hid
    · cases hr'
    · cases hr'
      rw [activeId_flush, Router.activeId_clearPending] at hid
      rw [Router.clearPending_of_active hid]
      obtain rfl := eq_of_failsafe h₂ hid
      have hreconnect := reconnect_of_active (ok_keepalive h h₁) hid
      rw [hreconnect] at hid ⊢
      have hkeep := does_keepalive h₁ hid
      have hflush : Does r₁ (r₁.hand.flush t.flushDue) (r₁.flush t.flushDue) := does_flush hid
      rw [hkeep.hand] at hflush
      exact does_trans hkeep hflush

/-! ## Runs -/

def Half.activates {F : Type} : Half F → Bool
  | .receive (.event (.portal (.activated _ _ _)) _) => true
  | _ => false

/-- What the router has done since it was in the state `r₀`, in which `pos`
was the last position sent on the connection `b₀`. -/
def Since (r₀ : Router F) (b₀ : BridgeClient) (pos : UInt16 × UInt16) (halves : List (Half F))
    (l : Loop F) : Prop :=
  ∀ r, l.atHead = some r ∨ l.atWait = some r → r.activeId.isSome →
    r.hand = hand.run r₀.hand halves ∧
      ∃ msgs, r.bridge = some (b₀.sendAll msgs) ∧
        discretes (some pos) msgs = (hand.outputs r₀.hand halves).flatten ∧
        r.pendingPos.or ((lastAbs msgs).or (some pos)) = r.space.canonical

/-- One half of an activation, wherever the loop is. -/
theorem does_step {zone : Zone} {half : Half F} {l l' : Loop F} (hok : LoopOk l)
    (hhalf : half.activates = false) (hst : (router zone).step l half = some l') :
    ∃ r, (l.atHead = some r ∨ l.atWait = some r) ∧ LoopDoes r (hand.step r.hand half) l' := by
  cases half with
  | top t =>
      obtain ⟨r, rfl, rfl⟩ := step_top hst
      exact ⟨r, .inl rfl, does_top t hok⟩
  | receive e =>
      obtain ⟨r, rfl, rfl⟩ := step_receive hst
      refine ⟨r, .inr rfl, does_receive hok.1 ?_⟩
      rintro id x y portal rfl
      cases hhalf

theorem since_step {zone : Zone} {r₀ : Router F} {b₀ : BridgeClient} {pos : UInt16 × UInt16}
    {halves : List (Half F)} {half : Half F} {l l' : Loop F} (hok : LoopOk l)
    (h : Since r₀ b₀ pos halves l) (hhalf : half.activates = false)
    (hst : (router zone).step l half = some l') : Since r₀ b₀ pos (halves ++ [half]) l' := by
  obtain ⟨r, hr, hdoes⟩ := does_step hok hhalf hst
  intro r' hr' hid
  obtain ⟨hactive, hhand, hsends⟩ := hdoes r' hr' hid
  obtain ⟨hrun, msgs, hb, hdiscrete, hpos⟩ := h r hr hactive
  obtain ⟨msgs', hb', hmsgs'⟩ := hsends _ hb
  obtain ⟨hdiscrete', hpos'⟩ := hmsgs' _ hpos
  rw [Mealy.run_append, Mealy.outputs_append, ← hrun]
  refine ⟨hhand, msgs ++ msgs', ?_, ?_, ?_⟩
  · rw [sendAll_append]
    exact hb'
  · rw [discretes_append, hdiscrete, hdiscrete', List.flatten_append]
    simp
  · rw [lastAbs_append, Option.or_assoc]
    exact hpos'

/-- An activation that is taken sends the position it enters at. -/
theorem since_activated {zone : Zone} {r r₀ : Router F} {id : UInt32} {x y : F} {portal : Portal}
    (h : r.receive zone (.event (.portal (.activated id x y)) portal) = .head r₀)
    (hactive : r₀.activeId.isSome) :
    ∃ (b₀ : BridgeClient) (pos : UInt16 × UInt16),
      r₀.bridge = some (b₀.pointerAbs pos.1 pos.2).1 ∧ r₀.space.canonical = some pos ∧
        Since r₀ (b₀.pointerAbs pos.1 pos.2).1 pos [] (.head r₀) := by
  obtain ⟨b, -, hact⟩ := Router.activate_of_receive h hactive
  obtain ⟨space, cx, cy, -, hcanonical, rfl⟩ := Router.activate_eq_some hact
  refine ⟨b, (cx, cy), rfl, hcanonical, ?_⟩
  rintro r' (hr' | hr') hid
  · cases hr'
    exact ⟨rfl, [], rfl, rfl, hcanonical.symm⟩
  · cases hr'

/-- During an activation, the key, button and wheel messages on the
connection are those that the halves of the loop mean, in their order, and
each button is at the position after the last frame of motion before it.
Nothing but the messages is written, and all of them unless a write fails. -/
theorem discrete_order (zone : Zone) (remote : Screen F) (dial : Dial) (before : List (Half F))
    (id : UInt32) (cursorX cursorY : F) (portal : Portal) (r₀ : Router F)
    (halves : List (Half F)) (l : Loop F) (r : Router F)
    (hstart : (router zone).exec (.head (.start zone remote dial))
      (before ++ [.receive (.event (.portal (.activated id cursorX cursorY)) portal)]) =
        some (.head r₀))
    (hactive₀ : r₀.activeId.isSome)
    (hrun : (router zone).exec (.head r₀) halves = some l)
    (hone : ∀ half ∈ halves, half.activates = false)
    (hl : l.atHead = some r ∨ l.atWait = some r) (hactive : r.activeId.isSome) :
    ∃ (b₀ b : BridgeClient) (pos : UInt16 × UInt16) (msgs : List Message),
      r₀.bridge = some (b₀.pointerAbs pos.1 pos.2).1 ∧ r₀.space.canonical = some pos ∧
      r.bridge = some b ∧ b = b₀.sendAll (.pointerAbs pos.1 pos.2 :: msgs) ∧
      b.stream.written <+:
        b₀.stream.written ++ (Message.pointerAbs pos.1 pos.2 :: msgs).flatMap Message.bytes ∧
      (b.stream.broken = false → b.stream.written =
        b₀.stream.written ++ (Message.pointerAbs pos.1 pos.2 :: msgs).flatMap Message.bytes) ∧
      discretes (some pos) msgs = (hand.outputs r₀.hand halves).flatten := by
  obtain ⟨r₁, -, hreceive⟩ := exec_receive hstart
  obtain ⟨b₀, pos, hb₀, hcanonical, hsince⟩ := since_activated hreceive hactive₀
  have hkept : Since r₀ (b₀.pointerAbs pos.1 pos.2).1 pos halves l := by
    refine (router zone).exec_induction_of_all hsince ?_ hrun hone
    intro halves half l l' hexec hsince hhalf hst
    exact since_step (ok_run ((router zone).exec_trans hstart hexec)) hsince hhalf hst
  obtain ⟨-, msgs, hb, hdiscrete, -⟩ := hkept r hl hactive
  have hwritten := written_sendAll b₀ (.pointerAbs pos.1 pos.2 :: msgs)
  exact ⟨b₀, _, pos, msgs, hb₀, hcanonical, hb, rfl, hwritten.1, hwritten.2, hdiscrete⟩

/-! An activation in which the wheel turns before a click, after a motion. -/

/-- The event of the activation. -/
def entered : List (Half ℚ) := iteration (.portal (.activated 7 2559 720))

def flushed : Half ℚ := .top { Top.quiet with flushDue := true }

def worked : List (Half ℚ) :=
  iteration (.capture (.key 29 true 0)) ++ iteration (.capture (.scrollDiscrete 0 1)) ++
    iteration (.capture (.motion 10 0)) ++ iteration (.capture .frame) ++
    iteration (.capture (.button 0x110 true)) ++ [flushed]

theorem discrete_order_worked :
    ∃ (r₀ r : Router ℚ) (b₀ b : BridgeClient) (msgs : List Message) (pos : UInt16 × UInt16),
      (router ubuntu).exec (.head (.start ubuntu windows answered)) entered = some (.head r₀) ∧
        (router ubuntu).exec (.head r₀) worked = some (.waiting r) ∧ r.bridge = some b ∧
        b = b₀.sendAll (.pointerAbs pos.1 pos.2 :: msgs) ∧
        discretes (some pos) msgs =
          [.key 0xe0 true, .button 1 (some (342, 32798)), .wheel (-1)] := by
  have hrun : ((((router ubuntu).exec (.head (.start ubuntu windows answered)) entered).bind
      Loop.atHead).bind fun r₀ => (((router ubuntu).exec (.head r₀) worked).bind
        Loop.atWait).map fun r => (r₀.activeId.isSome, r.activeId.isSome,
          (hand.outputs r₀.hand worked).flatten)) =
      some (true, true, [.key 0xe0 true, .button 1 (some (342, 32798)), .wheel (-1)]) := by
    decide +kernel
  obtain ⟨r₀, hr₀, hrun⟩ := Option.bind_eq_some_iff.mp hrun
  have hl₀ := Loop.bind_atHead_eq_some.mp hr₀
  obtain ⟨r, hr, hstate⟩ := Option.map_eq_some_iff.mp hrun
  have hl := Loop.bind_atWait_eq_some.mp hr
  simp only [Prod.mk.injEq] at hstate
  obtain ⟨hactive₀, hactive, houtputs⟩ := hstate
  obtain ⟨b₀, b, pos, msgs, -, -, hb, hsent, -, -, hdiscrete⟩ :=
    discrete_order ubuntu windows answered [.top .quiet] 7 2559 720 ⟨.ok (), .ok ()⟩ r₀ worked _ r
      hl₀ hactive₀ hl (by decide +kernel) (.inr rfl) hactive
  exact ⟨r₀, r, b₀, b, msgs, pos, hl₀, hl, hb, hsent, hdiscrete.trans houtputs⟩

/-- A click that comes after the wheel is written before it; and a click that
comes after a motion, but before its frame, is at the position before the
motion. -/
theorem discrete_overtaken :
    (∃ (r : Router ℚ) (b : BridgeClient),
      (router ubuntu).exec (.head (.start ubuntu windows answered))
          (entered ++ iteration (.capture (.scrollDiscrete 0 1)) ++
            iteration (.capture (.button 0x110 true)) ++ [flushed]) = some (.waiting r) ∧
        r.activeId = some 7 ∧ r.bridge = some b ∧
        b.stream.written = wire [.pointerAbs 0 32798, .pointerButton 1, .pointerWheel (-1)]) ∧
    ∃ (r r' : Router ℚ) (b : BridgeClient),
      (router ubuntu).exec (.head (.start ubuntu windows answered))
          (entered ++ iteration (.capture (.motion 10 0)) ++
            iteration (.capture (.button 0x110 true))) = some (.head r) ∧
        r.activeId = some 7 ∧ r.bridge = some b ∧
        b.stream.written = wire [.pointerAbs 0 32798, .pointerButton 1] ∧
        (router ubuntu).exec (.head r) (iteration (.capture .frame)) = some (.head r') ∧
        r'.space.canonical = some (342, 32798) := by
  constructor
  · have hrun : ((((router ubuntu).exec (.head (.start ubuntu windows answered))
        (entered ++ iteration (.capture (.scrollDiscrete 0 1)) ++
          iteration (.capture (.button 0x110 true)) ++ [flushed])).bind Loop.atWait).map
          fun r => (r.activeId, r.bridge)) =
        some (some 7, some ⟨wire [.pointerAbs 0 32798, .pointerButton 1, .pointerWheel (-1)],
          none, false⟩) := by decide +kernel
    obtain ⟨r, hr, hstate⟩ := Option.map_eq_some_iff.mp hrun
    have hl := Loop.bind_atWait_eq_some.mp hr
    simp only [Prod.mk.injEq] at hstate
    exact ⟨r, _, hl, hstate.1, hstate.2, rfl⟩
  · have hrun : ((((router ubuntu).exec (.head (.start ubuntu windows answered))
        (entered ++ iteration (.capture (.motion 10 0)) ++
          iteration (.capture (.button 0x110 true)))).bind Loop.atHead).bind fun r =>
          (((router ubuntu).exec (.head r) (iteration (.capture .frame))).bind Loop.atHead).map
            fun r' => (r.activeId, r.bridge, r'.space.canonical)) =
        some (some 7, some ⟨wire [.pointerAbs 0 32798, .pointerButton 1], none, false⟩,
          some (342, 32798)) := by decide +kernel
    obtain ⟨r, hr, hrun⟩ := Option.bind_eq_some_iff.mp hrun
    have hl := Loop.bind_atHead_eq_some.mp hr
    obtain ⟨r', hr', hstate⟩ := Option.map_eq_some_iff.mp hrun
    have hl' := Loop.bind_atHead_eq_some.mp hr'
    simp only [Prod.mk.injEq] at hstate
    exact ⟨r, r', _, hl, hstate.1, hstate.2.1, rfl, hl', hstate.2.2⟩

end Beaglewing.Input
