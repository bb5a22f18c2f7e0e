/-
# `Input.Newest` — the newest position arrives

A position is held back twice: the router keeps it until its throttle window
opens or a button goes down, and the bridge keeps it until the end of a read
batch.  A newer one replaces it at both places.  While an activation is
current, the position of the model is the one the router holds back, or if it
holds none the last one it has written (`Newest`).

| what happens | the position of the model is |
|---|---|
| an activation | written at once |
| a frame of motion | held back |
| the throttle, or a button | what was held back, and now is written |
| anything else | where it was |

Once it is written and the bridge has read everything, the bridge's cursor is
there (`position_of_led`), however the bytes were cut.
-/
import Beaglewing.Bridge.Coalesce
import Beaglewing.Input.Wire

namespace Beaglewing.Input

open Base Bridge

def Message.position : Message → Option (UInt16 × UInt16)
  | .pointerAbs x y => some (x, y)
  | _ => none

/-- The last position among the messages. -/
def lastAbs (msgs : List Message) : Option (UInt16 × UInt16) :=
  (msgs.filterMap Message.position).getLast?

theorem lastAbs_snoc (msgs : List Message) (m : Message) :
    lastAbs (msgs ++ [m]) = m.position.or (lastAbs msgs) := by
  rw [lastAbs, List.filterMap_append]
  cases hm : m.position with
  | none => simp [hm, lastAbs]
  | some pos => simp [hm]

variable {F : Type} [F64 F]

/-- While an activation is current, the position of the model is held back, or
was the last one written. -/
def Fresh (activeId : Option UInt32) (space : Space F) (pendingPos : Option (UInt16 × UInt16))
    (msgs : List Message) : Prop :=
  activeId.isSome → ∃ pos, space.canonical = some pos ∧ pendingPos.or (lastAbs msgs) = some pos

def Newest (r : Router F) : Prop :=
  ∀ b, r.bridge = some b → Carries (Fresh r.activeId r.space r.pendingPos) b

/-- A message without a position changes nothing. -/
theorem fresh_snoc {id : Option UInt32} {space : Space F} {pos : Option (UInt16 × UInt16)}
    {m : Message} (hm : m.position = none) :
    ∀ msgs, Fresh id space pos msgs → Fresh id space pos (msgs ++ [m]) := by
  intro msgs h hid
  rw [lastAbs_snoc, hm]
  exact h hid

theorem fresh_sendPos {id : Option UInt32} {space : Space F} {pos : Option (UInt16 × UInt16)}
    {b : BridgeClient} (h : Carries (Fresh id space pos) b) :
    Carries (Fresh id space none) (Router.sendPos b pos) := by
  cases pos with
  | none => exact h
  | some p =>
      refine carries_send (m := .pointerAbs p.1 p.2) h ?_
      intro msgs hfresh hid
      rw [lastAbs_snoc]
      exact hfresh hid

theorem fresh_sendWheel {id : Option UInt32} {space : Space F} {pos : Option (UInt16 × UInt16)}
    {b : BridgeClient} {wheel : Int32} (h : Carries (Fresh id space pos) b) :
    Carries (Fresh id space pos) (Router.sendWheel b wheel) := by
  rw [Router.sendWheel]
  split
  · exact carries_send (m := .pointerWheel (Router.detents wheel)) h (fresh_snoc rfl)
  · exact h

/-- On the local side there is nothing to keep. -/
theorem newest_of_local {r : Router F} (h : Ok r) (hid : r.activeId = none) : Newest r := by
  intro b hb
  refine carries_mono ?_ (h.heard b hb)
  intro msgs _ hactive
  rw [hid] at hactive
  cases hactive

variable {zone : Zone}

theorem newest_goLocal {r r' : Router F} (h : r.goLocal zone = some r') (hw : Heard r.bridge) :
    Newest r' :=
  newest_of_local (ok_goLocal h hw) (Router.activeId_goLocal h)

/-! ## From the head of the loop to the wait -/

theorem newest_keepalive {r r' : Router F} {due : Bool} (hn : Newest r)
    (hr : r.keepalive zone due = some r') : Newest r' := by
  rcases Router.keepalive_cases hr with rfl | ⟨b, hb, rfl⟩ | ⟨-, rfl⟩ | hlocal
  · exact hn
  · intro b' hb'
    cases hb'
    exact carries_send (m := .keepalive) (hn b hb) (fresh_snoc rfl)
  · exact fun _ h => by cases h
  · exact newest_goLocal hlocal fun _ h => by cases h

theorem newest_reconnect {r : Router F} {due : Bool} {dial : Dial} (h : Ok r) (hn : Newest r) :
    Newest (r.reconnect due dial) := by
  have hok : Ok (r.reconnect due dial) := ok_reconnect h
  rcases r.reconnect_cases due dial with heq | ⟨hb, b, -, heq⟩
  · rw [heq]
    exact hn
  · rw [heq] at hok ⊢
    exact newest_of_local hok (h.local_of_bridge hb)

theorem newest_failsafe {r r' : Router F} {silent : Bool} (h : Ok r) (hn : Newest r)
    (hr : r.failsafe zone silent = some r') : Newest r' := by
  rcases Router.failsafe_cases hr with hlocal | rfl
  · exact newest_goLocal hlocal h.heard
  · exact hn

theorem newest_clearPending {r : Router F} (h : Ok r) (hn : Newest r) :
    Newest r.clearPending := by
  by_cases hid : r.activeId = none
  · refine newest_of_local (ok_clearPending h).1 ?_
    rw [Router.activeId_clearPending]
    exact hid
  · rw [Router.clearPending_of_active (Option.ne_none_iff_isSome.mp hid)]
    exact hn

/-- The throttle writes the position that was held back. -/
theorem newest_flush {r : Router F} {due : Bool} (hn : Newest r) : Newest (r.flush due) := by
  rw [Router.flush]
  split
  · intro b hb
    obtain ⟨b₀, hb₀, rfl⟩ := Option.map_eq_some_iff.mp hb
    exact fresh_sendWheel (fresh_sendPos (hn b₀ hb₀))
  · exact hn

/-- The positions of a loop, half an iteration at a time. -/
def LoopNewest : Loop F → Prop
  | .head r => Newest r
  | .waiting r => Newest r
  | .returned _ _ => True
  | .panicked => True

theorem loopNewest_orPanic {α : Type} {o : Option α} {k : α → Loop F}
    (h : ∀ a, o = some a → LoopNewest (k a)) : LoopNewest (.orPanic o k) := by
  cases o with
  | none => trivial
  | some a => exact h a rfl

theorem newest_top {r : Router F} (t : Top) (h : Ok r) (hn : Newest r) :
    LoopNewest (r.top zone t) := by
  rw [Router.top]
  split
  · exact loopNewest_orPanic fun _ _ => trivial
  · refine loopNewest_orPanic ?_
    intro r₁ h₁
    refine loopNewest_orPanic ?_
    intro r₂ h₂
    have hok₁ : Ok (r₁.reconnect t.reconnectDue t.dial) := ok_reconnect (ok_keepalive h h₁)
    have hn₁ : Newest (r₁.reconnect t.reconnectDue t.dial) :=
      newest_reconnect (ok_keepalive h h₁) (newest_keepalive hn h₁)
    have hn₂ := newest_failsafe hok₁ hn₁ h₂
    exact newest_flush (newest_clearPending (ok_failsafe hok₁ h₂) hn₂)

/-! ## Events -/

/-- An activation writes the position it enters at. -/
theorem newest_activate {r r' : Router F} {b : BridgeClient} {id : UInt32} {y : F} (h : Ok r)
    (hb : r.bridge = some b) (hr : r.activate zone b id y = some r') : Newest r' := by
  obtain ⟨space, cx, cy, -, hcanonical, rfl⟩ := Router.activate_eq_some hr
  intro b' hb'
  cases hb'
  refine carries_send (m := .pointerAbs cx cy) (h.heard b hb) ?_
  intro msgs _ _
  exact ⟨(cx, cy), hcanonical, by rw [lastAbs_snoc]; rfl⟩

theorem newest_goLocalIfActive {r r' : Router F} (h : Ok r) (hn : Newest r)
    (hr : r.goLocalIfActive zone = some r') : Newest r' := by
  rcases Router.goLocalIfActive_cases hr with hlocal | ⟨-, rfl⟩
  · exact newest_goLocal hlocal h.heard
  · exact hn

theorem newest_onPortal {r : Router F} {portal : Portal} {e : PortalEvent F} (h : Ok r)
    (hn : Newest r) : LoopNewest (r.onPortal zone portal e) := by
  cases e with
  | activated id x y =>
      rw [Router.onPortal]
      cases hb : r.bridge with
      | none =>
          refine loopNewest_orPanic ?_
          intro r' hr'
          exact newest_goLocal hr' fun _ h => by cases h
      | some b =>
          refine loopNewest_orPanic ?_
          intro r' hr'
          exact newest_activate h hb hr'
  | deactivated =>
      refine loopNewest_orPanic ?_
      intro r' hr'
      exact newest_goLocalIfActive h hn hr'
  | disabled =>
      refine loopNewest_orPanic ?_
      intro r' hr'
      cases portal.enable with
      | error e => trivial
      | ok _ => exact newest_goLocalIfActive h hn hr'
  | zonesChanged => exact loopNewest_orPanic fun _ _ => trivial

theorem newest_onScreenSaver {r : Router F} {portal : Portal} {locked : Bool} (h : Ok r)
    (hn : Newest r) : LoopNewest (r.onScreenSaver zone portal locked) := by
  cases locked with
  | true =>
      refine loopNewest_orPanic ?_
      intro r' hr'
      exact newest_goLocalIfActive h hn hr'
  | false =>
      rw [Router.onScreenSaver]
      cases portal.armBarriers with
      | error e => trivial
      | ok _ =>
          cases portal.enable with
          | error e => trivial
          | ok _ => exact hn

theorem newest_onKey {r : Router F} {code : UInt32} {pressed : Bool} (hw : Heard r.bridge)
    (hn : Newest r) : LoopNewest (r.onKey zone code pressed) := by
  rw [Router.onKey]
  cases keycodeToUsage code.toUInt16 with
  | none => exact hn
  | some usage =>
      cases hfull : (r.emergency.update usage pressed).2 with
      | true =>
          simp only [hfull, if_true]
          refine loopNewest_orPanic ?_
          intro r' hr'
          exact newest_goLocal hr' hw
      | false =>
          simp only [hfull, Bool.false_eq_true, if_false]
          intro b hb
          obtain ⟨b₀, hb₀, rfl⟩ := Option.map_eq_some_iff.mp hb
          cases pressed with
          | true => exact carries_send (m := .keyDown usage) (hn b₀ hb₀) (fresh_snoc rfl)
          | false => exact carries_send (m := .keyUp usage) (hn b₀ hb₀) (fresh_snoc rfl)

/-- A button writes the position that was held back. -/
theorem newest_onButton {r : Router F} {code : UInt32} {pressed : Bool} (hn : Newest r) :
    LoopNewest (r.onButton code pressed) := by
  rw [Router.onButton]
  cases buttonToBit code.toUInt16 with
  | none => exact hn
  | some bit =>
      cases hb : r.bridge with
      | none => exact fun _ h => by cases h
      | some b =>
          intro b' hb'
          cases hb'
          exact carries_send (m := .pointerButton _) (fresh_sendPos (hn b hb)) (fresh_snoc rfl)

/-- A frame of motion holds the position back that it leads to. -/
theorem newest_onFrame {r : Router F} (h : Captured r) (hn : Newest r) :
    LoopNewest (r.onFrame zone) := by
  rw [Router.onFrame]
  split
  · exact hn
  · refine loopNewest_orPanic ?_
    rintro ⟨space, crossing⟩ hs
    by_cases hc : crossing = .toLocal
    · simp only [hc, if_true]
      refine loopNewest_orPanic ?_
      intro r' hr'
      exact newest_goLocal hr' h.heard
    · have hremote := Space.remote_of_applyDelta hs hc h.remote
      simp only [hc, if_false, hremote, if_true]
      refine loopNewest_orPanic ?_
      intro pos hpos b hb
      refine carries_mono ?_ (h.heard b hb)
      intro msgs _ _
      exact ⟨pos, hpos, rfl⟩

theorem newest_onCapture {r : Router F} {e : CaptureEvent F} (h : Ok r) (hn : Newest r) :
    LoopNewest (r.onCapture zone e) := by
  rw [Router.onCapture]
  split
  · exact hn
  · next hid =>
      have hcap := h.capturing (Bool.eq_false_of_not_eq_true hid)
      have hn' : Newest { r with eventsThisActivation := true } := hn
      cases e with
      | key code pressed time => exact newest_onKey hcap.heard hn'
      | button code pressed => exact newest_onButton hn'
      | motion dx dy => exact hn
      | scrollDiscrete x y => exact hn
      | scrollDelta dx dy =>
          show Newest (Router.onScrollDelta _ dy)
          rw [Router.onScrollDelta]
          split
          · exact hn
          · exact hn
      | frame => exact newest_onFrame hcap hn'
      | disconnected => exact loopNewest_orPanic fun _ _ => trivial

theorem newest_receive {r : Router F} {e : Recv F} (h : Ok r) (hn : Newest r) :
    LoopNewest (r.receive zone e) := by
  cases e with
  | timeout => exact hn
  | disconnected => trivial
  | event e portal =>
      cases e with
      | portal e => exact newest_onPortal h hn
      | capture e => exact newest_onCapture h hn
      | screenSaver locked => exact newest_onScreenSaver h hn

/-! ## Runs -/

theorem newest_step {l l' : Loop F} {half : Half F} (h : LoopOk l ∧ LoopNewest l)
    (hst : (router zone).step l half = some l') : LoopOk l' ∧ LoopNewest l' := by
  refine ⟨loopOk_step h.1 hst, ?_⟩
  obtain ⟨hok, hn⟩ := h
  cases half with
  | top t =>
      obtain ⟨r, rfl, rfl⟩ := step_top hst
      exact newest_top t hok hn
  | receive e =>
      obtain ⟨r, rfl, rfl⟩ := step_receive hst
      exact newest_receive hok.1 hn

theorem newest_run {remote : Screen F} {dial : Dial} {halves : List (Half F)} {l : Loop F}
    (h : (router zone).exec (.head (.start zone remote dial)) halves = some l) :
    LoopOk l ∧ LoopNewest l := by
  have hok : Ok (Router.start zone remote dial) := ok_start
  have hstart : LoopOk (.head (Router.start zone remote dial)) ∧
      LoopNewest (.head (Router.start zone remote dial)) := ⟨hok, newest_of_local hok rfl⟩
  exact (router zone).exec_invariant hstart (fun _ _ _ => newest_step) h

/-! ## The bridge's cursor -/

/-- Where the bridge's cursor is, or will be at the end of the batch. -/
def cursor (c : Client) : UInt16 × UInt16 := c.pendingAbs.getD (c.hid.x, c.hid.y)

theorem cursor_flushAbs (c : Client) : cursor c.flushAbs = cursor c := by
  rw [cursor, pendingAbs_flushAbs, Option.getD_none, position_flushAbs, cursor]

theorem cursor_keyEvent (c : Client) (usage : UInt8) (down : Bool) :
    cursor { c with hid := c.hid.keyEvent usage down } = cursor c := by
  obtain ⟨f, hf⟩ := keyEvent_eq usage down
  rw [hf, Hid.updateKeys]
  cases f c.hid.modifiers c.hid.keys <;> rfl

/-- A message with a position moves the cursor there; no other moves it. -/
theorem cursor_act {c c' : Client} {m : Message} (h : c.act m.item = .go c') :
    cursor c' = m.position.getD (cursor c) := by
  have hmeaning := meaning_of_act h
  cases m with
  | keepalive =>
      cases hmeaning
      rfl
  | keyDown usage =>
      cases hmeaning
      exact cursor_keyEvent c usage true
  | keyUp usage =>
      cases hmeaning
      exact cursor_keyEvent c usage false
  | pointerAbs x y =>
      cases hmeaning
      rfl
  | pointerButton buttons =>
      cases hmeaning
      exact cursor_flushAbs c
  | pointerWheel detents =>
      cases hmeaning
      exact cursor_flushAbs c
  | releaseAll =>
      cases hmeaning
      exact cursor_flushAbs c

/-- A client that has acted on messages has its cursor at the last position
among them. -/
theorem position_of_led {msgs : List Message} {c₀ c : Client} {pos : UInt16 × UInt16}
    (hled : Led Client.act Client.flushAbs c₀ (items msgs) c) (hlast : lastAbs msgs = some pos) :
    cursor c = pos := by
  induction msgs using List.reverseRecOn generalizing c pos with
  | nil => cases hlast
  | append_singleton msgs m ih =>
      rw [items_snoc] at hled
      refine led_snoc (Q := fun c => cursor c = pos) ?_ ?_ hled
      · intro c hc
        rw [cursor_flushAbs, hc]
      · intro c₁ c₂ hled₁ hact
        rw [cursor_act hact]
        rw [lastAbs_snoc] at hlast
        cases hm : m.position with
        | none =>
            rw [hm] at hlast
            exact ih hled₁ hlast
        | some p =>
            rw [hm] at hlast
            exact Option.some.inj hlast

/-- A session that has read whole messages has its cursor at the last
position among them. -/
theorem position_of_session {hid : Hid} {ready : Bool} {room : Option Nat} {turns : List Turn}
    {s : Session} {msgs : List Message} {pos : UInt16 × UInt16}
    (hsession : daemon.exec (.listening hid) (.accept ready room :: turns.map .turn) =
      some (.serving s))
    (hread : turns.flatMap Turn.received = wire msgs) (hlast : lastAbs msgs = some pos) :
    (s.client.hid.x, s.client.hid.y) = pos := by
  have htracks := tracks_session hsession
  rw [hread] at htracks
  have hcursor := position_of_led (framing.tracks_whole htracks (parses_wire msgs)) hlast
  have hnone : s.client.pendingAbs = none :=
    pendingAbs_acts (show (Session.new hid room).client.pendingAbs = none from rfl)
      (acts_of_session hsession)
  rwa [cursor, hnone] at hcursor

/-- Whenever an activation is current and no write has failed on its
connection, the position of the model is held back, or was the last one
written; and if it is not held back, a bridge that has read everything has
its cursor there. -/
theorem newest_position (zone : Zone) (remote : Screen F) (dial : Dial) (halves : List (Half F))
    (l : Loop F) (r : Router F) (b : BridgeClient)
    (hrun : (router zone).exec (.head (.start zone remote dial)) halves = some l)
    (hl : l.atHead = some r ∨ l.atWait = some r) (hactive : r.activeId.isSome)
    (hb : r.bridge = some b) (hwrites : b.stream.broken = false) :
    ∃ msgs pos, b.stream.written = wire msgs ∧ r.space.canonical = some pos ∧
      (r.pendingPos = some pos ∨ r.pendingPos = none ∧ lastAbs msgs = some pos) ∧
      (r.pendingPos = none →
        ∀ (takes : Nat → Bool) (before : List DaemonEvent) (hid : Hid) (ready : Bool)
          (room : Option Nat) (turns : List Turn) (s : Session),
          daemon.exec (.listening (.open takes)) before = some (.listening hid) →
          daemon.exec (.listening hid) (.accept ready room :: turns.map .turn) =
            some (.serving s) →
          turns.flatMap Turn.received = b.stream.written →
          (s.client.hid.x, s.client.hid.y) = pos) := by
  have hn : Newest r := by
    obtain ⟨-, hloop⟩ := newest_run hrun
    rcases hl with hl | hl
    · rw [Loop.atHead_eq_some] at hl
      rwa [hl] at hloop
    · rw [Loop.atWait_eq_some] at hl
      rwa [hl] at hloop
  obtain ⟨msgs, hfresh, hwritten⟩ := hn b hb hwrites
  obtain ⟨pos, hcanonical, hpos⟩ := hfresh hactive
  refine ⟨msgs, pos, hwritten, hcanonical, ?_, ?_⟩
  · cases hp : r.pendingPos with
    | none =>
        rw [hp] at hpos
        exact .inr ⟨rfl, hpos⟩
    | some p =>
        rw [hp] at hpos
        exact .inl hpos
  · intro hp _ _ _ _ _ _ s _ hsession hread
    rw [hp] at hpos
    rw [hwritten] at hread
    exact position_of_session hsession hread hpos

/-- Two frames of motion, and the throttle. -/
def moved : List (Half ℚ) :=
  iteration (.portal (.activated 7 2559 720)) ++ iteration (.capture (.motion 10 0)) ++
    iteration (.capture .frame) ++ iteration (.capture (.motion 0 5)) ++
    iteration (.capture .frame) ++ [.top { Top.quiet with flushDue := true }]

/-- Where the cursor is then, and what has been written. -/
def movedBytes : List UInt8 := wire [.pointerAbs 0 32798, .pointerAbs 342 33102]

/-- The bridge reads them byte by byte. -/
theorem newest_position_moved :
    ∃ (r : Router ℚ) (b : BridgeClient) (pos : UInt16 × UInt16) (s : Session),
      (router ubuntu).exec (.head (.start ubuntu windows answered)) moved = some (.waiting r) ∧
        r.bridge = some b ∧ r.space.canonical = some pos ∧
        daemon.exec (.listening (.open fun _ => true))
            (.accept true none :: (b.stream.written.map Turn.one).map .turn) =
          some (.serving s) ∧
        (s.client.hid.x, s.client.hid.y) = pos := by
  have hrouter : ((((router ubuntu).exec (.head (.start ubuntu windows answered))
      moved).bind Loop.atWait).map fun r => (r.activeId, r.pendingPos, r.bridge)) =
      some (some 7, none, some ⟨movedBytes, none, false⟩) := by decide +kernel
  have hdaemon : ((daemon.exec (.listening (.open fun _ => true))
      (.accept true none :: (movedBytes.map Turn.one).map .turn)).map fun d =>
        match d with
        | .serving _ => true
        | _ => false) = some true := by
    decide +kernel
  obtain ⟨r, hr, hstate⟩ := Option.map_eq_some_iff.mp hrouter
  have hl := Loop.bind_atWait_eq_some.mp hr
  simp only [Prod.mk.injEq] at hstate
  obtain ⟨hid, hpending, hb⟩ := hstate
  obtain ⟨d, hd, hserving⟩ := Option.map_eq_some_iff.mp hdaemon
  cases d with
  | listening hid => cases hserving
  | exited hid => cases hserving
  | serving s =>
      obtain ⟨msgs, pos, -, hcanonical, -, hcursor⟩ :=
        newest_position ubuntu windows answered moved _ r _ hl (.inr rfl) (by rw [hid]; rfl) hb rfl
      exact ⟨r, _, pos, s, hl, hb, hcanonical, hd,
        hcursor hpending _ [] _ true none _ s rfl hd (received_one movedBytes)⟩

end Beaglewing.Input
