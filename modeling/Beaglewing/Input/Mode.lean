/-
# `Input.Mode` — which side has the input

Four variables say where the input goes: `active_id`, the target of the
geometry, the bridge, and the state published for the tray.  They are set in
different places, and an event may leave them at odds for a while: a
crossing moves the target before `go_local` runs, and a refused activation
is made current so that it can be released.  At both ends of every half of
an iteration they agree (`Ok`).

`go_local` establishes that from any state (`ok_goLocal`), and an activation
does on a live bridge (`ok_activate`); what else the loop does changes none
of the four, or drops or replaces a bridge that nothing is captured for.

`Ok` also says what the connection has carried.  While the input is local,
nothing held down has been sent since the last RELEASE_ALL (`Settled`).

| event | lemma |
|---|---|
| from the head of the loop to the wait | `ok_top` |
| an event | `ok_receive` |
| any run | `ok_run` |
-/
import Beaglewing.Input.Loop

namespace Beaglewing.Input

open Base

/-- A message that holds nothing down. -/
def Message.Idle : Message → Prop
  | .keepalive | .pointerAbs _ _ | .pointerWheel _ => True
  | .keyDown _ | .keyUp _ | .pointerButton _ | .releaseAll => False

/-- Nothing is held down by the messages: after the last RELEASE_ALL there are
only idle ones. -/
inductive Settled : List Message → Prop
  | nil : Settled []
  | release (msgs : List Message) : Settled (msgs ++ [.releaseAll])
  | idle {msgs : List Message} {m : Message} :
      Settled msgs → m.Idle → Settled (msgs ++ [m])

/-- What the connection may have carried: while the input is local, messages
that hold nothing down. -/
def Allowed (activeId : Option UInt32) (msgs : List Message) : Prop :=
  activeId = none → Settled msgs

theorem allowed_idle {id : Option UInt32} {m : Message} (hm : m.Idle) :
    ∀ msgs, Allowed id msgs → Allowed id (msgs ++ [m]) := by
  intro msgs h hid
  exact .idle (h hid) hm

theorem allowed_active {id : Option UInt32} (hid : id.isSome) (msgs : List Message) :
    Allowed id msgs := by
  intro h
  rw [h] at hid
  cases hid

variable {F : Type}

structure Ok (r : Router F) : Prop where
  active_iff : r.activeId.isSome ↔ r.space.target = .remote
  captured : r.activeId.isSome → r.bridge.isSome
  buttons : r.activeId = none → r.buttons = 0
  published : r.published =
    if r.activeId.isSome then .remote else if r.bridge.isSome then .local else .noBridge
  carried : ∀ b, r.bridge = some b → Carries (Allowed r.activeId) b

/-- No coalesced pointer state while local. -/
def Cleared (r : Router F) : Prop :=
  r.activeId = none → r.pendingPos = none ∧ r.pendingWheel = 0

/-- The connection carries whole messages, whatever they are. -/
def Heard (bridge : Option BridgeClient) : Prop :=
  ∀ b, bridge = some b → Carries (fun _ => True) b

theorem Ok.heard {r : Router F} (h : Ok r) : Heard r.bridge := by
  intro b hb
  exact carries_mono (fun _ _ => trivial) (h.carried b hb)

/-- A capture that the bridge takes. -/
theorem ok_of_active {r : Router F} (hid : r.activeId.isSome) (ht : r.space.target = .remote)
    (hb : r.bridge.isSome) (hp : r.published = .remote) (hw : Heard r.bridge) : Ok r where
  active_iff := iff_of_true hid ht
  captured _ := hb
  buttons h := by
    rw [h] at hid
    cases hid
  published := by rw [hp, if_pos hid]
  carried b hrb := carries_mono (fun msgs _ => allowed_active hid msgs) (hw b hrb)

/-- What a capture event finds: a capture, on a live bridge. -/
structure Captured (r : Router F) : Prop where
  active : r.activeId.isSome
  remote : r.space.target = .remote
  bridge : r.bridge.isSome
  published : r.published = .remote
  heard : Heard r.bridge

theorem Captured.ok {r : Router F} (h : Captured r) : Ok r :=
  ok_of_active h.active h.remote h.bridge h.published h.heard

theorem Ok.capturedOf {r : Router F} (h : Ok r) (hid : r.activeId.isSome) : Captured r where
  active := hid
  remote := h.active_iff.mp hid
  bridge := h.captured hid
  published := by rw [h.published, if_pos hid]
  heard := h.heard

/-- Nothing is captured for a bridge that is not there. -/
theorem Ok.local_of_bridge {r : Router F} (h : Ok r) (hb : r.bridge = none) :
    r.activeId = none := by
  by_contra hne
  have := h.captured (Option.isSome_iff_ne_none.mpr hne)
  rw [hb] at this
  cases this

/-- The flag that a capture event sets is no part of it. -/
theorem Ok.capturing {r : Router F} (h : Ok r) (hid : r.activeId.isNone = false) :
    Captured { r with eventsThisActivation := true } := by
  rw [Option.isNone_eq_false_iff] at hid
  obtain ⟨hactive, hremote, hbridge, hpublished, hheard⟩ := h.capturedOf hid
  exact ⟨hactive, hremote, hbridge, hpublished, hheard⟩

theorem heard_map {bridge : Option BridgeClient} (h : Heard bridge) (m : Message) :
    Heard (bridge.map fun b => (b.send m.msgType m.payload).1) := by
  intro b hb
  obtain ⟨b₀, hb₀, rfl⟩ := Option.map_eq_some_iff.mp hb
  exact carries_send (h b₀ hb₀) fun _ _ => trivial

/-- What holds of the loop, half an iteration at a time. -/
def LoopOk : Loop F → Prop
  | .head r => Ok r
  | .waiting r => Ok r ∧ Cleared r
  | .returned _ _ => True
  | .panicked => True

theorem loopOk_orPanic {α : Type} {o : Option α} {k : α → Loop F}
    (h : ∀ a, o = some a → LoopOk (k a)) : LoopOk (.orPanic o k) := by
  cases o with
  | none => trivial
  | some a => exact h a rfl

/-! ## Steps that move no cursor -/

theorem ok_reconnect {r : Router F} {due : Bool} {dial : Dial} (h : Ok r) :
    Ok (r.reconnect due dial) := by
  rcases r.reconnect_cases due dial with heq | ⟨hb, b, hcon, heq⟩
  · rw [heq]
    exact h
  · rw [heq]
    have hid := h.local_of_bridge hb
    refine ⟨h.active_iff, fun _ => rfl, h.buttons, ?_, ?_⟩
    · show Published.local = _
      rw [hid]
      rfl
    · intro b' hb'
      cases hb'
      have hnew : Carries (fun _ => True) b := carries_connect hcon trivial
      exact carries_send (m := .releaseAll) hnew fun msgs _ _ => .release msgs

theorem ok_clearPending {r : Router F} (h : Ok r) : Ok r.clearPending ∧ Cleared r.clearPending := by
  rw [Router.clearPending]
  split
  · refine ⟨⟨h.active_iff, h.captured, h.buttons, h.published, h.carried⟩, ?_⟩
    exact fun _ => ⟨rfl, rfl⟩
  · next hid =>
      refine ⟨h, ?_⟩
      intro h'
      rw [h'] at hid
      exact absurd rfl hid

theorem carries_sendPos {id : Option UInt32} {b : BridgeClient} {pos : Option (UInt16 × UInt16)}
    (h : Carries (Allowed id) b) : Carries (Allowed id) (Router.sendPos b pos) := by
  cases pos with
  | none => exact h
  | some p => exact carries_send (m := .pointerAbs p.1 p.2) h (allowed_idle trivial)

theorem carries_sendWheel {id : Option UInt32} {b : BridgeClient} {wheel : Int32}
    (h : Carries (Allowed id) b) : Carries (Allowed id) (Router.sendWheel b wheel) := by
  rw [Router.sendWheel]
  split
  · exact carries_send (m := .pointerWheel (Router.detents wheel)) h (allowed_idle trivial)
  · exact h

theorem ok_flush {r : Router F} {due : Bool} (h : Ok r) (hc : Cleared r) :
    Ok (r.flush due) ∧ Cleared (r.flush due) := by
  rw [Router.flush]
  split
  · refine ⟨⟨h.active_iff, ?_, h.buttons, ?_, ?_⟩, fun _ => ⟨rfl, rfl⟩⟩
    · intro hid
      rw [Option.isSome_map]
      exact h.captured hid
    · simp only [Option.isSome_map]
      exact h.published
    · intro b hb
      obtain ⟨b₀, hb₀, rfl⟩ := Option.map_eq_some_iff.mp hb
      exact carries_sendWheel (carries_sendPos (h.carried b₀ hb₀))
  · exact ⟨h, hc⟩

theorem ok_onButton {r : Router F} {code : UInt32} {pressed : Bool} (h : Captured r) :
    LoopOk (r.onButton code pressed) := by
  rw [Router.onButton]
  cases buttonToBit code.toUInt16 with
  | none => exact h.ok
  | some bit =>
      cases hb : r.bridge with
      | none =>
          have := h.bridge
          rw [hb] at this
          cases this
      | some b =>
          refine ok_of_active h.active h.remote rfl h.published ?_
          intro b' hb'
          cases hb'
          have hpos : Carries (fun _ => True) (Router.sendPos b r.pendingPos) :=
            carries_mono (fun _ _ => trivial)
              (carries_sendPos (carries_mono (fun msgs _ => allowed_active h.active msgs)
                (h.heard b hb)))
          exact carries_send (m := .pointerButton _) hpos fun _ _ => trivial

/-! ## The return to the local side -/

variable [F64 F] {zone : Zone}

/-- Wherever it is called from, `go_local` leaves the input on the local side
and nothing held down. -/
theorem ok_goLocal {r r' : Router F} (h : r.goLocal zone = some r') (hw : Heard r.bridge) :
    Ok r' := by
  obtain ⟨space, hspace, h⟩ := Option.bind_eq_some_iff.mp h
  cases h
  constructor
  · refine iff_of_false (fun h => by cases h) ?_
    show ¬ space.target = .remote
    rw [Space.target_forceLocal hspace]
    exact fun h => by cases h
  · exact fun h => by cases h
  · exact fun _ => rfl
  · rfl
  · intro b hb
    obtain ⟨b₀, hb₀, rfl⟩ := Option.map_eq_some_iff.mp hb
    exact carries_send (m := .releaseAll) (hw b₀ hb₀) fun msgs _ _ => .release msgs

/-! ## From the head of the loop to the wait -/

theorem ok_keepalive {r r' : Router F} {due : Bool} (h : Ok r)
    (hr : r.keepalive zone due = some r') : Ok r' := by
  rcases Router.keepalive_cases hr with rfl | ⟨b, hb, rfl⟩ | ⟨hid, rfl⟩ | hlocal
  · exact h
  · refine ⟨h.active_iff, fun _ => rfl, h.buttons, ?_, ?_⟩
    · have := h.published
      rwa [hb] at this
    · intro b' hb'
      cases hb'
      exact carries_send (m := .keepalive) (h.carried b hb) (allowed_idle trivial)
  · refine ⟨h.active_iff, ?_, h.buttons, ?_, ?_⟩
    · intro hactive
      rw [hid] at hactive
      cases hactive
    · show Published.noBridge = _
      rw [hid]
      rfl
    · exact fun _ h => by cases h
  · exact ok_goLocal hlocal (fun _ h => by cases h)

theorem ok_failsafe {r r' : Router F} {silent : Bool} (h : Ok r)
    (hr : r.failsafe zone silent = some r') : Ok r' := by
  rcases Router.failsafe_cases hr with hlocal | rfl
  · exact ok_goLocal hlocal h.heard
  · exact h

theorem ok_top {r : Router F} (t : Top) (h : Ok r) : LoopOk (r.top zone t) := by
  rw [Router.top]
  split
  · exact loopOk_orPanic fun _ _ => trivial
  · refine loopOk_orPanic ?_
    intro r₁ h₁
    refine loopOk_orPanic ?_
    intro r₂ h₂
    have hok := ok_failsafe (ok_reconnect (ok_keepalive h h₁)) h₂
    obtain ⟨hclear, hcleared⟩ := ok_clearPending hok
    exact ok_flush hclear hcleared

/-! ## Events -/

theorem ok_activate {r r' : Router F} {b : BridgeClient} {id : UInt32} {y : F} (h : Ok r)
    (hb : r.bridge = some b) (hr : r.activate zone b id y = some r') : Ok r' := by
  obtain ⟨space, cx, cy, hspace, -, rfl⟩ := Router.activate_eq_some hr
  refine ok_of_active rfl (Space.target_enterRemote hspace) rfl rfl ?_
  intro b' hb'
  cases hb'
  exact carries_send (m := .pointerAbs cx cy) (h.heard b hb) fun _ _ => trivial

theorem ok_goLocalIfActive {r r' : Router F} (h : Ok r) (hr : r.goLocalIfActive zone = some r') :
    Ok r' := by
  rcases Router.goLocalIfActive_cases hr with hlocal | ⟨-, rfl⟩
  · exact ok_goLocal hlocal h.heard
  · exact h

theorem ok_onPortal {r : Router F} {portal : Portal} {e : PortalEvent F} (h : Ok r) :
    LoopOk (r.onPortal zone portal e) := by
  cases e with
  | activated id x y =>
      rw [Router.onPortal]
      cases hb : r.bridge with
      | none =>
          refine loopOk_orPanic ?_
          intro r' hr'
          exact ok_goLocal hr' fun _ h => by cases h
      | some b =>
          refine loopOk_orPanic ?_
          intro r' hr'
          exact ok_activate h hb hr'
  | deactivated =>
      refine loopOk_orPanic ?_
      intro r' hr'
      exact ok_goLocalIfActive h hr'
  | disabled =>
      refine loopOk_orPanic ?_
      intro r' hr'
      cases portal.enable with
      | error e => trivial
      | ok _ => exact ok_goLocalIfActive h hr'
  | zonesChanged => exact loopOk_orPanic fun _ _ => trivial

theorem ok_onScreenSaver {r : Router F} {portal : Portal} {locked : Bool} (h : Ok r) :
    LoopOk (r.onScreenSaver zone portal locked) := by
  cases locked with
  | true =>
      refine loopOk_orPanic ?_
      intro r' hr'
      exact ok_goLocalIfActive h hr'
  | false =>
      rw [Router.onScreenSaver]
      cases portal.armBarriers with
      | error e => trivial
      | ok _ =>
          cases portal.enable with
          | error e => trivial
          | ok _ => exact h

theorem ok_onKey {r : Router F} {code : UInt32} {pressed : Bool} (h : Captured r) :
    LoopOk (r.onKey zone code pressed) := by
  rw [Router.onKey]
  cases keycodeToUsage code.toUInt16 with
  | none => exact h.ok
  | some usage =>
      cases hfull : (r.emergency.update usage pressed).2 with
      | true =>
          simp only [hfull, if_true]
          refine loopOk_orPanic ?_
          intro r' hr'
          exact ok_goLocal hr' h.heard
      | false =>
          simp only [hfull, Bool.false_eq_true, if_false]
          refine ok_of_active h.active h.remote ?_ h.published ?_
          · exact Option.isSome_map.trans h.bridge
          · cases pressed with
            | true => exact heard_map h.heard (.keyDown usage)
            | false => exact heard_map h.heard (.keyUp usage)

theorem ok_onScrollDelta {r : Router F} {dy : F} (h : Captured r) : Ok (r.onScrollDelta dy) := by
  rw [Router.onScrollDelta]
  split
  · exact ok_of_active h.active h.remote h.bridge h.published h.heard
  · exact ok_of_active h.active h.remote h.bridge h.published h.heard

/-- A motion that does not cross leaves the cursor remote. -/
theorem ok_onFrame {r : Router F} (h : Captured r) : LoopOk (r.onFrame zone) := by
  rw [Router.onFrame]
  split
  · exact h.ok
  · refine loopOk_orPanic ?_
    rintro ⟨space, crossing⟩ hs
    by_cases hc : crossing = .toLocal
    · simp only [hc, if_true]
      refine loopOk_orPanic ?_
      intro r' hr'
      exact ok_goLocal hr' h.heard
    · have hremote := Space.remote_of_applyDelta hs hc h.remote
      simp only [hc, if_false, hremote, if_true]
      refine loopOk_orPanic ?_
      intro pos hpos
      exact ok_of_active h.active hremote h.bridge h.published h.heard

theorem ok_onCapture {r : Router F} {e : CaptureEvent F} (h : Ok r) :
    LoopOk (r.onCapture zone e) := by
  rw [Router.onCapture]
  split
  · exact h
  · next hid =>
      have hcap := h.capturing (Bool.eq_false_of_not_eq_true hid)
      cases e with
      | key code pressed time => exact ok_onKey hcap
      | button code pressed => exact ok_onButton hcap
      | motion dx dy =>
          exact ok_of_active hcap.active hcap.remote hcap.bridge hcap.published hcap.heard
      | scrollDiscrete x y =>
          exact ok_of_active hcap.active hcap.remote hcap.bridge hcap.published hcap.heard
      | scrollDelta dx dy => exact ok_onScrollDelta hcap
      | frame => exact ok_onFrame hcap
      | disconnected => exact loopOk_orPanic fun _ _ => trivial

theorem ok_receive {r : Router F} {e : Recv F} (h : Ok r) : LoopOk (r.receive zone e) := by
  cases e with
  | timeout => exact h
  | disconnected => trivial
  | event e portal =>
      cases e with
      | portal e => exact ok_onPortal h
      | capture e => exact ok_onCapture h
      | screenSaver locked => exact ok_onScreenSaver h

/-! ## Runs -/

theorem ok_start {remote : Screen F} {dial : Dial} : Ok (Router.start zone remote dial) where
  active_iff := iff_of_false (fun h => by cases h) (fun h => by cases h)
  captured := fun h => by cases h
  buttons _ := rfl
  published := rfl
  carried _ hb := carries_connect hb fun _ => .nil

theorem loopOk_step {l l' : Loop F} {half : Half F} (h : LoopOk l)
    (hst : (router zone).step l half = some l') : LoopOk l' := by
  cases half with
  | top t =>
      obtain ⟨r, rfl, rfl⟩ := step_top hst
      exact ok_top t h
  | receive e =>
      obtain ⟨r, rfl, rfl⟩ := step_receive hst
      exact ok_receive h.1

theorem ok_run {remote : Screen F} {dial : Dial} {halves : List (Half F)} {l : Loop F}
    (h : (router zone).exec (.head (.start zone remote dial)) halves = some l) : LoopOk l := by
  have hstart : LoopOk (.head (Router.start zone remote dial)) := ok_start
  exact (router zone).exec_invariant hstart (fun _ _ _ => loopOk_step) h

/-- Whenever the loop waits for an event, its variables agree on which side
has the input. -/
theorem mode_of_waiting (zone : Zone) (remote : Screen F) (dial : Dial) (halves : List (Half F))
    (r : Router F)
    (h : (router zone).exec (.head (.start zone remote dial)) halves = some (.waiting r)) :
    (r.activeId.isSome ↔ r.space.target = .remote) ∧
      (r.activeId.isSome → r.bridge.isSome) ∧
      (r.activeId = none → r.buttons = 0 ∧ r.pendingPos = none ∧ r.pendingWheel = 0) ∧
      r.published =
        if r.activeId.isSome then .remote else if r.bridge.isSome then .local else .noBridge := by
  obtain ⟨hok, hcleared⟩ := ok_run h
  exact ⟨hok.active_iff, hok.captured, fun hid => ⟨hok.buttons hid, hcleared hid⟩, hok.published⟩

/-! Two screens side by side, a bridge that answers HELLO, and an activation
during which the left control key goes down. -/

def ubuntu : Zone := ⟨2560, 1440, 0, 0⟩

def windows : Screen ℚ := ⟨1920, 1080⟩

def answered : Dial := .opened none [0x02, 0x02, 0x01, 0x00]

def Top.quiet : Top := ⟨false, false, false, .refused, false, false⟩

/-- A whole iteration in which nothing is due. -/
def iteration (e : Event ℚ) : List (Half ℚ) :=
  [.top .quiet, .receive (.event e ⟨.ok (), .ok ()⟩)]

def control : List (Half ℚ) :=
  iteration (.portal (.activated 7 2559 720)) ++ iteration (.capture (.key 29 true 0))

theorem mode_of_waiting_control : ∃ r : Router ℚ,
    (router ubuntu).exec (.head (.start ubuntu windows answered)) (control ++ [.top .quiet]) =
        some (.waiting r) ∧
      r.space.target = .remote ∧ r.bridge.isSome ∧ r.published = .remote := by
  have hactive : ((((router ubuntu).exec (.head (.start ubuntu windows answered))
      (control ++ [.top .quiet])).bind Loop.atWait).map fun r => r.activeId.isSome) =
      some true := by decide +kernel
  obtain ⟨r, hr, hid⟩ := Option.map_eq_some_iff.mp hactive
  have hl := Loop.bind_atWait_eq_some.mp hr
  obtain ⟨htarget, hbridge, -, hpublished⟩ := mode_of_waiting ubuntu windows answered _ r hl
  exact ⟨r, hl, htarget.mp hid, hbridge hid, by rw [hpublished, if_pos hid]⟩

end Beaglewing.Input
