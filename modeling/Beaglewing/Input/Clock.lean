/-
# `Input.Clock` — the instants of the router's loop

`Input.Loop` leaves what the clock says to the labels.  Here the loop keeps
its four instants, each half of an iteration happens at a time, and the tests
on the way to the wait say what the instants say (`Instants.Agrees`).

| instant | test | set by |
|---|---|---|
| `last_send` | more than 1 s: keepalive | a message that went out |
| `last_reconnect` | more than 2 s: connect | the attempt |
| `activated_at` | more than 3 s, and no events: go local | the activation |
| `last_ptr_send` | 4 ms: flush | the flush, and a button with a position |

What comes to the program from outside is when the iterations begin.  A run
is paced if each half begins at most `δ` after the last head of the loop.
Then a capture to which nothing comes is over `δ` after its 3 s
(`captured_briefly`), and a position is held back for less than `δ` and the
4 ms of the throttle (`held_briefly`).

What it is not: a bound on when Windows has the position.  The writes of the
flush drop their results; where one has failed, nothing is said of what the
connection carried, until the keepalive finds out.
-/
import Beaglewing.Input.Hotkey
import Beaglewing.Input.Order

namespace Beaglewing.Input

open Base

/-! ## The instants -/

/-- Durations and instants are in microseconds. -/
def fromSecs (n : Nat) : Nat := n * 1000000

def fromMillis (n : Nat) : Nat := n * 1000

def pointerSendInterval : Nat := fromMillis 4

structure Instants where
  lastSend : Nat
  lastReconnect : Nat
  activatedAt : Nat
  lastPtrSend : Nat

def Instants.start (now : Nat) : Instants := ⟨now, now, now, now⟩

/-- Which of the instants a half of an iteration sets to now. -/
structure Marks where
  lastSend : Bool
  lastReconnect : Bool
  activatedAt : Bool
  lastPtrSend : Bool

def Marks.none : Marks := ⟨false, false, false, false⟩

def Marks.or (m m' : Marks) : Marks where
  lastSend := m.lastSend || m'.lastSend
  lastReconnect := m.lastReconnect || m'.lastReconnect
  activatedAt := m.activatedAt || m'.activatedAt
  lastPtrSend := m.lastPtrSend || m'.lastPtrSend

theorem Marks.or_none (m : Marks) : m.or .none = m := by
  simp only [Marks.or, Marks.none, Bool.or_false]

def Instants.mark (i : Instants) (m : Marks) (now : Nat) : Instants where
  lastSend := if m.lastSend then now else i.lastSend
  lastReconnect := if m.lastReconnect then now else i.lastReconnect
  activatedAt := if m.activatedAt then now else i.activatedAt
  lastPtrSend := if m.lastPtrSend then now else i.lastPtrSend

/-- The tests of the half say what the instants say. -/
def Instants.Agrees {F : Type} (i : Instants) (now : Nat) : Half F → Prop
  | .top t =>
      t.keepaliveDue = decide (fromSecs 1 < now - i.lastSend) ∧
        t.reconnectDue = decide (fromSecs 2 < now - i.lastReconnect) ∧
        t.silent = decide (fromSecs 3 < now - i.activatedAt) ∧
        t.flushDue = decide (pointerSendInterval ≤ now - i.lastPtrSend)
  | .receive _ => True

instance {F : Type} (i : Instants) (now : Nat) : (half : Half F) → Decidable (i.Agrees now half)
  | .top _ => inferInstanceAs (Decidable (_ ∧ _))
  | .receive _ => isTrue trivial

variable {F : Type} [F64 F]

namespace Router

/-! ## What each part sets -/

/-- `if b.keepalive().is_err()`, else `last_send`. -/
def keepaliveMarks (due : Bool) (r : Router F) : Marks :=
  { Marks.none with lastSend := due && r.bridge.any fun b => b.keepalive.2 }

/-- `last_reconnect`, and `last_send` once connected. -/
def reconnectMarks (due : Bool) (dial : Dial) (r : Router F) : Marks :=
  { Marks.none with
    lastReconnect := r.bridge.isNone && due
    lastSend := r.bridge.isNone && due && (BridgeClient.connect dial).isSome }

/-- `ok &= b.pointer_abs(pos.0, pos.1).is_ok()`. -/
def posOk (b : BridgeClient) (pos : Option (UInt16 × UInt16)) : Bool :=
  match pos with
  | some (x, y) => (b.pointerAbs x y).2
  | none => true

/-- `ok &= b.pointer_wheel(detents).is_ok()`. -/
def wheelOk (b : BridgeClient) (wheel : Int32) : Bool :=
  if wheel ≠ 0 then (b.pointerWheel (detents wheel)).2 else true

def flushMarks (due : Bool) (r : Router F) : Marks :=
  if (r.pendingPos.isSome || r.pendingWheel != 0) && due then
    { Marks.none with
      lastSend := r.bridge.any fun b =>
        posOk b r.pendingPos && wheelOk (sendPos b r.pendingPos) r.pendingWheel
      lastPtrSend := true }
  else .none

def topMarks (zone : Zone) (t : Top) (r : Router F) : Marks :=
  if t.shutdown then .none
  else
    match r.keepalive zone t.keepaliveDue with
    | none => .none
    | some r₁ =>
        match (r₁.reconnect t.reconnectDue t.dial).failsafe zone t.silent with
        | none => .none
        | some r₂ =>
            ((r.keepaliveMarks t.keepaliveDue).or (r₁.reconnectMarks t.reconnectDue t.dial)).or
              (r₂.clearPending.flushMarks t.flushDue)

/-- Of the two calls, the one for the state of the key. -/
def keyMarks (code : UInt32) (pressed : Bool) (r : Router F) : Marks :=
  match keycodeToUsage code.toUInt16 with
  | none => .none
  | some usage =>
      if (r.emergency.update usage pressed).2 then .none
      else
        { Marks.none with
          lastSend := r.bridge.any fun b =>
            (if pressed then b.keyDown usage else b.keyUp usage).2 }

def buttonMarks (code : UInt32) (pressed : Bool) (r : Router F) : Marks :=
  match buttonToBit code.toUInt16 with
  | none => .none
  | some bit =>
      let buttons := if pressed then r.buttons ||| bit else r.buttons &&& ~~~bit
      { Marks.none with
        lastSend := r.bridge.any fun b => ((sendPos b r.pendingPos).pointerButton buttons).2
        lastPtrSend := r.bridge.isSome && r.pendingPos.isSome }

def receiveMarks (r : Router F) : Recv F → Marks
  | .event (.portal (.activated _ _ _)) _ =>
      { Marks.none with activatedAt := r.bridge.isSome, lastSend := r.bridge.isSome }
  | .event (.capture (.key code pressed _)) _ =>
      if r.activeId.isNone then .none else r.keyMarks code pressed
  | .event (.capture (.button code pressed)) _ =>
      if r.activeId.isNone then .none else r.buttonMarks code pressed
  | _ => .none

end Router

def Loop.marks (zone : Zone) : Loop F → Half F → Marks
  | .head r, .top t => r.topMarks zone t
  | .waiting r, .receive e => r.receiveMarks e
  | _, _ => .none

/-! ## The loop with its instants -/

/-- `lastTop` is when the loop was last at its head. -/
structure Timed (F : Type) where
  loop : Loop F
  now : Nat
  instants : Instants
  lastTop : Nat

def Timed.start (zone : Zone) (remote : Screen F) (dial : Dial) (now : Nat) : Timed F where
  loop := .head (.start zone remote dial)
  now
  instants := .start now
  lastTop := now

/-- A half of an iteration, and when it happens. -/
abbrev TimedHalf (F : Type) : Type := Nat × Half F

def Half.isTop : Half F → Bool
  | .top _ => true
  | .receive _ => false

def timed (zone : Zone) : Lts (Timed F) (TimedHalf F) where
  step s a :=
    if s.now ≤ a.1 ∧ s.instants.Agrees a.1 a.2 then
      ((router zone).step s.loop a.2).map fun l =>
        { loop := l
          now := a.1
          instants := s.instants.mark (s.loop.marks zone a.2) a.1
          lastTop := if a.2.isTop then a.1 else s.lastTop }
    else none

/-- The half begins at most `δ` after the last head of the loop. -/
def Paced (δ : Nat) (s : Timed F) (a : TimedHalf F) : Prop := a.1 ≤ s.lastTop + δ

instance (δ : Nat) (s : Timed F) (a : TimedHalf F) : Decidable (Paced δ s a) :=
  inferInstanceAs (Decidable (_ ≤ _))

/-! ## What a half does between two instants -/

/-- No connection is made, and if `last_send` is set, something was sent; an
activation is not taken, and stays without events only if it was; a position
is held back only during an activation, and by no half that sets
`last_ptr_send`. -/
structure Passes (m : Marks) (r r' : Router F) : Prop where
  sends : m.lastReconnect = false → ∀ b', r'.bridge = some b' → ∃ b msgs, r.bridge = some b ∧
    b' = b.sendAll msgs ∧ (m.lastSend = true → msgs ≠ [])
  waits : m.activatedAt = false → r'.activeId.isSome → r'.activeId = r.activeId ∧
    (r'.eventsThisActivation = false → r.eventsThisActivation = false)
  held : r'.pendingPos.isSome →
    (r.pendingPos.isSome ∨ r.activeId.isSome) ∧ m.lastPtrSend = false

omit [F64 F] in
/-- Nothing is sent. -/
theorem passes_of_eq {m : Marks} {r r' : Router F} (hm : m = .none) (hbridge : r'.bridge = r.bridge)
    (hid : r'.activeId = r.activeId)
    (hevents : r'.eventsThisActivation = false → r.eventsThisActivation = false)
    (hheld : r'.pendingPos.isSome → r.pendingPos.isSome ∨ r.activeId.isSome) : Passes m r r' := by
  subst hm
  refine ⟨?_, fun _ _ => ⟨hid, hevents⟩, fun h => ⟨hheld h, rfl⟩⟩
  intro _ b' hb'
  exact ⟨b', [], hbridge ▸ hb', rfl, fun h => by cases h⟩

omit [F64 F] in
theorem Passes.trans {m m' : Marks} {r r₁ r' : Router F} (h : Passes m r r₁)
    (h' : Passes m' r₁ r') (hactivated : m.activatedAt = false) (hptr : m.lastPtrSend = false) :
    Passes (m.or m') r r' := by
  refine ⟨?_, ?_, ?_⟩
  · intro hagain b' hb'
    obtain ⟨hagain₁, hagain'⟩ := Bool.or_eq_false_iff.mp hagain
    obtain ⟨b₁, msgs', hb₁, rfl, hsent'⟩ := h'.sends hagain' b' hb'
    obtain ⟨b, msgs, hb, rfl, hsent⟩ := h.sends hagain₁ b₁ hb₁
    refine ⟨b, msgs ++ msgs', hb, (sendAll_append b msgs msgs').symm, ?_⟩
    intro hor
    rcases Bool.or_eq_true_iff.mp hor with hm | hm
    · exact List.append_ne_nil_of_left_ne_nil (hsent hm) _
    · exact List.append_ne_nil_of_right_ne_nil _ (hsent' hm)
  · intro hnot hid
    obtain ⟨hid', hevents'⟩ := h'.waits (Bool.or_eq_false_iff.mp hnot).2 hid
    obtain ⟨hid₁, hevents₁⟩ := h.waits hactivated (hid' ▸ hid)
    exact ⟨hid'.trans hid₁, fun he => hevents₁ (hevents' he)⟩
  · intro hheld
    obtain ⟨hbefore, hm'⟩ := h'.held hheld
    refine ⟨?_, by rw [Marks.or, hptr, hm']; rfl⟩
    rcases hbefore with hpos | hid
    · exact (h.held hpos).1
    · exact .inr ((h.waits hactivated hid).1 ▸ hid)

section Parts
variable {zone : Zone} {r r' : Router F}

theorem passes_goLocal (h : r.goLocal zone = some r') : Passes .none r r' := by
  obtain ⟨space, -, h⟩ := Option.bind_eq_some_iff.mp h
  cases h
  refine ⟨?_, ?_, fun hpos => ⟨.inl hpos, rfl⟩⟩
  · intro _ b' hb'
    obtain ⟨b, hb, rfl⟩ := Option.map_eq_some_iff.mp hb'
    exact ⟨b, [.releaseAll], hb, rfl, fun h => by cases h⟩
  · intro _ hid
    cases hid

omit [F64 F] in
theorem passes_refl (r : Router F) : Passes .none r r :=
  passes_of_eq rfl rfl rfl id .inl

theorem passes_goLocalIfActive (h : r.goLocalIfActive zone = some r') : Passes .none r r' := by
  rcases Router.goLocalIfActive_cases h with hlocal | ⟨-, rfl⟩
  · exact passes_goLocal hlocal
  · exact passes_refl _

/-! ## On the way to the wait -/

theorem passes_keepalive {due : Bool} (h : r.keepalive zone due = some r') :
    Passes (r.keepaliveMarks due) r r' := by
  rw [Router.keepalive] at h
  split at h
  next hb =>
    cases h
    refine passes_of_eq ?_ rfl rfl id .inl
    simp [Router.keepaliveMarks, hb, Marks.none]
  next b hb =>
    cases due with
    | false =>
        rw [if_neg Bool.false_ne_true] at h
        cases h
        exact passes_of_eq rfl rfl rfl id .inl
    | true =>
        rw [if_pos rfl] at h
        dsimp only at h
        split at h
        · cases h
          refine ⟨?_, fun _ _ => ⟨rfl, id⟩, fun hpos => ⟨.inl hpos, rfl⟩⟩
          intro _ b' hb'
          cases hb'
          exact ⟨b, [.keepalive], hb, rfl, fun _ => List.cons_ne_nil _ _⟩
        next hfail =>
          have hmarks : r.keepaliveMarks true = .none := by
            simp [Router.keepaliveMarks, hb, hfail, Marks.none]
          have hlost : Passes .none r { r with bridge := none, published := .noBridge } := by
            refine ⟨?_, fun _ _ => ⟨rfl, id⟩, fun hpos => ⟨.inl hpos, rfl⟩⟩
            intro _ b' hb'
            cases hb'
          rw [hmarks]
          split at h
          · exact hlost.trans (passes_goLocal h) rfl rfl
          · cases h
            exact hlost

omit [F64 F] in
theorem passes_reconnect (r : Router F) (due : Bool) (dial : Dial) :
    Passes (r.reconnectMarks due dial) r (r.reconnect due dial) := by
  rw [Router.reconnect, Router.reconnectMarks]
  cases hdue : r.bridge.isNone && due with
  | false =>
      rw [if_neg Bool.false_ne_true]
      exact passes_of_eq rfl rfl rfl id .inl
  | true =>
      rw [if_pos rfl]
      have hbridge : r.bridge = none := by
        rw [Bool.and_eq_true, Option.isNone_iff_eq_none] at hdue
        exact hdue.1
      cases hdial : BridgeClient.connect dial with
      | none => exact ⟨(fun h => by cases h), fun _ _ => ⟨rfl, id⟩, fun h => ⟨.inl h, rfl⟩⟩
      | some b => exact ⟨(fun h => by cases h), fun _ _ => ⟨rfl, id⟩, fun h => ⟨.inl h, rfl⟩⟩

theorem passes_failsafe {silent : Bool} (h : r.failsafe zone silent = some r') :
    Passes .none r r' := by
  rcases Router.failsafe_cases h with hlocal | rfl
  · exact passes_goLocal hlocal
  · exact passes_refl _

omit [F64 F] in
theorem passes_clearPending (r : Router F) : Passes .none r r.clearPending := by
  rw [Router.clearPending]
  split
  · exact passes_of_eq rfl rfl rfl id (fun h => by cases h)
  · exact passes_refl r

omit [F64 F] in
theorem passes_flush (r : Router F) (due : Bool) :
    Passes (r.flushMarks due) r (r.flush due) := by
  rw [Router.flush, Router.flushMarks]
  split
  next hpending =>
    refine ⟨?_, fun _ _ => ⟨rfl, id⟩, (fun h => by cases h)⟩
    intro _ b' hb'
    obtain ⟨b, hb, rfl⟩ := Option.map_eq_some_iff.mp hb'
    refine ⟨b, (r.pendingPos.toList.map fun p => .pointerAbs p.1 p.2) ++
      if r.pendingWheel ≠ 0 then [.pointerWheel (Router.detents r.pendingWheel)] else [], hb,
      ?_, ?_⟩
    · rw [sendAll_append, ← sendPos_eq, ← sendWheel_eq]
    · intro _ hnil
      obtain ⟨hpos, hwheel⟩ := List.append_eq_nil_iff.mp hnil
      cases hp : r.pendingPos with
      | some pos =>
          rw [hp] at hpos
          cases hpos
      | none =>
          rw [hp, Option.isSome_none, Bool.false_or, Bool.and_eq_true, bne_iff_ne] at hpending
          rw [if_pos hpending.1] at hwheel
          cases hwheel
  next => exact passes_refl r

theorem passes_top (r : Router F) (t : Top) :
    (r.top zone t).All (Passes (r.topMarks zone t) r) := by
  rw [Router.top, Router.topMarks]
  split
  · refine all_orPanic ?_
    intro r' hr'
    exact all_returned (passes_goLocal hr')
  · refine all_orPanic ?_
    intro r₁ h₁
    refine all_orPanic ?_
    intro r₂ h₂
    simp only [h₁, h₂]
    have hconnected := (passes_keepalive h₁).trans (passes_reconnect r₁ t.reconnectDue t.dial)
      rfl rfl
    have hcleared := (hconnected.trans (passes_failsafe h₂) rfl rfl).trans (passes_clearPending r₂)
      rfl rfl
    rw [Marks.or_none, Marks.or_none] at hcleared
    exact all_waiting (hcleared.trans (passes_flush _ _) rfl rfl)

/-! ## From the wait on -/

theorem passes_onKey (r : Router F) (code : UInt32) (pressed : Bool) :
    (r.onKey zone code pressed).All (Passes (r.keyMarks code pressed) r) := by
  rw [Router.onKey, Router.keyMarks]
  cases keycodeToUsage code.toUInt16 with
  | none => exact all_head (passes_refl r)
  | some usage =>
      cases hfull : (r.emergency.update usage pressed).2 with
      | true =>
          simp only [hfull, if_true]
          refine all_orPanic ?_
          intro r' hr'
          have hreset : Passes .none r { r with emergency := .new } :=
            passes_of_eq rfl rfl rfl id .inl
          exact all_head (hreset.trans (passes_goLocal hr') rfl rfl)
      | false =>
          simp only [hfull, Bool.false_eq_true, if_false]
          refine all_head ⟨?_, fun _ _ => ⟨rfl, id⟩, fun h => ⟨.inl h, rfl⟩⟩
          intro _ b' hb'
          obtain ⟨b, hb, rfl⟩ := Option.map_eq_some_iff.mp hb'
          refine ⟨b, [if pressed then .keyDown usage else .keyUp usage], hb, ?_, ?_⟩
          · cases pressed <;> rfl
          · exact fun _ => List.cons_ne_nil _ _

omit [F64 F] in
/-- A button takes the position that was held back with it. -/
theorem passes_onButton (r : Router F) (code : UInt32) (pressed : Bool) :
    (r.onButton code pressed).All (Passes (r.buttonMarks code pressed) r) := by
  rw [Router.onButton, Router.buttonMarks]
  cases buttonToBit code.toUInt16 with
  | none => exact all_head (passes_refl r)
  | some bit =>
      cases hb : r.bridge with
      | none => exact all_head (passes_of_eq rfl hb.symm rfl id .inl)
      | some b =>
          refine all_head ⟨?_, fun _ _ => ⟨rfl, id⟩, (fun h => by cases h)⟩
          intro _ b' hb'
          cases hb'
          refine ⟨b, (r.pendingPos.toList.map fun p => .pointerAbs p.1 p.2) ++
            [.pointerButton (if pressed then r.buttons ||| bit else r.buttons &&& ~~~bit)], hb,
            ?_, ?_⟩
          · rw [sendAll_append, ← sendPos_eq]
            rfl
          · exact fun _ => List.append_ne_nil_of_right_ne_nil _ (List.cons_ne_nil _ _)

theorem passes_onFrame (r : Router F) (hid : r.activeId.isSome) :
    (r.onFrame zone).All (Passes .none r) := by
  rw [Router.onFrame]
  split
  · exact all_head (passes_refl r)
  · refine all_orPanic ?_
    rintro ⟨space, crossing⟩ hs
    have hmoved : Passes .none r
        { r with space := space, accDx := F64.ofInt 0, accDy := F64.ofInt 0 } :=
      passes_of_eq rfl rfl rfl id .inl
    dsimp only
    split
    · refine all_orPanic ?_
      intro r' hr'
      exact all_head (hmoved.trans (passes_goLocal hr') rfl rfl)
    · split
      · refine all_orPanic ?_
        intro pos hpos
        exact all_head (passes_of_eq rfl rfl rfl id fun _ => .inr hid)
      · exact all_head hmoved

theorem passes_onCapture (r : Router F) (e : CaptureEvent F) (portal : Portal) :
    (r.onCapture zone e).All (Passes (r.receiveMarks (.event (.capture e) portal)) r) := by
  rw [Router.onCapture]
  split
  next hstray =>
    cases e <;> simp only [Router.receiveMarks, hstray, if_true] <;> exact all_head (passes_refl r)
  next hcapture =>
    have hid : r.activeId.isSome := by
      rw [Bool.not_eq_true, Option.isNone_eq_false_iff] at hcapture
      exact hcapture
    -- An event is there now.
    have hflag : ∀ {m : Marks} {r' : Router F},
        Passes m { r with eventsThisActivation := true } r' → Passes m r r' := by
      intro m r' h
      refine ⟨h.sends, ?_, h.held⟩
      intro hm hid'
      obtain ⟨hid', hevents⟩ := h.waits hm hid'
      exact ⟨hid', fun he => by cases hevents he⟩
    cases e with
    | key code pressed time =>
        simp only [Router.receiveMarks, if_neg hcapture]
        exact (passes_onKey { r with eventsThisActivation := true } code pressed).imp fun _ => hflag
    | button code pressed =>
        simp only [Router.receiveMarks, if_neg hcapture]
        exact (passes_onButton { r with eventsThisActivation := true } code pressed).imp
          fun _ => hflag
    | motion dx dy => exact all_head (hflag (passes_of_eq rfl rfl rfl id .inl))
    | scrollDiscrete x y => exact all_head (hflag (passes_of_eq rfl rfl rfl id .inl))
    | scrollDelta dx dy =>
        refine all_head (hflag ?_)
        rw [Router.onScrollDelta]
        split <;> exact passes_of_eq rfl rfl rfl id .inl
    | frame => exact (passes_onFrame { r with eventsThisActivation := true } hid).imp fun _ => hflag
    | disconnected =>
        refine all_orPanic ?_
        intro r' hr'
        exact all_returned (hflag (passes_goLocal hr'))

/-- An activation that cannot be taken is given back. -/
theorem passes_onPortal (r : Router F) (e : PortalEvent F) (portal : Portal) :
    (r.onPortal zone portal e).All (Passes (r.receiveMarks (.event (.portal e) portal)) r) := by
  cases e with
  | activated id x y =>
      rw [Router.onPortal]
      cases hb : r.bridge with
      | none =>
          refine all_orPanic ?_
          intro r' hr'
          obtain ⟨space, -, hr'⟩ := Option.bind_eq_some_iff.mp hr'
          cases hr'
          refine all_head ⟨?_, ?_, fun hpos => ⟨.inl hpos, rfl⟩⟩
          · intro _ b' hb'
            cases hb'
          · intro _ hid
            cases hid
      | some b =>
          refine all_orPanic ?_
          intro r' hr'
          obtain ⟨space, cx, cy, -, -, rfl⟩ := Router.activate_eq_some hr'
          refine all_head ⟨?_, ?_, (fun h => by cases h)⟩
          · intro _ b' hb'
            cases hb'
            exact ⟨b, [.pointerAbs cx cy], hb, rfl, fun _ => List.cons_ne_nil _ _⟩
          · intro hm
            rw [Router.receiveMarks, hb] at hm
            cases hm
  | deactivated =>
      refine all_orPanic ?_
      intro r' hr'
      exact all_head (passes_goLocalIfActive hr')
  | disabled =>
      refine all_orPanic ?_
      intro r' hr'
      cases portal.enable with
      | error e => exact all_returned (passes_goLocalIfActive hr')
      | ok _ => exact all_head (passes_goLocalIfActive hr')
  | zonesChanged =>
      refine all_orPanic ?_
      intro r' hr'
      exact all_returned (passes_goLocal hr')

theorem passes_onScreenSaver (r : Router F) (portal : Portal) (locked : Bool) :
    (r.onScreenSaver zone portal locked).All (Passes .none r) := by
  cases locked with
  | true =>
      refine all_orPanic ?_
      intro r' hr'
      exact all_head (passes_goLocalIfActive hr')
  | false =>
      rw [Router.onScreenSaver]
      cases portal.armBarriers with
      | error e => exact all_returned (passes_refl r)
      | ok _ =>
          cases portal.enable with
          | error e => exact all_returned (passes_refl r)
          | ok _ => exact all_head (passes_refl r)

theorem passes_receive (r : Router F) (e : Recv F) :
    (r.receive zone e).All (Passes (r.receiveMarks e) r) := by
  cases e with
  | timeout => exact all_head (passes_refl r)
  | disconnected => exact all_returned (passes_refl r)
  | event e portal =>
      cases e with
      | portal e => exact passes_onPortal r e portal
      | capture e => exact passes_onCapture r e portal
      | screenSaver locked => exact passes_onScreenSaver r portal locked

end Parts

/-- Any half of an iteration. -/
theorem passes_step {zone : Zone} {l l' : Loop F} {half : Half F} {r : Router F}
    (hr : l.router = some r) (hst : (router zone).step l half = some l') :
    l'.All (Passes (l.marks zone half) r) := by
  cases half with
  | top t =>
      obtain ⟨r₁, rfl, rfl⟩ := step_top hst
      cases hr
      exact passes_top r t
  | receive e =>
      obtain ⟨r₁, rfl, rfl⟩ := step_receive hst
      cases hr
      exact passes_receive r e

/-! ## What the tests have found -/

section Tests
variable {zone : Zone} {r r' : Router F} {t : Top}

/-- The way to the wait. -/
theorem top_eq_waiting (h : r.top zone t = .waiting r') :
    t.shutdown = false ∧ ∃ r₁ r₂, r.keepalive zone t.keepaliveDue = some r₁ ∧
      (r₁.reconnect t.reconnectDue t.dial).failsafe zone t.silent = some r₂ ∧
      r' = r₂.clearPending.flush t.flushDue := by
  rw [Router.top] at h
  cases hshut : t.shutdown with
  | true =>
      rw [hshut, if_pos rfl] at h
      cases hlocal : r.goLocal zone <;> rw [hlocal] at h <;> cases h
  | false =>
      rw [hshut, if_neg Bool.false_ne_true] at h
      cases h₁ : r.keepalive zone t.keepaliveDue with
      | none =>
          rw [h₁] at h
          cases h
      | some r₁ =>
          rw [h₁] at h
          dsimp only [Loop.orPanic] at h
          split at h
          next r₂ h₂ =>
            cases h
            exact ⟨rfl, r₁, r₂, rfl, h₂, rfl⟩
          next => cases h

/-- From its head, the loop comes to the wait, or it ends. -/
theorem top_cases (zone : Zone) (r : Router F) (t : Top) :
    (∃ r', r.goLocal zone = some r' ∧ r.top zone t = .returned r' (.ok ())) ∨
      r.top zone t = .panicked ∨ ∃ r', r.top zone t = .waiting r' := by
  rw [Router.top]
  split
  · cases hlocal : r.goLocal zone with
    | none => exact .inr (.inl rfl)
    | some r' => exact .inl ⟨r', rfl, rfl⟩
  · cases r.keepalive zone t.keepaliveDue with
    | none => exact .inr (.inl rfl)
    | some r₁ =>
        simp only [Loop.orPanic]
        cases (r₁.reconnect t.reconnectDue t.dial).failsafe zone t.silent with
        | none => exact .inr (.inl rfl)
        | some r₂ => exact .inr (.inr ⟨_, rfl⟩)

/-- A shutdown ends the activation. -/
theorem waiting_of_top (h : (r.top zone t).router = some r') (hid : r'.activeId.isSome) :
    r.top zone t = .waiting r' := by
  rcases top_cases zone r t with ⟨r₁, hlocal, heq⟩ | heq | ⟨r₁, heq⟩
  · rw [heq] at h
    cases h
    rw [Router.activeId_goLocal hlocal] at hid
    cases hid
  · rw [heq] at h
    cases h
  · rw [heq] at h ⊢
    cases h
    rfl

/-- A capture without events is over when the clock says so. -/
theorem silent_of_top (h : r.top zone t = .waiting r') (hid : r'.activeId.isSome)
    (hevents : r'.eventsThisActivation = false) : t.silent = false := by
  obtain ⟨-, r₁, r₂, -, h₂, rfl⟩ := top_eq_waiting h
  have hkept : r₂.activeId.isSome ∧ r₂.eventsThisActivation = false := by
    rw [activeId_flush, Router.activeId_clearPending] at hid
    refine ⟨hid, ?_⟩
    rw [Router.clearPending_of_active hid, Router.flush] at hevents
    split at hevents <;> exact hevents
  cases hsilent : t.silent with
  | false => rfl
  | true =>
      rw [hsilent, Router.failsafe] at h₂
      split at h₂
      · rw [Router.activeId_goLocal h₂] at hkept
        cases hkept.1
      next hno =>
        cases h₂
        simp [hkept.1, hkept.2] at hno

theorem pendingPos_goLocal (h : r.goLocal zone = some r') : r'.pendingPos = r.pendingPos := by
  obtain ⟨space, -, h⟩ := Option.bind_eq_some_iff.mp h
  cases h
  rfl

/-- A position that is still held back was, and the throttle is closed. -/
theorem held_of_top (h : r.top zone t = .waiting r') (hpos : r'.pendingPos.isSome) :
    r.pendingPos.isSome ∧ t.flushDue = false := by
  obtain ⟨-, r₁, r₂, h₁, h₂, rfl⟩ := top_eq_waiting h
  have hflush : r₂.clearPending.pendingPos.isSome ∧ t.flushDue = false := by
    rw [Router.flush] at hpos
    split at hpos
    · cases hpos
    next hno =>
      refine ⟨hpos, Bool.eq_false_of_not_eq_true fun hdue => hno ?_⟩
      rw [hpos, hdue]
      rfl
  have hclear : r₂.pendingPos.isSome := by
    have h := hflush.1
    rw [Router.clearPending] at h
    split at h
    · cases h
    · exact h
  have hfailsafe : r₂.pendingPos = (r₁.reconnect t.reconnectDue t.dial).pendingPos := by
    rcases Router.failsafe_cases h₂ with hlocal | rfl
    · exact pendingPos_goLocal hlocal
    · rfl
  have hreconnect : (r₁.reconnect t.reconnectDue t.dial).pendingPos = r₁.pendingPos := by
    rcases r₁.reconnect_cases t.reconnectDue t.dial with heq | ⟨-, b, -, heq⟩ <;> rw [heq]
  have hkeepalive : r₁.pendingPos = r.pendingPos := by
    rcases Router.keepalive_cases h₁ with rfl | ⟨b, -, rfl⟩ | ⟨-, rfl⟩ | hlocal
    · rfl
    · rfl
    · rfl
    · have hsame := pendingPos_goLocal hlocal
      exact hsame
  rw [hfailsafe, hreconnect, hkeepalive] at hclear
  exact ⟨hclear, hflush.2⟩

/-- The connection that is kept has got its keepalive. -/
theorem sent_of_top (h : r.top zone t = .waiting r') (hb : r.bridge.isSome)
    (hb' : r'.bridge.isSome) (hagain : (r.topMarks zone t).lastReconnect = false)
    (hdue : t.keepaliveDue = true) : (r.topMarks zone t).lastSend = true := by
  obtain ⟨hshut, r₁, r₂, h₁, h₂, rfl⟩ := top_eq_waiting h
  rw [Router.topMarks, hshut, if_neg Bool.false_ne_true] at hagain ⊢
  simp only [h₁, h₂] at hagain ⊢
  suffices hsent : (r.keepaliveMarks t.keepaliveDue).lastSend = true by
    rw [Marks.or, Marks.or, hsent]
    rfl
  obtain ⟨b, hb⟩ := Option.isSome_iff_exists.mp hb
  rw [Router.keepaliveMarks, hdue, hb, Option.any_some, Bool.true_and]
  -- A bridge that did not take it is gone, and no other was asked for.
  by_contra hfail
  have hlost : r₁.bridge = none := by
    rw [Router.keepalive, hb] at h₁
    dsimp only at h₁
    rw [hdue, if_pos rfl, if_neg hfail] at h₁
    split at h₁
    · obtain ⟨space, -, h₁⟩ := Option.bind_eq_some_iff.mp h₁
      cases h₁
      rfl
    · cases h₁
      rfl
  simp only [Marks.or, Bool.or_eq_false_iff] at hagain
  obtain ⟨⟨-, hreconnect⟩, hflush⟩ := hagain
  have hcleared := ((passes_reconnect r₁ t.reconnectDue t.dial).trans (passes_failsafe h₂)
    rfl rfl).trans (passes_clearPending r₂) rfl rfl
  have hpasses := hcleared.trans (passes_flush r₂.clearPending t.flushDue) rfl rfl
  obtain ⟨b', hb'⟩ := Option.isSome_iff_exists.mp hb'
  obtain ⟨b₁, -, hb₁, -⟩ :=
    hpasses.sends (by simp [Marks.or, Marks.none, hreconnect, hflush]) b' hb'
  rw [hlost] at hb₁
  cases hb₁

end Tests

/-! ## Runs with a clock -/

section Runs
variable {zone : Zone} {remote : Screen F} {dial : Dial} {δ start : Nat}
  {as : List (TimedHalf F)} {a : TimedHalf F} {s s' : Timed F} {r : Router F}

theorem timed_step (h : (timed zone).step s a = some s') :
    s.now ≤ a.1 ∧ s.instants.Agrees a.1 a.2 ∧ ∃ l, (router zone).step s.loop a.2 = some l ∧
      s' =
        { loop := l
          now := a.1
          instants := s.instants.mark (s.loop.marks zone a.2) a.1
          lastTop := if a.2.isTop then a.1 else s.lastTop } := by
  simp only [timed] at h
  split at h
  next hagrees =>
    obtain ⟨l, hl, rfl⟩ := Option.map_eq_some_iff.mp h
    exact ⟨hagrees.1, hagrees.2, l, hl, rfl⟩
  next => cases h

/-- Without its clock, it is the loop. -/
theorem untimed {s₀ : Timed F} (h : (timed zone).exec s₀ as = some s) :
    (router zone).exec s₀.loop (as.map Prod.snd) = some s.loop := by
  refine (timed zone).exec_project (f := Timed.loop) ?_ h
  intro s a s' hst
  obtain ⟨-, -, l, hl, rfl⟩ := timed_step hst
  exact hl

/-- No instant is ahead of the clock. -/
structure Past (s : Timed F) : Prop where
  lastTop : s.lastTop ≤ s.now
  lastSend : s.instants.lastSend ≤ s.now
  lastPtrSend : s.instants.lastPtrSend ≤ s.now

theorem past_step (h : Past s) (hst : (timed zone).step s a = some s') : Past s' := by
  obtain ⟨hnow, -, l, -, rfl⟩ := timed_step hst
  obtain ⟨htop, hsend, hptr⟩ := h
  refine ⟨?_, ?_, ?_⟩
  · dsimp only
    split <;> omega
  · dsimp only [Instants.mark]
    split <;> omega
  · dsimp only [Instants.mark]
    split <;> omega

/-- A paced run is never further than `δ` from the last head. -/
theorem now_le_of_paced {s₀ : Timed F} (h₀ : s₀.now ≤ s₀.lastTop + δ)
    (h : (timed zone).exec s₀ as = some s) (hpaced : (timed zone).Meets (Paced δ) s₀ as) :
    s.now ≤ s.lastTop + δ := by
  refine (timed zone).exec_meets (P := fun s => s.now ≤ s.lastTop + δ) h₀ ?_ h hpaced
  intro s a s' _ hpace hst
  obtain ⟨-, -, l, -, rfl⟩ := timed_step hst
  dsimp only
  split
  · exact Nat.le_add_right _ _
  · exact hpace

theorem activates_of_marks {l : Loop F} {half : Half F}
    (h : (l.marks zone half).activatedAt = true) : half.activates = true := by
  cases half with
  | top t =>
      cases l with
      | head r =>
          have hmarks : (r.topMarks zone t).activatedAt = false := by
            rw [Router.topMarks]
            split
            · rfl
            · split
              · rfl
              · split
                · rfl
                · rw [Marks.or, Router.flushMarks]
                  split <;> rfl
          cases hmarks.symm.trans h
      | _ => cases h
  | receive e =>
      cases l with
      | waiting r =>
          change (r.receiveMarks e).activatedAt = true at h
          unfold Router.receiveMarks at h
          split at h
          · rfl
          · rw [Router.keyMarks] at h
            split at h
            · cases h
            · split at h
              · cases h
              · split at h <;> cases h
          · rw [Router.buttonMarks] at h
            split at h
            · cases h
            · split at h <;> cases h
          · cases h
      | _ => cases h

/-- An activation that is on was taken now, or goes on. -/
theorem taken_or_passes {l l' : Loop F} {half : Half F} {r' : Router F}
    (hl : (router zone).step l half = some l') (hr' : l'.router = some r')
    (hid' : r'.activeId.isSome) :
    (∃ id x y portal r b, half = .receive (.event (.portal (.activated id x y)) portal) ∧
        l = .waiting r ∧ r.bridge = some b ∧ r.activate zone b id y = some r') ∨
      half.activates = false ∧ (l.marks zone half).activatedAt = false ∧
        ∃ r, l.router = some r ∧ Passes (l.marks zone half) r r' ∧ r.activeId.isSome := by
  cases hact : half.activates with
  | true =>
      match half, hact, hl with
      | .receive (.event (.portal (.activated id x y)) portal), _, hl =>
          obtain ⟨r, rfl, rfl⟩ := step_receive hl
          rcases Router.receive_activated_cases zone r id x y portal with heq | ⟨r₁, heq, htaken⟩
          · rw [heq] at hr'
            cases hr'
          · rw [heq] at hr'
            cases hr'
            rcases htaken with hlocal | ⟨b, hb, htaken⟩
            · rw [Router.activeId_goLocal hlocal] at hid'
              cases hid'
            · exact .inl ⟨id, x, y, portal, r, b, rfl, rfl, hb, htaken⟩
  | false =>
      have hmarks : (l.marks zone half).activatedAt = false := by
        refine Bool.eq_false_of_not_eq_true fun hm => ?_
        rw [activates_of_marks hm] at hact
        cases hact
      obtain ⟨r, hr⟩ := router_of_step hl
      have hpasses := passes_step hr hl r' hr'
      exact .inr ⟨rfl, hmarks, r, hr, hpasses, (hpasses.waits hmarks hid').1 ▸ hid'⟩

/-- The activation that is on, and that nothing has come to it at the last head
of the loop. -/
def Waits (as : List (TimedHalf F)) (s : Timed F) : Prop :=
  ∀ r, s.loop.router = some r → r.activeId.isSome → ∃ pre t id x y portal post,
    as = pre ++ (t, .receive (.event (.portal (.activated id x y)) portal)) :: post ∧
      r.activeId = some id ∧ (∀ a ∈ post, a.2.activates = false) ∧ s.instants.activatedAt = t ∧
      (r.eventsThisActivation = false → s.lastTop ≤ t + fromSecs 3)

theorem waits_step (hpast : Past s) (h : Waits as s) (hst : (timed zone).step s a = some s') :
    Waits (as ++ [a]) s' := by
  obtain ⟨hnow, hagrees, l, hl, rfl⟩ := timed_step hst
  intro r' hr' hid'
  obtain ⟨now, half⟩ := a
  rcases taken_or_passes hl hr' hid' with
    ⟨id, x, y, portal, r, b, rfl, hwait, hb, htaken⟩ | ⟨hact, hmarks, r, hr, hpasses, hid⟩
  · obtain ⟨space, cx, cy, -, -, rfl⟩ := Router.activate_eq_some htaken
    refine ⟨as, now, id, x, y, portal, [], rfl, rfl, (fun a ha => by cases ha), ?_, ?_⟩
    · rw [hwait, Instants.mark, Loop.marks, Router.receiveMarks, hb]
      rfl
    · intro _
      exact Nat.le_add_right_of_le (hpast.lastTop.trans hnow)
  · obtain ⟨hsame, hevents⟩ := hpasses.waits hmarks hid'
    obtain ⟨pre, t, id, x, y, portal, post, rfl, hid₁, hpost, hat, hlate⟩ := h r hr hid
    refine ⟨pre, t, id, x, y, portal, post ++ [(now, half)], by simp, hsame.trans hid₁, ?_, ?_, ?_⟩
    · intro b hb
      rcases List.mem_append.mp hb with hb | hb
      · exact hpost b hb
      · rw [List.mem_singleton.mp hb]
        exact hact
    · rw [Instants.mark, hmarks]
      exact hat
    · intro hquiet
      cases half with
      | receive e => exact hlate (hevents hquiet)
      | top tests =>
          -- The head of the loop has looked at the clock.
          obtain ⟨r₁, hhead, rfl⟩ := step_top hl
          have hsilent := silent_of_top (waiting_of_top hr' hid') hid' hquiet
          have hrecent : ¬ fromSecs 3 < now - s.instants.activatedAt := by
            rw [hagrees.2.2.1] at hsilent
            exact of_decide_eq_false hsilent
          rw [hat] at hrecent
          show now ≤ t + fromSecs 3
          omega

theorem waits_run (hrun : (timed zone).exec (.start zone remote dial start) as = some s) :
    Waits as s := by
  suffices hboth : Past s ∧ Waits as s from hboth.2
  refine (timed zone).exec_induction (P := fun as s => Past s ∧ Waits as s) ?_ ?_ hrun
  · refine ⟨⟨Nat.le_refl _, Nat.le_refl _, Nat.le_refl _⟩, ?_⟩
    rintro r ⟨⟩ hid
    cases hid
  · intro as a s s' hs hst
    exact ⟨past_step hs.1 hst, waits_step hs.1 hs.2 hst⟩

/-- **No capture into a void.** In a paced run, a capture that is on and to
which nothing has come was activated at most 3 s and `δ` ago. -/
theorem captured_briefly (hrun : (timed zone).exec (.start zone remote dial start) as = some s)
    (hpaced : (timed zone).Meets (Paced δ) (.start zone remote dial start) as)
    (hr : s.loop.router = some r) (hactive : r.activeId.isSome)
    (hquiet : r.eventsThisActivation = false) :
    ∃ pre t id x y portal post,
      as = pre ++ (t, .receive (.event (.portal (.activated id x y)) portal)) :: post ∧
        r.activeId = some id ∧ (∀ a ∈ post, a.2.activates = false) ∧
        s.now ≤ t + fromSecs 3 + δ := by
  obtain ⟨pre, t, id, x, y, portal, post, heq, hid, hpost, -, hlate⟩ :=
    waits_run hrun r hr hactive
  have hnow := now_le_of_paced (Nat.le_add_right _ _) hrun hpaced
  have htop := hlate hquiet
  exact ⟨pre, t, id, x, y, portal, post, heq, hid, hpost, by omega⟩

/-- The position that is held back was not before some event, after which it
was at each head of the loop, and the throttle was closed. -/
def HeldSince (zone : Zone) (s₀ : Timed F) (as : List (TimedHalf F)) (s : Timed F) : Prop :=
  ∀ r, s.loop.router = some r → r.activeId.isSome → r.pendingPos.isSome →
    ∃ pre u half post s₁ r₁, as = pre ++ (u, half) :: post ∧
      (timed zone).exec s₀ pre = some s₁ ∧ s₁.loop = .waiting r₁ ∧ r₁.activeId.isSome ∧
      r₁.pendingPos = none ∧ s.instants.lastPtrSend ≤ u ∧
      (s.lastTop ≤ u ∨ s.lastTop < s.instants.lastPtrSend + pointerSendInterval)

theorem heldSince_step {s₀ : Timed F} (hexec : (timed zone).exec s₀ as = some s) (hpast : Past s)
    (h : HeldSince zone s₀ as s) (hst : (timed zone).step s a = some s') :
    HeldSince zone s₀ (as ++ [a]) s' := by
  obtain ⟨hnow, hagrees, l, hl, rfl⟩ := timed_step hst
  intro r' hr' hid' hpos'
  obtain ⟨now, half⟩ := a
  rcases taken_or_passes hl hr' hid' with
    ⟨id, x, y, portal, r, b, rfl, hwait, hb, htaken⟩ | ⟨hact, hmarks, r, hr, hpasses, hid⟩
  · obtain ⟨space, cx, cy, -, -, rfl⟩ := Router.activate_eq_some htaken
    cases hpos'
  · obtain ⟨-, hptr⟩ := hpasses.held hpos'
    have hsame : (s.instants.mark (s.loop.marks zone half) now).lastPtrSend =
        s.instants.lastPtrSend := by
      rw [Instants.mark, hptr]
      rfl
    have hgoesOn : r.pendingPos.isSome →
        (half.isTop = true → now < s.instants.lastPtrSend + pointerSendInterval) →
        ∃ pre u half' post s₁ r₁, as ++ [(now, half)] = pre ++ (u, half') :: post ∧
          (timed zone).exec s₀ pre = some s₁ ∧ s₁.loop = .waiting r₁ ∧ r₁.activeId.isSome ∧
          r₁.pendingPos = none ∧ s.instants.lastPtrSend ≤ u ∧
          ((if half.isTop then now else s.lastTop) ≤ u ∨
            (if half.isTop then now else s.lastTop) <
              s.instants.lastPtrSend + pointerSendInterval) := by
      intro hpos hclosed
      obtain ⟨pre, u, half', post, s₁, r₁, rfl, hpre, hwait, hid₁, hnone, hu, hlate⟩ :=
        h r hr hid hpos
      refine ⟨pre, u, half', post ++ [(now, half)], s₁, r₁, by simp, hpre, hwait, hid₁, hnone,
        hu, ?_⟩
      split
      next htop => exact .inr (hclosed htop)
      next => exact hlate
    dsimp only
    rw [hsame]
    cases half with
    | top tests =>
        obtain ⟨r₁, hhead, rfl⟩ := step_top hl
        rw [hhead] at hr
        cases hr
        obtain ⟨hpos, hclosed⟩ := held_of_top (waiting_of_top hr' hid') hpos'
        refine hgoesOn hpos ?_
        intro _
        rw [hagrees.2.2.2] at hclosed
        have hearly := of_decide_eq_false hclosed
        omega
    | receive e =>
        cases hpos : r.pendingPos with
        | some pos => exact hgoesOn (by rw [hpos]; rfl) (fun htop => by cases htop)
        | none =>
            obtain ⟨r₁, hwait, rfl⟩ := step_receive hl
            rw [hwait] at hr
            cases hr
            exact ⟨as, now, .receive e, [], s, r, rfl, hexec, hwait, hid, hpos,
              hpast.lastPtrSend.trans hnow, .inl (hpast.lastTop.trans hnow)⟩

/-- Messages were written on the connection, and the last position of them is
where the model is. -/
def UpToDate (r : Router F) (b : BridgeClient) : Prop :=
  ∃ msgs pos, b.stream.written = wire msgs ∧ lastAbs msgs = some pos ∧
    r.space.canonical = some pos

/-- **No position is held back for long.** In a paced run, while a position is
held back: until some event, less than the interval of the throttle and `δ`
ago, there was a connection, and unless a write on it had failed, the last
position written was that of the model. -/
theorem held_briefly (hrun : (timed zone).exec (.start zone remote dial start) as = some s)
    (hpaced : (timed zone).Meets (Paced δ) (.start zone remote dial start) as)
    (hr : s.loop.router = some r) (hactive : r.activeId.isSome) (hpos : r.pendingPos.isSome) :
    ∃ pre u half post s₁ r₁, as = pre ++ (u, half) :: post ∧
      (timed zone).exec (.start zone remote dial start) pre = some s₁ ∧
      s₁.loop = .waiting r₁ ∧ r₁.activeId.isSome ∧
      (∃ b, r₁.bridge = some b ∧ (b.stream.broken = false → UpToDate r₁ b)) ∧
      s.now < u + pointerSendInterval + δ := by
  have hboth : Past s ∧ HeldSince zone (.start zone remote dial start) as s := by
    refine (timed zone).exec_induction_of_all (Q := fun _ => True)
      (P := fun as s => Past s ∧ HeldSince zone (.start zone remote dial start) as s)
      ?_ ?_ hrun fun _ _ => trivial
    · refine ⟨⟨Nat.le_refl _, Nat.le_refl _, Nat.le_refl _⟩, ?_⟩
      rintro r ⟨⟩ hid
      cases hid
    · intro as a s s' hexec hs _ hst
      exact ⟨past_step hs.1 hst, heldSince_step hexec hs.1 hs.2 hst⟩
  obtain ⟨pre, u, half, post, s₁, r₁, heq, hpre, hwait, hid, hnone, hu, hlate⟩ :=
    hboth.2 r hr hactive hpos
  have hnow := now_le_of_paced (Nat.le_add_right _ _) hrun hpaced
  have hwritten : ∃ b, r₁.bridge = some b ∧ (b.stream.broken = false → UpToDate r₁ b) := by
    obtain ⟨hok, hnewest⟩ := newest_run (untimed hpre)
    rw [hwait] at hok hnewest
    obtain ⟨b, hb⟩ := Option.isSome_iff_exists.mp (hok.1.captured hid)
    refine ⟨b, hb, ?_⟩
    intro hbroken
    obtain ⟨msgs, hfresh, hwritten⟩ := hnewest b hb hbroken
    obtain ⟨pos, hcanonical, hlast⟩ := hfresh hid
    rw [hnone] at hlast
    exact ⟨msgs, pos, hwritten, hlast, hcanonical⟩
  refine ⟨pre, u, half, post, s₁, r₁, heq, hpre, hwait, hid, hwritten, ?_⟩
  have hinterval : 0 < pointerSendInterval := by decide
  omega

end Runs

/-! ## A motion after a crossing -/

def tested (now : Nat) (t : Top) : TimedHalf ℚ := (now, .top t)

def received (now : Nat) (e : Event ℚ) : TimedHalf ℚ :=
  (now, .receive (.event e ⟨.ok (), .ok ()⟩))

/-- The pointer crosses, and nothing comes for 100 ms. -/
def crossed : List (TimedHalf ℚ) :=
  [tested 0 .quiet, received 100000 (.portal (.activated 7 2559 720)),
    tested 200000 { Top.quiet with flushDue := true }]

/-- Motion, within the interval of the throttle. -/
def crossedAndMoved : List (TimedHalf ℚ) :=
  crossed ++ [received 201000 (.capture (.motion 10 0)),
    tested 201000 { Top.quiet with flushDue := true }, received 202000 (.capture .frame)]

theorem captured_briefly_crossed : ∃ s r,
    (timed ubuntu).exec (.start ubuntu windows answered 0) crossed = some s ∧
      s.loop.router = some r ∧ r.activeId = some 7 ∧
      ∃ t, s.now ≤ t + fromSecs 3 + fromMillis 300 := by
  have hrun : (((timed ubuntu).exec (.start ubuntu windows answered 0) crossed).bind fun s =>
      s.loop.router.map fun r => (r.activeId, r.eventsThisActivation)) = some (some 7, false) := by
    decide +kernel
  obtain ⟨s, hs, hrun⟩ := Option.bind_eq_some_iff.mp hrun
  obtain ⟨r, hr, hstate⟩ := Option.map_eq_some_iff.mp hrun
  obtain ⟨hid, hquiet⟩ := Prod.mk.inj hstate
  have hpaced : (timed ubuntu).Meets (Paced (fromMillis 300)) (.start ubuntu windows answered 0)
      crossed := by decide +kernel
  obtain ⟨pre, t, -, -, -, -, -, -, -, -, hnow⟩ :=
    captured_briefly hs hpaced hr (by rw [hid]; rfl) hquiet
  exact ⟨s, r, hs, hr, hid, t, hnow⟩

theorem held_briefly_moved : ∃ (s : Timed ℚ) (r r₁ : Router ℚ) (b : BridgeClient) (u : Nat),
    (timed ubuntu).exec (.start ubuntu windows answered 0) crossedAndMoved = some s ∧
      s.loop.router = some r ∧ r.pendingPos = some (342, 32798) ∧
      r₁.bridge = some b ∧ (b.stream.broken = false → UpToDate r₁ b) ∧
      s.now < u + pointerSendInterval + fromMillis 300 := by
  have hrun : (((timed ubuntu).exec (.start ubuntu windows answered 0) crossedAndMoved).bind
      fun s => s.loop.router.map fun r => (r.activeId, r.pendingPos)) =
        some (some 7, some (342, 32798)) := by
    decide +kernel
  obtain ⟨s, hs, hrun⟩ := Option.bind_eq_some_iff.mp hrun
  obtain ⟨r, hr, hstate⟩ := Option.map_eq_some_iff.mp hrun
  obtain ⟨hid, hpos⟩ := Prod.mk.inj hstate
  have hpaced : (timed ubuntu).Meets (Paced (fromMillis 300)) (.start ubuntu windows answered 0)
      crossedAndMoved := by decide +kernel
  obtain ⟨-, u, -, -, -, r₁, -, -, -, -, ⟨b, hb, hwritten⟩, hnow⟩ :=
    held_briefly hs hpaced hr (by rw [hid]; rfl) (by rw [hpos]; rfl)
  exact ⟨s, r, r₁, b, u, hs, hr, hpos, hb, hwritten, hnow⟩

end Beaglewing.Input
