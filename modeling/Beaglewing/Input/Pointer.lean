/-
# `Input.Pointer` — the pointer of the model is the pointer the host is told

The geometry's position goes to the wire as a canonical one, to the bridge's
`Hid`, and to the host as a number of 15 bits for each axis.  Between a frame
of motion and the host it may wait in two places, for the router's throttle
and for the end of the bridge's read batch.  When it waits in neither, and the
device took the last report, the host has been told the position of the model
(`host_shows_position`).

A wheel report is written at once, and no other report turns the wheel.  So
the turns that are written are the detents of the wheel messages, in their
order, each at the last position before it (`host_shows_turns`); the host is
shown those whose reports it took.  A turn in a report that the device refuses
is not written again.

What it is not: as in `Input.Held`, the connection is one on which no write has
failed, and the bridge has read all of it.
-/
import Beaglewing.Input.Held

namespace Beaglewing.Input

open Base Base.HidReport Bridge Gadget

/-! ## The turns of the wheel -/

/-- What a message turns, behind a position. -/
def Message.spin (pos : UInt16 × UInt16) : Message → List Spin
  | .pointerWheel d =>
      if d.toInt = 0 ∨ d.toInt < -127 then []
      else [⟨d.toInt, (pos.1 >>> 1).toNat, (pos.2 >>> 1).toNat⟩]
  | .keepalive => []
  | .keyDown _ => []
  | .keyUp _ => []
  | .pointerAbs _ _ => []
  | .pointerButton _ => []
  | .releaseAll => []

/-- The turns of some messages, each at the last position before it. -/
def spins : UInt16 × UInt16 → List Message → List Spin
  | _, [] => []
  | pos, m :: msgs => m.spin pos ++ spins (m.position.getD pos) msgs

theorem spins_snoc (pos : UInt16 × UInt16) (msgs : List Message) (m : Message) :
    spins pos (msgs ++ [m]) = spins pos msgs ++ m.spin ((lastAbs msgs).getD pos) := by
  induction msgs generalizing pos with
  | nil => exact List.append_nil _
  | cons n msgs ih =>
      rw [List.cons_append, spins, spins, ih, List.append_assoc, lastAbs_cons]
      cases lastAbs msgs <;> rfl

/-- The turns in the pointer reports among some. -/
def turnsOf (reports : List Report) : List Spin :=
  ((reports.filter fun r => r.which = .ptr).map Report.bytes).filterMap Bridge.spin

theorem turnsOf_append (reports reports' : List Report) :
    turnsOf (reports ++ reports') = turnsOf reports ++ turnsOf reports' := by
  simp only [turnsOf, List.filter_append, List.map_append, List.filterMap_append]

/-- Between the two, these turns were written. -/
def Turned (h h' : Hid) (turns : List Spin) : Prop :=
  ∃ new, h'.reports = h.reports ++ new ∧ turnsOf new = turns

theorem Turned.refl (h : Hid) : Turned h h [] := ⟨[], (List.append_nil _).symm, rfl⟩

theorem Turned.trans {h h₁ h₂ : Hid} {turns turns' : List Spin} (ht : Turned h h₁ turns)
    (ht' : Turned h₁ h₂ turns') : Turned h h₂ (turns ++ turns') := by
  obtain ⟨new, hnew, rfl⟩ := ht
  obtain ⟨new', hnew', rfl⟩ := ht'
  exact ⟨new ++ new', by rw [hnew', hnew, List.append_assoc], turnsOf_append new new'⟩

theorem turned_flushKbd (h : Hid) : Turned h h.flushKbd [] := ⟨_, rfl, rfl⟩

theorem turned_flushPtr (h : Hid) (wheel : Int8) :
    Turned h (h.flushPtr wheel) ((Message.pointerWheel wheel).spin (h.x, h.y)) := by
  refine ⟨_, rfl, ?_⟩
  show [Hid.ptrReport h.buttons h.x h.y wheel].filterMap Bridge.spin = _
  rw [List.filterMap_cons, spin_ptrReport, Message.spin]
  by_cases hnone : wheel.toInt = 0 ∨ wheel.toInt < -127
  · rw [if_pos hnone, if_pos hnone]
    rfl
  · rw [if_neg hnone, if_neg hnone]
    rfl

theorem turned_flushAbs (c : Client) : Turned c.hid c.flushAbs.hid [] := by
  rw [Client.flushAbs]
  split
  · next x y _ => exact turned_flushPtr { c.hid with x := x, y := y } 0
  · exact .refl _

theorem turned_keyEvent (h : Hid) (usage : UInt8) (down : Bool) :
    Turned h (h.keyEvent usage down) [] := by
  obtain ⟨f, hf⟩ := keyEvent_eq usage down
  rw [hf, Hid.updateKeys]
  cases f h.modifiers h.keys with
  | none => exact .refl h
  | some q => exact turned_flushKbd { h with modifiers := q.1, keys := q.2 }

theorem turned_act {c c' : Client} {m : Message} (hact : c.act m.item = .go c') :
    Turned c.hid c'.hid (m.spin (cursor c)) := by
  have hmeaning := meaning_of_act hact
  have hflush := turned_flushAbs c
  cases m with
  | keepalive =>
      cases hmeaning
      exact .refl _
  | keyDown usage =>
      cases hmeaning
      exact turned_keyEvent c.hid usage true
  | keyUp usage =>
      cases hmeaning
      exact turned_keyEvent c.hid usage false
  | pointerAbs x y =>
      cases hmeaning
      exact .refl _
  | pointerButton buttons =>
      cases hmeaning
      exact hflush.trans (turned_flushPtr { c.flushAbs.hid with buttons := _ } 0)
  | pointerWheel detents =>
      cases hmeaning
      have hcursor : (c.flushAbs.hid.x, c.flushAbs.hid.y) = cursor c := position_flushAbs c
      have hturned := hflush.trans (turned_flushPtr c.flushAbs.hid detents)
      rw [hcursor] at hturned
      exact hturned
  | releaseAll =>
      cases hmeaning
      have hkbd := turned_flushKbd
        { c.flushAbs.hid with modifiers := 0, keys := fun _ => 0, buttons := 0 }
      exact hflush.trans (hkbd.trans (turned_flushPtr _ 0))

/-- A client that has acted on messages has written their turns. -/
theorem spins_led {msgs : List Message} {c₀ c : Client}
    (hled : Led Client.act Client.flushAbs c₀ (items msgs) c) :
    cursor c = (lastAbs msgs).getD (cursor c₀) ∧ Turned c₀.hid c.hid (spins (cursor c₀) msgs) := by
  have htidy : ∀ (msgs : List Message) (c : Client),
      (cursor c = (lastAbs msgs).getD (cursor c₀) ∧
        Turned c₀.hid c.hid (spins (cursor c₀) msgs)) →
      cursor c.flushAbs = (lastAbs msgs).getD (cursor c₀) ∧
        Turned c₀.hid c.flushAbs.hid (spins (cursor c₀) msgs) := by
    rintro msgs c ⟨hcursor, hturned⟩
    have hflush := hturned.trans (turned_flushAbs c)
    rw [List.append_nil] at hflush
    exact ⟨(cursor_flushAbs c).trans hcursor, hflush⟩
  induction msgs using List.reverseRecOn generalizing c with
  | nil =>
      have hled' : Led Client.act Client.flushAbs c₀
          ([] ++ [(Protocol.msgHello, toLe16 Protocol.version)]) c := hled
      refine led_snoc (htidy []) ?_ hled'
      intro c₁ c₂ hled₁ hact
      have h₁ := led_nil (htidy []) ⟨rfl, .refl _⟩ hled₁
      have hhid : c₂.hid = c₁.hid ∧ c₂.pendingAbs = c₁.pendingAbs := by
        rw [Client.act] at hact
        split at hact
        · cases hact
          exact ⟨rfl, rfl⟩
        · obtain ⟨-, -, rfl⟩ := greet_go hact
          exact ⟨rfl, rfl⟩
      rw [cursor, hhid.1, hhid.2]
      exact h₁
  | append_singleton msgs m ih =>
      rw [items_snoc] at hled
      refine led_snoc (htidy (msgs ++ [m])) ?_ hled
      intro c₁ c₂ hled₁ hact
      obtain ⟨hcursor, hturned⟩ := ih hled₁
      refine ⟨?_, ?_⟩
      · rw [cursor_act hact, hcursor, lastAbs_snoc]
        cases m.position <;> rfl
      · rw [spins_snoc, ← hcursor]
        exact hturned.trans (turned_act hact)

/-! ## The position -/

theorem sent_keyEvent_ptr (h : Hid) (usage : UInt8) (down : Bool) :
    (h.keyEvent usage down).sent .ptr = h.sent .ptr := by
  obtain ⟨f, hf⟩ := keyEvent_eq usage down
  rw [hf, Hid.updateKeys]
  cases f h.modifiers h.keys with
  | none => rfl
  | some q => exact Hid.sent_flushKbd_ptr _

/-- A position has come: it is held back, or was reported. -/
def Pointed (c : Client) : Prop := c.pendingAbs.isSome = true ∨ c.hid.sent .ptr ≠ []

theorem pointed_flushAbs {c : Client} (h : Pointed c) : c.flushAbs.hid.sent .ptr ≠ [] := by
  rw [ptr_flushAbs, Client.heldBack]
  rcases h with h | h
  · obtain ⟨pos, hpos⟩ := Option.isSome_iff_exists.mp h
    simp [hpos]
  · simp [h]

theorem pointed_act {c c' : Client} {m : Message} (h : Pointed c ∨ m.position.isSome = true)
    (hact : c.act m.item = .go c') : Pointed c' := by
  have hmeaning := meaning_of_act hact
  cases m with
  | keepalive =>
      cases hmeaning
      exact h.resolve_right Bool.false_ne_true
  | keyDown usage =>
      cases hmeaning
      rw [Pointed, sent_keyEvent_ptr]
      exact h.resolve_right Bool.false_ne_true
  | keyUp usage =>
      cases hmeaning
      rw [Pointed, sent_keyEvent_ptr]
      exact h.resolve_right Bool.false_ne_true
  | pointerAbs x y =>
      cases hmeaning
      exact .inl rfl
  | pointerButton buttons =>
      cases hmeaning
      rw [Pointed, Hid.sent_flushPtr_ptr]
      exact .inr (by simp)
  | pointerWheel detents =>
      cases hmeaning
      rw [Pointed, Hid.sent_flushPtr_ptr]
      exact .inr (by simp)
  | releaseAll =>
      cases hmeaning
      rw [Pointed, Hid.releaseAll, Hid.sent_flushPtr_ptr]
      exact .inr (by simp)

theorem pointed_led {msgs : List Message} {c₀ c : Client} (hlast : (lastAbs msgs).isSome = true)
    (hled : Led Client.act Client.flushAbs c₀ (items msgs) c) : Pointed c := by
  induction msgs using List.reverseRecOn generalizing c with
  | nil => cases hlast
  | append_singleton msgs m ih =>
      rw [items_snoc] at hled
      refine led_snoc (Q := Pointed) (fun c h => .inr (pointed_flushAbs h)) ?_ hled
      intro c₁ c₂ hled₁ hact
      refine pointed_act ?_ hact
      rw [lastAbs_snoc] at hlast
      cases hm : m.position with
      | some pos => exact .inr rfl
      | none =>
          rw [hm] at hlast
          exact .inl (ih hlast hled₁)

/-! ## The host -/

variable {F : Type} [F64 F]

/-- While an activation is current and the throttle holds no position back, a
bridge that has read all that was written, and whose last pointer report was
taken, has told the host the position of the model, in 15 bits an axis. -/
theorem host_shows_position (zone : Zone) (remote : Screen F) (dial : Dial) (halves : List (Half F))
    (l : Loop F) (r : Router F) (b : BridgeClient)
    (hrun : (router zone).exec (.head (.start zone remote dial)) halves = some l)
    (hl : l.atHead = some r ∨ l.atWait = some r) (hactive : r.activeId.isSome)
    (hb : r.bridge = some b) (hwrites : b.stream.broken = false) (hpending : r.pendingPos = none)
    (takes : Nat → Bool) (earlier : List DaemonEvent) (hid : Hid) (ready : Bool)
    (room : Option Nat) (turns : List Turn) (s : Session)
    (hearlier : daemon.exec (.listening (.open takes)) earlier = some (.listening hid))
    (hsession : daemon.exec (.listening hid) (.accept ready room :: turns.map .turn) =
      some (.serving s))
    (hread : turns.flatMap Turn.received = b.stream.written) (htook : s.client.hid.Took .ptr) :
    ∃ pos : UInt16 × UInt16, r.space.canonical = some pos ∧
      ∀ v, (s.client.hid.Told .ptr ⟨desktopPage, usageX, v⟩ ↔ v = (pos.1 >>> 1).toNat) ∧
        (s.client.hid.Told .ptr ⟨desktopPage, usageY, v⟩ ↔ v = (pos.2 >>> 1).toNat) := by
  obtain ⟨msgs, pos, hwritten, hcanonical, hlast, hcursor⟩ :=
    newest_position zone remote dial halves l r b hrun hl hactive hb hwrites
  have hpos := hcursor hpending takes earlier hid ready room turns s hearlier hsession hread
  have hlast : lastAbs msgs = some pos := by
    rcases hlast with hheld | ⟨-, hlast⟩
    · rw [hpending] at hheld
      cases hheld
    · exact hlast
  have htracks := tracks_session hsession
  rw [hread, hwritten] at htracks
  have hpointed := pointed_led (by rw [hlast]; rfl) (framing.tracks_whole htracks (parses_wire msgs))
  have hnone : s.client.pendingAbs = none :=
    pendingAbs_acts (show (Session.new hid room).client.pendingAbs = none from rfl)
      (acts_of_session hsession)
  have hsome : (s.client.hid.lastWritten .ptr).isSome = true := by
    rcases hpointed with hheld | hsent
    · rw [hnone] at hheld
      cases hheld
    · rw [Hid.lastWritten, List.getLast?_isSome]
      exact hsent
  have hshown : Shown s.client.hid := shown_run (daemon.exec_trans hearlier hsession)
  obtain ⟨hx, hy⟩ := Prod.mk.inj hpos
  refine ⟨pos, hcanonical, ?_⟩
  intro v
  rw [← hx, ← hy, Hid.told_iff htook, Hid.told_iff htook]
  exact hshown.position hsome v

theorem host_shows_position_moved :
    ∃ (r : Router ℚ) (b : BridgeClient) (s : Session),
      (router ubuntu).exec (.head (.start ubuntu windows answered)) moved = some (.waiting r) ∧
        r.bridge = some b ∧
        daemon.exec (.listening (.open fun _ => true))
            (.accept true none :: (b.stream.written.map Turn.one).map .turn) =
          some (.serving s) ∧
        s.client.hid.Told .ptr ⟨desktopPage, usageX, 171⟩ ∧
        s.client.hid.Told .ptr ⟨desktopPage, usageY, 16551⟩ := by
  have hrouter : ((((router ubuntu).exec (.head (.start ubuntu windows answered))
      moved).bind Loop.atWait).map fun r => (r.activeId, r.pendingPos, r.space.canonical, r.bridge)) =
      some (some 7, none, some (342, 33102), some ⟨movedBytes, none, false⟩) := by decide +kernel
  have hdaemon : ((daemon.exec (.listening (.open fun _ => true))
      (.accept true none :: (movedBytes.map Turn.one).map .turn)).map fun d =>
        match d with
        | .serving s => decide (s.client.hid.Took .ptr)
        | _ => false) = some true := by
    decide +kernel
  obtain ⟨r, hr, hstate⟩ := Option.map_eq_some_iff.mp hrouter
  have hl := Loop.bind_atWait_eq_some.mp hr
  simp only [Prod.mk.injEq] at hstate
  obtain ⟨hid, hpending, hcanonical, hb⟩ := hstate
  obtain ⟨d, hd, hserving⟩ := Option.map_eq_some_iff.mp hdaemon
  cases d with
  | listening hid => cases hserving
  | exited hid => cases hserving
  | serving s =>
      obtain ⟨pos, hpos, hshows⟩ :=
        host_shows_position ubuntu windows answered moved _ r _ hl (.inr rfl) (by rw [hid]; rfl) hb
          rfl hpending (fun _ => true) [] _ true none _ s rfl hd (received_one movedBytes)
          (of_decide_eq_true hserving)
      rw [hcanonical] at hpos
      cases hpos
      exact ⟨r, _, s, hl, hb, hd, (hshows 171).1.mpr rfl, (hshows 16551).2.mpr rfl⟩

/-- A bridge that has read all that was written on the router's connection has
written, in this session, exactly the turns of its wheel messages.  The host is
shown those whose reports it took, in their order: all of them if it took all. -/
theorem host_shows_turns (zone : Zone) (remote : Screen F) (dial : Dial) (halves : List (Half F))
    (l : Loop F) (r : Router F) (b : BridgeClient)
    (hrun : (router zone).exec (.head (.start zone remote dial)) halves = some l)
    (hl : l.atHead = some r ∨ l.atWait = some r) (hb : r.bridge = some b)
    (hwrites : b.stream.broken = false)
    (hid : Hid) (ready : Bool) (room : Option Nat) (turns : List Turn) (s : Session)
    (hsession : daemon.exec (.listening hid) (.accept ready room :: turns.map .turn) =
      some (.serving s))
    (hread : turns.flatMap Turn.received = b.stream.written) :
    ∃ msgs new, b.stream.written = wire msgs ∧ s.client.hid.reports = hid.reports ++ new ∧
      turnsOf new = spins (hid.x, hid.y) msgs ∧
      (turnsOf (new.filter Report.ok)).Sublist (spins (hid.x, hid.y) msgs) ∧
      ((∀ r ∈ new, r.ok = true) →
        turnsOf (new.filter Report.ok) = spins (hid.x, hid.y) msgs) := by
  have hok : Ok r := by
    have hloop : LoopOk l := ok_run hrun
    rcases hl with hl | hl
    · rw [Loop.atHead_eq_some.mp hl] at hloop
      exact hloop
    · rw [Loop.atWait_eq_some.mp hl] at hloop
      exact hloop.1
  obtain ⟨msgs, -, hwritten⟩ := hok.heard b hb hwrites
  have htracks := tracks_session hsession
  rw [hread, hwritten] at htracks
  obtain ⟨-, new, hnew, hturns⟩ := spins_led (framing.tracks_whole htracks (parses_wire msgs))
  refine ⟨msgs, new, hwritten, hnew, hturns, ?_, ?_⟩
  · rw [show spins (hid.x, hid.y) msgs = turnsOf new from hturns.symm]
    exact (((List.filter_sublist).filter _).map _).filterMap _
  · intro htaken
    rw [List.filter_eq_self.mpr htaken]
    exact hturns

/-- A motion, a turn of the wheel, and the throttle. -/
def wheeled : List (Half ℚ) :=
  entered ++ iteration (.capture (.motion 10 0)) ++ iteration (.capture .frame) ++
    iteration (.capture (.scrollDiscrete 0 1)) ++ [flushed]

def wheeledMessages : List Message :=
  [.pointerAbs 0 32798, .pointerAbs 342 32798, .pointerWheel (-1)]

theorem host_shows_turns_wheeled :
    ∃ (r : Router ℚ) (b : BridgeClient) (s : Session),
      (router ubuntu).exec (.head (.start ubuntu windows answered)) wheeled = some (.waiting r) ∧
        r.bridge = some b ∧
        daemon.exec (.listening (.open fun _ => true))
            (.accept true none :: (b.stream.written.map Turn.one).map .turn) =
          some (.serving s) ∧
        ∃ msgs, b.stream.written = wire msgs ∧
          turnsOf (s.client.hid.reports.filter Report.ok) = spins (32768, 32768) msgs := by
  have hrouter : ((((router ubuntu).exec (.head (.start ubuntu windows answered))
      wheeled).bind Loop.atWait).map Router.bridge) =
      some (some ⟨wire wheeledMessages, none, false⟩) := by decide +kernel
  have hdaemon : ((daemon.exec (.listening (.open fun _ => true))
      (.accept true none :: ((wire wheeledMessages).map Turn.one).map .turn)).map fun d =>
        match d with
        | .serving s => decide (∀ r ∈ s.client.hid.reports, r.ok = true)
        | _ => false) = some true := by
    decide +kernel
  obtain ⟨r, hr, hb⟩ := Option.map_eq_some_iff.mp hrouter
  have hl := Loop.bind_atWait_eq_some.mp hr
  obtain ⟨d, hd, hserving⟩ := Option.map_eq_some_iff.mp hdaemon
  cases d with
  | listening hid => cases hserving
  | exited hid => cases hserving
  | serving s =>
      have htaken : ∀ r ∈ s.client.hid.reports, r.ok = true := of_decide_eq_true hserving
      obtain ⟨msgs, new, hwritten, hnew, -, -, hturns⟩ :=
        host_shows_turns ubuntu windows answered wheeled _ r _ hl (.inr rfl) hb rfl _ true none _ s
          hd (received_one _)
      have hall : s.client.hid.reports = new := hnew
      refine ⟨r, _, s, hl, hb, hd, msgs, hwritten, ?_⟩
      rw [hall] at htaken ⊢
      exact hturns htaken

/-- The turn is at the position after the motion. -/
example : spins (32768, 32768) wheeledMessages = [⟨-1, 171, 16399⟩] := by decide

end Beaglewing.Input
