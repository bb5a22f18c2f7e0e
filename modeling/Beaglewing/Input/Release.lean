/-
# `Input.Release` — no stuck input

The router and the bridge together.  Every way back to the local side writes
RELEASE_ALL after the last key or button message, and none writes a key or
button message afterwards: that is `Settled`, which `Input.Mode` keeps.  The
bridge acts on whole messages in the order they were written, however TCP
cuts them (`tracks_session`), and settled messages leave nothing held
(`released_of_settled`).

A connection on which a write has failed carries a part of a message, and
possibly no RELEASE_ALL.  The bridge does not wait for one: the session ends,
and `main` releases everything.
-/
import Beaglewing.Bridge.Daemon
import Beaglewing.Bridge.Prefix
import Beaglewing.Input.Mode

namespace Beaglewing.Input

open Base Bridge

/-! ## The bridge reads what the client writes -/

/-- The message, as the bridge's parser hands it over. -/
def Message.item (m : Message) : Item := (m.msgType, m.payload)

/-- HELLO and the messages after it. -/
def items (msgs : List Message) : List Item :=
  (Protocol.msgHello, toLe16 Protocol.version) :: msgs.map Message.item

theorem items_snoc (msgs : List Message) (m : Message) :
    items (msgs ++ [m]) = items msgs ++ [m.item] := by
  simp [items]

theorem next_frame {t : UInt8} {p : List UInt8} (h : expectedLen t = some p.length)
    (rest : List UInt8) :
    framing.next (Protocol.frame t p ++ rest) = .item (t, p) rest :=
  next_encode (m := (t, p)) h rest

theorem expectedLen_msgType (m : Message) : expectedLen m.msgType = some m.payload.length := by
  cases m <;> rfl

theorem parses_bytes (msgs : List Message) :
    framing.Parses (msgs.flatMap Message.bytes) (msgs.map Message.item) [] := by
  induction msgs with
  | nil => exact .nil []
  | cons m msgs ih =>
      exact .cons (next_frame (expectedLen_msgType m) _) ih

/-- What a connection carries is what the bridge parses. -/
theorem parses_wire (msgs : List Message) : framing.Parses (wire msgs) (items msgs) [] :=
  .cons (next_frame rfl _) (parses_bytes msgs)

/-! ## Settled messages leave nothing held -/

theorem released_flushAbs {c : Client} (h : c.hid.Released) : c.flushAbs.hid.Released := by
  rw [Client.flushAbs]
  split
  · exact ⟨h.modifiers, h.keys, h.buttons⟩
  · exact h

theorem released_greet {c c' : Client} {t : UInt8} {p : List UInt8} (h : c.hid.Released)
    (hact : c.greet t p = .go c') : c'.hid.Released := by
  obtain ⟨-, -, rfl⟩ := greet_go hact
  exact h

/-- HELLO, keepalives and pointer motion change nothing that is held. -/
theorem released_dispatch {c c' : Client} {t : UInt8} {p : List UInt8} (h : c.hid.Released)
    (ht : t = Bridge.msgHello ∨ t = Bridge.msgKeepalive ∨ t = Bridge.msgPointerAbs ∨
      t = Bridge.msgPointerWheel) (hact : c.dispatch t p = .go c') : c'.hid.Released := by
  rcases ht with rfl | rfl | rfl | rfl
  · cases hact
    exact h
  · cases hact
    exact h
  · cases hact
    exact h
  · cases hact
    exact h.flushPtr _

theorem released_act {c c' : Client} {t : UInt8} {p : List UInt8} (h : c.hid.Released)
    (ht : t = Bridge.msgHello ∨ t = Bridge.msgKeepalive ∨ t = Bridge.msgPointerAbs ∨
      t = Bridge.msgPointerWheel) (hact : c.act (t, p) = .go c') : c'.hid.Released := by
  simp only [Client.act] at hact
  split at hact
  · refine released_dispatch ?_ ht hact
    split
    · exact released_flushAbs h
    · exact h
  · exact released_greet h hact

/-- RELEASE_ALL releases everything; before HELLO it ends the session. -/
theorem released_act_releaseAll {c c' : Client}
    (hact : c.act (Message.item .releaseAll) = .go c') : c'.hid.Released := by
  simp only [Client.act] at hact
  split at hact
  · cases hact
    exact Hid.released_releaseAll _
  · cases hact

theorem released_of_settled {msgs : List Message} (hs : Settled msgs) {c₀ c : Client}
    (h₀ : c₀.hid.Released) (hled : Led Client.act Client.flushAbs c₀ (items msgs) c) :
    c.hid.Released := by
  have htidy : ∀ c : Client, c.hid.Released → c.flushAbs.hid.Released :=
    fun _ => released_flushAbs
  induction hs generalizing c with
  | nil =>
      have hled' : Led Client.act Client.flushAbs c₀
          ([] ++ [(Protocol.msgHello, toLe16 Protocol.version)]) c := hled
      refine led_snoc htidy ?_ hled'
      intro c₁ c₂ hled₁ hact
      exact released_act (led_nil htidy h₀ hled₁) (.inl rfl) hact
  | release msgs =>
      rw [items_snoc] at hled
      refine led_snoc htidy ?_ hled
      intro c₁ c₂ _ hact
      exact released_act_releaseAll hact
  | @idle msgs m _ hm ih =>
      rw [items_snoc] at hled
      refine led_snoc htidy ?_ hled
      intro c₁ c₂ hled₁ hact
      refine released_act (ih hled₁) ?_ hact
      cases m with
      | keepalive => exact .inr (.inl rfl)
      | pointerAbs x y => exact .inr (.inr (.inl rfl))
      | pointerWheel d => exact .inr (.inr (.inr rfl))
      | keyDown u => exact hm.elim
      | keyUp u => exact hm.elim
      | pointerButton b => exact hm.elim
      | releaseAll => exact hm.elim

/-! ## The two together -/

/-- The bridge has caught up with a connection after some turns: its session
has ended, as it does when a write has failed, or it has read all that was
written. -/
def CaughtUp (b : BridgeClient) (turns : List Turn) (d : Daemon) : Prop :=
  ∀ s, d = .serving s →
    b.stream.broken = false ∧ turns.flatMap Turn.received = b.stream.written

variable {F : Type} [F64 F]

/-- Whenever the router's loop is at its head with the input on the local side,
a bridge that has caught up with the router's connection holds nothing:
whatever has happened to the router, whichever clients the bridge had
before, and however the stream was cut into reads. -/
theorem released_of_local (zone : Zone) (remote : Screen F) (dial : Dial)
    (halves : List (Half F)) (r : Router F) (b : BridgeClient) (takes : Nat → Bool)
    (before : List DaemonEvent) (hid : Hid) (ready : Bool) (room : Option Nat)
    (turns : List Turn) (d : Daemon)
    (hrun : (router zone).exec (.head (.start zone remote dial)) halves = some (.head r))
    (hlocal : r.activeId = none) (hb : r.bridge = some b)
    (hbefore : daemon.exec (.listening (.open takes)) before = some (.listening hid))
    (hsession : daemon.exec (.listening hid) (.accept ready room :: turns.map .turn) = some d)
    (hcaught : CaughtUp b turns d) :
    d.hid.modifiers = 0 ∧ (∀ i, d.hid.keys i = 0) ∧ d.hid.buttons = 0 := by
  have hreleased : d.hid.Released := by
    cases d with
    | listening hid' => exact released_of_listening (daemon.exec_trans hbefore hsession)
    | exited hid' => exact daemonOk_run (daemon.exec_trans hbefore hsession)
    | serving s =>
        obtain ⟨hbroken, hread⟩ := hcaught s rfl
        have hok : Ok r := ok_run hrun
        obtain ⟨msgs, hallowed, hwritten⟩ := hok.carried b hb hbroken
        have htracks := tracks_session hsession
        rw [hread, hwritten] at htracks
        exact released_of_settled (hallowed hlocal) (released_of_listening hbefore)
          (framing.tracks_whole htracks (parses_wire msgs))
  exact ⟨hreleased.modifiers, hreleased.keys, hreleased.buttons⟩

def controlThenLock : List (Half ℚ) := control ++ iteration (.screenSaver true)

/-- What the router has written by then. -/
def controlThenLockBytes : List UInt8 := wire [.pointerAbs 0 32798, .keyDown 0xe0, .releaseAll]

/-- The left control key goes down on the remote side, and the screen is
locked; the bridge reads what it is sent byte by byte. -/
theorem released_of_local_lock :
    ∃ (r : Router ℚ) (b : BridgeClient) (d : Daemon),
      (router ubuntu).exec (.head (.start ubuntu windows answered)) controlThenLock =
          some (.head r) ∧
        r.activeId = none ∧ r.bridge = some b ∧
        daemon.exec (.listening (.open fun _ => true))
            (.accept true none :: (b.stream.written.map Turn.one).map .turn) = some d ∧
        d.hid.modifiers = 0 ∧ (∀ i, d.hid.keys i = 0) ∧ d.hid.buttons = 0 := by
  have hrouter : ((((router ubuntu).exec (.head (.start ubuntu windows answered))
      controlThenLock).bind Loop.atHead).map fun r => (r.activeId, r.bridge)) =
      some (none, some ⟨controlThenLockBytes, none, false⟩) := by decide +kernel
  have hdaemon : (daemon.exec (.listening (.open fun _ => true))
      (.accept true none :: (controlThenLockBytes.map Turn.one).map .turn)).isSome := by
    decide +kernel
  have hread : (controlThenLockBytes.map Turn.one).flatMap Turn.received = controlThenLockBytes := by
    decide +kernel
  obtain ⟨r, hr, hstate⟩ := Option.map_eq_some_iff.mp hrouter
  have hl := Loop.bind_atHead_eq_some.mp hr
  obtain ⟨hlocal, hb⟩ := Prod.mk.inj hstate
  obtain ⟨d, hd⟩ := Option.isSome_iff_exists.mp hdaemon
  refine ⟨r, _, d, hl, hlocal, hb, hd, ?_⟩
  exact released_of_local ubuntu windows answered _ r _ _ [] _ true none _ d hl hlocal hb rfl hd
    fun s _ => ⟨rfl, hread⟩

end Beaglewing.Input
