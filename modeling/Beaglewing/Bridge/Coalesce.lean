/-
# `Bridge.Coalesce` — one report for the newest position

`handle_client` holds a position back until something must see it: another
pointer action, or the end of a read batch.  The reference writes a report
for every position at once (`Client.eager`).  With a host that takes every
report, `Refines` relates the two: it compares the reference with what the
session would be after a flush, so that the end of a batch is not seen.

| message | the session | the reference |
|---|---|---|
| POINTER_ABS | replaces the position held back | writes a report |
| BUTTON, WHEEL, RELEASE_ALL | flushes first, then acts | acts |
| the others | leave the position held back | act |

The reference knows nothing of reads.  So no observer of buttons, wheel,
keys and replies can tell how TCP has cut the stream.
-/
import Beaglewing.Bridge.Prefix

namespace Beaglewing.Bridge

open Base

namespace Hid

/-- The host has taken the last report, and takes all that follow. -/
structure Healthy (h : Hid) : Prop where
  hidOk : h.hidOk = true
  takes : ∀ n, h.reports.length ≤ n → h.takes n = true

/-- The reports to one device. -/
def sent (h : Hid) (which : Which) : List (List UInt8) :=
  (h.reports.filter fun r => r.which = which).map Report.bytes

theorem Healthy.writeReport {h : Hid} (hh : h.Healthy) (which : Which) (report : List UInt8) :
    (h.writeReport which report).Healthy := by
  refine ⟨hh.takes _ le_rfl, ?_⟩
  intro n hn
  simp only [Hid.writeReport, List.length_append] at hn
  exact hh.takes n (by omega)

@[simp] theorem sent_flushKbd_kbd (h : Hid) :
    h.flushKbd.sent .kbd = h.sent .kbd ++ [h.modifiers :: 0 :: List.ofFn h.keys] := by
  simp [sent, flushKbd, writeReport]

@[simp] theorem sent_flushKbd_ptr (h : Hid) : h.flushKbd.sent .ptr = h.sent .ptr := by
  simp [sent, flushKbd, writeReport]

@[simp] theorem sent_flushPtr_kbd (h : Hid) (wheel : Int8) :
    (h.flushPtr wheel).sent .kbd = h.sent .kbd := by
  simp [sent, flushPtr, writeReport]

/-- The bytes of a pointer report. -/
def ptrReport (buttons : UInt8) (x y : UInt16) (wheel : Int8) : List UInt8 :=
  let x := x >>> 1
  let y := y >>> 1
  [buttons, (x &&& 0xff).toUInt8, (x >>> 8).toUInt8, (y &&& 0xff).toUInt8, (y >>> 8).toUInt8,
    wheel.toUInt8]

@[simp] theorem sent_flushPtr_ptr (h : Hid) (wheel : Int8) :
    (h.flushPtr wheel).sent .ptr = h.sent .ptr ++ [ptrReport h.buttons h.x h.y wheel] := by
  simp [sent, flushPtr, writeReport, ptrReport]

end Hid

namespace Client

/-- The reference: a pointer report for every position at once. -/
def eager (c : Client) (m : Item) : Flow Client :=
  if c.greeted ∧ m.1 = msgPointerAbs then
    .go { c with
      hid := { c.hid with
        x := fromLe16 (m.2.getD 0 0) (m.2.getD 1 0)
        y := fromLe16 (m.2.getD 2 0) (m.2.getD 3 0) }.flushPtr 0 }
  else c.act m

/-- The pointer reports that POINTER_BUTTON, POINTER_WHEEL and RELEASE_ALL
cause, behind those for a position. -/
def action (c : Client) (m : Item) : List (List UInt8) :=
  if c.greeted ∧ needsFlush m.1 then
    ((c.flushAbs.dispatch m.1 m.2).state.hid.sent .ptr).drop (c.flushAbs.hid.sent .ptr).length
  else []

end Client

/-! ## The session after a flush -/

/-- What can be seen of a client is the same, but that the reference has
written more pointer reports. -/
structure Refines (c r : Client) : Prop where
  greeted : c.greeted = r.greeted
  stream : c.stream = r.stream
  settled : r.pendingAbs = none
  modifiers : c.hid.modifiers = r.hid.modifiers
  keys : c.hid.keys = r.hid.keys
  buttons : c.hid.buttons = r.hid.buttons
  position : c.pendingAbs.getD (c.hid.x, c.hid.y) = (r.hid.x, r.hid.y)
  healthy : c.hid.Healthy
  healthy_ref : r.hid.Healthy
  kbd : c.hid.sent .kbd = r.hid.sent .kbd
  ptr : (c.flushAbs.hid.sent .ptr).Sublist (r.hid.sent .ptr)

theorem flushAbs_none {c : Client} (h : c.pendingAbs = none) : c.flushAbs = c := by
  rw [Client.flushAbs, h]

@[simp] theorem pendingAbs_flushAbs (c : Client) : c.flushAbs.pendingAbs = none := by
  rw [Client.flushAbs]
  split
  · rfl
  · next h => exact h

@[simp] theorem modifiers_flushAbs (c : Client) : c.flushAbs.hid.modifiers = c.hid.modifiers := by
  rw [Client.flushAbs]
  split <;> rfl

@[simp] theorem keys_flushAbs (c : Client) : c.flushAbs.hid.keys = c.hid.keys := by
  rw [Client.flushAbs]
  split <;> rfl

@[simp] theorem buttons_flushAbs (c : Client) : c.flushAbs.hid.buttons = c.hid.buttons := by
  rw [Client.flushAbs]
  split <;> rfl

@[simp] theorem kbd_flushAbs (c : Client) : c.flushAbs.hid.sent .kbd = c.hid.sent .kbd := by
  rw [Client.flushAbs]
  split
  · exact Hid.sent_flushPtr_kbd _ _
  · rfl

theorem position_flushAbs (c : Client) :
    (c.flushAbs.hid.x, c.flushAbs.hid.y) = c.pendingAbs.getD (c.hid.x, c.hid.y) := by
  rw [Client.flushAbs]
  split
  · next x y h =>
      rw [h]
      rfl
  · next h =>
      rw [h]
      rfl

theorem healthy_flushAbs {c : Client} (h : c.hid.Healthy) : c.flushAbs.hid.Healthy := by
  rw [Client.flushAbs]
  split
  · next x y hp =>
      have hxy : Hid.Healthy { c.hid with x := x, y := y } := ⟨h.hidOk, h.takes⟩
      exact hxy.writeReport _ _
  · exact h

/-- The report that is held back. -/
def Client.heldBack (c : Client) : List (List UInt8) :=
  match c.pendingAbs with
  | some (x, y) => [Hid.ptrReport c.hid.buttons x y 0]
  | none => []

theorem ptr_flushAbs (c : Client) :
    c.flushAbs.hid.sent .ptr = c.hid.sent .ptr ++ c.heldBack := by
  rw [Client.flushAbs, Client.heldBack]
  cases c.pendingAbs with
  | some xy => exact Hid.sent_flushPtr_ptr _ _
  | none => exact (List.append_nil _).symm

/-- The end of a batch is not seen. -/
theorem refines_flushAbs {c r : Client} (h : Refines c r) : Refines c.flushAbs r where
  greeted := (greeted_flushAbs c).trans h.greeted
  stream := (stream_flushAbs c).trans h.stream
  settled := h.settled
  modifiers := (modifiers_flushAbs c).trans h.modifiers
  keys := (keys_flushAbs c).trans h.keys
  buttons := (buttons_flushAbs c).trans h.buttons
  position := by rw [pendingAbs_flushAbs, Option.getD_none, position_flushAbs, h.position]
  healthy := healthy_flushAbs h.healthy
  healthy_ref := h.healthy_ref
  kbd := (kbd_flushAbs c).trans h.kbd
  ptr := by
    rw [flushAbs_none (pendingAbs_flushAbs c)]
    exact h.ptr

/-! ## Keyboard reports -/

/-- Modifiers and keys after an update, and nothing when they do not change. -/
abbrev KeyUpdate : Type := UInt8 → (Fin 6 → UInt8) → Option (UInt8 × (Fin 6 → UInt8))

/-- Change modifiers and keys, and report them. -/
def Hid.updateKeys (h : Hid) (f : KeyUpdate) : Hid :=
  match f h.modifiers h.keys with
  | some (modifiers, keys) => { h with modifiers := modifiers, keys := keys }.flushKbd
  | none => h

theorem keyEvent_eq (usage : UInt8) (down : Bool) :
    ∃ f : KeyUpdate, ∀ h : Hid, h.keyEvent usage down = h.updateKeys f := by
  let slot (keys : Fin 6 → UInt8) := (List.finRange 6).find? fun i => keys i = 0
  refine ⟨fun modifiers keys =>
    if 0xe0 ≤ usage ∧ usage ≤ 0xe7 then
      let bit := 1 <<< (usage - 0xe0)
      some (if down then modifiers ||| bit else modifiers &&& ~~~bit, keys)
    else if down then
      if ∃ i, keys i = usage then none
      else (slot keys).map fun i => (modifiers, Function.update keys i usage)
    else some (modifiers, fun i => if keys i = usage then 0 else keys i), ?_⟩
  intro h
  simp only [Hid.keyEvent, Hid.updateKeys, slot]
  split_ifs
  · rfl
  · rfl
  · rfl
  · cases (List.finRange 6).find? fun i => h.keys i = 0 <;> rfl
  · rfl

/-- The keyboard is not coalesced. -/
theorem refines_updateKeys {c r : Client} (h : Refines c r) (f : KeyUpdate) :
    Refines { c with hid := c.hid.updateKeys f } { r with hid := r.hid.updateKeys f } := by
  simp only [Hid.updateKeys, h.modifiers, h.keys]
  cases f r.hid.modifiers r.hid.keys with
  | none => exact h
  | some q =>
      have hc : Hid.Healthy { c.hid with modifiers := q.1, keys := q.2 } :=
        ⟨h.healthy.hidOk, h.healthy.takes⟩
      have hr : Hid.Healthy { r.hid with modifiers := q.1, keys := q.2 } :=
        ⟨h.healthy_ref.hidOk, h.healthy_ref.takes⟩
      have hkbd : c.hid.sent .kbd = r.hid.sent .kbd := h.kbd
      refine ⟨h.greeted, h.stream, h.settled, rfl, rfl, h.buttons, h.position, hc.writeReport _ _,
        hr.writeReport _ _, ?_, ?_⟩
      · simp only [Hid.sent_flushKbd_kbd]
        exact congrArg (· ++ _) hkbd
      · have hptr := h.ptr
        rw [ptr_flushAbs] at hptr ⊢
        show (Hid.sent (Hid.flushKbd { c.hid with modifiers := q.1, keys := q.2 }) .ptr ++
          c.heldBack).Sublist (Hid.sent (Hid.flushKbd { r.hid with modifiers := q.1, keys := q.2 }) .ptr)
        rw [Hid.sent_flushKbd_ptr, Hid.sent_flushKbd_ptr]
        exact hptr

/-! ## Pointer reports -/

/-- Two devices that show the same, but that one has written more pointer
reports. -/
structure Same (h h' : Hid) : Prop where
  modifiers : h.modifiers = h'.modifiers
  keys : h.keys = h'.keys
  buttons : h.buttons = h'.buttons
  x : h.x = h'.x
  y : h.y = h'.y
  healthy : h.Healthy
  healthy_ref : h'.Healthy
  kbd : h.sent .kbd = h'.sent .kbd
  ptr : (h.sent .ptr).Sublist (h'.sent .ptr)

theorem same_of_refines {c r : Client} (h : Refines c r) (hc : c.pendingAbs = none) :
    Same c.hid r.hid where
  modifiers := h.modifiers
  keys := h.keys
  buttons := h.buttons
  x := congrArg Prod.fst ((congrArg (Option.getD · _) hc).symm.trans h.position)
  y := congrArg Prod.snd ((congrArg (Option.getD · _) hc).symm.trans h.position)
  healthy := h.healthy
  healthy_ref := h.healthy_ref
  kbd := h.kbd
  ptr := by
    have hptr := h.ptr
    rwa [flushAbs_none hc] at hptr

theorem refines_of_same {c r : Client} {hid hid' : Hid} (h : Refines c r)
    (hc : c.pendingAbs = none) (hs : Same hid hid') :
    Refines { c with hid := hid } { r with hid := hid' } where
  greeted := h.greeted
  stream := h.stream
  settled := h.settled
  modifiers := hs.modifiers
  keys := hs.keys
  buttons := hs.buttons
  position := by rw [hc, Option.getD_none, hs.x, hs.y]
  healthy := hs.healthy
  healthy_ref := hs.healthy_ref
  kbd := hs.kbd
  ptr := by
    rw [flushAbs_none (show Client.pendingAbs { c with hid := hid } = none from hc)]
    exact hs.ptr

theorem Same.flushPtr {h h' : Hid} (hs : Same h h') (wheel : Int8) :
    Same (h.flushPtr wheel) (h'.flushPtr wheel) := by
  refine ⟨hs.modifiers, hs.keys, hs.buttons, hs.x, hs.y, hs.healthy.writeReport _ _,
    hs.healthy_ref.writeReport _ _, ?_, ?_⟩
  · rw [Hid.sent_flushPtr_kbd, Hid.sent_flushPtr_kbd, hs.kbd]
  · rw [Hid.sent_flushPtr_ptr, Hid.sent_flushPtr_ptr, hs.buttons, hs.x, hs.y]
    exact hs.ptr.append (List.Sublist.refl _)

theorem Same.flushKbd {h h' : Hid} (hs : Same h h') : Same h.flushKbd h'.flushKbd := by
  refine ⟨hs.modifiers, hs.keys, hs.buttons, hs.x, hs.y, hs.healthy.writeReport _ _,
    hs.healthy_ref.writeReport _ _, ?_, ?_⟩
  · rw [Hid.sent_flushKbd_kbd, Hid.sent_flushKbd_kbd, hs.kbd, hs.modifiers, hs.keys]
  · rw [Hid.sent_flushKbd_ptr, Hid.sent_flushKbd_ptr]
    exact hs.ptr

/-- New values for what is held. -/
theorem Same.hold {h h' : Hid} (hs : Same h h') {modifiers modifiers' buttons buttons' : UInt8}
    {keys keys' : Fin 6 → UInt8} (hm : modifiers = modifiers') (hk : keys = keys')
    (hb : buttons = buttons') :
    Same { h with modifiers := modifiers, keys := keys, buttons := buttons }
      { h' with modifiers := modifiers', keys := keys', buttons := buttons' } :=
  ⟨hm, hk, hb, hs.x, hs.y, ⟨hs.healthy.hidOk, hs.healthy.takes⟩,
    ⟨hs.healthy_ref.hidOk, hs.healthy_ref.takes⟩, hs.kbd, hs.ptr⟩

theorem Same.releaseAll {h h' : Hid} (hs : Same h h') : Same h.releaseAll h'.releaseAll :=
  (hs.hold rfl rfl rfl).flushKbd.flushPtr 0

/-- A pointer action changes the buttons, or reports the wheel, or releases
everything; and the last report is its own. -/
theorem dispatch_pointer {t : UInt8} (ht : Client.needsFlush t = true) (p : List UInt8) :
    ∃ f : Hid → Hid, (∀ c : Client, c.dispatch t p = .go { c with hid := f c.hid }) ∧
      ∀ h h', Same h h' → Same (f h) (f h') ∧
        ∃ report, (f h).sent .ptr = h.sent .ptr ++ [report] ∧
          (f h').sent .ptr = h'.sent .ptr ++ [report] := by
  simp only [Client.needsFlush, decide_eq_true_eq] at ht
  rcases ht with rfl | rfl | rfl
  · refine ⟨fun h => { h with buttons := p.getD 0 0 &&& 0x07 }.flushPtr 0, fun _ => rfl, ?_⟩
    intro h h' hs
    refine ⟨(hs.hold hs.modifiers hs.keys rfl).flushPtr 0, _, Hid.sent_flushPtr_ptr _ _, ?_⟩
    rw [Hid.sent_flushPtr_ptr, hs.x, hs.y]
    rfl
  · refine ⟨fun h => h.flushPtr (p.getD 0 0).toInt8, fun _ => rfl, ?_⟩
    intro h h' hs
    refine ⟨hs.flushPtr _, _, Hid.sent_flushPtr_ptr _ _, ?_⟩
    rw [Hid.sent_flushPtr_ptr, hs.buttons, hs.x, hs.y]
  · refine ⟨Hid.releaseAll, fun _ => rfl, ?_⟩
    intro h h' hs
    have hsent : ∀ h : Hid, h.releaseAll.sent .ptr = h.sent .ptr ++ [Hid.ptrReport 0 h.x h.y 0] := by
      intro h
      rw [Hid.releaseAll, Hid.sent_flushPtr_ptr, Hid.sent_flushKbd_ptr]
      rfl
    refine ⟨hs.releaseAll, _, hsent h, ?_⟩
    rw [hsent h', hs.x, hs.y]

/-- A message that is no pointer message changes the keys, asks for the
status, or does nothing. -/
theorem dispatch_other {t : UInt8} (ht : Client.needsFlush t = false) (habs : t ≠ msgPointerAbs)
    (p : List UInt8) :
    (∃ f : KeyUpdate, ∀ c : Client, c.dispatch t p = .go { c with hid := c.hid.updateKeys f }) ∨
      t = msgGetStatus ∨ ∀ c : Client, c.dispatch t p = .go c := by
  simp only [Client.needsFlush, decide_eq_false_iff_not, not_or] at ht
  by_cases hdown : t = msgKeyDown
  · subst hdown
    obtain ⟨f, hf⟩ := keyEvent_eq (p.getD 0 0) true
    refine .inl ⟨f, ?_⟩
    intro c
    rw [← hf]
    rfl
  · by_cases hup : t = msgKeyUp
    · subst hup
      obtain ⟨f, hf⟩ := keyEvent_eq (p.getD 0 0) false
      refine .inl ⟨f, ?_⟩
      intro c
      rw [← hf]
      rfl
    · by_cases hstate : t = msgKeyState
      · subst hstate
        exact .inl ⟨fun _ _ => some (p.getD 0 0, fun i => p.getD (1 + i) 0), fun _ => rfl⟩
      · by_cases hstatus : t = msgGetStatus
        · exact .inr (.inl hstatus)
        · refine .inr (.inr ?_)
          intro c
          simp only [Client.dispatch, hdown, hup, hstate, hstatus, habs, ht, if_false]

/-- A reply is written to the same connection, and succeeds or fails alike. -/
theorem refines_send {c r : Client} (h : Refines c r) (t : UInt8) (p : List UInt8) :
    (c.send t p).2 = (r.send t p).2 ∧ Refines (c.send t p).1 (r.send t p).1 := by
  have hstream : (c.send t p).1.stream = (r.send t p).1.stream := by
    simp only [Client.send, h.stream]
  refine ⟨by simp only [Client.send, h.stream], ?_⟩
  have hptr := h.ptr
  rw [ptr_flushAbs] at hptr
  refine ⟨h.greeted, hstream, h.settled, h.modifiers, h.keys, h.buttons, h.position, h.healthy,
    h.healthy_ref, h.kbd, ?_⟩
  rw [ptr_flushAbs]
  exact hptr

/-! ## The simulation -/

theorem refines_greet {c r : Client} (h : Refines c r) (t : UInt8) (p : List UInt8) :
    Flow.Rel Refines (c.greet t p) (r.greet t p) := by
  obtain ⟨hok, hsend⟩ := refines_send h msgHelloAck (toLe16 protocolVersion)
  simp only [Client.greet, hok]
  split_ifs
  · exact .stop h
  · exact .stop h
  · have hptr := hsend.ptr
    rw [ptr_flushAbs] at hptr
    refine .go ⟨rfl, hsend.stream, hsend.settled, hsend.modifiers, hsend.keys, hsend.buttons,
      hsend.position, hsend.healthy, hsend.healthy_ref, hsend.kbd, ?_⟩
    rw [ptr_flushAbs]
    exact hptr
  · exact .stop hsend

/-- A position is held back here and reported there. -/
theorem refines_position {c r : Client} (h : Refines c r) (x y : UInt16) :
    Refines { c with pendingAbs := some (x, y) }
      { r with hid := { r.hid with x := x, y := y }.flushPtr 0 } := by
  have hr : Hid.Healthy { r.hid with x := x, y := y } :=
    ⟨h.healthy_ref.hidOk, h.healthy_ref.takes⟩
  refine ⟨h.greeted, h.stream, h.settled, h.modifiers, h.keys, h.buttons, rfl, h.healthy,
    hr.writeReport _ _, ?_, ?_⟩
  · rw [Hid.sent_flushPtr_kbd]
    exact h.kbd
  · have hptr := h.ptr
    rw [ptr_flushAbs] at hptr
    rw [ptr_flushAbs, Hid.sent_flushPtr_ptr]
    have hc : (c.hid.sent .ptr).Sublist (r.hid.sent .ptr) :=
      (List.sublist_append_left _ _).trans hptr
    refine hc.append ?_
    rw [← h.buttons]
    exact List.Sublist.refl _

theorem refines_act {c r : Client} (h : Refines c r) (m : Item) :
    Flow.Rel Refines (c.act m) (r.eager m) ∧ c.action m = r.action m := by
  obtain ⟨t, p⟩ := m
  have hgreeted := h.greeted
  cases hg : r.greeted with
  | false =>
      rw [hg] at hgreeted
      simp only [Client.act, Client.eager, Client.action, hg, hgreeted, Bool.false_eq_true, if_false,
        false_and, and_true]
      exact refines_greet h t p
  | true =>
      rw [hg] at hgreeted
      by_cases habs : t = msgPointerAbs
      · subst habs
        have hflush : Client.needsFlush msgPointerAbs = false := by decide
        have heager : r.eager (msgPointerAbs, p) = _ := if_pos ⟨hg, rfl⟩
        have hact : c.act (msgPointerAbs, p) = c.dispatch msgPointerAbs p := by
          rw [Client.act, if_pos hgreeted, hflush]
          rfl
        rw [heager, hact, Client.action, Client.action, hflush]
        exact ⟨.go (refines_position h _ _), by simp⟩
      · simp only [Client.act, Client.eager, Client.action, hg, hgreeted, habs, and_false, if_false,
          if_true, true_and]
        cases hflush : Client.needsFlush t with
        | true =>
            simp only [if_true, flushAbs_none h.settled]
            obtain ⟨f, hdispatch, hf⟩ := dispatch_pointer hflush p
            have hc := refines_flushAbs h
            have hnone := pendingAbs_flushAbs c
            obtain ⟨hsame, report, hreport, hreport'⟩ := hf _ _ (same_of_refines hc hnone)
            rw [hdispatch, hdispatch]
            refine ⟨.go (refines_of_same hc hnone hsame), ?_⟩
            simp only [Flow.state, hreport, hreport', List.drop_left]
        | false =>
            simp only [Bool.false_eq_true, if_false, and_true]
            rcases dispatch_other hflush habs p with ⟨f, hf⟩ | rfl | hskip
            · rw [hf, hf]
              exact .go (refines_updateKeys h f)
            · have hcount : c.hid.heldKeyCount = r.hid.heldKeyCount := by
                simp only [Hid.heldKeyCount, h.keys]
              have hstatus : c.status = r.status := by
                simp only [Client.status, h.modifiers, hcount, h.buttons, h.healthy.hidOk,
                  h.healthy_ref.hidOk]
              obtain ⟨hok, hsend⟩ := refines_send h msgStatus r.status
              rw [dispatch_status, dispatch_status, hstatus, hok]
              split
              · exact .go hsend
              · exact .stop hsend
            · rw [hskip, hskip]
              exact .go h

theorem refines_new {hid : Hid} (h : hid.Healthy) (room : Option Nat) :
    Refines (Session.new hid room).client (Session.new hid room).client where
  greeted := rfl
  stream := rfl
  settled := rfl
  modifiers := rfl
  keys := rfl
  buttons := rfl
  position := rfl
  healthy := h
  healthy_ref := h
  kbd := rfl
  ptr := List.Sublist.refl _

/-- The same, with what an observer of the pointer actions has seen. -/
def RefinesLogged (p q : Client × List (List UInt8)) : Prop := Refines p.1 q.1 ∧ p.2 = q.2

theorem refinesLogged_act (p q : Client × List (List UInt8)) (m : Item) (h : RefinesLogged p q) :
    Flow.Rel RefinesLogged (logged Client.action Client.act p m)
      (logged Client.action Client.eager q m) := by
  obtain ⟨hrel, haction⟩ := refines_act h.1 m
  simp only [logged]
  generalize p.1.act m = r at hrel
  generalize q.1.eager m = r' at hrel
  have hlog : p.2 ++ p.1.action m = q.2 ++ q.1.action m := by rw [h.2, haction]
  cases hrel with
  | go hR => exact .go ⟨hR, hlog⟩
  | stop hR => exact .stop ⟨hR, hlog⟩

theorem refinesLogged_flush (p q : Client × List (List UInt8)) (h : RefinesLogged p q) :
    RefinesLogged (flushLogged p) q :=
  ⟨refines_flushAbs h.1, h.2⟩

/-- Between two reads, no position is held back. -/
theorem pendingAbs_turn {s s' : Session} {t : Turn} (h : s.client.pendingAbs = none)
    (ht : s.turn t = .go s') : s'.client.pendingAbs = none := by
  simp only [Session.turn] at ht
  split at ht
  · cases ht
  · split at ht
    · cases ht
    · split at ht
      · cases ht
      · cases ht
      · cases ht
        exact h
      · split at ht
        · cases ht
          exact pendingAbs_flushAbs _
        · cases ht

theorem pendingAbs_acts {s s' : Session} {turns : List Turn} (h : s.client.pendingAbs = none)
    (hrun : acts Session.turn s turns = .go s') : s'.client.pendingAbs = none := by
  induction turns generalizing s with
  | nil =>
      cases hrun
      exact h
  | cons t turns ih =>
      rw [acts] at hrun
      cases ht : s.turn t with
      | stop s₁ =>
          rw [ht] at hrun
          cases hrun
      | go s₁ =>
          rw [ht] at hrun
          exact ih (pendingAbs_turn h ht) hrun

/-- The host and the client see the same keys and the same replies, and the
host sees some of the pointer reports. -/
structure Alike (c r : Client) : Prop where
  kbd : c.hid.sent .kbd = r.hid.sent .kbd
  replies : c.stream.written = r.stream.written
  ptr : (c.hid.sent .ptr).Sublist (r.hid.sent .ptr)

theorem alike_of_refines {c r : Client} (h : Refines c r) : Alike c r where
  kbd := h.kbd
  replies := congrArg TcpStream.written h.stream
  ptr := by
    have hptr := h.ptr
    rw [ptr_flushAbs] at hptr
    exact (List.sublist_append_left _ _).trans hptr

/-- A session that has been sent whole messages, against the reference. -/
theorem rel_feed {hid : Hid} {room : Option Nat} {ms : List Item} {turns : List Turn}
    (hhealthy : hid.Healthy) (hund : ∀ t ∈ turns, t.Undisturbed)
    (hms : framing.Parses (turns.flatMap Turn.received) ms []) :
    Flow.Rel (fun p q => RefinesLogged (p.1.client, p.2) q)
      ((Session.new hid room).feed Client.action turns)
      (acts (logged Client.action Client.eager) ((Session.new hid room).client, []) ms) := by
  have h₀ : RefinesLogged ((Session.new hid room).client, []) ((Session.new hid room).client, []) :=
    ⟨refines_new hhealthy room, rfl⟩
  cases hout : (Session.new hid room).feed Client.action turns with
  | go p =>
      have hled := framing.tracks_whole (tracks_feed hund hout) hms
      obtain ⟨q, hq, hR⟩ := led_simulation refinesLogged_act refinesLogged_flush h₀ hled
      rw [hq]
      exact .go hR
  | stop p =>
      obtain ⟨q, hq, hR⟩ := framing.ends_simulation refinesLogged_act refinesLogged_flush h₀ hms
        (ends_feed hund hout)
      rw [hq]
      exact .stop hR

/-- Compared with the reference, on any messages after HELLO and however they
are cut into reads: the same keyboard reports, replies and reports of pointer
actions, and a subsequence of its pointer reports; after every batch the same
state; and so the same for every two ways of cutting the stream. -/
theorem coalescing_refines (hid : Hid) (room : Option Nat) (ms : List Item) (turns : List Turn)
    (hhealthy : hid.Healthy) (hundisturbed : ∀ t ∈ turns, t.Undisturbed)
    (hms : ∀ m ∈ ms, WellFormed m)
    (hread : turns.flatMap Turn.received = (helloV1 :: ms).flatMap encode) :
    Flow.Rel (fun p q => Alike p.1.client q.1 ∧ p.2 = q.2)
        ((Session.new hid room).feed Client.action turns)
        (acts (logged Client.action Client.eager) ((Session.new hid room).client, [])
          (helloV1 :: ms)) ∧
      (∀ batches more p ns rest, turns = batches ++ more →
        (Session.new hid room).feed Client.action batches = .go p →
        Longest (batches.flatMap Turn.received) ns rest →
        ∃ q, acts (logged Client.action Client.eager) ((Session.new hid room).client, []) ns =
            .go q ∧
          Alike p.1.client q.1 ∧ p.2 = q.2 ∧ p.1.client.hid.modifiers = q.1.hid.modifiers ∧
          p.1.client.hid.keys = q.1.hid.keys ∧ p.1.client.hid.buttons = q.1.hid.buttons ∧
          p.1.client.hid.x = q.1.hid.x ∧ p.1.client.hid.y = q.1.hid.y) ∧
      ∀ turns', (∀ t ∈ turns', t.Undisturbed) →
        turns'.flatMap Turn.received = turns.flatMap Turn.received →
        Flow.Rel
          (fun p p' => p.1.client.hid.sent .kbd = p'.1.client.hid.sent .kbd ∧
            p.1.client.stream.written = p'.1.client.stream.written ∧ p.2 = p'.2)
          ((Session.new hid room).feed Client.action turns)
          ((Session.new hid room).feed Client.action turns') := by
  have hwf : ∀ m ∈ helloV1 :: ms, WellFormed m := List.forall_mem_cons.mpr ⟨rfl, hms⟩
  have hparses : framing.Parses (turns.flatMap Turn.received) (helloV1 :: ms) [] :=
    parses_iff.mpr ⟨hwf, by rw [List.append_nil, hread]⟩
  refine ⟨?_, ?_, ?_⟩
  · refine (rel_feed hhealthy hundisturbed hparses).mono ?_
    intro p q h
    exact ⟨alike_of_refines h.1, h.2⟩
  · rintro batches more p ns rest rfl hgo hlongest
    have hund : ∀ t ∈ batches, t.Undisturbed := fun t ht =>
      hundisturbed t (List.mem_append_left _ ht)
    obtain ⟨ns', hparses', hmore, hled⟩ := tracks_feed hund hgo
    have hend : ∀ m rest', framing.next p.1.buf ≠ .item m rest' := by simp [hmore]
    -- What the session has acted on is the longest prefix.
    have hle := hlongest.longest _ _ (parses_iff.mp hparses')
    have hge := hparses'.prefix hend (parses_iff.mpr hlongest.toDecomposes)
    obtain rfl : ns' = ns := hle.eq_of_length_le hge.length_le
    obtain ⟨q, hq, hR, hlog⟩ := led_simulation refinesLogged_act refinesLogged_flush
      ⟨refines_new hhealthy room, rfl⟩ hled
    have hturns : acts Session.turn (.new hid room) batches = .go p.1 := by
      rw [feed_state Client.action, hgo]
      rfl
    have hnone : p.1.client.pendingAbs = none :=
      pendingAbs_acts (show (Session.new hid room).client.pendingAbs = none from rfl) hturns
    have hsame := same_of_refines hR hnone
    exact ⟨q, hq, alike_of_refines hR, hlog, hsame.modifiers, hsame.keys, hsame.buttons, hsame.x,
      hsame.y⟩
  · intro turns' hund' hread'
    rw [← hread'] at hparses
    refine Flow.Rel.join ?_ (rel_feed hhealthy hundisturbed (hread' ▸ hparses))
      (rel_feed hhealthy hund' hparses)
    intro p p' q h h'
    exact ⟨h.1.kbd.trans h'.1.kbd.symm,
      congrArg TcpStream.written (h.1.stream.trans h'.1.stream.symm), h.2.trans h'.2.symm⟩

/-- The reports of every run of the daemon whose host takes them all. -/
theorem healthy_open : (Hid.open fun _ => true).Healthy :=
  ⟨rfl, fun _ _ => rfl⟩

/-- Two positions and a click in one batch: the reference reports both
positions, the session the last. -/
theorem coalescing_refines_click :
    ∃ turns : List Turn, ∃ ms,
      turns.flatMap Turn.received = (helloV1 :: ms).flatMap encode ∧
        ms = [(msgPointerAbs, [1, 0, 1, 0]), (msgPointerAbs, [9, 0, 9, 0]),
          (msgPointerButton, [1])] ∧
        Flow.Rel (fun p q => Alike p.1.client q.1 ∧ p.2 = q.2)
          ((Session.new (.open fun _ => true) none).feed Client.action turns)
          (acts (logged Client.action Client.eager)
            ((Session.new (.open fun _ => true) none).client, []) (helloV1 :: ms)) := by
  have hread : [Turn.reads ⟨(helloV1 :: [(msgPointerAbs, [1, 0, 1, 0]),
      (msgPointerAbs, [9, 0, 9, 0]), (msgPointerButton, [1])]).flatMap encode, by decide,
      by decide⟩].flatMap Turn.received =
      (helloV1 :: [(msgPointerAbs, [1, 0, 1, 0]), (msgPointerAbs, [9, 0, 9, 0]),
        (msgPointerButton, [1])]).flatMap encode := rfl
  refine ⟨_, _, hread, rfl, ?_⟩
  refine (coalescing_refines _ none _ _ healthy_open ?_ ?_ hread).1
  · intro t ht
    rw [List.mem_singleton] at ht
    rw [ht]
    exact undisturbed_reads _
  · decide

end Beaglewing.Bridge
