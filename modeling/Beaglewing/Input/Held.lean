/-
# `Input.Held` — what the hand holds is what the host is told

The whole way of a key or a button, from the captured event to the report as
the host reads it.  Three accounts of what is held are compared:

    the hand    the last event of each key and button since the activation
    the wire    the key and button messages since the last RELEASE_ALL (`heldBy`)
    the host    what the last reports that it took say

The router keeps the first two together while an activation is on
(`tells_run`); the bridge keeps its last reports with the second
(`holding_led`), and the host has them if its devices took them.  The board of
the bridge takes six keys that are no modifiers.  A seventh is dropped, and is
not shown when one of the six comes up; so the host is told no more than the
hand holds, and as long as the hand holds no more than six, it is told all of
it (`host_shows_hand`).

A device that refuses the last report leaves the host with what it was told
before; the bridge does not write that report again (`Bridge.Host`).

What it is not: the account of the wire is one of messages that were written
whole, so the result is of a connection on which no write has failed; on one
that broke the bridge releases everything (`Bridge.Host`).
-/
import Beaglewing.Bridge.Reports
import Beaglewing.Input.Hotkey
import Beaglewing.Input.Newest

namespace Beaglewing.Input

open Base Bridge

/-! ## The table of the keys -/

theorem code_lt_of_usage {code : UInt16} {usage : UInt8} (h : keycodeToUsage code = some usage) :
    code.toNat < 128 := by
  have hrow : ∀ lo hi : UInt16, hi.toNat < 128 → lo ≤ code ∧ code ≤ hi → code.toNat < 128 := by
    intro lo hi hhi hcode
    have := UInt16.le_iff_toNat_le.mp hcode.2
    omega
  unfold keycodeToUsage at h
  split_ifs at h with h₁ h₂ h₃ h₄ h₅
  · exact hrow _ _ (by decide) h₁
  · exact hrow _ _ (by decide) h₂
  · exact hrow _ _ (by decide) h₃
  · exact hrow _ _ (by decide) h₄
  · exact hrow _ _ (by decide) h₅
  · split at h <;> first | decide | cases h

/-- The keys of the table. -/
def mappedCodes : List UInt16 :=
  ((List.range 128).map UInt16.ofNat).filter fun code => (keycodeToUsage code).isSome

theorem mem_mappedCodes {code : UInt16} {usage : UInt8} (h : keycodeToUsage code = some usage) :
    code ∈ mappedCodes := by
  refine List.mem_filter.mpr ⟨List.mem_map.mpr ⟨code.toNat, ?_, UInt16.ofNat_toNat⟩, ?_⟩
  · exact List.mem_range.mpr (code_lt_of_usage h)
  · rw [h]
    rfl

/-- No two keys have one usage. -/
theorem keycodeToUsage_inj {code code' : UInt16} {usage : UInt8}
    (h : keycodeToUsage code = some usage) (h' : keycodeToUsage code' = some usage) :
    code = code' := by
  have hnodup : (mappedCodes.map keycodeToUsage).Nodup := by decide +kernel
  exact List.inj_on_of_nodup_map hnodup (mem_mappedCodes h) (mem_mappedCodes h') (h.trans h'.symm)

/-- Every usage of the table is one that a report can say. -/
theorem usage_reportable {code : UInt16} {usage : UInt8} (h : keycodeToUsage code = some usage) :
    Modifier usage ∨ usage ≤ 0x65 := by
  have hall : ∀ usage ∈ mappedCodes.filterMap keycodeToUsage, Modifier usage ∨ usage ≤ 0x65 := by
    decide +kernel
  exact hall usage (List.mem_filterMap.mpr ⟨code, mem_mappedCodes h, h⟩)

/-! ## The hand -/

/-- A button event, with the code cut to 16 bits. -/
def Half.button {F : Type} : Half F → Option KeyEvent
  | .receive (.event (.capture (.button code pressed)) _) => some ⟨code.toUInt16, pressed⟩
  | _ => none

def buttonEvents {F : Type} (halves : List (Half F)) : List KeyEvent := halves.filterMap Half.button

/-- The press of a key event, if the key is in the table. -/
def KeyEvent.press (k : KeyEvent) : Option Press :=
  (keycodeToUsage k.code).map fun usage => if k.pressed then .down usage else .up usage

/-- What the key events press. -/
def presses (keys : List KeyEvent) : List Press := keys.filterMap KeyEvent.press

/-- The usages of the keys that are down. -/
def downs (keys : List KeyEvent) : Finset UInt8 := (presses keys).foldl Press.move ∅

theorem press_of_unmapped {k : KeyEvent} (h : keycodeToUsage k.code = none) (keys : List KeyEvent) :
    presses (keys ++ [k]) = presses keys := by
  simp [presses, KeyEvent.press, h]

theorem press_of_mapped {k : KeyEvent} {usage : UInt8} (h : keycodeToUsage k.code = some usage)
    (keys : List KeyEvent) :
    presses (keys ++ [k]) = presses keys ++ [if k.pressed then .down usage else .up usage] := by
  simp [presses, KeyEvent.press, h]

theorem downs_of_unmapped {k : KeyEvent} (h : keycodeToUsage k.code = none) (keys : List KeyEvent) :
    downs (keys ++ [k]) = downs keys := by
  rw [downs, press_of_unmapped h, downs]

theorem downs_of_mapped {k : KeyEvent} {usage : UInt8} (h : keycodeToUsage k.code = some usage)
    (keys : List KeyEvent) :
    downs (keys ++ [k]) = if k.pressed then insert usage (downs keys) else (downs keys).erase usage := by
  rw [downs, press_of_mapped h, List.foldl_append, ← downs]
  cases k.pressed <;> rfl

theorem mem_downs {keys : List KeyEvent} {code : UInt16} {usage : UInt8}
    (h : keycodeToUsage code = some usage) : usage ∈ downs keys ↔ LastPressed code keys := by
  rw [← lastPressed_iff]
  induction keys using List.reverseRecOn with
  | nil => simp [downs, presses, lastPressed]
  | append_singleton keys k ih =>
      rw [lastPressed_snoc]
      cases hk : keycodeToUsage k.code with
      | none =>
          have hcode : k.code ≠ code := by
            intro hcode
            rw [hcode, h] at hk
            cases hk
          rw [if_neg hcode, downs_of_unmapped hk, ih]
      | some usage' =>
          rw [downs_of_mapped hk]
          by_cases hcode : k.code = code
          · rw [hcode, h] at hk
            cases hk
            rw [if_pos hcode]
            cases k.pressed <;> simp
          · have hne : usage ≠ usage' := by
              rintro rfl
              exact hcode (keycodeToUsage_inj hk h)
            rw [if_neg hcode, ← ih]
            cases k.pressed <;> simp [hne]

/-- Only keys of the table are down. -/
theorem mapped_of_mem_downs {keys : List KeyEvent} {usage : UInt8} (h : usage ∈ downs keys) :
    ∃ code, keycodeToUsage code = some usage := by
  induction keys using List.reverseRecOn with
  | nil => exact absurd h (Finset.notMem_empty usage)
  | append_singleton keys k ih =>
      cases hk : keycodeToUsage k.code with
      | none =>
          rw [downs_of_unmapped hk] at h
          exact ih h
      | some usage' =>
          rw [downs_of_mapped hk] at h
          split at h
          · rcases Finset.mem_insert.mp h with rfl | h
            · exact ⟨k.code, hk⟩
            · exact ih h
          · exact ih (Finset.mem_of_mem_erase h)

/-- At no time were more than six keys down that are no modifiers. -/
def AtMostSix (keys : List KeyEvent) : Prop :=
  ∀ before, before <+: keys → ((downs before).filter fun u => ¬ Modifier u).card ≤ 6

/-- The buttons after an event. -/
def KeyEvent.click (buttons : UInt8) (k : KeyEvent) : UInt8 :=
  match buttonToBit k.code with
  | none => buttons
  | some bit => if k.pressed then buttons ||| bit else buttons &&& ~~~bit

def buttonsOf (events : List KeyEvent) : UInt8 := events.foldl KeyEvent.click 0

theorem buttonsOf_snoc (events : List KeyEvent) (k : KeyEvent) :
    buttonsOf (events ++ [k]) = k.click (buttonsOf events) := by
  rw [buttonsOf, List.foldl_append]
  rfl

/-- The bit of a button is its place. -/
theorem buttonToBit_cases (code : UInt16) :
    buttonToBit code = none ∧ (∀ i < 3, code ≠ UInt16.ofNat (0x110 + i)) ∨
      ∃ i < 3, code = UInt16.ofNat (0x110 + i) ∧ buttonToBit code = some (UInt8.ofNat (2 ^ i)) := by
  by_cases h₀ : code = 0x110
  · exact .inr ⟨0, by decide, h₀, by rw [h₀]; rfl⟩
  by_cases h₁ : code = 0x111
  · exact .inr ⟨1, by decide, h₁, by rw [h₁]; rfl⟩
  by_cases h₂ : code = 0x112
  · exact .inr ⟨2, by decide, h₂, by rw [h₂]; rfl⟩
  · refine .inl ⟨?_, ?_⟩
    · simp [buttonToBit]
    · intro i hi
      interval_cases i
      · exact h₀
      · exact h₁
      · exact h₂

theorem testBit_place (m : UInt8) {i j : Nat} (hi : i < 8) (hj : j < 8) :
    (m ||| UInt8.ofNat (2 ^ i)).toNat.testBit j = (decide (i = j) || m.toNat.testBit j) ∧
      (m &&& ~~~UInt8.ofNat (2 ^ i)).toNat.testBit j = (!decide (i = j) && m.toNat.testBit j) := by
  have hbit : (UInt8.ofNat (2 ^ i)).toNat.testBit j = decide (i = j) := by
    rw [UInt8.toNat_ofNat', Nat.mod_eq_of_lt (Nat.pow_lt_pow_right (by decide) hi),
      Nat.testBit_two_pow]
  have hnot : (~~~UInt8.ofNat (2 ^ i)).toNat.testBit j = !decide (i = j) := by
    have h := BitVec.getLsbD_not (x := (UInt8.ofNat (2 ^ i)).toBitVec) (i := j)
    rw [decide_eq_true hj, Bool.true_and] at h
    rw [← hbit]
    exact h
  constructor
  · rw [UInt8.toNat_or, Nat.testBit_or, hbit, Bool.or_comm]
  · rw [UInt8.toNat_and, Nat.testBit_and, hnot, Bool.and_comm]

/-- A button's bit is set while its last event is a press. -/
theorem testBit_buttonsOf (events : List KeyEvent) {i : Nat} (hi : i < 3) :
    (buttonsOf events).toNat.testBit i = true ↔ LastPressed (UInt16.ofNat (0x110 + i)) events := by
  rw [← lastPressed_iff]
  induction events using List.reverseRecOn with
  | nil => simp [buttonsOf, lastPressed]
  | append_singleton events k ih =>
      rw [buttonsOf_snoc, lastPressed_snoc, KeyEvent.click]
      rcases buttonToBit_cases k.code with ⟨hnone, hne⟩ | ⟨j, hj, hcode, hbit⟩
      · rw [hnone, if_neg (hne i hi)]
        exact ih
      · obtain ⟨hon, hoff⟩ := testBit_place (buttonsOf events) (i := j) (j := i) (by omega) (by omega)
        have hcodes : k.code = UInt16.ofNat (0x110 + i) ↔ j = i := by
          rw [hcode, ← UInt16.toNat_inj, UInt16.toNat_ofNat', UInt16.toNat_ofNat']
          omega
        simp only [hbit, hcodes]
        cases k.pressed with
        | true =>
            rw [if_pos rfl, hon]
            by_cases hji : j = i <;> simp [hji, ih]
        | false =>
            rw [if_neg Bool.false_ne_true, hoff]
            by_cases hji : j = i <;> simp [hji, ih]

/-! ## The wire -/

/-- What changes what is held. -/
inductive Hold where
  | key (usage : UInt8) (pressed : Bool)
  | buttons (buttons : UInt8)
  deriving DecidableEq

/-- What has been told since the last RELEASE_ALL, after a message. -/
def Message.hold (held : List Hold) : Message → List Hold
  | .keyDown usage => held ++ [.key usage true]
  | .keyUp usage => held ++ [.key usage false]
  | .pointerButton buttons => held ++ [.buttons buttons]
  | .releaseAll => []
  | .keepalive => held
  | .pointerAbs _ _ => held
  | .pointerWheel _ => held

def heldBy (msgs : List Message) : List Hold := msgs.foldl Message.hold []

theorem heldBy_snoc (msgs : List Message) (m : Message) : heldBy (msgs ++ [m]) = m.hold (heldBy msgs) := by
  rw [heldBy, List.foldl_append]
  rfl

theorem hold_idle {m : Message} (h : m.Idle) (held : List Hold) : m.hold held = held := by
  cases m with
  | keepalive => rfl
  | pointerAbs x y => rfl
  | pointerWheel d => rfl
  | keyDown u => exact h.elim
  | keyUp u => exact h.elim
  | pointerButton b => exact h.elim
  | releaseAll => exact h.elim

/-- Nothing is told while the input is local. -/
theorem heldBy_settled {msgs : List Message} (h : Settled msgs) : heldBy msgs = [] := by
  induction h with
  | nil => rfl
  | release msgs => exact heldBy_snoc msgs .releaseAll
  | idle _ hm ih => rw [heldBy_snoc, hold_idle hm, ih]

def Hold.button : Hold → Option UInt8
  | .key _ _ => none
  | .buttons b => some b

/-- The buttons that were told last. -/
def lastButtons (held : List Hold) : UInt8 := ((held.filterMap Hold.button).getLast?).getD 0

theorem lastButtons_key (held : List Hold) (usage : UInt8) (pressed : Bool) :
    lastButtons (held ++ [.key usage pressed]) = lastButtons held := by
  rw [lastButtons, List.filterMap_append, show [Hold.key usage pressed].filterMap Hold.button = [] from rfl,
    List.append_nil, lastButtons]

theorem lastButtons_buttons (held : List Hold) (buttons : UInt8) :
    lastButtons (held ++ [.buttons buttons]) = buttons := by
  simp [lastButtons, List.filterMap_append, Hold.button]

/-- What an event of the activation should tell. -/
def Half.hold {F : Type} (held : List Hold) (half : Half F) : List Hold :=
  match half.key, half.button with
  | some k, _ => held ++ ((keycodeToUsage k.code).map (.key · k.pressed)).toList
  | none, some k =>
      if (buttonToBit k.code).isSome then held ++ [.buttons (k.click (lastButtons held))] else held
  | none, none => held

def holds {F : Type} (halves : List (Half F)) : List Hold := halves.foldl Half.hold []

theorem holds_snoc {F : Type} (halves : List (Half F)) (half : Half F) :
    holds (halves ++ [half]) = half.hold (holds halves) := by
  rw [holds, List.foldl_append]
  rfl

/-! ## During an activation -/

variable {F : Type} [F64 F] {zone : Zone}

/-- The connection has told what is held since the activation, and the router
knows the buttons of it. -/
structure Tells (held : List Hold) (r : Router F) : Prop where
  carried : ∀ b, r.bridge = some b → Carries (fun msgs => heldBy msgs = held) b
  buttons : r.buttons = lastButtons held

/-- As long as the activation is on. -/
def LoopTells (held : List Hold) (l : Loop F) : Prop :=
  ∀ r, l.atHead = some r ∨ l.atWait = some r → r.activeId.isSome → Tells held r

omit [F64 F] in
theorem loopTells_head {held : List Hold} {r : Router F}
    (h : r.activeId.isSome → Tells held r) : LoopTells held (.head r) := by
  rintro r₁ (h₁ | h₁)
  · cases h₁
    exact h
  · cases h₁

omit [F64 F] in
theorem loopTells_orPanic {α : Type} {held : List Hold} {o : Option α} {k : α → Loop F}
    (h : ∀ a, o = some a → LoopTells held (k a)) : LoopTells held (.orPanic o k) := by
  cases o with
  | none => rintro r₁ (h₁ | h₁) <;> cases h₁
  | some a => exact h a rfl

omit [F64 F] in
theorem loopTells_returned (held : List Hold) (r : Router F) (result : Except String Unit) :
    LoopTells held (.returned r result) := by
  rintro r₁ (h₁ | h₁) <;> cases h₁

/-- The activation is over. -/
theorem loopTells_goLocal (held : List Hold) (r : Router F) :
    LoopTells held (.orPanic (r.goLocal zone) .head) := by
  refine loopTells_orPanic ?_
  intro r' hr'
  refine loopTells_head ?_
  intro hactive
  rw [Router.activeId_goLocal hr'] at hactive
  cases hactive

theorem loopTells_goLocalIfActive (held : List Hold) (r : Router F) :
    LoopTells held (.orPanic (r.goLocalIfActive zone) .head) := by
  refine loopTells_orPanic ?_
  intro r' hr'
  refine loopTells_head ?_
  intro hactive
  rw [Router.activeId_goLocalIfActive hr'] at hactive
  cases hactive

/-- A message that holds nothing down tells nothing. -/
theorem carries_idle {held : List Hold} {b : BridgeClient} {m : Message} (hm : m.Idle)
    (h : Carries (fun msgs => heldBy msgs = held) b) :
    Carries (fun msgs => heldBy msgs = held) (b.send m.msgType m.payload).1 := by
  refine carries_send h ?_
  intro msgs hmsgs
  rw [heldBy_snoc, hold_idle hm, hmsgs]

theorem carries_hold {held : List Hold} {b : BridgeClient} (m : Message)
    (h : Carries (fun msgs => heldBy msgs = held) b) :
    Carries (fun msgs => heldBy msgs = m.hold held) (b.send m.msgType m.payload).1 := by
  refine carries_send h ?_
  intro msgs hmsgs
  rw [heldBy_snoc, hmsgs]

theorem carries_pos {held : List Hold} {b : BridgeClient} (pos : Option (UInt16 × UInt16))
    (h : Carries (fun msgs => heldBy msgs = held) b) :
    Carries (fun msgs => heldBy msgs = held) (Router.sendPos b pos) := by
  cases pos with
  | none => exact h
  | some pos => exact carries_idle (m := .pointerAbs pos.1 pos.2) trivial h

theorem carries_wheel {held : List Hold} {b : BridgeClient} (wheel : Int32)
    (h : Carries (fun msgs => heldBy msgs = held) b) :
    Carries (fun msgs => heldBy msgs = held) (Router.sendWheel b wheel) := by
  rw [Router.sendWheel]
  split
  · exact carries_idle (m := .pointerWheel (Router.detents wheel)) trivial h
  · exact h

omit [F64 F] in
theorem tells_flush {held : List Hold} {r : Router F} (h : Tells held r) (due : Bool) :
    Tells held (r.flush due) := by
  rw [Router.flush]
  split
  · refine ⟨?_, h.buttons⟩
    intro b hb
    obtain ⟨b₀, hb₀, rfl⟩ := Option.map_eq_some_iff.mp hb
    exact carries_wheel _ (carries_pos _ (h.carried b₀ hb₀))
  · exact h

theorem tells_keepalive {held : List Hold} {r r' : Router F} (h : Tells held r) {due : Bool}
    (hr : r.keepalive zone due = some r') (hid : r'.activeId.isSome) : Tells held r' := by
  rcases Router.keepalive_cases hr with rfl | ⟨b, hb, rfl⟩ | ⟨hnone, rfl⟩ | hlocal
  · exact h
  · refine ⟨?_, h.buttons⟩
    intro b' hb'
    cases hb'
    exact carries_idle (m := .keepalive) trivial (h.carried b hb)
  · rw [hnone] at hid
    cases hid
  · rw [Router.activeId_goLocal hlocal] at hid
    cases hid

theorem tells_top {held : List Hold} {r : Router F} (h : r.activeId.isSome → Tells held r)
    (hok : Ok r) (t : Top) : LoopTells held (r.top zone t) := by
  rw [Router.top]
  split
  · exact loopTells_orPanic fun _ _ => loopTells_returned _ _ _
  · refine loopTells_orPanic ?_
    intro r₁ h₁
    refine loopTells_orPanic ?_
    rintro r₂ h₂ r' (hr' | hr') hid
    · cases hr'
    · cases hr'
      rw [activeId_flush, Router.activeId_clearPending] at hid
      rw [Router.clearPending_of_active hid]
      obtain rfl := eq_of_failsafe h₂ hid
      have hreconnect := reconnect_of_active (ok_keepalive hok h₁) hid
      rw [hreconnect] at hid ⊢
      -- An activation that is on after the keepalive was on before it.
      have hactive : r.activeId.isSome := (does_keepalive h₁ hid).active
      exact tells_flush (tells_keepalive (h hactive) h₁ hid) _

theorem tells_onKey {held : List Hold} {r : Router F} (h : Tells held r) (code : UInt32)
    (pressed : Bool) (time : UInt64) (portal : Portal) :
    LoopTells (Half.hold held (.receive (.event (.capture (.key code pressed time)) portal) : Half F))
      (r.onKey zone code pressed) := by
  rw [Router.onKey]
  simp only [Half.hold, Half.key]
  cases keycodeToUsage code.toUInt16 with
  | none =>
      refine loopTells_head fun _ => ?_
      simpa using h
  | some usage =>
      cases hfull : (r.emergency.update usage pressed).2 with
      | true =>
          simp only [hfull, if_true]
          exact loopTells_goLocal _ _
      | false =>
          simp only [hfull, Bool.false_eq_true, if_false]
          refine loopTells_head fun _ => ⟨?_, ?_⟩
          · intro b hb
            obtain ⟨b₀, hb₀, rfl⟩ := Option.map_eq_some_iff.mp hb
            cases pressed with
            | true => exact carries_hold (.keyDown usage) (h.carried b₀ hb₀)
            | false => exact carries_hold (.keyUp usage) (h.carried b₀ hb₀)
          · exact h.buttons.trans (lastButtons_key held usage pressed).symm

omit [F64 F] in
theorem tells_onButton {held : List Hold} {r : Router F} (h : Tells held r)
    (hbridge : r.bridge.isSome) (code : UInt32) (pressed : Bool) (portal : Portal) :
    LoopTells (Half.hold held (.receive (.event (.capture (.button code pressed)) portal) : Half F))
      (r.onButton code pressed) := by
  rw [Router.onButton]
  simp only [Half.hold, Half.key, Half.button, KeyEvent.click]
  cases buttonToBit code.toUInt16 with
  | none => exact loopTells_head fun _ => h
  | some bit =>
      obtain ⟨b, hb⟩ := Option.isSome_iff_exists.mp hbridge
      simp only [hb, Option.isSome_some, if_true, h.buttons]
      refine loopTells_head fun _ => ⟨?_, (lastButtons_buttons _ _).symm⟩
      intro b' hb'
      cases hb'
      exact carries_hold (.pointerButton _) (carries_pos _ (h.carried b hb))

theorem tells_onFrame {held : List Hold} {r : Router F} (h : Tells held r) :
    LoopTells held (r.onFrame zone) := by
  rw [Router.onFrame]
  split
  · exact loopTells_head fun _ => h
  · refine loopTells_orPanic ?_
    rintro ⟨space, crossing⟩ -
    by_cases hc : crossing = .toLocal
    · simp only [hc, if_true]
      exact loopTells_goLocal _ _
    · simp only [hc, if_false]
      split
      · refine loopTells_orPanic ?_
        intro pos _
        exact loopTells_head fun _ => ⟨h.carried, h.buttons⟩
      · exact loopTells_head fun _ => ⟨h.carried, h.buttons⟩

theorem tells_onCapture {held : List Hold} {r : Router F} (h : r.activeId.isSome → Tells held r)
    (hok : Ok r) (e : CaptureEvent F) (portal : Portal) :
    LoopTells (Half.hold held (.receive (.event (.capture e) portal) : Half F))
      (r.onCapture zone e) := by
  rw [Router.onCapture]
  split
  · next hid =>
      rw [Option.isNone_iff_eq_none] at hid
      refine loopTells_head ?_
      intro hactive
      rw [hid] at hactive
      cases hactive
  · next hid =>
      have hcap := hok.capturing (Bool.eq_false_of_not_eq_true hid)
      have htells := h hcap.active
      have h : Tells held { r with eventsThisActivation := true } := ⟨htells.carried, htells.buttons⟩
      cases e with
      | key code pressed time => exact tells_onKey h code pressed time portal
      | button code pressed => exact tells_onButton h hcap.bridge code pressed portal
      | motion dx dy => exact loopTells_head fun _ => ⟨h.carried, h.buttons⟩
      | scrollDiscrete x y => exact loopTells_head fun _ => ⟨h.carried, h.buttons⟩
      | scrollDelta dx dy =>
          refine loopTells_head fun _ => ?_
          rw [Router.onScrollDelta]
          dsimp only
          split <;> exact ⟨h.carried, h.buttons⟩
      | frame => exact tells_onFrame h
      | disconnected => exact loopTells_orPanic fun _ _ => loopTells_returned _ _ _

theorem tells_receive {held : List Hold} {r : Router F} (h : r.activeId.isSome → Tells held r)
    (hok : Ok r) {e : Recv F}
    (he : ∀ id x y portal, e ≠ .event (.portal (.activated id x y)) portal) :
    LoopTells (Half.hold held (.receive e)) (r.receive zone e) := by
  cases e with
  | timeout => exact loopTells_head h
  | disconnected => exact loopTells_returned _ _ _
  | event e portal =>
      cases e with
      | portal e =>
          cases e with
          | activated id x y => exact absurd rfl (he id x y portal)
          | deactivated => exact loopTells_goLocalIfActive _ _
          | disabled =>
              refine loopTells_orPanic ?_
              intro r' hr'
              cases portal.enable with
              | error e => exact loopTells_returned _ _ _
              | ok _ =>
                  refine loopTells_head ?_
                  intro hactive
                  rw [Router.activeId_goLocalIfActive hr'] at hactive
                  cases hactive
          | zonesChanged => exact loopTells_orPanic fun _ _ => loopTells_returned _ _ _
      | capture e => exact tells_onCapture h hok e portal
      | screenSaver locked =>
          cases locked with
          | true => exact loopTells_goLocalIfActive _ _
          | false =>
              show LoopTells held (r.onScreenSaver zone portal false)
              rw [Router.onScreenSaver, if_neg (by decide)]
              cases portal.armBarriers with
              | error e => exact loopTells_returned _ _ _
              | ok _ =>
                  cases portal.enable with
                  | error e => exact loopTells_returned _ _ _
                  | ok _ => exact loopTells_head h

theorem tells_step {halves : List (Half F)} {half : Half F} {l l' : Loop F} (hok : LoopOk l)
    (h : LoopTells (holds halves) l) (hhalf : half.activates = false)
    (hst : (router zone).step l half = some l') : LoopTells (holds (halves ++ [half])) l' := by
  rw [holds_snoc]
  cases half with
  | top t =>
      obtain ⟨r, rfl, rfl⟩ := step_top hst
      exact tells_top (h r (.inl rfl)) hok t
  | receive e =>
      obtain ⟨r, rfl, rfl⟩ := step_receive hst
      refine tells_receive (h r (.inr rfl)) hok.1 ?_
      rintro id x y portal rfl
      cases hhalf

/-- An activation from the local side starts with nothing told. -/
theorem tells_activated {r₁ r₀ : Router F} {id : UInt32} {x y : F} {portal : Portal} (hok : Ok r₁)
    (hlocal : r₁.activeId = none)
    (hreceive : r₁.receive zone (.event (.portal (.activated id x y)) portal) = .head r₀)
    (hactive : r₀.activeId.isSome) : Tells [] r₀ := by
  obtain ⟨b, hb, hact⟩ := Router.activate_of_receive hreceive hactive
  obtain ⟨space, cx, cy, -, -, rfl⟩ := Router.activate_eq_some hact
  refine ⟨?_, hok.buttons hlocal⟩
  intro b' hb'
  cases hb'
  refine carries_idle (m := .pointerAbs cx cy) trivial (carries_mono ?_ (hok.carried b hb))
  intro msgs hmsgs
  exact heldBy_settled (hmsgs hlocal)

/-- During an activation that was entered from the local side, what has been
told is what its events mean. -/
theorem tells_run {r₁ r₀ : Router F} {id : UInt32} {x y : F} {portal : Portal}
    {halves : List (Half F)} {l : Loop F} (hok : LoopOk (.waiting r₁)) (hlocal : r₁.activeId = none)
    (hstart : (router zone).step (.waiting r₁)
      (.receive (.event (.portal (.activated id x y)) portal)) = some (.head r₀))
    (hactive₀ : r₀.activeId.isSome) (hrun : (router zone).exec (.head r₀) halves = some l)
    (hone : ∀ half ∈ halves, half.activates = false) : LoopTells (holds halves) l := by
  have hreceive := Option.some.inj hstart
  have hinit : LoopTells (holds ([] : List (Half F))) (.head r₀) :=
    loopTells_head fun _ => tells_activated hok.1 hlocal hreceive hactive₀
  have hok₀ : LoopOk (.head r₀) := loopOk_step hok hstart
  have hboth : LoopOk l ∧ LoopTells (holds halves) l := by
    refine (router zone).exec_induction_of_all
      (P := fun halves l => LoopOk l ∧ LoopTells (holds halves) l) ⟨hok₀, hinit⟩ ?_ hrun hone
    intro halves half l l' _ h hhalf hst
    exact ⟨loopOk_step h.1 hst, tells_step h.1 h.2 hhalf hst⟩
  exact hboth.2

/-! ## What the events mean -/

def Hold.press : Hold → Option Press
  | .key usage pressed => some (if pressed then .down usage else .up usage)
  | .buttons _ => none

omit [F64 F] in
theorem buttonEvents_snoc (halves : List (Half F)) (half : Half F) :
    buttonEvents (halves ++ [half]) = buttonEvents halves ++ half.button.toList := by
  rw [buttonEvents, List.filterMap_append]
  cases hbutton : half.button with
  | none => simp [hbutton, buttonEvents]
  | some k => simp [hbutton, buttonEvents]

omit [F64 F] in
/-- No event is both. -/
theorem button_of_key {half : Half F} {k : KeyEvent} (h : half.key = some k) :
    half.button = none := by
  obtain ⟨code, pressed, time, portal, rfl, -⟩ := key_eq_some h
  rfl

omit [F64 F] in
theorem press_holds (halves : List (Half F)) :
    (holds halves).filterMap Hold.press = presses (keyEvents halves) := by
  induction halves using List.reverseRecOn with
  | nil => rfl
  | append_singleton halves half ih =>
      rw [holds_snoc, keyEvents_snoc, presses, List.filterMap_append, ← presses, ← ih, Half.hold]
      cases hk : half.key with
      | some k =>
          simp only [List.filterMap_append, Option.toList_some, List.append_cancel_left_eq]
          cases hu : keycodeToUsage k.code <;> simp [KeyEvent.press, Hold.press, hu]
      | none =>
          cases hb : half.button with
          | none => simp
          | some k =>
              simp only [Option.toList_none, List.filterMap_nil, List.append_nil]
              split
              · simp [Hold.press]
              · rfl

omit [F64 F] in
theorem lastButtons_holds (halves : List (Half F)) :
    lastButtons (holds halves) = buttonsOf (buttonEvents halves) := by
  induction halves using List.reverseRecOn with
  | nil => rfl
  | append_singleton halves half ih =>
      rw [holds_snoc, buttonEvents_snoc, Half.hold]
      cases hk : half.key with
      | some k =>
          simp only [button_of_key hk, Option.toList_none, List.append_nil, ← ih]
          cases keycodeToUsage k.code with
          | none => exact congrArg lastButtons (List.append_nil _)
          | some usage => exact lastButtons_key _ _ _
      | none =>
          cases hb : half.button with
          | none =>
              simp only [Option.toList_none, List.append_nil]
              exact ih
          | some k =>
              simp only [Option.toList_some, buttonsOf_snoc, ← ih]
              cases hbit : buttonToBit k.code with
              | none => simp [KeyEvent.click, hbit]
              | some bit => simp [lastButtons_buttons]

/-- The board never has more than is down, has all the modifiers, and has all
of it while there are no more than six others. -/
theorem board_downs (keys : List KeyEvent) :
    (∀ u, u ∈ (Board.presses (presses keys)).modifiers ↔ Modifier u ∧ u ∈ downs keys) ∧
      (∀ u ∈ (Board.presses (presses keys)).held, ¬ Modifier u ∧ u ∈ downs keys) ∧
      (AtMostSix keys →
        ∀ u, u ∈ (Board.presses (presses keys)).held ↔ ¬ Modifier u ∧ u ∈ downs keys) := by
  induction keys using List.reverseRecOn with
  | nil => simp [presses, Board.presses, Board.empty, downs]
  | append_singleton keys k ih =>
      obtain ⟨hmodifiers, hheld, hall⟩ := ih
      have hbefore : AtMostSix (keys ++ [k]) → AtMostSix keys := fun h before hpre =>
        h before (hpre.trans (List.prefix_append _ _))
      cases hk : keycodeToUsage k.code with
      | none =>
          rw [press_of_unmapped hk, downs_of_unmapped hk]
          exact ⟨hmodifiers, hheld, fun h => hall (hbefore h)⟩
      | some usage =>
          have hpresses := press_of_mapped hk keys
          have hdowns : downs (keys ++ [k]) =
              (if k.pressed then Press.down usage else .up usage).move (downs keys) := by
            rw [downs, hpresses, List.foldl_append]
            rfl
          have hnonzero : ∀ u, (if k.pressed then Press.down usage else .up usage) = .down u →
              u ≠ 0 := by
            intro u hu
            split at hu
            · cases hu
              exact keycodeToUsage_ne_zero hk
            · cases hu
          rw [hpresses, hdowns, Board.presses_snoc]
          refine ⟨press_modifiers hmodifiers _, press_held hheld _, ?_⟩
          intro hsix
          refine press_all (hall (hbefore hsix)) hnonzero ?_
          rw [← hdowns]
          exact hsix _ (List.prefix_refl _)

/-! ## The bridge -/

/-- What the bridge holds after the messages. -/
structure Holding (held : List Hold) (c : Client) : Prop where
  board : Represents (Board.presses (held.filterMap Hold.press)) c.hid
  buttons : c.hid.buttons = lastButtons held &&& 0x07

theorem holding_flushAbs {held : List Hold} {c : Client} (h : Holding held c) :
    Holding held c.flushAbs :=
  ⟨represents_flushAbs h.board, (buttons_flushAbs c).trans h.buttons⟩

theorem buttons_keyEvent (h : Hid) (usage : UInt8) (down : Bool) :
    (h.keyEvent usage down).buttons = h.buttons := by
  obtain ⟨f, hf⟩ := keyEvent_eq usage down
  rw [hf, Hid.updateKeys]
  cases f h.modifiers h.keys <;> rfl

theorem press_snoc (held : List Hold) (usage : UInt8) (pressed : Bool) :
    Board.presses ((held ++ [Hold.key usage pressed]).filterMap Hold.press) =
      (Board.presses (held.filterMap Hold.press)).press
        (if pressed then .down usage else .up usage) := by
  rw [List.filterMap_append, ← Board.presses_snoc]
  rfl

theorem holding_act {held : List Hold} {c c' : Client} {m : Message} (h : Holding held c)
    (hact : c.act m.item = .go c') : Holding (m.hold held) c' := by
  have hmeaning := meaning_of_act hact
  have hflush := holding_flushAbs h
  cases m with
  | keepalive =>
      cases hmeaning
      exact h
  | keyDown usage =>
      cases hmeaning
      refine ⟨?_, ?_⟩
      · rw [Message.hold, press_snoc]
        exact h.board.down usage
      · rw [Message.hold, lastButtons_key]
        exact (buttons_keyEvent _ _ _).trans h.buttons
  | keyUp usage =>
      cases hmeaning
      refine ⟨?_, ?_⟩
      · rw [Message.hold, press_snoc]
        exact h.board.up usage
      · rw [Message.hold, lastButtons_key]
        exact (buttons_keyEvent _ _ _).trans h.buttons
  | pointerAbs x y =>
      cases hmeaning
      exact ⟨h.board, h.buttons⟩
  | pointerButton buttons =>
      cases hmeaning
      refine ⟨?_, ?_⟩
      · rw [Message.hold, List.filterMap_append,
          show [Hold.buttons buttons].filterMap Hold.press = [] from rfl, List.append_nil]
        exact hflush.board.congr rfl rfl
      · rw [Message.hold, lastButtons_buttons]
        rfl
  | pointerWheel detents =>
      cases hmeaning
      exact ⟨hflush.board.congr rfl rfl, hflush.buttons⟩
  | releaseAll =>
      cases hmeaning
      have hzero : 0 = lastButtons [] &&& 0x07 := by decide
      exact ⟨.empty (Hid.released_releaseAll _), hzero⟩

/-- A client that has acted on messages holds what they have told. -/
theorem holding_led {msgs : List Message} {c₀ c : Client} (hr : c₀.hid.Released)
    (hled : Led Client.act Client.flushAbs c₀ (items msgs) c) : Holding (heldBy msgs) c := by
  induction msgs using List.reverseRecOn generalizing c with
  | nil =>
      have hreleased : c.hid.Released := released_of_settled .nil hr hled
      exact ⟨.empty hreleased, hreleased.buttons⟩
  | append_singleton msgs m ih =>
      rw [items_snoc] at hled
      refine led_snoc (Q := Holding (heldBy (msgs ++ [m]))) (fun _ => holding_flushAbs) ?_ hled
      intro c₁ c₂ hled₁ hact
      rw [heldBy_snoc]
      exact holding_act (ih hled₁) hact

/-! ## The host -/

/-- What the host is told of the keys, by the board. -/
theorem toldKey_iff {b : Board} {h : Hid} (hs : Shown h) (htook : h.Took .kbd)
    (hb : Represents b h) {u : UInt8} (hu : u ≠ 0) :
    h.ToldKey u.toNat ↔ u ∈ b.modifiers ∨ u ≤ 0x65 ∧ u ∈ b.held := by
  rw [Hid.ToldKey, Hid.told_iff htook]
  refine (hs.key hu).trans ?_
  rw [hb.modifiers, hb.held]
  simp only [ne_eq, hu, not_false_iff, true_and]

/-- The three buttons are those of the byte. -/
theorem testBit_and_seven (m : UInt8) {i : Nat} (hi : i < 3) :
    (m &&& 0x07).toNat.testBit i = m.toNat.testBit i := by
  have hseven : (0x07 : UInt8).toNat.testBit i = true := by
    interval_cases i <;> rfl
  rw [UInt8.toNat_and, Nat.testBit_and, hseven, Bool.and_true]

/-- During an activation that was entered from the local side, a bridge that
has read all that was written, and whose last reports were taken, has told the
host of no key that is not down, of all the modifiers and buttons that are, and
of every key that is while no more than six others were.  The reads may cut the
stream anywhere. -/
theorem host_shows_hand (zone : Zone) (remote : Screen F) (dial : Dial) (before : List (Half F))
    (id : UInt32) (cursorX cursorY : F) (portal : Portal) (r₁ r₀ : Router F)
    (halves : List (Half F)) (l : Loop F) (r : Router F) (b : BridgeClient)
    (hbefore : (router zone).exec (.head (.start zone remote dial)) before = some (.waiting r₁))
    (hlocal : r₁.activeId = none)
    (hstart : (router zone).step (.waiting r₁)
      (.receive (.event (.portal (.activated id cursorX cursorY)) portal)) = some (.head r₀))
    (hactive₀ : r₀.activeId.isSome)
    (hrun : (router zone).exec (.head r₀) halves = some l)
    (hone : ∀ half ∈ halves, half.activates = false)
    (hl : l.atHead = some r ∨ l.atWait = some r) (hactive : r.activeId.isSome)
    (hb : r.bridge = some b) (hwrites : b.stream.broken = false)
    (takes : Nat → Bool) (earlier : List DaemonEvent) (hid : Hid) (ready : Bool)
    (room : Option Nat) (turns : List Turn) (s : Session)
    (hearlier : daemon.exec (.listening (.open takes)) earlier = some (.listening hid))
    (hsession : daemon.exec (.listening hid) (.accept ready room :: turns.map .turn) =
      some (.serving s))
    (hread : turns.flatMap Turn.received = b.stream.written)
    (hkbd : s.client.hid.Took .kbd) (hptr : s.client.hid.Took .ptr) :
    (∀ u : UInt8, u ≠ 0 → s.client.hid.ToldKey u.toNat →
        ∃ code, keycodeToUsage code = some u ∧ LastPressed code (keyEvents halves)) ∧
      (∀ code u, keycodeToUsage code = some u → Modifier u ∨ AtMostSix (keyEvents halves) →
        (s.client.hid.ToldKey u.toNat ↔ LastPressed code (keyEvents halves))) ∧
      (∀ i < 3, s.client.hid.ToldButton (i + 1) ↔
        LastPressed (UInt16.ofNat (0x110 + i)) (buttonEvents halves)) := by
  have htells := tells_run (ok_run hbefore) hlocal hstart hactive₀ hrun hone r hl hactive
  obtain ⟨msgs, hmsgs, hwritten⟩ := htells.carried b hb hwrites
  have htracks := tracks_session hsession
  rw [hread, hwritten] at htracks
  have hholding := holding_led (released_of_listening hearlier)
    (framing.tracks_whole htracks (parses_wire msgs))
  rw [hmsgs] at hholding
  have hshown : Shown s.client.hid := shown_run (daemon.exec_trans hearlier hsession)
  have hboard := hholding.board
  rw [press_holds] at hboard
  obtain ⟨hmodifiers, hheld, hall⟩ := board_downs (keyEvents halves)
  have hkey : ∀ u : UInt8, u ≠ 0 → (s.client.hid.ToldKey u.toNat ↔ _) :=
    fun u hu => toldKey_iff hshown hkbd hboard hu
  refine ⟨?_, ?_, ?_⟩
  · intro u hu hshows
    have hdown : u ∈ downs (keyEvents halves) := by
      rcases (hkey u hu).mp hshows with hm | ⟨-, hh⟩
      · exact ((hmodifiers u).mp hm).2
      · exact (hheld u hh).2
    obtain ⟨code, hcode⟩ := mapped_of_mem_downs hdown
    exact ⟨code, hcode, (mem_downs hcode).mp hdown⟩
  · intro code u hcode hcase
    rw [hkey u (keycodeToUsage_ne_zero hcode), ← mem_downs hcode, hmodifiers]
    by_cases hmod : Modifier u
    · constructor
      · rintro (hm | ⟨-, hh⟩)
        · exact hm.2
        · exact (hheld u hh).2
      · exact fun hdown => .inl ⟨hmod, hdown⟩
    · have hreportable := (usage_reportable hcode).resolve_left hmod
      rw [hall (hcase.resolve_left hmod) u]
      constructor
      · rintro (hm | ⟨-, -, hdown⟩)
        · exact hm.2
        · exact hdown
      · exact fun hdown => .inr ⟨hreportable, hmod, hdown⟩
  · intro i hi
    rw [Hid.ToldButton, Hid.told_iff hptr]
    refine (hshown.button i).trans ?_
    rw [hholding.buttons, lastButtons_holds, testBit_and_seven _ hi,
      testBit_buttonsOf _ hi]
    exact and_iff_right hi

/-! Left shift and A go down, and the left button; then A comes up. -/

/-- What is done during the activation. -/
def typed : List (Half ℚ) :=
  iteration (.capture (.key 42 true 0)) ++ iteration (.capture (.key 30 true 0)) ++
    iteration (.capture (.button 0x110 true)) ++ iteration (.capture (.key 30 false 0))

/-- What the router has written by then. -/
def typedBytes : List UInt8 :=
  wire [.pointerAbs 0 32798, .keyDown 0xe1, .keyDown 0x04, .pointerButton 1, .keyUp 0x04]

theorem host_shows_hand_typed :
    ∃ (r : Router ℚ) (b : BridgeClient) (s : Session),
      (router ubuntu).exec (.head (.start ubuntu windows answered)) (entered ++ typed) =
          some (.head r) ∧
        r.bridge = some b ∧
        daemon.exec (.listening (.open fun _ => true))
            (.accept true none :: (b.stream.written.map Turn.one).map .turn) = some (.serving s) ∧
        s.client.hid.ToldKey 0xe1 ∧ ¬ s.client.hid.ToldKey 0x04 ∧ s.client.hid.ToldButton 1 := by
  have hrouter : (((((router ubuntu).exec (.head (.start ubuntu windows answered))
      [.top .quiet]).bind Loop.atWait).bind fun r₁ =>
        ((((router ubuntu).step (.waiting r₁) (.receive (.event (.portal (.activated 7 2559 720))
          ⟨.ok (), .ok ()⟩))).bind Loop.atHead).bind fun r₀ =>
            (((router ubuntu).exec (.head r₀) typed).bind Loop.atHead).map fun r =>
              (r₁.activeId, r₀.activeId.isSome, r.activeId.isSome, r.bridge)))) =
      some (none, true, true, some ⟨typedBytes, none, false⟩) := by decide +kernel
  have hdaemon : ((daemon.exec (.listening (.open fun _ => true))
      (.accept true none :: (typedBytes.map Turn.one).map .turn)).map fun d =>
        match d with
        | .serving s => decide (s.client.hid.Took .kbd ∧ s.client.hid.Took .ptr)
        | _ => false) = some true := by
    decide +kernel
  obtain ⟨r₁, hr₁, hrouter⟩ := Option.bind_eq_some_iff.mp hrouter
  obtain ⟨r₀, hr₀, hrouter⟩ := Option.bind_eq_some_iff.mp hrouter
  obtain ⟨r, hr, hstate⟩ := Option.map_eq_some_iff.mp hrouter
  have hl₁ := Loop.bind_atWait_eq_some.mp hr₁
  have hl₀ := Loop.bind_atHead_eq_some.mp hr₀
  have hl := Loop.bind_atHead_eq_some.mp hr
  simp only [Prod.mk.injEq] at hstate
  obtain ⟨hlocal, hactive₀, hactive, hb⟩ := hstate
  obtain ⟨d, hd, hserving⟩ := Option.map_eq_some_iff.mp hdaemon
  cases d with
  | listening hid => cases hserving
  | exited hid => cases hserving
  | serving s =>
      have htook : s.client.hid.Took .kbd ∧ s.client.hid.Took .ptr :=
        of_decide_eq_true hserving
      obtain ⟨hnone, hkeys, hbuttons⟩ :=
        host_shows_hand ubuntu windows answered [.top .quiet] 7 2559 720 ⟨.ok (), .ok ()⟩ r₁ r₀ typed
          _ r _ hl₁ hlocal hl₀ hactive₀ hl (by decide +kernel) (.inl rfl) hactive hb rfl
          (fun _ => true) [] _ true none _ s rfl hd (received_one typedBytes)
          htook.1 htook.2
      have hall : (router ubuntu).exec (.head (.start ubuntu windows answered)) (entered ++ typed) =
          some (.head r) :=
        (router ubuntu).exec_trans ((router ubuntu).exec_snoc.mpr ⟨_, hl₁, hl₀⟩) hl
      refine ⟨r, _, s, hall, hb, hd, ?_, ?_, ?_⟩
      · refine (hkeys 42 0xe1 rfl (.inl (by decide))).mpr (lastPressed_iff.mp ?_)
        decide +kernel
      · intro hshows
        obtain ⟨code, hcode, hlast⟩ := hnone 0x04 (by decide) hshows
        obtain rfl : code = 30 := keycodeToUsage_inj hcode rfl
        have hfalse : lastPressed 30 (keyEvents typed) = false := by decide +kernel
        rw [← lastPressed_iff, hfalse] at hlast
        cases hlast
      · refine (hbuttons 0 (by decide)).mpr (lastPressed_iff.mp ?_)
        decide +kernel

end Beaglewing.Input
