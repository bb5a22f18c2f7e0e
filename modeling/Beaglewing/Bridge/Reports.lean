/-
# `Bridge.Reports` — what the bridge's reports say

The host sees reports, and knows of them what the report descriptors of
`setup-gadget.sh` say.  The state that the bridge keeps is the state that its
reports say: after every step of the daemon, the last report written to a
device says what is held, and where the pointer is (`host_shows`).

| the bridge | the last report written says |
|---|---|
| a bit of the modifier byte | that modifier |
| a usage up to 0x65 in a slot | that usage |
| any other usage in a slot | nothing |
| a bit of the buttons | that button |
| a position | the position over two |

A change is never kept back: what changes the state writes a report, and the
position that waits for the end of a batch is not yet in the state.

## What is written, and what is taken

A report that the device refuses counts as written: `ShowsKey`, `ShowsButton`
and `Shows` are about the last report written, taken or not.  The host goes by
the last report that it took (`lastTaken` of `Bridge.Host`); what it was told
is `Told`.  The two are the same if the last report to the device was taken
(`Took`, `told_iff`), and need not be otherwise (`host_keeps_key`).
-/
import Beaglewing.Bridge.Host
import Beaglewing.Bridge.Keyboard
import Beaglewing.Gadget.Descriptors

namespace Beaglewing.Bridge

open Base Base.HidReport Gadget

/-- The function whose device the reports go to. -/
def Which.function : Which → HidFunction
  | .kbd => hidKbd
  | .ptr => hidMouse

/-- What a report says, under the descriptor of its function. -/
def Which.Says (which : Which) (report : List UInt8) (e : Entry) : Prop :=
  ∃ fs ∈ fields which.function.reportDesc, HidReport.Says fs report e

/-- The value that a report has for a usage. -/
def Which.look (which : Which) (report : List UInt8) (page usage : Nat) : Option Int :=
  (fields which.function.reportDesc).bind fun fs => HidReport.look fs report page usage

namespace Hid

/-- The last report written to the device says it, whether or not it was taken. -/
def Shows (h : Hid) (which : Which) (e : Entry) : Prop :=
  ∃ report ∈ h.lastWritten which, which.Says report e

def ShowsKey (h : Hid) (usage : Nat) : Prop := h.Shows .kbd ⟨keyboardPage, usage, 1⟩

def ShowsButton (h : Hid) (button : Nat) : Prop := h.Shows .ptr ⟨buttonPage, button, 1⟩

/-- The last report that the host has taken from the device says it. -/
def Told (h : Hid) (which : Which) (e : Entry) : Prop :=
  ∃ report ∈ h.lastTaken which, which.Says report e

def ToldKey (h : Hid) (usage : Nat) : Prop := h.Told .kbd ⟨keyboardPage, usage, 1⟩

def ToldButton (h : Hid) (button : Nat) : Prop := h.Told .ptr ⟨buttonPage, button, 1⟩

/-- The host took the last report written to the device. -/
def Took (h : Hid) (which : Which) : Prop :=
  ∀ r ∈ (h.reports.filter fun r => r.which = which).getLast?, r.ok = true

instance (h : Hid) (which : Which) : Decidable (h.Took which) :=
  inferInstanceAs (Decidable (∀ r ∈ (h.reports.filter fun r => r.which = which).getLast?,
    r.ok = true))

theorem lastTaken_of_took {h : Hid} {which : Which} (htook : h.Took which) :
    h.lastTaken which = h.lastWritten which := by
  unfold Took at htook
  rw [lastTaken, lastWritten, sent]
  have hfilter : (h.reports.filter fun r => r.which = which ∧ r.ok = true) =
      (h.reports.filter fun r => r.which = which).filter fun r => r.ok = true := by
    rw [List.filter_filter]
    congr 1
    funext r
    simp [and_comm]
  rw [hfilter]
  generalize (h.reports.filter fun r => r.which = which) = rs at htook ⊢
  induction rs using List.reverseRecOn with
  | nil => rfl
  | append_singleton rs r _ =>
      rw [List.getLast?_concat] at htook
      have hok : r.ok = true := htook r rfl
      rw [List.filter_append, List.filter_cons_of_pos (by simpa using hok), List.filter_nil,
        List.map_append, List.map_append, List.map_cons, List.map_nil, List.getLast?_concat,
        List.getLast?_concat]

/-- Then the host was told what the last report says. -/
theorem told_iff {h : Hid} {which : Which} (htook : h.Took which) (e : Entry) :
    h.Told which e ↔ h.Shows which e := by
  rw [Told, Shows, lastTaken_of_took htook]

end Hid

/-! ## One report -/

theorem kbd_says_iff {report : List UInt8} {e : Entry} :
    Which.kbd.Says report e ↔ HidReport.Says Kbd.fields report e := by
  simp only [Which.Says, Which.function, fields_kbd, Option.mem_some_iff, exists_eq_left']

theorem ptr_says_iff {report : List UInt8} {e : Entry} :
    Which.ptr.Says report e ↔ HidReport.Says Mouse.fields report e := by
  simp only [Which.Says, Which.function, fields_mouse, Option.mem_some_iff, exists_eq_left']

/-- A modifier usage is one of eight. -/
theorem exists_bit_iff {u : UInt8} {P : Nat → Prop} :
    (∃ i < 8, P i ∧ u.toNat = 0xe0 + i) ↔ Modifier u ∧ P (u.toNat - 0xe0) := by
  constructor
  · rintro ⟨i, hi, hP, hu⟩
    refine ⟨⟨?_, ?_⟩, ?_⟩
    · exact UInt8.le_iff_toNat_le.mpr (by rw [hu]; exact Nat.le_add_right _ _)
    · exact UInt8.le_iff_toNat_le.mpr (by rw [hu]; exact Nat.add_le_add_left (Nat.le_of_lt_succ hi) _)
    · rwa [hu, Nat.add_sub_cancel_left]
  · rintro ⟨hu, hP⟩
    have := hu.toNat_mem
    exact ⟨u.toNat - 0xe0, by omega, hP, by omega⟩

/-- A keyboard report says of a usage what the state does. -/
theorem kbdReport_says_iff (h : Hid) (u : UInt8) :
    Which.kbd.Says h.kbdReport ⟨keyboardPage, u.toNat, 1⟩ ↔
      Modifier u ∧ bitOf h.modifiers u = true ∨ u ≤ 0x65 ∧ ∃ i, h.keys i = u := by
  rw [kbd_says_iff, says_kbd, exists_bit_iff]
  refine or_congr Iff.rfl ?_
  have hslot : ∀ i : Fin 6, h.kbdReport.getD (2 + i) 0 = h.keys i := by
    intro i
    fin_cases i <;> rfl
  constructor
  · rintro ⟨i, hi, hu, hle⟩
    refine ⟨UInt8.le_iff_toNat_le.mpr hle, ⟨i, hi⟩, ?_⟩
    rw [← hslot ⟨i, hi⟩]
    exact UInt8.toNat_inj.mp hu.symm
  · rintro ⟨hle, i, rfl⟩
    exact ⟨i, i.isLt, by rw [hslot], UInt8.le_iff_toNat_le.mp hle⟩

theorem ptrReport_says_button (buttons : UInt8) (x y : UInt16) (wheel : Int8) (b : Nat) :
    Which.ptr.Says (Hid.ptrReport buttons x y wheel) ⟨buttonPage, b + 1, 1⟩ ↔
      b < 3 ∧ buttons.toNat.testBit b = true := by
  rw [ptr_says_iff, says_button]
  constructor
  · rintro ⟨i, hi, hbit, hb⟩
    obtain rfl : b = i := by omega
    exact ⟨hi, hbit⟩
  · rintro ⟨hb, hbit⟩
    exact ⟨b, hb, hbit, Nat.add_comm b 1⟩

/-- A position over two is in range. -/
theorem half_le (x : UInt16) : ((x >>> 1).toNat : Int) ≤ 32767 := by
  have hx := x.toNat_lt
  have hhalf : (x >>> 1).toNat = x.toNat / 2 := by
    rw [UInt16.toNat_shiftRight]
    exact Nat.shiftRight_eq_div_pow _ 1
  omega

theorem ptrReport_says_x (buttons : UInt8) (x y : UInt16) (wheel : Int8) (v : Int) :
    Which.ptr.Says (Hid.ptrReport buttons x y wheel) ⟨desktopPage, usageX, v⟩ ↔
      v = (x >>> 1).toNat := by
  rw [ptr_says_iff, ← Nat.add_zero usageX, says_axis (by decide)]
  have hword := low_add_high (x >>> 1)
  have hmax := half_le x
  simp only [Hid.ptrReport, Nat.mul_zero, Nat.add_zero, List.getD_cons_succ, List.getD_cons_zero]
  constructor
  · rintro ⟨rfl, -⟩
    exact_mod_cast hword
  · rintro rfl
    exact ⟨by exact_mod_cast hword.symm, hmax⟩

theorem ptrReport_says_y (buttons : UInt8) (x y : UInt16) (wheel : Int8) (v : Int) :
    Which.ptr.Says (Hid.ptrReport buttons x y wheel) ⟨desktopPage, usageY, v⟩ ↔
      v = (y >>> 1).toNat := by
  rw [ptr_says_iff, show usageY = usageX + 1 from rfl, says_axis (by decide)]
  have hword := low_add_high (y >>> 1)
  have hmax := half_le y
  simp only [Hid.ptrReport, Nat.mul_one, List.getD_cons_succ, List.getD_cons_zero]
  constructor
  · rintro ⟨rfl, -⟩
    exact_mod_cast hword
  · rintro rfl
    exact ⟨by exact_mod_cast hword.symm, hmax⟩

theorem ptrReport_says_wheel (buttons : UInt8) (x y : UInt16) (wheel : Int8) (v : Int) :
    Which.ptr.Says (Hid.ptrReport buttons x y wheel) ⟨desktopPage, usageWheel, v⟩ ↔
      v = wheel.toInt ∧ -127 ≤ v := by
  rw [ptr_says_iff, says_wheel]
  simp only [Hid.ptrReport, List.getD_cons_succ, List.getD_cons_zero, Int8.toInt8_toUInt8]

theorem ptr_look (report : List UInt8) (page usage : Nat) :
    Which.ptr.look report page usage = HidReport.look Mouse.fields report page usage := by
  rw [Which.look, Which.function, fields_mouse, Option.bind_some]

/-- A turn of the wheel, and the position that it is reported at. -/
structure Spin where
  detents : Int
  x : Int
  y : Int
  deriving DecidableEq

/-- What a pointer report turns. -/
def spin (report : List UInt8) : Option Spin := do
  let detents ← Which.ptr.look report desktopPage usageWheel
  let x ← Which.ptr.look report desktopPage usageX
  let y ← Which.ptr.look report desktopPage usageY
  if detents = 0 then none else some ⟨detents, x, y⟩

/-- The smallest number of a byte is out of the range of the wheel, and says
nothing. -/
theorem spin_ptrReport (buttons : UInt8) (x y : UInt16) (wheel : Int8) :
    spin (Hid.ptrReport buttons x y wheel) =
      if wheel.toInt = 0 ∨ wheel.toInt < -127 then none
      else some ⟨wheel.toInt, (x >>> 1).toNat, (y >>> 1).toNat⟩ := by
  have hx := look_eq fun v => ptr_says_iff.symm.trans (ptrReport_says_x buttons x y wheel v)
  have hy := look_eq fun v => ptr_says_iff.symm.trans (ptrReport_says_y buttons x y wheel v)
  simp only [spin, ptr_look, hx, hy]
  by_cases hnull : wheel.toInt < -127
  · have hwheel : HidReport.look Mouse.fields (Hid.ptrReport buttons x y wheel) desktopPage
        usageWheel = none := by
      refine look_eq_none ?_
      intro v hsays
      have hv := (ptrReport_says_wheel buttons x y wheel v).mp (ptr_says_iff.mpr hsays)
      omega
    rw [hwheel, if_pos (.inr hnull)]
    rfl
  · have hwheel : HidReport.look Mouse.fields (Hid.ptrReport buttons x y wheel) desktopPage
        usageWheel = some wheel.toInt := by
      refine look_eq ?_
      intro v
      rw [← ptr_says_iff, ptrReport_says_wheel]
      omega
    rw [hwheel]
    by_cases hzero : wheel.toInt = 0 <;> simp [hzero, hnull]

/-! ## Every run of the daemon -/

/-- The last report to each device is the state; before the first one, nothing
is held. -/
structure Shown (h : Hid) : Prop where
  kbd : h.lastWritten .kbd = some h.kbdReport ∨
    h.lastWritten .kbd = none ∧ h.modifiers = 0 ∧ ∀ i, h.keys i = 0
  ptr : (∃ wheel, h.lastWritten .ptr = some (Hid.ptrReport h.buttons h.x h.y wheel)) ∨
    h.lastWritten .ptr = none ∧ h.buttons = 0
  length : ∀ r ∈ h.reports, r.bytes.length = r.which.function.reportLength

theorem shown_open (takes : Nat → Bool) : Shown (.open takes) where
  kbd := .inr ⟨rfl, rfl, fun _ => rfl⟩
  ptr := .inr ⟨rfl, rfl⟩
  length := by
    intro r hr
    cases hr

theorem lastWritten_congr {h h' : Hid} (hreports : h'.reports = h.reports) (which : Which) :
    h'.lastWritten which = h.lastWritten which := by
  rw [Hid.lastWritten, Hid.lastWritten, Hid.sent, Hid.sent, hreports]

theorem lastWritten_flushPtr (h : Hid) (wheel : Int8) :
    (h.flushPtr wheel).lastWritten .ptr = some (Hid.ptrReport h.buttons h.x h.y wheel) := by
  rw [Hid.lastWritten, Hid.sent_flushPtr_ptr, List.getLast?_concat]

/-- A keyboard report shows whatever the modifiers and keys have become. -/
theorem Shown.flushKbd {h : Hid} (hs : Shown h) (modifiers : UInt8) (keys : Fin 6 → UInt8) :
    Shown { h with modifiers := modifiers, keys := keys }.flushKbd where
  kbd := .inl (Hid.lastWritten_flushKbd _)
  ptr := by
    have hsame : Hid.lastWritten (Hid.flushKbd { h with modifiers := modifiers, keys := keys }) .ptr =
        h.lastWritten .ptr := by
      rw [Hid.lastWritten, Hid.sent_flushKbd_ptr]
      exact lastWritten_congr rfl .ptr
    rw [hsame]
    exact hs.ptr
  length := by
    intro r hr
    rcases List.mem_append.mp hr with hr | hr
    · exact hs.length r hr
    · rw [List.mem_singleton.mp hr]
      simp [Which.function, hidKbd]

/-- A pointer report shows whatever the buttons and the position have become. -/
theorem Shown.flushPtr {h : Hid} (hs : Shown h) (buttons : UInt8) (x y : UInt16) (wheel : Int8) :
    Shown ({ h with buttons := buttons, x := x, y := y }.flushPtr wheel) where
  kbd := by
    have hsame : Hid.lastWritten (Hid.flushPtr { h with buttons := buttons, x := x, y := y } wheel)
        .kbd = h.lastWritten .kbd := by
      rw [Hid.lastWritten, Hid.sent_flushPtr_kbd]
      exact lastWritten_congr rfl .kbd
    rw [hsame]
    exact hs.kbd
  ptr := .inl ⟨wheel, lastWritten_flushPtr _ wheel⟩
  length := by
    intro r hr
    rcases List.mem_append.mp hr with hr | hr
    · exact hs.length r hr
    · rw [List.mem_singleton.mp hr]
      rfl

theorem Shown.keyEvent {h : Hid} (hs : Shown h) (usage : UInt8) (down : Bool) :
    Shown (h.keyEvent usage down) := by
  obtain ⟨f, hf⟩ := keyEvent_eq usage down
  rw [hf, Hid.updateKeys]
  cases f h.modifiers h.keys with
  | none => exact hs
  | some q => exact hs.flushKbd q.1 q.2

theorem Shown.releaseAll {h : Hid} (hs : Shown h) : Shown h.releaseAll := by
  have hkbd := hs.flushKbd 0 fun _ => 0
  exact hkbd.flushPtr 0 h.x h.y 0

theorem shown_flushAbs {c : Client} (hs : Shown c.hid) : Shown c.flushAbs.hid := by
  rw [Client.flushAbs]
  split
  · next x y _ => exact hs.flushPtr c.hid.buttons x y 0
  · exact hs

theorem shown_dispatch {c : Client} (hs : Shown c.hid) (t : UInt8) (p : List UInt8) :
    Shown (c.dispatch t p).state.hid := by
  by_cases hstatus : t = msgGetStatus
  · subst hstatus
    rw [dispatch_status]
    split <;> exact hs
  · simp only [Client.dispatch, hstatus, if_false]
    split_ifs
    · exact hs.keyEvent _ true
    · exact hs.keyEvent _ false
    · exact hs.flushKbd _ _
    · exact hs
    · exact hs.flushPtr _ c.hid.x c.hid.y 0
    · exact hs.flushPtr c.hid.buttons c.hid.x c.hid.y _
    · exact hs.releaseAll
    · exact hs

theorem shown_act {c : Client} (hs : Shown c.hid) (m : Item) : Shown (c.act m).state.hid := by
  rw [Client.act]
  split
  · refine shown_dispatch ?_ m.1 m.2
    split
    · exact shown_flushAbs hs
    · exact hs
  · rcases greet_cases c m.1 m.2 with hstop | ⟨-, c', rfl, ⟨-, hgo⟩ | hstop⟩
    · rw [hstop]
      exact hs
    · rw [hgo]
      exact hs
    · rw [hstop]
      exact hs

theorem shown_turn {s : Session} (hs : Shown s.client.hid) (t : Turn) :
    Shown (s.turn t).state.client.hid := by
  rw [Session.turn]
  split
  · exact hs
  · split
    · exact hs
    · split
      · exact hs
      · exact hs
      · exact hs
      · next chunk _ =>
          have hdrain : Shown (framing.drain Client.act s.client (s.buf ++ chunk.bytes)).state.1.hid :=
            framing.drain_invariant (P := fun c : Client => Shown c.hid)
              (fun _ m hc => shown_act hc m) hs _
          split
          · next c rest hgo =>
              rw [hgo] at hdrain
              exact shown_flushAbs hdrain
          · next c rest hstop =>
              rw [hstop] at hdrain
              exact hdrain

theorem shown_step {d d' : Daemon} {e : DaemonEvent} (hs : Shown d.hid)
    (hst : daemon.step d e = some d') : Shown d'.hid := by
  cases d with
  | listening hid =>
      cases e with
      | shutdown =>
          cases hst
          exact Shown.releaseAll hs
      | noClient =>
          cases hst
          exact hs
      | accept ready room =>
          cases hst
          cases ready with
          | true => exact hs
          | false => exact Shown.releaseAll hs
      | turn t => cases hst
  | serving s =>
      cases e with
      | turn t =>
          have hturn := shown_turn hs t
          simp only [daemon] at hst
          cases ht : s.turn t with
          | go s' =>
              rw [ht] at hst hturn
              cases hst
              exact hturn
          | stop s' =>
              rw [ht] at hst hturn
              cases hst
              exact hturn.releaseAll
      | shutdown => cases hst
      | noClient => cases hst
      | accept ready room => cases hst
  | exited hid => cases hst

theorem shown_run {takes : Nat → Bool} {events : List DaemonEvent} {d : Daemon}
    (h : daemon.exec (.listening (.open takes)) events = some d) : Shown d.hid := by
  have hstart : Shown (Daemon.hid (.listening (.open takes))) := shown_open takes
  exact daemon.exec_invariant (P := fun d => Shown d.hid) hstart (fun _ _ _ => shown_step) h

/-! ## What the last reports say -/

/-- Of a usage but 0, the last report says what the state does. -/
theorem Shown.key {h : Hid} (hs : Shown h) {u : UInt8} (hu : u ≠ 0) :
    h.ShowsKey u.toNat ↔
      Modifier u ∧ bitOf h.modifiers u = true ∨ u ≤ 0x65 ∧ ∃ i, h.keys i = u := by
  rcases hs.kbd with hlast | ⟨hlast, hm, hk⟩
  · rw [← kbdReport_says_iff]
    simp only [Hid.ShowsKey, Hid.Shows, hlast, Option.mem_some_iff, exists_eq_left']
  · simp [Hid.ShowsKey, Hid.Shows, hlast, hm, hk, bitOf_zero, hu.symm]

theorem Shown.button {h : Hid} (hs : Shown h) (b : Nat) :
    h.ShowsButton (b + 1) ↔ b < 3 ∧ h.buttons.toNat.testBit b = true := by
  rcases hs.ptr with ⟨wheel, hlast⟩ | ⟨hlast, hb⟩
  · rw [← ptrReport_says_button h.buttons h.x h.y wheel]
    simp only [Hid.ShowsButton, Hid.Shows, hlast, Option.mem_some_iff, exists_eq_left']
  · simp [Hid.ShowsButton, Hid.Shows, hlast, hb]

theorem Shown.position {h : Hid} (hs : Shown h) (hsome : (h.lastWritten .ptr).isSome = true)
    (v : Int) :
    (h.Shows .ptr ⟨desktopPage, usageX, v⟩ ↔ v = (h.x >>> 1).toNat) ∧
      (h.Shows .ptr ⟨desktopPage, usageY, v⟩ ↔ v = (h.y >>> 1).toNat) := by
  rcases hs.ptr with ⟨wheel, hlast⟩ | ⟨hlast, -⟩
  · rw [← ptrReport_says_x h.buttons h.x h.y wheel, ← ptrReport_says_y h.buttons h.x h.y wheel]
    simp only [Hid.Shows, hlast, Option.mem_some_iff, exists_eq_left', and_self]
  · rw [hlast] at hsome
    cases hsome

/-- After every run of the daemon, every report has the length of its
function, and the last report to each device says under its descriptor what
the state is. -/
theorem host_shows (takes : Nat → Bool) (events : List DaemonEvent) (d : Daemon)
    (h : daemon.exec (.listening (.open takes)) events = some d) :
    (∀ r ∈ d.hid.reports, r.bytes.length = r.which.function.reportLength) ∧
      (∀ u : UInt8, u ≠ 0 → (d.hid.ShowsKey u.toNat ↔
        Modifier u ∧ bitOf d.hid.modifiers u = true ∨ u ≤ 0x65 ∧ ∃ i, d.hid.keys i = u)) ∧
      (∀ b, d.hid.ShowsButton (b + 1) ↔ b < 3 ∧ d.hid.buttons.toNat.testBit b = true) ∧
      ((d.hid.lastWritten .ptr).isSome = true → ∀ v,
        (d.hid.Shows .ptr ⟨desktopPage, usageX, v⟩ ↔ v = (d.hid.x >>> 1).toNat) ∧
          (d.hid.Shows .ptr ⟨desktopPage, usageY, v⟩ ↔ v = (d.hid.y >>> 1).toNat)) := by
  have hs := shown_run h
  exact ⟨hs.length, fun _ hu => hs.key hu, hs.button, hs.position⟩

/-- HELLO, KEY_STATE with left shift, A, and a modifier usage in a slot, and
BUTTON 1. -/
def shiftA : List UInt8 := [0x01, 0x02, 1, 0, 0x12, 0x07, 0x02, 0x04, 0xe0, 0, 0, 0, 0, 0x21, 0x01, 1]

theorem host_shows_shiftA : ∃ d : Daemon,
    daemon.exec (.listening (.open fun _ => true))
      (.accept true none :: (shiftA.map Turn.one).map .turn) = some d ∧
    d.hid.ShowsKey 0xe1 ∧ d.hid.ShowsKey 0x04 ∧ ¬ d.hid.ShowsKey 0xe0 ∧ d.hid.ShowsButton 1 := by
  have hrun : ((daemon.exec (.listening (.open fun _ => true))
      (.accept true none :: (shiftA.map Turn.one).map .turn)).map fun d =>
        (d.hid.modifiers, List.ofFn d.hid.keys, d.hid.buttons)) =
      some (0x02, [0x04, 0xe0, 0, 0, 0, 0], 1) := by decide +kernel
  obtain ⟨d, hd, hstate⟩ := Option.map_eq_some_iff.mp hrun
  simp only [Prod.mk.injEq] at hstate
  obtain ⟨hm, hk, hb⟩ := hstate
  have hmem : ∀ u, (∃ i, d.hid.keys i = u) ↔ u ∈ [0x04, 0xe0, 0, 0, 0, 0] := by
    intro u
    rw [← hk, List.mem_ofFn]
  obtain ⟨-, hkey, hbutton, -⟩ := host_shows (fun _ => true) _ d hd
  refine ⟨d, hd, (hkey 0xe1 (by decide)).mpr (.inl ⟨by decide, by rw [hm]; decide⟩),
    (hkey 0x04 (by decide)).mpr (.inr ⟨by decide, (hmem _).mpr (by decide)⟩), ?_,
    (hbutton 0).mpr ⟨by decide, by rw [hb]; decide⟩⟩
  rw [show 0xe0 = (0xe0 : UInt8).toNat from rfl, hkey 0xe0 (by decide), hm]
  exact fun h => h.elim (fun h => absurd h.2 (by decide)) fun h => absurd h.1 (by decide)

end Beaglewing.Bridge
