/-
# `Gadget.Descriptors` — the three HID functions and their reports

The functions that `setup-gadget.sh` creates, with the attributes that it
writes to each.  The host knows nothing of the bridge but the report
descriptors, so what a report means is what it says under them:

| function | bits | what they say |
|---|---|---|
| `hid.kbd` | 0 to 7 | the usages 0xE0 to 0xE7 of the keyboard page |
| | 16 to 63 | six usages of that page, up to 0x65 |
| `hid.mouse` | 0 to 2 | the buttons 1 to 3 |
| | 8 to 39 | X and Y, up to 32767 |
| | 40 to 47 | the wheel, a signed byte but -128 |
| `hid.data` | all | 1024 bytes of one vendor usage, each way |

Each input report fills its function's report length (`width_input`).

## What it is not

The host reads by the rules of `Base.HidReport`, which has what these three
descriptors use of the format: no report IDs, no units, no strings.  The boot
protocol, in which a host takes keyboard reports without the descriptor, is left
out.
-/
import Beaglewing.Base.HidReport

namespace Beaglewing.Gadget

open Base.HidReport

/-- What `setup-gadget.sh` writes to a function.  Where it writes no interval,
the kernel's stays. -/
structure HidFunction where
  protocol : Nat
  subclass : Nat
  reportLength : Nat
  interval : Option Nat
  reportDesc : List UInt8
  deriving DecidableEq

def hidKbd : HidFunction where
  protocol := 1
  subclass := 1
  reportLength := 8
  interval := none
  reportDesc :=
    [0x05, 0x01, 0x09, 0x06, 0xa1, 0x01, 0x05, 0x07, 0x19, 0xe0, 0x29, 0xe7, 0x15, 0x00, 0x25,
      0x01, 0x75, 0x01, 0x95, 0x08, 0x81, 0x02, 0x95, 0x01, 0x75, 0x08, 0x81, 0x03, 0x95, 0x05,
      0x75, 0x01, 0x05, 0x08, 0x19, 0x01, 0x29, 0x05, 0x91, 0x02, 0x95, 0x01, 0x75, 0x03, 0x91,
      0x03, 0x95, 0x06, 0x75, 0x08, 0x15, 0x00, 0x25, 0x65, 0x05, 0x07, 0x19, 0x00, 0x29, 0x65,
      0x81, 0x00, 0xc0]

def hidMouse : HidFunction where
  protocol := 0
  subclass := 0
  reportLength := 6
  interval := some 1
  reportDesc :=
    [0x05, 0x01, 0x09, 0x02, 0xa1, 0x01, 0x09, 0x01, 0xa1, 0x00, 0x05, 0x09, 0x19, 0x01, 0x29,
      0x03, 0x15, 0x00, 0x25, 0x01, 0x95, 0x03, 0x75, 0x01, 0x81, 0x02, 0x95, 0x01, 0x75, 0x05,
      0x81, 0x03, 0x05, 0x01, 0x09, 0x30, 0x09, 0x31, 0x16, 0x00, 0x00, 0x26, 0xff, 0x7f, 0x75,
      0x10, 0x95, 0x02, 0x81, 0x02, 0x09, 0x38, 0x15, 0x81, 0x25, 0x7f, 0x75, 0x08, 0x95, 0x01,
      0x81, 0x06, 0xc0, 0xc0]

def hidData : HidFunction where
  protocol := 0
  subclass := 0
  reportLength := 1024
  interval := some 1
  reportDesc :=
    [0x06, 0x60, 0xff, 0x09, 0x61, 0xa1, 0x01, 0x09, 0x62, 0x15, 0x00, 0x26, 0xff, 0x00, 0x75,
      0x08, 0x96, 0x00, 0x04, 0x81, 0x02, 0x09, 0x63, 0x75, 0x08, 0x96, 0x00, 0x04, 0x91, 0x02,
      0xc0]

/-! ## What the host makes of the descriptors -/

def keyboardPage : Nat := 0x07
def buttonPage : Nat := 0x09
def desktopPage : Nat := 0x01
def usageX : Nat := 0x30
def usageY : Nat := 0x31
def usageWheel : Nat := 0x38

namespace Kbd

def application : Nat × Nat := (desktopPage, 0x06)

def modifiers : Field :=
  ⟨.input, false, false, keyboardPage, List.range' 0xe0 8, 0, 1, 1, 8, 0, application⟩

def reserved : Field := ⟨.input, true, false, keyboardPage, [], 0, 1, 8, 1, 8, application⟩

def leds : Field := ⟨.output, false, false, 0x08, List.range' 1 5, 0, 1, 1, 5, 0, application⟩

def ledPadding : Field := ⟨.output, true, false, 0x08, [], 0, 1, 3, 1, 5, application⟩

def keys : Field :=
  ⟨.input, false, true, keyboardPage, List.range' 0 0x66, 0, 0x65, 8, 6, 16, application⟩

def fields : List Field := [modifiers, reserved, leds, ledPadding, keys]

end Kbd

namespace Mouse

def application : Nat × Nat := (desktopPage, 0x02)

def buttons : Field :=
  ⟨.input, false, false, buttonPage, List.range' 1 3, 0, 1, 1, 3, 0, application⟩

def padding : Field := ⟨.input, true, false, buttonPage, [], 0, 1, 5, 1, 3, application⟩

def position : Field :=
  ⟨.input, false, false, desktopPage, [usageX, usageY], 0, 32767, 16, 2, 8, application⟩

def wheel : Field :=
  ⟨.input, false, false, desktopPage, [usageWheel], -127, 127, 8, 1, 40, application⟩

def fields : List Field := [buttons, padding, position, wheel]

end Mouse

namespace Data

def application : Nat × Nat := (0xff60, 0x61)

def input : Field := ⟨.input, false, false, 0xff60, [0x62], 0, 255, 8, 1024, 0, application⟩

def output : Field := ⟨.output, false, false, 0xff60, [0x63], 0, 255, 8, 1024, 0, application⟩

def fields : List Field := [input, output]

/-- One byte of a report. -/
def byte (b : UInt8) : Entry := ⟨0xff60, 0x62, b.toNat⟩

end Data

theorem fields_kbd : fields hidKbd.reportDesc = some Kbd.fields := by decide +kernel

theorem fields_mouse : fields hidMouse.reportDesc = some Mouse.fields := by decide +kernel

theorem fields_data : fields hidData.reportDesc = some Data.fields := by decide +kernel

/-- An input report is as long as the function says. -/
theorem width_input : ∀ f ∈ [hidKbd, hidMouse, hidData],
    (fields f.reportDesc).map (width · .input) = some (8 * f.reportLength) := by
  intro f hf
  simp only [List.mem_cons, List.not_mem_nil, or_false] at hf
  rcases hf with rfl | rfl | rfl
  · rw [fields_kbd]
    decide
  · rw [fields_mouse]
    decide
  · rw [fields_data]
    decide

/-! ## What a report says -/

/-- A usage is on in a keyboard report: a modifier by its bit, any other by
being in a slot. -/
theorem says_kbd {report : List UInt8} {u : Nat} :
    Says Kbd.fields report ⟨keyboardPage, u, 1⟩ ↔
      (∃ i < 8, (report.getD 0 0).toNat.testBit i = true ∧ u = 0xe0 + i) ∨
        ∃ i < 6, u = (report.getD (2 + i) 0).toNat ∧ u ≤ 0x65 := by
  have hmodifiers : Kbd.modifiers.Says report ⟨keyboardPage, u, 1⟩ ↔
      ∃ i < 8, (report.getD 0 0).toNat.testBit i = true ∧ u = 0xe0 + i := by
    rw [Field.says_flags rfl rfl rfl rfl rfl (k := 0) rfl rfl (by decide)]
    refine exists_congr fun i => and_congr_right fun _ => ?_
    rw [Entry.mk.injEq]
    cases (report.getD 0 0).toNat.testBit i <;> simp [Kbd.modifiers]
  have hkeys : Kbd.keys.Says report ⟨keyboardPage, u, 1⟩ ↔
      ∃ i < 6, u = (report.getD (2 + i) 0).toNat ∧ u ≤ 0x65 := by
    rw [Field.says_array rfl rfl rfl rfl (n := 0x65) rfl rfl (k := 2) rfl]
    refine exists_congr fun i => and_congr_right fun _ => ?_
    rw [Entry.mk.injEq]
    constructor
    · rintro ⟨hle, -, hu, -⟩
      exact ⟨hu, hu ▸ hle⟩
    · rintro ⟨rfl, hle⟩
      exact ⟨hle, rfl, rfl, rfl⟩
  rw [← hmodifiers, ← hkeys]
  simp [Says, Kbd.fields, Kbd.modifiers, Kbd.reserved, Kbd.leds, Kbd.ledPadding, Kbd.keys,
    Field.Says, Field.entry]

/-- A button is down in a pointer report. -/
theorem says_button {report : List UInt8} {b : Nat} :
    Says Mouse.fields report ⟨buttonPage, b, 1⟩ ↔
      ∃ i < 3, (report.getD 0 0).toNat.testBit i = true ∧ b = 1 + i := by
  have hbuttons : Mouse.buttons.Says report ⟨buttonPage, b, 1⟩ ↔
      ∃ i < 3, (report.getD 0 0).toNat.testBit i = true ∧ b = 1 + i := by
    rw [Field.says_flags rfl rfl rfl rfl rfl (k := 0) rfl rfl (by decide)]
    refine exists_congr fun i => and_congr_right fun _ => ?_
    rw [Entry.mk.injEq]
    cases (report.getD 0 0).toNat.testBit i <;> simp [Mouse.buttons]
  have hposition : ¬ Mouse.position.Says report ⟨buttonPage, b, 1⟩ := by
    rw [Field.says_words rfl rfl rfl rfl rfl (k := 1) rfl]
    rintro ⟨i, -, v, -, -, he⟩
    cases congrArg Entry.page he
  have hwheel : ¬ Mouse.wheel.Says report ⟨buttonPage, b, 1⟩ := by
    rw [Field.says_signed rfl rfl rfl (by decide) rfl rfl (k := 5) rfl]
    rintro ⟨-, -, he⟩
    cases congrArg Entry.page he
  have hpadding : ¬ Mouse.padding.Says report ⟨buttonPage, b, 1⟩ := by
    simp [Mouse.padding, Field.Says, Field.entry]
  have hinput : Mouse.buttons.direction = .input := rfl
  simp only [← hbuttons, Says, Mouse.fields, List.mem_cons, List.not_mem_nil, or_false,
    exists_eq_or_imp, exists_eq_left, hposition, hwheel, hpadding, hinput, and_false, true_and]

/-- A number of the desktop page in a pointer report. -/
theorem says_desktop {report : List UInt8} {u : Nat} {v : Int} :
    Says Mouse.fields report ⟨desktopPage, u, v⟩ ↔
      Mouse.position.Says report ⟨desktopPage, u, v⟩ ∨
        Mouse.wheel.Says report ⟨desktopPage, u, v⟩ := by
  have hbuttons : ¬ Mouse.buttons.Says report ⟨desktopPage, u, v⟩ := by
    rw [Field.says_flags rfl rfl rfl rfl rfl (k := 0) rfl rfl (by decide)]
    rintro ⟨i, -, he⟩
    cases congrArg Entry.page he
  have hpadding : ¬ Mouse.padding.Says report ⟨desktopPage, u, v⟩ := by
    simp [Mouse.padding, Field.Says, Field.entry]
  simp [Says, Mouse.fields, hbuttons, hpadding, Mouse.position, Mouse.wheel]

/-- The two words of the position. -/
theorem says_axis {report : List UInt8} {i : Nat} (hi : i < 2) {v : Int} :
    Says Mouse.fields report ⟨desktopPage, usageX + i, v⟩ ↔
      v = (report.getD (1 + 2 * i) 0).toNat + 256 * (report.getD (1 + 2 * i + 1) 0).toNat ∧
        v ≤ 32767 := by
  have hwheel : ¬ Mouse.wheel.Says report ⟨desktopPage, usageX + i, v⟩ := by
    rw [Field.says_signed rfl rfl rfl (by decide) rfl rfl (k := 5) rfl]
    rintro ⟨-, -, he⟩
    have := congrArg Entry.usage he
    simp only [usageX, usageWheel] at this
    omega
  have hget : ∀ j < 2, Mouse.position.usages.getD j 0 = usageX + j := by decide
  rw [says_desktop, or_iff_left hwheel, Field.says_words rfl rfl rfl rfl rfl (k := 1) rfl]
  constructor
  · rintro ⟨j, hj, n, rfl, hn, he⟩
    obtain ⟨-, husage, rfl⟩ := Entry.mk.injEq .. ▸ he
    rw [hget j hj, Nat.add_left_cancel_iff] at husage
    subst husage
    exact ⟨by push_cast; rfl, hn⟩
  · rintro ⟨rfl, hv⟩
    exact ⟨i, hi, _, rfl, by push_cast; exact hv, by rw [hget i hi]; push_cast; rfl⟩

theorem says_wheel {report : List UInt8} {v : Int} :
    Says Mouse.fields report ⟨desktopPage, usageWheel, v⟩ ↔
      v = (report.getD 5 0).toInt8.toInt ∧ -127 ≤ v := by
  have hposition : ¬ Mouse.position.Says report ⟨desktopPage, usageWheel, v⟩ := by
    rw [Field.says_words rfl rfl rfl rfl rfl (k := 1) rfl]
    rintro ⟨i, hi, n, -, -, he⟩
    have hget : ∀ j < 2, Mouse.position.usages.getD j 0 ≠ usageWheel := by decide
    exact hget i hi (congrArg Entry.usage he).symm
  rw [says_desktop, or_iff_right hposition,
    Field.says_signed rfl rfl rfl (by decide) rfl rfl (k := 5) rfl]
  have hmax : (report.getD 5 0).toInt8.toInt ≤ 127 := Int8.toInt_le _
  constructor
  · rintro ⟨hmin, -, he⟩
    obtain ⟨-, -, rfl⟩ := Entry.mk.injEq .. ▸ he
    exact ⟨rfl, hmin⟩
  · rintro ⟨rfl, hmin⟩
    exact ⟨hmin, hmax, rfl⟩

/-- A data report says its bytes, one after the other. -/
theorem said_data {report : List UInt8} (h : report.length = hidData.reportLength) :
    said Data.fields report = report.map Data.byte := by
  have hentry : ∀ i, Data.input.entry report i = some (Data.byte (report.getD i 0)) := by
    intro i
    rw [Field.entry_bytes rfl rfl rfl rfl rfl rfl (k := 0) rfl, Nat.zero_add]
    rfl
  have hsaid : said Data.fields report =
      (List.range report.length).filterMap fun i => some (Data.byte (report.getD i 0)) := by
    rw [h, ← funext hentry]
    exact List.append_nil _
  rw [hsaid, List.filterMap_eq_map']
  refine List.ext_getElem (by simp) ?_
  intro i hi hi'
  have hlt : i < report.length := by simpa using hi'
  simp [hlt]

end Beaglewing.Gadget
