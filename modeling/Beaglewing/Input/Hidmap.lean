/-
# `Input.Hidmap` — evdev codes to HID usages and button bits

`hidmap.rs`.  A key that is not in the table, and a button that is not one
of the first three, has no place in the protocol and is dropped by the
router.  No key is mapped to usage 0, which marks an empty slot of a boot
report (`keycodeToUsage_ne_zero`).
-/
import Mathlib

namespace Beaglewing.Input

/-- A Linux keycode to a HID usage id (page 0x07). -/
def keycodeToUsage (code : UInt16) : Option UInt8 :=
  if 2 ≤ code ∧ code ≤ 10 then some ((code - 2).toUInt8 + 0x1e) -- 1..9
  else if 59 ≤ code ∧ code ≤ 68 then some ((code - 59).toUInt8 + 0x3a) -- F1..F10
  else if 71 ≤ code ∧ code ≤ 73 then some ((code - 71).toUInt8 + 0x5f) -- KP 7 8 9
  else if 75 ≤ code ∧ code ≤ 77 then some ((code - 75).toUInt8 + 0x5c) -- KP 4 5 6
  else if 79 ≤ code ∧ code ≤ 81 then some ((code - 79).toUInt8 + 0x59) -- KP 1 2 3
  else
    match code with
    | 1 => some 0x29 -- ESC
    | 11 => some 0x27 -- 0
    | 12 => some 0x2d -- -
    | 13 => some 0x2e -- =
    | 14 => some 0x2a -- Backspace
    | 15 => some 0x2b -- Tab
    | 16 => some 0x14 -- q
    | 17 => some 0x1a -- w
    | 18 => some 0x08 -- e
    | 19 => some 0x15 -- r
    | 20 => some 0x17 -- t
    | 21 => some 0x1c -- y
    | 22 => some 0x18 -- u
    | 23 => some 0x0c -- i
    | 24 => some 0x12 -- o
    | 25 => some 0x13 -- p
    | 26 => some 0x2f -- [
    | 27 => some 0x30 -- ]
    | 28 => some 0x28 -- Enter
    | 29 => some 0xe0 -- LCtrl
    | 30 => some 0x04 -- a
    | 31 => some 0x16 -- s
    | 32 => some 0x07 -- d
    | 33 => some 0x09 -- f
    | 34 => some 0x0a -- g
    | 35 => some 0x0b -- h
    | 36 => some 0x0d -- j
    | 37 => some 0x0e -- k
    | 38 => some 0x0f -- l
    | 39 => some 0x33 -- ;
    | 40 => some 0x34 -- '
    | 41 => some 0x35 -- `
    | 42 => some 0xe1 -- LShift
    | 43 => some 0x31 -- backslash
    | 44 => some 0x1d -- z
    | 45 => some 0x1b -- x
    | 46 => some 0x06 -- c
    | 47 => some 0x19 -- v
    | 48 => some 0x05 -- b
    | 49 => some 0x11 -- n
    | 50 => some 0x10 -- m
    | 51 => some 0x36 -- ,
    | 52 => some 0x37 -- .
    | 53 => some 0x38 -- /
    | 54 => some 0xe5 -- RShift
    | 55 => some 0x55 -- KP *
    | 56 => some 0xe2 -- LAlt
    | 57 => some 0x2c -- Space
    | 58 => some 0x39 -- CapsLock
    | 69 => some 0x53 -- NumLock
    | 70 => some 0x47 -- ScrollLock
    | 74 => some 0x56 -- KP -
    | 78 => some 0x57 -- KP +
    | 82 => some 0x62 -- KP 0
    | 83 => some 0x63 -- KP .
    | 86 => some 0x64 -- ISO extra key (102nd)
    | 87 => some 0x44 -- F11
    | 88 => some 0x45 -- F12
    | 96 => some 0x58 -- KP Enter
    | 97 => some 0xe4 -- RCtrl
    | 98 => some 0x54 -- KP /
    | 99 => some 0x46 -- PrintScreen/SysRq
    | 100 => some 0xe6 -- RAlt
    | 102 => some 0x4a -- Home
    | 103 => some 0x52 -- Up
    | 104 => some 0x4b -- PageUp
    | 105 => some 0x50 -- Left
    | 106 => some 0x4f -- Right
    | 107 => some 0x4d -- End
    | 108 => some 0x51 -- Down
    | 109 => some 0x4e -- PageDown
    | 110 => some 0x49 -- Insert
    | 111 => some 0x4c -- Delete
    | 119 => some 0x48 -- Pause
    | 125 => some 0xe3 -- LMeta (Super)
    | 126 => some 0xe7 -- RMeta
    | 127 => some 0x65 -- Menu/Compose
    | _ => none

/-- Mouse button codes to the protocol's button bits. -/
def buttonToBit (code : UInt16) : Option UInt8 :=
  match code with
  | 0x110 => some 0x01 -- BTN_LEFT
  | 0x111 => some 0x02 -- BTN_RIGHT
  | 0x112 => some 0x04 -- BTN_MIDDLE
  | _ => none

/-- The usages of a row of keys are counted from that of its first key. -/
theorem row_toNat {code lo hi : UInt16} {base : UInt8} (hlo : lo ≤ code) (hhi : code ≤ hi)
    (hfit : base.toNat + hi.toNat < 256 + lo.toNat) :
    ((code - lo).toUInt8 + base).toNat = base.toNat + (code.toNat - lo.toNat) := by
  have h₁ := UInt16.le_iff_toNat_le.mp hlo
  have h₂ := UInt16.le_iff_toNat_le.mp hhi
  rw [UInt8.toNat_add, UInt16.toNat_toUInt8, UInt16.toNat_sub_of_le _ _ hlo]
  omega

/-- They do not reach 256. -/
theorem row_ne_zero {code lo hi : UInt16} {base : UInt8} (hlo : lo ≤ code) (hhi : code ≤ hi)
    (hbase : 0 < base.toNat) (hfit : base.toNat + hi.toNat < 256 + lo.toNat) :
    (code - lo).toUInt8 + base ≠ 0 := by
  intro h
  have hrow := row_toNat hlo hhi hfit
  rw [h, UInt8.toNat_zero] at hrow
  omega

theorem keycodeToUsage_ne_zero {code : UInt16} {usage : UInt8}
    (h : keycodeToUsage code = some usage) : usage ≠ 0 := by
  unfold keycodeToUsage at h
  split_ifs at h with h₁ h₂ h₃ h₄ h₅
  · cases h
    exact row_ne_zero h₁.1 h₁.2 (by decide) (by decide)
  · cases h
    exact row_ne_zero h₂.1 h₂.2 (by decide) (by decide)
  · cases h
    exact row_ne_zero h₃.1 h₃.2 (by decide) (by decide)
  · cases h
    exact row_ne_zero h₄.1 h₄.2 (by decide) (by decide)
  · cases h
    exact row_ne_zero h₅.1 h₅.2 (by decide) (by decide)
  · split at h <;> cases h <;> decide

end Beaglewing.Input
