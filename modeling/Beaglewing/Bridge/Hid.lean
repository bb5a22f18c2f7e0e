/-
# `Bridge.Hid` — held keys and buttons, and the reports they give

The bridge daemon's `Hid`: the modifiers, six key slots and buttons that are
held, the pointer position, and the reports written to the two gadget
devices.  A report that the host does not take is logged and forgotten; the
state it was made from stays (`hid_ok`).

Nothing is held when all of the first three are zero (`Hid.Released`).
`release_all` establishes that (`released_releaseAll`), and pointer reports
keep it (`Released.flushPtr`).
-/
import Mathlib

namespace Beaglewing.Bridge

def pointerCenter : UInt16 := 32768

inductive Which where
  | kbd
  | ptr
  deriving DecidableEq

/-- A report written to a device, and whether the host took it. -/
structure Report where
  which : Which
  bytes : List UInt8
  ok : Bool
  deriving DecidableEq

structure Hid where
  modifiers : UInt8
  keys : Fin 6 → UInt8
  buttons : UInt8
  x : UInt16
  y : UInt16
  hidOk : Bool
  /-- Whether the host takes the report after some number of reports. -/
  takes : Nat → Bool
  reports : List Report

def Hid.open (takes : Nat → Bool) : Hid where
  modifiers := 0
  keys := fun _ => 0
  buttons := 0
  x := pointerCenter
  y := pointerCenter
  hidOk := true
  takes := takes
  reports := []

namespace Hid

def writeReport (h : Hid) (which : Which) (report : List UInt8) : Hid :=
  let ok := h.takes h.reports.length
  { h with hidOk := ok, reports := h.reports ++ [⟨which, report, ok⟩] }

def flushKbd (h : Hid) : Hid :=
  h.writeReport .kbd (h.modifiers :: 0 :: List.ofFn h.keys)

def flushPtr (h : Hid) (wheel : Int8) : Hid :=
  let x := h.x >>> 1
  let y := h.y >>> 1
  h.writeReport .ptr
    [h.buttons, (x &&& 0xff).toUInt8, (x >>> 8).toUInt8, (y &&& 0xff).toUInt8, (y >>> 8).toUInt8,
      wheel.toUInt8]

def keyEvent (h : Hid) (usage : UInt8) (down : Bool) : Hid :=
  if 0xe0 ≤ usage ∧ usage ≤ 0xe7 then
    let bit := 1 <<< (usage - 0xe0)
    { h with modifiers := if down then h.modifiers ||| bit else h.modifiers &&& ~~~bit }.flushKbd
  else if down then
    if ∃ i, h.keys i = usage then h -- already held
    else
      match (List.finRange 6).find? fun i => h.keys i = 0 with
      | some slot => { h with keys := Function.update h.keys slot usage }.flushKbd
      | none => h -- dropping the 7th held key
  else { h with keys := fun i => if h.keys i = usage then 0 else h.keys i }.flushKbd

def releaseAll (h : Hid) : Hid :=
  ({ h with modifiers := 0, keys := fun _ => 0, buttons := 0 }.flushKbd).flushPtr 0

def heldKeyCount (h : Hid) : UInt8 :=
  UInt8.ofNat ((List.ofFn h.keys).countP fun k => k ≠ 0)

/-- Nothing is held. -/
structure Released (h : Hid) : Prop where
  modifiers : h.modifiers = 0
  keys : ∀ i, h.keys i = 0
  buttons : h.buttons = 0

theorem released_open (takes : Nat → Bool) : Released (.open takes) :=
  ⟨rfl, fun _ => rfl, rfl⟩

theorem released_releaseAll (h : Hid) : Released h.releaseAll :=
  ⟨rfl, fun _ => rfl, rfl⟩

theorem Released.flushPtr {h : Hid} (hr : h.Released) (wheel : Int8) :
    Released (h.flushPtr wheel) :=
  ⟨hr.modifiers, hr.keys, hr.buttons⟩

end Hid
end Beaglewing.Bridge
