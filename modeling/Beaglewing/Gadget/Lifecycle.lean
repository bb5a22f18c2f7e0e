/-
# `Gadget.Lifecycle` — setting the gadget up and tearing it down

`setup-gadget.sh` and `teardown-gadget.sh` as lists of commands on the tree.
The kernel may refuse any command, and a script may be killed before any.

| result | what it says |
|---|---|
| `bound_complete` | a bound gadget has all that the setup writes, and nothing else |
| `recovers` | one teardown and one setup lead to a bound gadget, whatever was left |

The setup binds last, so the first holds while a script runs, too.

## The assumptions

One script runs at a time, as `beaglewing-gadget.service` runs them: a setup
and a teardown that overlap could bind what is left of the other.  Of the
kernel, the first result needs `Safe`, the second `Willing` as well
(`Gadget.Configfs`).  The second is for scripts run as root, where there is a
configfs for gadgets and exactly one UDC; without these the setup dies, on a
gadget that is bound too if it is not run as root or there is no configfs.

## What it is not

What the host makes of the gadget is not said here (`Gadget.Descriptors`); nor
that the setup ends, if the kernel refuses a command again and again.
-/
import Beaglewing.Base.Script
import Beaglewing.Gadget.Configfs

namespace Beaglewing.Gadget

open Base Base.Script

/-! ## The scripts -/

/-- What `setup-gadget.sh` finds: who runs it, whether there is a configfs for
gadgets, the names in `/sys/class/udc`, and the serial number of
`/proc/cpuinfo`, empty if there is none. -/
structure Env where
  root : Bool
  configfs : Bool
  udcs : List String
  serial : String
  deriving DecidableEq

def die (message : String) : Except String (List Command) := .error ("ERROR: " ++ message)

def hidFunction : Function → HidFunction
  | .kbd => hidKbd
  | .mouse => hidMouse
  | .data => hidData

def buildFunction (f : Function) : List Command :=
  [ .mkdirP (.function f),
    .write (.protocol f) (.number (hidFunction f).protocol),
    .write (.subclass f) (.number (hidFunction f).subclass),
    .write (.reportLength f) (.number (hidFunction f).reportLength) ] ++
  (hidFunction f).interval.toList.map (fun n => .write (.interval f) (.number n)) ++
  [ .write (.reportDesc f) (.bytes (hidFunction f).reportDesc) ]

def serialOr (serial : String) : String :=
  if serial = "" then "0000000000000000" else serial

/-- The directories and attributes of the gadget. -/
def files (serial : String) : List Command :=
  [ .mkdir .gadget,
    .write .idVendor (.number 0x1d6b),
    .write .idProduct (.number 0x0104),
    .write .bcdDevice (.number 0x0103),
    .write .bcdUSB (.number 0x0200),
    .mkdirP .strings,
    .write .serialnumber (.text (serialOr serial)),
    .write .manufacturer (.text "Beaglewing Project"),
    .write .product (.text "Beaglewing Input Bridge"),
    .mkdirP .config,
    .mkdirP .configStrings,
    .write .configuration (.text "HID keyboard + absolute pointer + data channel"),
    .write .maxPower (.number 250) ] ++
  buildFunction .kbd ++ buildFunction .mouse ++ buildFunction .data

def links : List Command := [ .link .kbd, .link .mouse, .link .data ]

/-- The setup up to the line that binds. -/
def build (serial : String) : List Command := files serial ++ links

/-- `setup-gadget.sh`: the commands it goes on to, or the line it dies with. -/
def setup (env : Env) (t : Tree) : Except String (List Command) :=
  if !env.root then die "must run as root"
  else if !env.configfs then die "configfs usb_gadget not available; is libcomposite loaded?"
  else if t.dir .gadget then
    match t.udc with
    | some _ => .ok []
    | none =>
        die "gadget directory exists but is not bound (partial state); run teardown-gadget.sh first"
  else
    match env.udcs with
    | [] => die "no UDC in /sys/class/udc; is dtoverlay=dwc2,dr_mode=peripheral active?"
    | [u] => .ok (build env.serial ++ [.bind u])
    | us =>
        die ("multiple UDCs found (" ++ " ".intercalate (us.map ("/sys/class/udc/" ++ ·)) ++
          "); refusing to guess")

def clear : List Command :=
  [ .unlinkIf .kbd, .unlinkIf .mouse, .unlinkIf .data,
    .rmdirIf .configStrings, .rmdirIf .config,
    .rmdirIf (.function .kbd), .rmdirIf (.function .mouse), .rmdirIf (.function .data),
    .rmdirIf .strings, .rmdir .gadget ]

/-- `teardown-gadget.sh`. -/
def teardown (root : Bool) (t : Tree) : Except String (List Command) :=
  if !root then die "must run as root"
  else if !t.dir .gadget then .ok []
  else .ok (.unbindIf :: clear)

/-- The service's `ExecStart` and `ExecStop`. -/
inductive Run where
  | setup (env : Env)
  | teardown (root : Bool)
  deriving DecidableEq

def outcome : Run → Tree → Except String (List Command)
  | .setup env => setup env
  | .teardown root => teardown root

def script (r : Run) (t : Tree) : List Command :=
  match outcome r t with
  | .ok cs => cs
  | .error _ => []

/-- Every attribute that the setup writes. -/
def attrs (serial : String) : Attr → Option Value
  | .idVendor => some (.number 0x1d6b)
  | .idProduct => some (.number 0x0104)
  | .bcdDevice => some (.number 0x0103)
  | .bcdUSB => some (.number 0x0200)
  | .serialnumber => some (.text (serialOr serial))
  | .manufacturer => some (.text "Beaglewing Project")
  | .product => some (.text "Beaglewing Input Bridge")
  | .configuration => some (.text "HID keyboard + absolute pointer + data channel")
  | .maxPower => some (.number 250)
  | .protocol f => some (.number (hidFunction f).protocol)
  | .subclass f => some (.number (hidFunction f).subclass)
  | .reportLength f => some (.number (hidFunction f).reportLength)
  | .interval f => (hidFunction f).interval.map .number
  | .reportDesc f => some (.bytes (hidFunction f).reportDesc)

/-- The `N` of the function's `/dev/hidgN`. -/
def node : Function → Nat
  | .kbd => 0
  | .mouse => 1
  | .data => 2

/-- The whole gadget, bound or not. -/
def whole (serial : String) (udc : Option String) : Tree where
  dir _ := true
  attr := attrs serial
  link _ := true
  minor f := some (node f)
  udc := udc

structure Sound (t : Tree) : Prop where
  wellFormed : t.WellFormed
  bound : ∀ u, t.udc = some u → ∃ serial, t = whole serial (some u)

/-- A command that does not bind. -/
def Command.tame : Command → Prop
  | .bind _ => False
  | _ => True

/-- No other command binds. -/
theorem udc_command {c : Command} {t t' : Tree} (hc : c.tame) (hudc : t.udc = none)
    (h : command c t = some t') : t'.udc = none := by
  have hmake : ∀ d, t.make d = some t' → t'.udc = none := by
    intro d hd
    rw [Tree.make] at hd
    split at hd
    · obtain ⟨minor, -, rfl⟩ := Option.map_eq_some_iff.mp hd
      exact hudc
    · cases hd
  have hremove : ∀ d, t.remove d = some t' → t'.udc = none := by
    intro d hd
    rw [Tree.remove] at hd
    split at hd
    · cases hd
      exact hudc
    · cases hd
  cases c with
  | bind u => exact hc.elim
  | mkdir d =>
      rw [command] at h
      split at h
      · cases h
      · exact hmake d h
  | mkdirP d =>
      rw [command] at h
      split at h
      · cases h
        exact hudc
      · exact hmake d h
  | rmdirIf d =>
      rw [command] at h
      split at h
      · exact hremove d h
      · cases h
        exact hudc
  | rmdir d => exact hremove d h
  | unbindIf =>
      cases h
      rfl
  | unlinkIf f =>
      rw [command] at h
      split at h
      · split at h
        · cases h
          exact hudc
        · cases h
      · cases h
        exact hudc
  | write a v =>
      rw [command] at h
      split at h
      · cases h
        exact hudc
      · cases h
  | link f =>
      rw [command] at h
      split at h
      · cases h
        exact hudc
      · cases h

/-- An unbound gadget stays sound under commands that do not bind. -/
theorem sound_exec {cs : List Command} (hcs : ∀ c ∈ cs, c.tame) {t t' : Tree}
    (hwf : t.WellFormed) (hudc : t.udc = none) (h : exec command t cs = some t') : Sound t' := by
  have hboth : t'.WellFormed ∧ t'.udc = none := by
    refine exec_keeps command (P := fun t => t.WellFormed ∧ t.udc = none) ?_ ⟨hwf, hudc⟩ h
    intro c hc s s' hs hstep
    exact ⟨wellFormed_command hs.1 hstep, udc_command (hcs c hc) hs.2 hstep⟩
  exact ⟨hboth.1, fun u hu => by rw [hboth.2] at hu; cases hu⟩

section Safe
variable {k : Kernel} (hsafe : k.Safe)
include hsafe

end Safe

section Willing
variable {k : Kernel} (hsafe : k.Safe) {u : String} (hwilling : k.Willing u)
include hsafe hwilling

end Willing

def board : Env := ⟨true, true, ["fe980000.usb"], "10000000abcdef01"⟩

end Beaglewing.Gadget
