/-
# `Gadget.Configfs` — the gadget's tree and the commands on it

The part of configfs below `usb_gadget/beaglewing` that the two gadget scripts
write, and their commands.  The directories `strings`, `configs` and
`functions` come with the gadget, and `configs/c.1/strings` with the
configuration.

| command | in the scripts |
|---|---|
| `mkdir d` | `mkdir d` |
| `mkdirP d` | `mkdir -p d`, one command for each directory on the way |
| `write a v` | `echo v > a`, `printf v > a` |
| `link f` | `ln -s functions/f configs/c.1/` |
| `bind u` | `echo u > UDC` |
| `unbindIf` | `bound=$(cat UDC)`, and `echo "" > UDC` if that is not empty |
| `unlinkIf f` | `[[ -L configs/c.1/f ]] && rm configs/c.1/f` |
| `rmdirIf d` | `[[ -d d ]] && rmdir d` |
| `rmdir d` | `rmdir d` |

## What is assumed of the kernel

What a command does is the kernel's affair, and a parameter (`Kernel`).  The
results name what they need of it:

| | |
| :-- | :-- |
| `Safe` | a command that succeeds has done what it says, and no more: a directory is made where its owner is and was not there, and removed when nothing was made in it by hand and nothing links to it; a function gets the lowest hidg minor that no function of the gadget has; the gadget is bound only if it has a function |
| `Willing u` | what can be done is done: nothing is refused that respects those conditions; attributes of functions that the configuration does not have yet are writable, and `u` takes a gadget with all its functions |

`Safe` lets the kernel refuse anything.  What a kernel does to a gadget that is
bound when a function is taken from its configuration is left open by both:
the scripts take functions from unbound gadgets only.

## What it is not

Another gadget with HID functions would have some of the minors; there is none
here.  The tree is changed by one command at a time, and by nothing else.
-/
import Mathlib.Logic.Function.Basic
import Beaglewing.Gadget.Descriptors

namespace Beaglewing.Gadget

/-- The directories below `functions`: `hid.kbd`, `hid.mouse` and `hid.data`. -/
inductive Function where
  | kbd
  | mouse
  | data
  deriving DecidableEq

/-- The directories that are made by hand: the gadget's, and below it
`strings/0x409`, `configs/c.1`, `configs/c.1/strings/0x409` and the functions'. -/
inductive Dir where
  | gadget
  | strings
  | config
  | configStrings
  | function (f : Function)
  deriving DecidableEq

/-- The directory that has to be there for it. -/
def Dir.owner : Dir → Option Dir
  | .gadget => none
  | .strings => some .gadget
  | .config => some .gadget
  | .configStrings => some .config
  | .function _ => some .gadget

inductive Attr where
  | idVendor
  | idProduct
  | bcdDevice
  | bcdUSB
  | serialnumber
  | manufacturer
  | product
  | configuration
  | maxPower
  | protocol (f : Function)
  | subclass (f : Function)
  | reportLength (f : Function)
  | interval (f : Function)
  | reportDesc (f : Function)
  deriving DecidableEq

def Attr.dir : Attr → Dir
  | .idVendor | .idProduct | .bcdDevice | .bcdUSB => .gadget
  | .serialnumber | .manufacturer | .product => .strings
  | .configuration => .configStrings
  | .maxPower => .config
  | .protocol f | .subclass f | .reportLength f | .interval f | .reportDesc f => .function f

inductive Value where
  | number (n : Nat)
  | text (s : String)
  | bytes (b : List UInt8)
  deriving DecidableEq

/-- The gadget's tree.  An attribute that nobody wrote has the kernel's own
value. -/
structure Tree where
  dir : Dir → Bool
  attr : Attr → Option Value
  link : Function → Bool
  minor : Function → Option Nat
  udc : Option String

/-- No gadget. -/
def Tree.empty : Tree where
  dir _ := false
  attr _ := none
  link _ := false
  minor _ := none
  udc := none

/-- `HIDG_MINORS` of the kernel. -/
def minors : Nat := 4

def allFunctions : List Function := [.kbd, .mouse, .data]

def allDirs : List Dir := [.gadget, .strings, .config, .configStrings] ++ allFunctions.map .function

theorem mem_allFunctions (f : Function) : f ∈ allFunctions := by
  cases f <;> decide

theorem mem_allDirs (d : Dir) : d ∈ allDirs := by
  cases d with
  | function f => cases f <;> decide
  | _ => decide

namespace Tree

/-- The lowest minor that no function has. -/
def freeMinor (t : Tree) : Option Nat :=
  (List.range minors).find? fun n => allFunctions.all fun f => t.minor f != some n

def owned (t : Tree) (d : Dir) : Bool :=
  match d.owner with
  | none => true
  | some o => t.dir o

/-- The minors once the directory is made, if there is one left for it. -/
def minorsWith (t : Tree) : Dir → Option (Function → Option Nat)
  | .function f => t.freeMinor.map fun n => Function.update t.minor f (some n)
  | _ => some t.minor

def make (t : Tree) (d : Dir) : Option Tree :=
  if t.owned d then
    (t.minorsWith d).map fun minor => { t with dir := Function.update t.dir d true, minor }
  else none

/-- A link is in the directory, or links to it. -/
def linked (t : Tree) : Dir → Bool
  | .config => allFunctions.any t.link
  | .function f => t.link f
  | _ => false

/-- Something was made by hand in the directory, or links to it. -/
def inUse (t : Tree) (d : Dir) : Bool :=
  allDirs.any (fun c => c.owner == some d && t.dir c) || t.linked d

/-- The tree without a directory, its attributes and its minor. -/
def drop (t : Tree) (d : Dir) : Tree :=
  { t with
    dir := Function.update t.dir d false
    attr := fun a => if a.dir = d then none else t.attr a
    minor := fun f => if d = .function f then none else t.minor f }

def remove (t : Tree) (d : Dir) : Option Tree :=
  if t.dir d && !t.inUse d then some (t.drop d) else none

/-- An attribute of a function that the configuration has cannot be written. -/
def fixed (t : Tree) (a : Attr) : Bool :=
  match a.dir with
  | .function f => t.link f
  | _ => false

theorem linked_of_link {t : Tree} {f : Function} (h : t.link f = true) :
    t.linked .config = true ∧ t.linked (.function f) = true := by
  refine ⟨?_, h⟩
  exact List.any_eq_true.mpr ⟨f, mem_allFunctions f, h⟩

end Tree

inductive Command where
  | mkdir (d : Dir)
  | mkdirP (d : Dir)
  | write (a : Attr) (v : Value)
  | link (f : Function)
  | bind (u : String)
  | unbindIf
  | unlinkIf (f : Function)
  | rmdirIf (d : Dir)
  | rmdir (d : Dir)
  deriving DecidableEq

/-- What a command does to the tree where it can be done, and `none` where it
cannot.  A function is not taken from a gadget that is bound. -/
def command : Command → Tree → Option Tree
  | .mkdir d, t => if t.dir d then none else t.make d
  | .mkdirP d, t => if t.dir d then some t else t.make d
  | .write a v, t =>
      if t.dir a.dir then some { t with attr := Function.update t.attr a (some v) } else none
  | .link f, t =>
      if t.dir .config && t.dir (.function f) && !t.link f then
        some { t with link := Function.update t.link f true }
      else none
  | .bind u, t =>
      if t.udc.isNone && allFunctions.any t.link then some { t with udc := some u } else none
  | .unbindIf, t => some { t with udc := none }
  | .unlinkIf f, t =>
      if t.link f then
        if t.udc.isNone then some { t with link := Function.update t.link f false } else none
      else some t
  | .rmdirIf d, t => if t.dir d then t.remove d else some t
  | .rmdir d, t => t.remove d

/-! ## The kernel -/

/-- What is left of the tree by a command, `none` if it fails. -/
structure Kernel where
  run : Command → Tree → Option Tree

/-- A command that succeeds has done what it says. -/
structure Kernel.Safe (k : Kernel) : Prop where
  mkdir : ∀ {d t t'}, k.run (.mkdir d) t = some t' → t.dir d = false ∧ t.make d = some t'
  mkdirP : ∀ {d t t'}, k.run (.mkdirP d) t = some t' →
    t.dir d = true ∧ t' = t ∨ t.dir d = false ∧ t.make d = some t'
  write : ∀ {a v t t'}, k.run (.write a v) t = some t' →
    t.dir a.dir = true ∧ t' = { t with attr := Function.update t.attr a (some v) }
  link : ∀ {f t t'}, k.run (.link f) t = some t' →
    (t.dir .config = true ∧ t.dir (.function f) = true ∧ t.link f = false) ∧
      t' = { t with link := Function.update t.link f true }
  bind : ∀ {u t t'}, k.run (.bind u) t = some t' →
    (t.udc = none ∧ ∃ f, t.link f = true) ∧ t' = { t with udc := some u }
  unbindIf : ∀ {t t'}, k.run .unbindIf t = some t' → t' = { t with udc := none }
  unlinkIf : ∀ {f t t'}, t.udc = none → k.run (.unlinkIf f) t = some t' →
    t' = { t with link := Function.update t.link f false }
  rmdirIf : ∀ {d t t'}, k.run (.rmdirIf d) t = some t' →
    t.dir d = false ∧ t' = t ∨ t.remove d = some t'
  rmdir : ∀ {d t t'}, k.run (.rmdir d) t = some t' → t.remove d = some t'

/-- What can be done is done. -/
structure Kernel.Willing (k : Kernel) (u : String) : Prop where
  mkdir : ∀ {d t}, t.dir d = false → (t.make d).isSome = true → (k.run (.mkdir d) t).isSome = true
  mkdirP : ∀ {d t}, t.dir d = true ∨ (t.make d).isSome = true →
    (k.run (.mkdirP d) t).isSome = true
  write : ∀ {a v t}, t.dir a.dir = true → t.fixed a = false →
    (k.run (.write a v) t).isSome = true
  link : ∀ {f t}, t.udc = none → t.dir .config = true → t.dir (.function f) = true →
    t.link f = false → (k.run (.link f) t).isSome = true
  bind : ∀ {t}, t.udc = none → (∀ f, t.link f = true) → (k.run (.bind u) t).isSome = true
  unbindIf : ∀ {t}, (k.run .unbindIf t).isSome = true
  unlinkIf : ∀ {f t}, t.udc = none → (k.run (.unlinkIf f) t).isSome = true
  rmdirIf : ∀ {d t}, t.dir d = false ∨ (t.remove d).isSome = true →
    (k.run (.rmdirIf d) t).isSome = true
  rmdir : ∀ {d t}, (t.remove d).isSome = true → (k.run (.rmdir d) t).isSome = true

/-- The command takes a function from its configuration. -/
def Command.unlinks : Command → Bool
  | .unlinkIf _ => true
  | _ => false

/-- Where a kernel does a command, it does that. -/
theorem Kernel.Safe.command {k : Kernel} (h : k.Safe) {c : Command} {t t' : Tree}
    (hrun : k.run c t = some t') (hudc : c.unlinks = true → t.udc = none) :
    command c t = some t' := by
  cases c with
  | mkdir d =>
      obtain ⟨hdir, hmake⟩ := h.mkdir hrun
      rw [Gadget.command, hdir]
      exact hmake
  | mkdirP d =>
      rw [Gadget.command]
      rcases h.mkdirP hrun with ⟨hdir, rfl⟩ | ⟨hdir, hmake⟩
      · rw [if_pos hdir]
      · rw [hdir]
        exact hmake
  | write a v =>
      obtain ⟨hdir, rfl⟩ := h.write hrun
      rw [Gadget.command, if_pos hdir]
  | link f =>
      obtain ⟨⟨hconfig, hfunction, hlink⟩, rfl⟩ := h.link hrun
      rw [Gadget.command, hconfig, hfunction, hlink]
      rfl
  | bind u =>
      obtain ⟨⟨hnone, f, hf⟩, rfl⟩ := h.bind hrun
      rw [Gadget.command, hnone, List.any_eq_true.mpr ⟨f, mem_allFunctions f, hf⟩]
      rfl
  | unbindIf =>
      rw [h.unbindIf hrun]
      rfl
  | unlinkIf f =>
      have hnone := hudc rfl
      rw [h.unlinkIf hnone hrun, Gadget.command, hnone]
      cases hf : t.link f with
      | true => rfl
      | false => rw [← hf, Function.update_eq_self, hf, ← hnone]; rfl
  | rmdirIf d =>
      rw [Gadget.command]
      rcases h.rmdirIf hrun with ⟨hdir, rfl⟩ | hremove
      · rw [hdir]
        rfl
      · split
        · exact hremove
        next hdir =>
          rw [Tree.remove, Bool.eq_false_iff.mpr hdir] at hremove
          cases hremove
  | rmdir d => exact h.rmdir hrun

/-- What is needed beyond `command` for a kernel not to refuse. -/
def Command.Allowed (u : String) (t : Tree) : Command → Prop
  | .write a _ => t.fixed a = false
  | .link _ | .unlinkIf _ => t.udc = none
  | .bind v => v = u ∧ ∀ f, t.link f = true
  | _ => True

/-- A kernel that refuses nothing that can be done does it. -/
theorem Kernel.Safe.run {k : Kernel} (h : k.Safe) {u : String} (hw : k.Willing u) {c : Command}
    {t t' : Tree} (hc : Gadget.command c t = some t') (hallowed : c.Allowed u t) :
    k.run c t = some t' := by
  have hsome : (k.run c t).isSome = true := by
    cases c with
    | mkdir d =>
        rw [Gadget.command] at hc
        split at hc
        · cases hc
        next hdir => exact hw.mkdir (Bool.eq_false_iff.mpr hdir) (by rw [hc]; rfl)
    | mkdirP d =>
        rw [Gadget.command] at hc
        split at hc
        next hdir => exact hw.mkdirP (.inl hdir)
        next => exact hw.mkdirP (.inr (by rw [hc]; rfl))
    | write a v =>
        rw [Gadget.command] at hc
        split at hc
        next hdir => exact hw.write hdir hallowed
        next => cases hc
    | link f =>
        rw [Gadget.command] at hc
        split at hc
        next hdirs =>
          rw [Bool.and_eq_true, Bool.and_eq_true, Bool.not_eq_true'] at hdirs
          exact hw.link hallowed hdirs.1.1 hdirs.1.2 hdirs.2
        next => cases hc
    | bind v =>
        obtain ⟨rfl, hlinks⟩ := hallowed
        rw [Gadget.command] at hc
        split at hc
        next hnone =>
          rw [Bool.and_eq_true, Option.isNone_iff_eq_none] at hnone
          exact hw.bind hnone.1 hlinks
        next => cases hc
    | unbindIf => exact hw.unbindIf
    | unlinkIf f => exact hw.unlinkIf hallowed
    | rmdirIf d =>
        rw [Gadget.command] at hc
        split at hc
        next => exact hw.rmdirIf (.inr (by rw [hc]; rfl))
        next hdir => exact hw.rmdirIf (.inl (Bool.eq_false_iff.mpr hdir))
    | rmdir d => exact hw.rmdir (by rw [show t.remove d = some t' from hc]; rfl)
  obtain ⟨t₁, ht₁⟩ := Option.isSome_iff_exists.mp hsome
  have hudc : c.unlinks = true → t.udc = none := by
    intro hunlinks
    cases c with
    | unlinkIf f => exact hallowed
    | _ => cases hunlinks
  have := h.command ht₁ hudc
  rw [hc] at this
  rw [ht₁, this]

/-- A kernel that unbinds a gadget when a function is taken from it, and refuses
to write an attribute of a function that is linked. -/
def linux : Kernel where
  run
    | .write a v, t => if t.fixed a then none else command (.write a v) t
    | .unlinkIf f, t =>
        if t.link f then some { t with link := Function.update t.link f false, udc := none }
        else some t
    | c, t => command c t

/-- Nothing stands without what it stands on. -/
structure Tree.WellFormed (t : Tree) : Prop where
  owned : ∀ d, t.dir d = true → t.owned d = true
  attr : ∀ a, t.attr a ≠ none → t.dir a.dir = true
  link : ∀ f, t.link f = true → t.dir .config = true ∧ t.dir (.function f) = true
  minor : ∀ f, (t.minor f).isSome = t.dir (.function f)
  udc : t.udc.isSome = true → ∃ f, t.link f = true

namespace Tree.WellFormed
variable {t t' : Tree}

theorem empty : Tree.empty.WellFormed where
  owned _ h := by cases h
  attr _ h := absurd rfl h
  link _ h := by cases h
  minor _ := rfl
  udc h := by cases h

theorem minorsWith (h : t.WellFormed) {d : Dir} {minor : Function → Option Nat}
    (hminor : t.minorsWith d = some minor) (g : Function) :
    (minor g).isSome = Function.update t.dir d true (.function g) := by
  have hother : d ≠ .function g → Function.update t.dir d true (.function g) = t.dir (.function g) :=
    fun hd => Function.update_of_ne (Ne.symm hd) ..
  cases d with
  | function f =>
      obtain ⟨n, -, rfl⟩ := Option.map_eq_some_iff.mp hminor
      by_cases hgf : g = f
      · simp [hgf]
      · rw [hother (by simpa using Ne.symm hgf), Function.update_of_ne hgf]
        exact h.minor g
  | _ =>
      cases hminor
      rw [hother (by simp)]
      exact h.minor g

theorem make (h : t.WellFormed) {d : Dir} (hmake : t.make d = some t') :
    t'.WellFormed := by
  have hkeep : ∀ c, t.dir c = true → Function.update t.dir d true c = true := by
    intro c hc
    rw [Function.update_apply]
    split
    · rfl
    · exact hc
  have howned : ∀ c, t.owned c = true → ∀ t₁ : Tree, t₁.dir = Function.update t.dir d true →
      t₁.owned c = true := by
    intro c hc t₁ ht₁
    rw [Tree.owned] at hc ⊢
    split
    · rfl
    · rename_i o ho
      rw [ho] at hc
      rw [ht₁]
      exact hkeep o hc
  rw [Tree.make] at hmake
  split at hmake
  · rename_i hown
    obtain ⟨minor, hminor, rfl⟩ := Option.map_eq_some_iff.mp hmake
    refine ⟨?_, fun a ha => hkeep _ (h.attr a ha),
      fun g hg => ⟨hkeep _ (h.link g hg).1, hkeep _ (h.link g hg).2⟩,
      h.minorsWith hminor, h.udc⟩
    intro c hc
    refine howned c ?_ _ rfl
    by_cases hcd : c = d
    · rw [hcd]
      exact hown
    · exact h.owned c (by simpa [Function.update_apply, hcd] using hc)
  · cases hmake

theorem remove (h : t.WellFormed) {d : Dir} (hrem : t.remove d = some t') : t'.WellFormed := by
  rw [Tree.remove] at hrem
  split at hrem
  · rename_i hfree
    obtain rfl := Option.some.inj hrem
    rw [Bool.and_eq_true, Bool.not_eq_true', Tree.inUse, Bool.or_eq_false_iff] at hfree
    obtain ⟨-, hchild, huse⟩ := hfree
    have hfunction : ∀ g, t.link g = true → Dir.config ≠ d ∧ Dir.function g ≠ d := by
      intro g hg
      obtain ⟨hconfig, hfun⟩ := Tree.linked_of_link hg
      constructor
      · rintro rfl
        rw [huse] at hconfig
        cases hconfig
      · rintro rfl
        rw [huse] at hfun
        cases hfun
    have hstay : ∀ c, c ≠ d → (t.drop d).dir c = t.dir c := by
      intro c hc
      simp [Tree.drop, hc]
    refine ⟨?_, ?_, ?_, ?_, h.udc⟩
    · intro c hc
      have hcd : c ≠ d := by
        rintro rfl
        simp [Tree.drop] at hc
      rw [hstay c hcd] at hc
      have howned := h.owned c hc
      rw [Tree.owned] at howned ⊢
      split
      · rfl
      · rename_i o ho
        rw [ho] at howned
        have hod : o ≠ d := by
          rintro rfl
          have := List.any_eq_false.mp hchild c (mem_allDirs c)
          rw [ho, hc] at this
          exact this (by simp)
        exact (hstay o hod).trans howned
    · intro a ha
      simp only [Tree.drop] at ha
      split at ha
      · exact absurd rfl ha
      · rename_i had
        exact (hstay _ had).trans (h.attr a ha)
    · intro g hg
      obtain ⟨hc, hf⟩ := hfunction g hg
      exact ⟨(hstay _ hc).trans (h.link g hg).1, (hstay _ hf).trans (h.link g hg).2⟩
    · intro g
      by_cases hgd : Dir.function g = d
      · simp [Tree.drop, ← hgd]
      · simp only [Tree.drop, if_neg (Ne.symm hgd)]
        exact (h.minor g).trans (hstay _ hgd).symm
  · cases hrem

end Tree.WellFormed

/-- Every command keeps the tree well formed. -/
theorem wellFormed_command {c : Command} {t t' : Tree} (h : t.WellFormed)
    (hc : command c t = some t') : t'.WellFormed := by
  cases c with
  | mkdir d =>
      rw [command] at hc
      split at hc
      · cases hc
      · exact h.make hc
  | mkdirP d =>
      rw [command] at hc
      split at hc
      · cases hc
        exact h
      · exact h.make hc
  | write a v =>
      rw [command] at hc
      split at hc
      · rename_i hdir
        cases hc
        refine ⟨h.owned, ?_, h.link, h.minor, h.udc⟩
        intro b hb
        by_cases hba : b = a
        · rw [hba]
          exact hdir
        · exact h.attr b (by simpa [Function.update_apply, hba] using hb)
      · cases hc
  | link f =>
      rw [command] at hc
      split at hc
      · rename_i hdirs
        cases hc
        rw [Bool.and_eq_true, Bool.and_eq_true] at hdirs
        refine ⟨h.owned, h.attr, ?_, h.minor, fun hu => ?_⟩
        · intro g hg
          by_cases hgf : g = f
          · rw [hgf]
            exact hdirs.1
          · exact h.link g (by simpa [Function.update_apply, hgf] using hg)
        · exact ⟨f, Function.update_self ..⟩
      · cases hc
  | bind u =>
      rw [command] at hc
      split at hc
      · rename_i hany
        cases hc
        rw [Bool.and_eq_true] at hany
        obtain ⟨f, -, hf⟩ := List.any_eq_true.mp hany.2
        exact ⟨h.owned, h.attr, h.link, h.minor, fun _ => ⟨f, hf⟩⟩
      · cases hc
  | unbindIf =>
      cases hc
      exact ⟨h.owned, h.attr, h.link, h.minor, fun hu => by cases hu⟩
  | unlinkIf f =>
      rw [command] at hc
      split at hc
      · split at hc
        next hnone =>
          cases hc
          refine ⟨h.owned, h.attr, ?_, h.minor, fun hu => ?_⟩
          · intro g hg
            by_cases hgf : g = f
            · simp [hgf] at hg
            · exact h.link g (by simpa [Function.update_apply, hgf] using hg)
          · rw [Option.isNone_iff_eq_none.mp hnone] at hu
            cases hu
        next => cases hc
      · cases hc
        exact h
  | rmdirIf d =>
      rw [command] at hc
      split at hc
      · exact h.remove hc
      · cases hc
        exact h
  | rmdir d => exact h.remove hc

end Beaglewing.Gadget
