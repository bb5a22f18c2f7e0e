/-
# `Input.Geometry` — the two screens and the cursor

`geometry.rs`: two adjacent screens, of which one is local; a cursor in the
pixel space of the screen it is on; the edge the screens share.  Motion
moves the cursor inside its screen (`Space.applyDelta`) or across the edge,
and activations and emergencies put it on a given side
(`Space.enterRemote`, `Space.forceLocal`).

The coordinates are of a type with the operations of `f64` and no laws, so
that nothing proved here depends on how they round.  `f64::clamp` panics
when its bounds are not ordered, and the operations that clamp are `none`
there.
-/
import Mathlib

namespace Beaglewing.Input

/-- What the program uses of `f64`. -/
class F64 (F : Type) extends Add F, Sub F, Mul F, Div F where
  /-- The value of a literal, or of an integer cast to `f64`. -/
  ofInt : Int → F
  eq : F → F → Bool
  lt : F → F → Bool
  le : F → F → Bool
  /-- `.round() as u16`. -/
  roundU16 : F → UInt16
  /-- `.trunc() as i32`. -/
  truncI32 : F → Int32

/-- Exact arithmetic.  Halves are rounded away from zero, and a cast takes
what is out of range to the nearest end of it. -/
instance : F64 ℚ where
  ofInt n := n
  eq a b := a = b
  lt a b := a < b
  le a b := a ≤ b
  roundU16 a := UInt16.ofNat (min 65535 ⌊a + 1 / 2⌋.toNat)
  truncI32 a := Int32.ofInt (max (-2147483648) (min 2147483647 (if a < 0 then ⌈a⌉ else ⌊a⌋)))

variable {F : Type} [F64 F]

/-- `f64::clamp`, which panics unless `lo ≤ hi`. -/
def clamp (a lo hi : F) : Option F :=
  if F64.le lo hi then
    let a := if F64.lt a lo then lo else a
    some (if F64.lt hi a then hi else a)
  else none

def canonicalMax : F := F64.ofInt 65535

structure Screen (F : Type) where
  width : F
  height : F

inductive Target where
  | «local»
  | remote
  deriving DecidableEq

/-- Which local edge borders the remote screen. -/
inductive Edge where
  | right
  | left
  deriving DecidableEq

inductive Crossing where
  | none
  | toRemote
  | toLocal
  deriving DecidableEq

structure Space (F : Type) where
  «local» : Screen F
  remote : Screen F
  edge : Edge
  target : Target
  /-- The cursor, in the pixel space of the current target. -/
  x : F
  y : F

namespace Space

def new (here there : Screen F) (edge : Edge) : Space F where
  «local» := here
  remote := there
  edge := edge
  target := .local
  x := here.width / F64.ofInt 2
  y := here.height / F64.ofInt 2

def curScreen (s : Space F) : Screen F :=
  match s.target with
  | .local => s.local
  | .remote => s.remote

/-- Normalized vertical mapping between screens of different heights. -/
def mapY (src dst : Screen F) (y : F) : Option F :=
  clamp (y / src.height * dst.height) (F64.ofInt 0) (dst.height - F64.ofInt 1)

/-- Which boundary a cursor at `nx` has crossed. -/
def crossing (s : Space F) (nx : F) : Crossing :=
  match s.target, s.edge with
  | .local, .right =>
      if F64.lt (s.curScreen.width - F64.ofInt 1) nx then .toRemote else .none
  | .local, .left => if F64.lt nx (F64.ofInt 0) then .toRemote else .none
  | .remote, .right => if F64.lt nx (F64.ofInt 0) then .toLocal else .none
  | .remote, .left =>
      if F64.lt (s.curScreen.width - F64.ofInt 1) nx then .toLocal else .none

/-- On the remote screen, at the shared edge. -/
def seatRemote (s : Space F) (y : F) : Space F :=
  { s with
    y := y
    x := match s.edge with
      | .right => F64.ofInt 0
      | .left => s.remote.width - F64.ofInt 1
    target := .remote }

/-- On the local screen, at the shared edge. -/
def seatLocal (s : Space F) (y : F) : Space F :=
  { s with
    y := y
    x := match s.edge with
      | .right => s.local.width - F64.ofInt 1
      | .left => F64.ofInt 0
    target := .local }

/-- A relative motion, and which boundary it crosses. -/
def applyDelta (s : Space F) (dx dy : F) : Option (Space F × Crossing) := do
  let cur := s.curScreen
  let nx := s.x + dx
  let y ← clamp (s.y + dy) (F64.ofInt 0) (cur.height - F64.ofInt 1)
  match s.crossing nx with
  | .none =>
      let x ← clamp nx (F64.ofInt 0) (cur.width - F64.ofInt 1)
      return ({ s with x := x, y := y }, .none)
  | .toRemote =>
      let y ← mapY s.local s.remote y
      return (s.seatRemote y, .toRemote)
  | .toLocal =>
      let y ← mapY s.remote s.local y
      return (s.seatLocal y, .toLocal)

/-- The remote position in canonical coordinates, 0 to 65535. -/
def canonical (s : Space F) : Option (UInt16 × UInt16) := do
  let cx ← clamp (s.x / (s.remote.width - F64.ofInt 1) * canonicalMax) (F64.ofInt 0) canonicalMax
  let cy ← clamp (s.y / (s.remote.height - F64.ofInt 1) * canonicalMax) (F64.ofInt 0) canonicalMax
  return (F64.roundU16 cx, F64.roundU16 cy)

/-- Enter the remote screen through the shared edge at a local height. -/
def enterRemote (s : Space F) (localY : F) : Option (Space F) := do
  let y ← clamp localY (F64.ofInt 0) (s.local.height - F64.ofInt 1)
  let y ← mapY s.local s.remote y
  return s.seatRemote y

/-- Force the cursor back to the local screen. -/
def forceLocal (s : Space F) : Option (Space F) :=
  if s.target = .remote then do
    let y ← mapY s.remote s.local s.y
    return s.seatLocal y
  else some s

/-! ## The side each operation leaves the cursor on -/

/-- A motion stays on its side exactly when it crosses nothing. -/
theorem target_applyDelta {s s' : Space F} {dx dy : F} {c : Crossing}
    (h : s.applyDelta dx dy = some (s', c)) :
    s'.target = match c with
      | .none => s.target
      | .toRemote => .remote
      | .toLocal => .local := by
  simp only [applyDelta, Option.bind_eq_bind, Option.bind_eq_some_iff] at h
  obtain ⟨y, -, h⟩ := h
  cases hc : s.crossing (s.x + dx) with
  | none =>
      rw [hc] at h
      obtain ⟨x, -, h⟩ := Option.bind_eq_some_iff.mp h
      cases h
      rfl
  | toRemote =>
      rw [hc] at h
      obtain ⟨y', -, h⟩ := Option.bind_eq_some_iff.mp h
      cases h
      rfl
  | toLocal =>
      rw [hc] at h
      obtain ⟨y', -, h⟩ := Option.bind_eq_some_iff.mp h
      cases h
      rfl

/-- Only a crossing to the local side leaves the remote one. -/
theorem remote_of_applyDelta {s s' : Space F} {dx dy : F} {c : Crossing}
    (h : s.applyDelta dx dy = some (s', c)) (hc : c ≠ .toLocal) (hremote : s.target = .remote) :
    s'.target = .remote := by
  have ht := target_applyDelta h
  cases c with
  | none => exact ht.trans hremote
  | toRemote => exact ht
  | toLocal => exact absurd rfl hc

theorem target_enterRemote {s s' : Space F} {y : F} (h : s.enterRemote y = some s') :
    s'.target = .remote := by
  simp only [enterRemote, Option.bind_eq_bind, Option.bind_eq_some_iff] at h
  obtain ⟨y₁, -, y₂, -, h⟩ := h
  cases h
  rfl

theorem target_forceLocal {s s' : Space F} (h : s.forceLocal = some s') : s'.target = .local := by
  by_cases ht : s.target = .remote
  · rw [forceLocal, if_pos ht] at h
    obtain ⟨y, -, h⟩ := Option.bind_eq_some_iff.mp h
    cases h
    rfl
  · rw [forceLocal, if_neg ht] at h
    cases h
    cases hs : s.target with
    | «local» => rfl
    | remote => exact absurd hs ht

end Space
end Beaglewing.Input
