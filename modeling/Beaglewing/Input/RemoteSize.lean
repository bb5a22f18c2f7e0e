/-
# `Input.RemoteSize` — the screen sizes that the geometry can take

`cmd_run` takes any two numbers for `--remote-size` and hands them to the
router, which computes with them while it holds the input of the user.  The
loop calls the geometry at the places listed by `Loop.calls`; each call divides and
clamps (`GeometryCall.uses`), and panics exactly if a clamp has its bounds in the wrong
order (`returns_eq`, `step_ne_panicked`).

    width, height > 1    no call divides by zero or panics, in any run
    height < 1           the first activation panics in `map_y`
    height = 1           it divides by zero in `canonical`
    width = 1            it divides by zero in `canonical`
    width < 1            the first motion that stays panics in `apply_delta`

Nothing tells the last four from the first (`geometry_safe_iff`).
-/
import Beaglewing.Input.Seat

namespace Beaglewing.Input

open Base

/-! ## What a call of the geometry computes -/

/-- A division, or the bounds of a clamp. -/
inductive Use (F : Type) where
  | divide (divisor : F)
  | clamp (lo hi : F)

/-- A call of the geometry by the loop. -/
inductive GeometryCall (F : Type) where
  | applyDelta (dx dy : F)
  | canonical
  | enterRemote (localY : F)
  | forceLocal

section Calls
variable {F : Type} [F64 F]

/-- Those of `map_y`. -/
def mapYUses (src dst : Screen F) : List (Use F) :=
  [.divide src.height, .clamp (F64.ofInt 0) (dst.height - F64.ofInt 1)]

/-- Those of a call on this space, in their order. -/
def GeometryCall.uses (s : Space F) : GeometryCall F → List (Use F)
  | .applyDelta dx _ =>
      .clamp (F64.ofInt 0) (s.curScreen.height - F64.ofInt 1) ::
        match s.crossing (s.x + dx) with
        | .none => [.clamp (F64.ofInt 0) (s.curScreen.width - F64.ofInt 1)]
        | .toRemote => mapYUses s.local s.remote
        | .toLocal => mapYUses s.remote s.local
  | .canonical =>
      [.divide (s.remote.width - F64.ofInt 1), .clamp (F64.ofInt 0) canonicalMax,
        .divide (s.remote.height - F64.ofInt 1), .clamp (F64.ofInt 0) canonicalMax]
  | .enterRemote _ =>
      .clamp (F64.ofInt 0) (s.local.height - F64.ofInt 1) :: mapYUses s.local s.remote
  | .forceLocal => if s.target = .remote then mapYUses s.remote s.local else []

/-- Whether the call returns, rather than panics. -/
def GeometryCall.returns (s : Space F) : GeometryCall F → Bool
  | .applyDelta dx dy => (s.applyDelta dx dy).isSome
  | .canonical => s.canonical.isSome
  | .enterRemote localY => (s.enterRemote localY).isSome
  | .forceLocal => s.forceLocal.isSome

theorem isSome_clamp (a lo hi : F) : (clamp a lo hi).isSome = F64.le lo hi := by
  rw [clamp]
  split
  · next h => rw [h]; rfl
  · next h => rw [Bool.eq_false_of_not_eq_true h]; rfl

/-- A computation of which the rest returns or panics whatever it is given. -/
theorem isSome_bind {α β : Type} (o : Option α) {k : α → Option β} {ok : Bool}
    (h : ∀ a, (k a).isSome = ok) : (o.bind k).isSome = (o.isSome && ok) := by
  cases o with
  | none => rfl
  | some a => exact h a

theorem isSome_bind_some {α β : Type} (o : Option α) {k : α → Option β}
    (h : ∀ a, (k a).isSome = true) : (o.bind k).isSome = o.isSome := by
  rw [isSome_bind o h, Bool.and_true]

/-- The bounds of the clamps are in order. -/
def inOrder : List (Use F) → Bool
  | [] => true
  | .divide _ :: uses => inOrder uses
  | .clamp lo hi :: uses => F64.le lo hi && inOrder uses

theorem isSome_mapY (src dst : Screen F) (y : F) :
    (Space.mapY src dst y).isSome = inOrder (mapYUses src dst) := by
  rw [Space.mapY, isSome_clamp, mapYUses, inOrder, inOrder, inOrder, Bool.and_true]

/-- A call panics in a clamp, and nowhere else. -/
theorem returns_eq (s : Space F) (c : GeometryCall F) : c.returns s = inOrder (c.uses s) := by
  cases c with
  | applyDelta dx dy =>
      rw [GeometryCall.returns, Space.applyDelta, GeometryCall.uses, inOrder, ← isSome_clamp (s.y + dy)]
      refine isSome_bind _ ?_
      intro y
      cases s.crossing (s.x + dx) with
      | none =>
          refine (isSome_bind_some _ fun _ => rfl).trans ?_
          rw [isSome_clamp, inOrder, inOrder, Bool.and_true]
      | toRemote => exact (isSome_bind_some _ fun _ => rfl).trans (isSome_mapY _ _ _)
      | toLocal => exact (isSome_bind_some _ fun _ => rfl).trans (isSome_mapY _ _ _)
  | canonical =>
      rw [GeometryCall.returns, Space.canonical, GeometryCall.uses]
      refine (isSome_bind _ fun _ => (isSome_bind_some _ fun _ => rfl).trans (isSome_clamp _ _ _)).trans ?_
      rw [isSome_clamp]
      simp only [inOrder, Bool.and_true]
  | enterRemote localY =>
      rw [GeometryCall.returns, Space.enterRemote, GeometryCall.uses, inOrder, ← isSome_clamp localY]
      exact isSome_bind _ fun y =>
        (isSome_bind_some _ fun _ => rfl).trans (isSome_mapY _ _ _)
  | forceLocal =>
      rw [GeometryCall.returns, Space.forceLocal, GeometryCall.uses]
      split
      · exact (isSome_bind_some _ fun _ => rfl).trans (isSome_mapY _ _ _)
      · rfl

/-! ## The calls of a half iteration -/

/-- Calls that the loop makes one after the other, each on the space it finds. -/
abbrev Calls (F : Type) : Type := List (Space F × GeometryCall F)

/-- All of them return. -/
def AllReturn (cs : Calls F) : Prop := ∀ x ∈ cs, x.2.returns x.1 = true

theorem allReturn_nil : AllReturn ([] : Calls F) := nofun

theorem allReturn_cons {s : Space F} {c : GeometryCall F} {cs : Calls F} :
    AllReturn ((s, c) :: cs) ↔ c.returns s = true ∧ AllReturn cs := List.forall_mem_cons

theorem allReturn_append {cs ds : Calls F} : AllReturn (cs ++ ds) ↔ AllReturn cs ∧ AllReturn ds :=
  List.forall_mem_append

namespace Router
variable (zone : Zone)

def goLocalCalls (r : Router F) : Calls F := [(r.space, .forceLocal)]

def goLocalIfActiveCalls (r : Router F) : Calls F :=
  if r.activeId.isSome then r.goLocalCalls else []

def keepaliveCalls (due : Bool) (r : Router F) : Calls F :=
  match r.bridge with
  | none => []
  | some b => if due && !b.keepalive.2 then r.goLocalIfActiveCalls else []

def failsafeCalls (silent : Bool) (r : Router F) : Calls F :=
  if r.activeId.isSome && !r.eventsThisActivation && silent then r.goLocalCalls else []

def topCalls (t : Top) (r : Router F) : Calls F :=
  if t.shutdown then r.goLocalCalls
  else
    r.keepaliveCalls t.keepaliveDue ++
      match r.keepalive zone t.keepaliveDue with
      | none => []
      | some r => (r.reconnect t.reconnectDue t.dial).failsafeCalls t.silent

def onPortalCalls (r : Router F) : PortalEvent F → Calls F
  | .activated _ _ cursorY =>
      match r.bridge with
      | none => r.goLocalCalls
      | some _ =>
          let localY := cursorY - F64.ofInt zone.y.toInt
          (r.space, .enterRemote localY) ::
            match r.space.enterRemote localY with
            | none => []
            | some space => [(space, .canonical)]
  | .deactivated => r.goLocalIfActiveCalls
  | .disabled => r.goLocalIfActiveCalls
  | .zonesChanged => r.goLocalCalls

def onKeyCalls (r : Router F) (code : UInt32) (pressed : Bool) : Calls F :=
  match keycodeToUsage code.toUInt16 with
  | none => []
  | some usage => if (r.emergency.update usage pressed).2 then r.goLocalCalls else []

def onFrameCalls (r : Router F) : Calls F :=
  if F64.eq r.accDx (F64.ofInt 0) && F64.eq r.accDy (F64.ofInt 0) then []
  else
    (r.space, .applyDelta r.accDx r.accDy) ::
      match r.space.applyDelta r.accDx r.accDy with
      | none => []
      | some (space, crossing) =>
          if crossing = .toLocal then [(space, .forceLocal)]
          else if space.target = .remote then [(space, .canonical)]
          else []

def onCaptureCalls (r : Router F) (e : CaptureEvent F) : Calls F :=
  if r.activeId.isNone then []
  else
    match e with
    | .key code pressed _ => r.onKeyCalls code pressed
    | .frame => r.onFrameCalls
    | .disconnected => r.goLocalCalls
    | .button _ _ => []
    | .motion _ _ => []
    | .scrollDiscrete _ _ => []
    | .scrollDelta _ _ => []

def receiveCalls (r : Router F) : Recv F → Calls F
  | .timeout => []
  | .disconnected => []
  | .event (.portal e) _ => r.onPortalCalls zone e
  | .event (.capture e) _ => r.onCaptureCalls e
  | .event (.screenSaver locked) _ => if locked then r.goLocalIfActiveCalls else []

end Router

/-- The calls that a step of the loop makes. -/
def Loop.calls (zone : Zone) : Loop F → Half F → Calls F
  | .head r, .top t => r.topCalls zone t
  | .waiting r, .receive e => r.receiveCalls zone e
  | _, _ => []

/-- The program goes on, or has returned. -/
def Loop.alive {F : Type} : Loop F → Bool
  | .panicked => false
  | _ => true

theorem Loop.alive_iff {F : Type} {l : Loop F} : l.alive = true ↔ l ≠ .panicked := by
  cases l <;> simp [Loop.alive]

theorem alive_orPanic {F α : Type} (o : Option α) (k : α → Loop F) :
    (Loop.orPanic o k).alive = true ↔ ∃ a, o = some a ∧ (k a).alive = true := by
  cases o with
  | none => simp [Loop.orPanic, Loop.alive]
  | some a => simp [Loop.orPanic]

/-- Where the rest does not panic. -/
theorem alive_orPanic_of {F α : Type} {o : Option α} {k : α → Loop F}
    (h : ∀ a, (k a).alive = true) : (Loop.orPanic o k).alive = true ↔ o.isSome = true := by
  rw [alive_orPanic, Option.isSome_iff_exists]
  exact exists_congr fun a => and_iff_left (h a)

namespace Router
variable (zone : Zone) (r : Router F)

theorem isSome_goLocal : (r.goLocal zone).isSome = true ↔ AllReturn r.goLocalCalls := by
  have hbind : (r.goLocal zone).isSome = r.space.forceLocal.isSome :=
    isSome_bind_some _ fun _ => rfl
  rw [hbind, goLocalCalls, allReturn_cons]
  exact (and_iff_left allReturn_nil).symm

theorem isSome_goLocalIfActive :
    (r.goLocalIfActive zone).isSome = true ↔ AllReturn r.goLocalIfActiveCalls := by
  rw [goLocalIfActive, goLocalIfActiveCalls]
  split
  · exact isSome_goLocal zone r
  · exact iff_of_true rfl allReturn_nil

theorem isSome_keepalive (due : Bool) :
    (r.keepalive zone due).isSome = true ↔ AllReturn (r.keepaliveCalls due) := by
  rw [keepalive, keepaliveCalls]
  cases r.bridge with
  | none => exact iff_of_true rfl allReturn_nil
  | some b =>
      cases due with
      | false => exact iff_of_true rfl allReturn_nil
      | true =>
          simp only [if_true, Bool.true_and]
          cases b.keepalive.2 with
          | true => exact iff_of_true rfl allReturn_nil
          | false => exact isSome_goLocalIfActive zone { r with bridge := none, published := .noBridge }

theorem isSome_failsafe (silent : Bool) :
    (r.failsafe zone silent).isSome = true ↔ AllReturn (r.failsafeCalls silent) := by
  rw [failsafe, failsafeCalls]
  split
  · exact isSome_goLocal zone r
  · exact iff_of_true rfl allReturn_nil

theorem alive_top (t : Top) :
    (r.top zone t).alive = true ↔ AllReturn (r.topCalls zone t) := by
  rw [top, topCalls]
  split
  · exact (alive_orPanic_of fun _ => rfl).trans (isSome_goLocal zone r)
  · rw [alive_orPanic, allReturn_append, ← isSome_keepalive zone]
    cases r.keepalive zone t.keepaliveDue with
    | none => simp
    | some r₁ =>
        simp only [Option.some.injEq, exists_eq_left', Option.isSome_some, true_and]
        exact (alive_orPanic_of fun _ => rfl).trans (isSome_failsafe zone _ t.silent)

theorem alive_onPortal (portal : Portal) (e : PortalEvent F) :
    (r.onPortal zone portal e).alive = true ↔ AllReturn (r.onPortalCalls zone e) := by
  cases e with
  | activated id x cursorY =>
      rw [onPortal, onPortalCalls]
      cases hb : r.bridge with
      | none =>
          exact (alive_orPanic_of fun _ => rfl).trans (isSome_goLocal zone _)
      | some b =>
          refine (alive_orPanic_of fun _ => rfl).trans ?_
          rw [activate, allReturn_cons, GeometryCall.returns]
          cases r.space.enterRemote (cursorY - F64.ofInt zone.y.toInt) with
          | none => simp
          | some space =>
              refine (Bool.eq_iff_iff.mp (isSome_bind_some space.canonical fun _ => rfl)).trans ?_
              rw [allReturn_cons]
              simp [GeometryCall.returns, allReturn_nil]
  | deactivated =>
      exact (alive_orPanic_of fun _ => rfl).trans (isSome_goLocalIfActive zone r)
  | disabled =>
      refine (alive_orPanic_of fun _ => ?_).trans (isSome_goLocalIfActive zone r)
      cases portal.enable <;> rfl
  | zonesChanged =>
      exact (alive_orPanic_of fun _ => rfl).trans (isSome_goLocal zone r)

theorem alive_onKey (code : UInt32) (pressed : Bool) :
    (r.onKey zone code pressed).alive = true ↔ AllReturn (r.onKeyCalls code pressed) := by
  rw [onKey, onKeyCalls]
  cases keycodeToUsage code.toUInt16 with
  | none => exact iff_of_true rfl allReturn_nil
  | some usage =>
      simp only
      split
      · exact (alive_orPanic_of fun _ => rfl).trans (isSome_goLocal zone _)
      · exact iff_of_true rfl allReturn_nil

theorem alive_onButton {F : Type} (r : Router F) (code : UInt32) (pressed : Bool) :
    (r.onButton code pressed).alive = true := by
  unfold onButton
  cases buttonToBit code.toUInt16 with
  | none => rfl
  | some bit => cases r.bridge <;> rfl

theorem alive_onFrame : (r.onFrame zone).alive = true ↔ AllReturn r.onFrameCalls := by
  rw [onFrame, onFrameCalls]
  split
  · exact iff_of_true rfl allReturn_nil
  · rw [alive_orPanic, allReturn_cons, GeometryCall.returns]
    cases r.space.applyDelta r.accDx r.accDy with
    | none => simp
    | some x =>
        obtain ⟨space, crossing⟩ := x
        simp only [Option.some.injEq, exists_eq_left', Option.isSome_some, true_and]
        split
        · exact (alive_orPanic_of fun _ => rfl).trans (isSome_goLocal zone _)
        · split
          · refine (alive_orPanic_of fun _ => rfl).trans ?_
            rw [allReturn_cons]
            exact (and_iff_left allReturn_nil).symm
          · exact iff_of_true rfl allReturn_nil

theorem alive_onCapture (e : CaptureEvent F) :
    (r.onCapture zone e).alive = true ↔ AllReturn (r.onCaptureCalls e) := by
  rw [onCapture, onCaptureCalls.eq_def]
  split
  · exact iff_of_true rfl allReturn_nil
  · cases e with
    | key code pressed time => exact alive_onKey zone _ code pressed
    | button code pressed => exact iff_of_true (alive_onButton _ code pressed) allReturn_nil
    | motion dx dy => exact iff_of_true rfl allReturn_nil
    | scrollDiscrete x y => exact iff_of_true rfl allReturn_nil
    | scrollDelta dx dy => exact iff_of_true rfl allReturn_nil
    | frame => exact alive_onFrame zone _
    | disconnected =>
        exact (alive_orPanic_of fun _ => rfl).trans (isSome_goLocal zone _)

theorem alive_receive (e : Recv F) :
    (r.receive zone e).alive = true ↔ AllReturn (r.receiveCalls zone e) := by
  cases e with
  | timeout => exact iff_of_true rfl allReturn_nil
  | disconnected => exact iff_of_true rfl allReturn_nil
  | event e portal =>
      cases e with
      | portal e => exact alive_onPortal zone r portal e
      | capture e => exact alive_onCapture zone r e
      | screenSaver locked =>
          show (r.onScreenSaver zone portal locked).alive = true ↔ _
          rw [onScreenSaver, receiveCalls]
          cases locked with
          | true =>
              exact (alive_orPanic_of fun _ => rfl).trans (isSome_goLocalIfActive zone r)
          | false =>
              refine iff_of_true ?_ allReturn_nil
              cases portal.armBarriers with
              | error e => rfl
              | ok _ => cases portal.enable <;> rfl

end Router

/-- A step panics if, and only if, one of its calls does. -/
theorem step_ne_panicked {zone : Zone} {l l' : Loop F} {half : Half F}
    (h : (router zone).step l half = some l') :
    l' ≠ .panicked ↔ AllReturn (l.calls zone half) := by
  rw [← Loop.alive_iff]
  cases half with
  | top t =>
      obtain ⟨r, rfl, rfl⟩ := step_top h
      exact Router.alive_top zone r t
  | receive e =>
      obtain ⟨r, rfl, rfl⟩ := step_receive h
      exact Router.alive_receive zone r e

/-! ## The screens of the calls -/

/-- No call of a list is on other screens than `s`. -/
def OnLayout {F : Type} (s : Space F) (cs : Calls F) : Prop := ∀ x ∈ cs, Space.SameLayout s x.1

theorem onLayout_nil {F : Type} (s : Space F) : OnLayout s [] := nofun

theorem onLayout_cons {F : Type} {s s' : Space F} {c : GeometryCall F} {cs : Calls F} :
    OnLayout s ((s', c) :: cs) ↔ Space.SameLayout s s' ∧ OnLayout s cs := List.forall_mem_cons

theorem onLayout_append {F : Type} {s : Space F} {cs ds : Calls F} :
    OnLayout s (cs ++ ds) ↔ OnLayout s cs ∧ OnLayout s ds := List.forall_mem_append

theorem sameLayout_refl {F : Type} (s : Space F) : Space.SameLayout s s := ⟨rfl, rfl, rfl⟩

namespace Router
variable {zone : Zone} {r r' : Router F}

theorem sameLayout_goLocal (h : r.goLocal zone = some r') : Space.SameLayout r.space r'.space := by
  obtain ⟨space, hspace, h⟩ := Option.bind_eq_some_iff.mp h
  cases h
  exact Space.sameLayout_forceLocal hspace

theorem sameLayout_keepalive {due : Bool} (h : r.keepalive zone due = some r') :
    Space.SameLayout r.space r'.space := by
  rcases keepalive_cases h with rfl | ⟨b, -, rfl⟩ | ⟨-, rfl⟩ | hlocal
  · exact sameLayout_refl _
  · exact sameLayout_refl _
  · exact sameLayout_refl _
  · have hspace := sameLayout_goLocal hlocal
    exact hspace

theorem onLayout_goLocalCalls {F : Type} (r : Router F) : OnLayout r.space r.goLocalCalls :=
  onLayout_cons.mpr ⟨sameLayout_refl _, onLayout_nil _⟩

theorem onLayout_goLocalIfActiveCalls {F : Type} (r : Router F) :
    OnLayout r.space r.goLocalIfActiveCalls := by
  rw [goLocalIfActiveCalls]
  split
  · exact onLayout_goLocalCalls r
  · exact onLayout_nil _

theorem onLayout_topCalls (t : Top) (r : Router F) : OnLayout r.space (r.topCalls zone t) := by
  rw [topCalls]
  split
  · exact onLayout_goLocalCalls r
  · refine onLayout_append.mpr ⟨?_, ?_⟩
    · rw [keepaliveCalls]
      split
      · exact onLayout_nil _
      · split
        · exact onLayout_goLocalIfActiveCalls r
        · exact onLayout_nil _
    · split
      · exact onLayout_nil _
      · next r₁ hr₁ =>
          have hspace : (r₁.reconnect t.reconnectDue t.dial).space = r₁.space :=
            (reconnect_eq r₁ t.reconnectDue t.dial).2.1
          rw [failsafeCalls]
          split
          · refine onLayout_cons.mpr ⟨?_, onLayout_nil _⟩
            rw [hspace]
            exact sameLayout_keepalive hr₁
          · exact onLayout_nil _

theorem onLayout_onPortalCalls (e : PortalEvent F) (r : Router F) :
    OnLayout r.space (r.onPortalCalls zone e) := by
  cases e with
  | activated id x cursorY =>
      rw [onPortalCalls]
      split
      · exact onLayout_goLocalCalls r
      · refine onLayout_cons.mpr ⟨sameLayout_refl _, ?_⟩
        split
        · exact onLayout_nil _
        · next space hspace =>
            exact onLayout_cons.mpr ⟨Space.sameLayout_enterRemote hspace, onLayout_nil _⟩
  | deactivated => exact onLayout_goLocalIfActiveCalls r
  | disabled => exact onLayout_goLocalIfActiveCalls r
  | zonesChanged => exact onLayout_goLocalCalls r

theorem onLayout_onFrameCalls (r : Router F) : OnLayout r.space r.onFrameCalls := by
  rw [onFrameCalls]
  split
  · exact onLayout_nil _
  · refine onLayout_cons.mpr ⟨sameLayout_refl _, ?_⟩
    split
    · exact onLayout_nil _
    · next space crossing hspace =>
        have hlayout := Space.sameLayout_applyDelta hspace
        split
        · exact onLayout_cons.mpr ⟨hlayout, onLayout_nil _⟩
        · split
          · exact onLayout_cons.mpr ⟨hlayout, onLayout_nil _⟩
          · exact onLayout_nil _

theorem onLayout_onCaptureCalls (e : CaptureEvent F) (r : Router F) :
    OnLayout r.space (r.onCaptureCalls e) := by
  rw [onCaptureCalls.eq_def]
  split
  · exact onLayout_nil _
  · cases e with
    | key code pressed time =>
        simp only [onKeyCalls]
        split
        · exact onLayout_nil _
        · split
          · exact onLayout_goLocalCalls r
          · exact onLayout_nil _
    | frame => exact onLayout_onFrameCalls r
    | disconnected => exact onLayout_goLocalCalls r
    | _ => exact onLayout_nil _

theorem onLayout_receiveCalls (e : Recv F) (r : Router F) :
    OnLayout r.space (r.receiveCalls zone e) := by
  cases e with
  | timeout => exact onLayout_nil _
  | disconnected => exact onLayout_nil _
  | event e portal =>
      cases e with
      | portal e => exact onLayout_onPortalCalls e r
      | capture e => exact onLayout_onCaptureCalls e r
      | screenSaver locked =>
          rw [receiveCalls]
          split
          · exact onLayout_goLocalIfActiveCalls r
          · exact onLayout_nil _

end Router

theorem onLayout_calls {zone : Zone} {l : Loop F} {r : Router F} (hr : l.router = some r)
    (half : Half F) : OnLayout r.space (l.calls zone half) := by
  unfold Loop.calls
  split
  · cases hr
    exact Router.onLayout_topCalls _ _
  · cases hr
    exact Router.onLayout_receiveCalls _ _
  · exact onLayout_nil _

/-! ## The command line -/

structure Config (F : Type) where
  bridgeAddr : String
  remote : Screen F
  verbose : Bool

/-- `split_once`. -/
def splitOnce (c : Char) (t : List Char) : Option (List Char × List Char) :=
  if c ∈ t then some (t.takeWhile (· ≠ c), (t.dropWhile (· ≠ c)).drop 1) else none

/-- `WxH`, with `parse` for `f64::from_str`. -/
def remoteSize (parse : List Char → Option F) (v : List Char) : Option (Screen F) :=
  (splitOnce 'x' v).bind fun (w, h) =>
    (parse w).bind fun width => (parse h).map fun height => ⟨width, height⟩

/-- The loop of `cmd_run` over its arguments; `none` is `usage()`. -/
def cmdRunFrom (parse : List Char → Option F) (cfg : Config F) : List String → Option (Config F)
  | [] => some cfg
  | "--bridge" :: v :: rest => cmdRunFrom parse { cfg with bridgeAddr := v } rest
  | "--remote-size" :: v :: rest =>
      (remoteSize parse v.toList).bind fun remote => cmdRunFrom parse { cfg with remote } rest
  | "--verbose" :: rest => cmdRunFrom parse { cfg with verbose := true } rest
  | _ :: _ => none

/-- `cmd_run`, up to `router::run`. -/
def cmdRun (parse : List Char → Option F) (args : List String) : Option (Config F) :=
  cmdRunFrom parse ⟨"beaglewing:4870", ⟨F64.ofInt 1920, F64.ofInt 1080⟩, false⟩ args

end Calls

/-! ## In exact arithmetic -/

/-- Neither a division by zero nor a panic. -/
def Use.Safe : Use ℚ → Prop
  | .divide divisor => divisor ≠ 0
  | .clamp lo hi => lo ≤ hi

def AllSafe (uses : List (Use ℚ)) : Prop := ∀ use ∈ uses, use.Safe

theorem allSafe_nil : AllSafe [] := nofun

theorem allSafe_cons {use : Use ℚ} {uses : List (Use ℚ)} :
    AllSafe (use :: uses) ↔ use.Safe ∧ AllSafe uses := List.forall_mem_cons

theorem inOrder_of_safe {uses : List (Use ℚ)} (h : AllSafe uses) : inOrder uses = true := by
  induction uses with
  | nil => rfl
  | cons use uses ih =>
      obtain ⟨hsafe, hrest⟩ := allSafe_cons.mp h
      cases use with
      | divide divisor => exact ih hrest
      | clamp lo hi =>
          rw [inOrder, ih hrest, Bool.and_true]
          exact decide_eq_true hsafe

theorem returns_of_safe {s : Space ℚ} {c : GeometryCall ℚ} (h : AllSafe (c.uses s)) :
    c.returns s = true := (returns_eq s c).trans (inOrder_of_safe h)

/-- More than a pixel a side. -/
structure Wide (screen : Screen ℚ) : Prop where
  width : 1 < screen.width
  height : 1 < screen.height

theorem safe_pred {n : ℚ} (h : 1 < n) :
    (Use.divide n).Safe ∧ (Use.divide (n - F64.ofInt 1)).Safe ∧
      (Use.clamp (F64.ofInt 0) (n - F64.ofInt 1)).Safe := by
  have hone : (F64.ofInt 1 : ℚ) = 1 := by simp [F64.ofInt]
  refine ⟨?_, ?_, Space.zero_le_pred h.le⟩
  · exact (lt_trans one_pos h).ne'
  · rw [hone]
    exact (sub_pos.mpr h).ne'

theorem Wide.mapYUses {src dst : Screen ℚ} (hs : Wide src) (hd : Wide dst) :
    AllSafe (mapYUses src dst) :=
  allSafe_cons.mpr ⟨(safe_pred hs.height).1,
    allSafe_cons.mpr ⟨(safe_pred hd.height).2.2, allSafe_nil⟩⟩

theorem safe_canonicalMax : (Use.clamp (F64.ofInt 0) canonicalMax).Safe := by
  simp [Use.Safe, F64.ofInt, canonicalMax]

/-- On screens of more than a pixel a side every call is safe, wherever the
cursor is. -/
theorem safe_of_wide {s : Space ℚ} (hl : Wide s.local) (hr : Wide s.remote) (c : GeometryCall ℚ) :
    AllSafe (c.uses s) := by
  have hcur : Wide s.curScreen := by
    rw [Space.curScreen]
    split
    · exact hl
    · exact hr
  cases c with
  | applyDelta dx dy =>
      refine allSafe_cons.mpr ⟨(safe_pred hcur.height).2.2, ?_⟩
      split
      · exact allSafe_cons.mpr ⟨(safe_pred hcur.width).2.2, allSafe_nil⟩
      · exact hl.mapYUses hr
      · exact hr.mapYUses hl
  | canonical =>
      refine allSafe_cons.mpr ⟨(safe_pred hr.width).2.1, ?_⟩
      refine allSafe_cons.mpr ⟨safe_canonicalMax, ?_⟩
      refine allSafe_cons.mpr ⟨(safe_pred hr.height).2.1, ?_⟩
      exact allSafe_cons.mpr ⟨safe_canonicalMax, allSafe_nil⟩
  | enterRemote localY =>
      exact allSafe_cons.mpr ⟨(safe_pred hl.height).2.2, hl.mapYUses hr⟩
  | forceLocal =>
      rw [GeometryCall.uses]
      split
      · exact hr.mapYUses hl
      · exact allSafe_nil

/-- The step divides by no zero, clamps to no empty range, and does not panic. -/
def Uncrashed (zone : Zone) (l : Loop ℚ) (half : Half ℚ) : Prop :=
  (∀ x ∈ l.calls zone half, AllSafe (x.2.uses x.1)) ∧
    (router zone).step l half ≠ some .panicked

theorem allReturn_of_safe {cs : Calls ℚ} (h : ∀ x ∈ cs, AllSafe (x.2.uses x.1)) : AllReturn cs :=
  fun x hx => returns_of_safe (h x hx)

theorem uncrashed_of_wide {zone : Zone} {remote : Screen ℚ} (hz : Wide zone.screen)
    (hr : Wide remote) {l : Loop ℚ} (hplaced : Placed zone remote l) (half : Half ℚ) :
    Uncrashed zone l half := by
  have hsafe : ∀ x ∈ l.calls zone half, AllSafe (x.2.uses x.1) := by
    intro x hx
    cases hrouter : l.router with
    | none =>
        cases l with
        | panicked => cases hx
        | _ => cases hrouter
    | some r =>
        have hlayout := (hplaced r hrouter).trans (onLayout_calls hrouter half x hx)
        refine safe_of_wide ?_ ?_ x.2
        · rw [hlayout.local]
          exact hz
        · rw [hlayout.remote]
          exact hr
  refine ⟨hsafe, ?_⟩
  intro hstep
  exact (step_ne_panicked hstep).mpr (allReturn_of_safe hsafe) rfl

/-! ## A run that finds a size that is too small -/

/-- Nothing is due, so the loop gets to the wait. -/
theorem top_quiet (zone : Zone) (r : Router ℚ) : r.top zone .quiet = .waiting r.clearPending := by
  have hkeep : r.keepalive zone false = some r := by
    rw [Router.keepalive]
    split <;> rfl
  have hreconnect : r.reconnect false .refused = r := by
    rw [Router.reconnect, Bool.and_false]
    rfl
  have hfail : r.failsafe zone false = some r := by
    rw [Router.failsafe, Bool.and_false]
    rfl
  have hflush : r.clearPending.flush false = r.clearPending := by
    rw [Router.flush, Bool.and_false]
    rfl
  show Loop.orPanic (r.keepalive zone false) _ = _
  rw [hkeep]
  show Loop.orPanic ((r.reconnect false .refused).failsafe zone false) _ = _
  rw [hreconnect, hfail]
  exact congrArg Loop.waiting hflush

theorem exec_iteration {zone : Zone} {r : Router ℚ} {e : Event ℚ} :
    (router zone).exec (.head r) (iteration e)
      = (router zone).step (.waiting r.clearPending) (.receive (.event e ⟨.ok (), .ok ()⟩)) := by
  have htop : (router zone).step (.head r) (.top .quiet) = some (.waiting r.clearPending) :=
    congrArg some (top_quiet zone r)
  rw [iteration, Lts.exec_cons, htop]
  rfl

/-- A condition met in a run that goes on with an iteration. -/
theorem meets_iteration {zone : Zone} {C : Loop ℚ → Half ℚ → Prop} {r : Router ℚ} {e : Event ℚ}
    {rest : List (Half ℚ)} (h : (router zone).Meets C (.head r) (iteration e ++ rest)) :
    C (.waiting r.clearPending) (.receive (.event e ⟨.ok (), .ok ()⟩)) ∧
      (router zone).Meets C (r.clearPending.receive zone (.event e ⟨.ok (), .ok ()⟩)) rest := by
  have hwait := h.2 (.waiting r.clearPending) (congrArg some (top_quiet zone r))
  exact ⟨hwait.1, hwait.2 _ rfl⟩

theorem ofInt_one : (F64.ofInt 1 : ℚ) = 1 := Int.cast_one

theorem ofInt_zero : (F64.ofInt 0 : ℚ) = 0 := Int.cast_zero

/-- An activation that crashes nothing: the remote screen is not too low, and
its canonical coordinates are defined. -/
theorem activated_of_uncrashed {zone : Zone} {r : Router ℚ} {b : BridgeClient}
    (hb : r.bridge = some b) {id : UInt32} {x y : ℚ} {portal : Portal}
    (h : Uncrashed zone (.waiting r) (.receive (.event (.portal (.activated id x y)) portal))) :
    1 < r.space.remote.height ∧ r.space.remote.width ≠ 1 ∧
      ∃ r' y', r.receive zone (.event (.portal (.activated id x y)) portal) = .head r' ∧
        r'.activeId = some id ∧ r'.space = r.space.seatRemote y' ∧ r'.accDx = F64.ofInt 0 := by
  obtain ⟨hsafe, -⟩ := h
  simp only [Loop.calls, Router.receiveCalls, Router.onPortalCalls, hb, List.forall_mem_cons] at hsafe
  obtain ⟨henter, hsafe⟩ := hsafe
  have hreturns : (r.space.enterRemote (y - F64.ofInt zone.y.toInt)).isSome = true :=
    returns_of_safe henter
  obtain ⟨space, hspace⟩ := Option.isSome_iff_exists.mp hreturns
  rw [hspace] at hsafe
  have hcanonical : AllSafe (GeometryCall.canonical.uses space) := hsafe _ (List.mem_singleton_self _)
  have hdefined : space.canonical.isSome = true := returns_of_safe hcanonical
  obtain ⟨pos, hpos⟩ := Option.isSome_iff_exists.mp hdefined
  have hact : ∃ r', r.activate zone b id y = some r' := by
    simp [Router.activate, hspace, hpos]
  obtain ⟨r', hact⟩ := hact
  obtain ⟨space', cx, cy, hspace', -, hr'⟩ := Router.activate_eq_some hact
  obtain rfl : space = space' := by rwa [hspace, Option.some.injEq] at hspace'
  obtain ⟨-, y', -, -, hseat⟩ := Space.enterRemote_cases hspace
  -- the clamp of `map_y`, then the two divisions of `canonical`
  have hlow := (allSafe_cons.mp (allSafe_cons.mp (allSafe_cons.mp henter).2).2).1
  obtain ⟨hw, hcanonical⟩ := allSafe_cons.mp hcanonical
  have hh := (allSafe_cons.mp (allSafe_cons.mp hcanonical).2).1
  rw [hseat] at hw hh
  simp only [Use.Safe, ofInt_one, ofInt_zero, Space.seatRemote] at hlow hw hh
  refine ⟨?_, ?_, r', y', ?_, by rw [hr'], by rw [hr', hseat], by rw [hr']⟩
  · exact lt_of_le_of_ne (by linarith) fun heq => hh (sub_eq_zero.mpr heq.symm)
  · exact fun heq => hw (sub_eq_zero.mpr heq)
  · rw [Router.receive, Router.onPortal, hb]
    simp only
    rw [hact]
    rfl

/-- On the remote screen, from the left edge to the right by a pixel: what is not
a crossing is clamped to the width. -/
theorem framed_of_uncrashed {zone : Zone} {r : Router ℚ} {id : UInt32} {portal : Portal}
    (h : Uncrashed zone (.waiting r) (.receive (.event (.capture .frame) portal)))
    (hedge : r.space.edge = .right) (hx : r.space.x = 0) (htarget : r.space.target = .remote)
    (hid : r.activeId = some id) (hacc : r.accDx = 1) :
    1 ≤ r.space.remote.width := by
  obtain ⟨hsafe, -⟩ := h
  have hmove : F64.eq r.accDx (F64.ofInt 0 : ℚ) = false := by
    rw [hacc, ofInt_zero]
    exact decide_eq_false one_ne_zero
  have hactive : ¬ r.activeId.isNone = true := by
    rw [Option.isNone_iff_eq_none, hid]
    exact Option.some_ne_none id
  have hframe : r.onCaptureCalls .frame = r.onFrameCalls := by
    rw [Router.onCaptureCalls, if_neg hactive]
  have hmem : (r.space, GeometryCall.applyDelta r.accDx r.accDy) ∈
      Loop.calls zone (.waiting r) (.receive (.event (.capture .frame) portal)) := by
    show _ ∈ r.onCaptureCalls .frame
    rw [hframe, Router.onFrameCalls, if_neg (by simp [hmove])]
    exact List.mem_cons_self
  have hcrossing : r.space.crossing (r.space.x + r.accDx) = .none := by
    rw [Space.crossing, htarget, hedge, hx, hacc]
    simp [F64.lt, ofInt_zero]
  have huses := (allSafe_cons.mp (hsafe _ hmem)).2
  rw [hcrossing] at huses
  have hwidth := (allSafe_cons.mp huses).1
  simp only [Use.Safe, ofInt_zero, ofInt_one, Space.curScreen, htarget] at hwidth
  linarith

/-- Across the edge, and a pixel on. -/
def acrossAndOn : List (Half ℚ) :=
  iteration (.portal (.activated 7 0 0)) ++ (iteration (.capture (.motion 1 0)) ++
    (iteration (.capture .frame) ++ []))

theorem wide_of_uncrashed {zone : Zone} {remote : Screen ℚ}
    (h : (router zone).Meets (Uncrashed zone) (.head (.start zone remote answered)) acrossAndOn) :
    Wide remote := by
  obtain ⟨hactivated, h⟩ := meets_iteration h
  obtain ⟨hh, hw, r, y', hr, hid, hspace, hacc⟩ := activated_of_uncrashed rfl hactivated
  rw [hr] at h
  obtain ⟨-, h⟩ := meets_iteration h
  have hmotion : r.clearPending.receive zone (.event (.capture (.motion 1 0)) ⟨.ok (), .ok ()⟩)
      = .head { r with
          eventsThisActivation := true
          accDx := r.accDx + 1
          accDy := r.accDy + 0 } := by
    rw [Router.clearPending_of_active (by rw [hid]; rfl), Router.receive, Router.onCapture, hid]
    rfl
  rw [hmotion] at h
  obtain ⟨hframed, -⟩ := meets_iteration h
  rw [Router.clearPending_of_active (by show r.activeId.isSome = true; rw [hid]; rfl)] at hframed
  have hwidth := framed_of_uncrashed hframed (by rw [hspace]; rfl)
    (by rw [hspace]; exact ofInt_zero) (by rw [hspace]; rfl) hid (by rw [hacc, ofInt_zero, zero_add])
  have hremote : r.space.remote.width = remote.width := by
    rw [hspace]
    rfl
  rw [hremote] at hwidth
  exact ⟨lt_of_le_of_ne hwidth (Ne.symm hw), hh⟩

/-- Any two numbers are taken. -/
theorem remoteSize_eq {parse : List Char → Option ℚ} {w h : List Char} (hx : 'x' ∉ w)
    {width height : ℚ} (hw : parse w = some width) (hh : parse h = some height) :
    remoteSize parse (w ++ 'x' :: h) = some ⟨width, height⟩ := by
  have hkeep : ∀ c ∈ w, decide (c ≠ 'x') = true := by
    intro c hc
    exact decide_eq_true fun heq => hx (heq ▸ hc)
  have htake : (w ++ 'x' :: h).takeWhile (· ≠ 'x') = w := by
    rw [List.takeWhile_append_of_pos hkeep]
    simp
  have hdrop : (w ++ 'x' :: h).dropWhile (· ≠ 'x') = 'x' :: h := by
    rw [List.dropWhile_append_of_pos hkeep]
    simp
  rw [remoteSize, splitOnce, if_pos (by simp), htake, hdrop]
  simp [hw, hh]

theorem safe_iff_wide {zone : Zone} (hwidth : 2 ≤ zone.width.toNat)
    (hheight : 2 ≤ zone.height.toNat) (remote : Screen ℚ) :
    (∀ dial halves,
      (router zone).Meets (Uncrashed zone) (.head (.start zone remote dial)) halves) ↔
      Wide remote := by
  constructor
  · exact fun h => wide_of_uncrashed (h answered acrossAndOn)
  · intro hremote dial halves
    have hzone : Wide (zone.screen : Screen ℚ) := by
      have hw2 : (2 : ℚ) ≤ zone.width.toNat := by exact_mod_cast hwidth
      have hh2 : (2 : ℚ) ≤ zone.height.toNat := by exact_mod_cast hheight
      constructor
      · show (1 : ℚ) < ((zone.width.toNat : Int) : ℚ)
        push_cast
        linarith
      · show (1 : ℚ) < ((zone.height.toNat : Int) : ℚ)
        push_cast
        linarith
    rw [Lts.meets_iff]
    intro before half after l heq hrun
    exact uncrashed_of_wide hzone hremote (placed_run hrun).2 half

/-- Any two numbers are accepted for the size.  With an accepted size, and a
zone of two pixels a side or more, no run of the router divides by zero, clamps
to an empty range or panics, exactly if both numbers are above 1. -/
theorem geometry_safe_iff (parse : List Char → Option ℚ) :
    (∀ w h width height, 'x' ∉ w → parse w = some width → parse h = some height →
      remoteSize parse (w ++ 'x' :: h) = some ⟨width, height⟩) ∧
    ∀ args cfg, cmdRun parse args = some cfg →
      ∀ zone : Zone, 2 ≤ zone.width.toNat → 2 ≤ zone.height.toNat →
        ((∀ dial halves,
          (router zone).Meets (Uncrashed zone) (.head (.start zone cfg.remote dial)) halves) ↔
          1 < cfg.remote.width ∧ 1 < cfg.remote.height) := by
  refine ⟨fun w h width height hx hw hh => remoteSize_eq hx hw hh, ?_⟩
  intro args cfg _ zone hwidth hheight
  rw [safe_iff_wide hwidth hheight]
  exact ⟨fun h => ⟨h.width, h.height⟩, fun h => ⟨h.1, h.2⟩⟩

/-- Digits, as `f64::from_str` reads them. -/
def decimal (t : List Char) : Option ℚ :=
  if t ≠ [] ∧ t.all Char.isDigit then some ((t.foldl (fun n c => 10 * n + (c.toNat - 48)) 0 : ℕ) : ℚ)
  else none

/-- A screen of no pixels is accepted, and the first activation panics. -/
theorem no_pixels_panics :
    cmdRun decimal ["--remote-size", "0x0"] = some ⟨"beaglewing:4870", ⟨0, 0⟩, false⟩ ∧
      (router ubuntu).exec (.head (.start ubuntu ⟨0, 0⟩ answered))
        (iteration (.portal (.activated 7 2559 720))) = some .panicked ∧
      ¬ (router ubuntu).Meets (Uncrashed ubuntu) (.head (.start ubuntu ⟨0, 0⟩ answered))
        (iteration (.portal (.activated 7 2559 720))) := by
  have hdead : ((router ubuntu).exec (.head (.start ubuntu (⟨0, 0⟩ : Screen ℚ) answered))
      (iteration (.portal (.activated 7 2559 720)))).map Loop.alive = some false := by
    decide +kernel
  obtain ⟨l, hexec, hl⟩ := Option.map_eq_some_iff.mp hdead
  have hpanicked : l = .panicked := by
    cases l with
    | panicked => rfl
    | _ => cases hl
  rw [hpanicked] at hexec
  refine ⟨?_, hexec, ?_⟩
  · rfl
  · intro hmeets
    rw [← List.append_nil (iteration _)] at hmeets
    exact (meets_iteration hmeets).1.2 (exec_iteration ▸ hexec)

end Beaglewing.Input
