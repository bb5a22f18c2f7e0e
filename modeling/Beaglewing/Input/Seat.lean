/-
# `Input.Seat` — where a release puts the cursor

Every call of `portal.release` passes the cursor that the model of the
screens has after `force_local`.  A return from the remote side seats that
cursor on the shared edge, at the height that the remote one maps to
(`Seats`).  A refused activation returns from nowhere: `force_local` finds
the model local and leaves it, and the cursor is where the last return put
it, or in the middle of the screen if there was none.

| the release | the cursor |
|---|---|
| after a motion that crosses | mapped from the clamped height of the motion |
| key combination, failsafe, lock, no bridge, shutdown | mapped from the remote height |
| of an activation without a bridge | the one the model has (`Seatable`) |

The sums are in `f64`, of which only what `F64.Ordered` says is used.
-/
import Beaglewing.Input.Activations
import Beaglewing.Input.Screens

namespace Beaglewing.Input

open Base

/-- What `f64` guarantees of its comparisons and of its sums. -/
class F64.Ordered (F : Type) [F64 F] : Prop where
  lt_irrefl (a : F) : F64.lt a a = false
  not_lt_of_le (a b : F) : F64.le a b = true → F64.lt b a = false
  /-- Rounding is monotone. -/
  add_not_lt (a b c : F) : F64.lt a b = false → F64.lt (c + a) (c + b) = false
  add_zero (n : Int) : (F64.ofInt n + F64.ofInt 0 : F) = F64.ofInt n

instance : F64.Ordered ℚ where
  lt_irrefl a := by simp [F64.lt]
  not_lt_of_le a b h := by simpa [F64.lt, F64.le] using h
  add_not_lt a b c h := by simpa [F64.lt] using h
  add_zero n := by simp [F64.ofInt]

variable {F : Type} [F64 F]

namespace Zone

/-- The zone as the model has it. -/
def screen (zone : Zone) : Screen F :=
  { width := F64.ofInt zone.width.toNat, height := F64.ofInt zone.height.toNat }

/-- The right edge in the coordinates of the compositor. -/
def edgeX (zone : Zone) : F :=
  F64.ofInt zone.x.toInt + (F64.ofInt zone.width.toNat - F64.ofInt 1)

/-- A height that is neither above the zone nor below it. -/
def Inside (zone : Zone) (y : F) : Prop :=
  F64.lt y (F64.ofInt zone.y.toInt) = false ∧
    F64.lt (F64.ofInt zone.y.toInt + (F64.ofInt zone.height.toNat - F64.ofInt 1)) y = false

instance (zone : Zone) (y : F) : Decidable (zone.Inside y) := by
  unfold Inside
  infer_instance

end Zone

/-! ## Clamped heights -/

section Ordered
variable [F64.Ordered F]

/-- A clamped value is on neither side of its bounds. -/
theorem clamp_not_lt {a lo hi b : F} (h : clamp a lo hi = some b) :
    F64.lt b lo = false ∧ F64.lt hi b = false := by
  have hirrefl := F64.Ordered.lt_irrefl (F := F)
  rw [clamp] at h
  split at h
  · next hle =>
      have hbounds := F64.Ordered.not_lt_of_le lo hi hle
      by_cases hlo : F64.lt a lo
      · simp only [hlo, if_true, hbounds, Bool.false_eq_true, if_false, Option.some.injEq] at h
        subst h
        exact ⟨hirrefl lo, hbounds⟩
      · simp only [hlo, Bool.false_eq_true, if_false, Option.some.injEq] at h
        by_cases hhi : F64.lt hi a
        · rw [if_pos hhi] at h
          subst h
          exact ⟨hbounds, hirrefl hi⟩
        · rw [if_neg hhi] at h
          subst h
          exact ⟨Bool.eq_false_of_not_eq_true hlo, Bool.eq_false_of_not_eq_true hhi⟩
  · cases h

/-- A height of the model is inside the zone once the zone's own is added. -/
theorem Zone.inside_of_mapY {zone : Zone} {src : Screen F} {y y' : F}
    (h : Space.mapY src zone.screen y = some y') :
    zone.Inside (F64.ofInt zone.y.toInt + y') := by
  obtain ⟨hlo, hhi⟩ := clamp_not_lt h
  constructor
  · have := F64.Ordered.add_not_lt _ _ (F64.ofInt zone.y.toInt) hlo
    rwa [F64.Ordered.add_zero] at this
  · exact F64.Ordered.add_not_lt _ _ _ hhi

end Ordered

/-! ## What a step does to the cursor and to the calls of `portal.release` -/

variable {zone : Zone}

/-- The screens stay, and what is released is put on the right edge, at the
height that `remoteY` maps to. -/
structure Moves (zone : Zone) (remoteY : Option F) (r r' : Router F) : Prop where
  layout : Space.SameLayout r.space r'.space
  released : r'.released = r.released ∨ ∃ id y y', remoteY = some y ∧
    Space.mapY r.space.remote r.space.local y = some y' ∧
    r'.released = r.released ++
      [(id, F64.ofInt zone.x.toInt + (r.space.local.width - F64.ofInt 1),
        F64.ofInt zone.y.toInt + y')]

theorem moves_of_eq {y : Option F} {r r' : Router F} (hspace : r'.space = r.space)
    (hreleased : r'.released = r.released) : Moves zone y r r' :=
  ⟨by rw [hspace]; exact ⟨rfl, rfl, rfl⟩, .inl hreleased⟩

/-- Steps that move no cursor and release nothing, before and after. -/
theorem Moves.of_eq {y : Option F} {r r₁ r₂ r₃ : Router F} (h : Moves zone y r₁ r₂)
    (hspace : r₁.space = r.space) (hreleased : r₁.released = r.released)
    (hspace' : r₃.space = r₂.space) (hreleased' : r₃.released = r₂.released) :
    Moves zone y r r₃ := by
  obtain ⟨hlayout, hrel⟩ := h
  rw [hspace, hreleased] at hrel
  refine ⟨?_, ?_⟩
  · rw [hspace', ← hspace]
    exact hlayout
  · rw [hreleased']
    exact hrel

/-- What the return needs of the state it is called from. -/
structure Returns (r : Router F) : Prop where
  edge : r.space.edge = .right
  remote : r.activeId.isSome → r.space.target = .remote

/-- `go_local` from the remote side. -/
theorem moves_goLocal {r r' : Router F} (hr : Returns r) (h : r.goLocal zone = some r') :
    Moves zone (some r.space.y) r r' := by
  obtain ⟨space, hspace, h⟩ := Option.bind_eq_some_iff.mp h
  cases h
  refine ⟨Space.sameLayout_forceLocal hspace, ?_⟩
  cases hid : r.activeId with
  | none => exact .inl (List.append_nil _)
  | some id =>
      rcases Space.forceLocal_cases hspace with ⟨hlocal, -⟩ | ⟨y', -, hy', rfl⟩
      · have hremote := hr.remote (by rw [hid]; rfl)
        rw [hlocal] at hremote
        cases hremote
      · refine .inr ⟨id, _, y', rfl, hy', ?_⟩
        simp only [Space.seatLocal, hr.edge]
        rfl

/-- `go_local` where the model is local already: the cursor it has is the one
that is passed. -/
theorem goLocal_of_local {r r' : Router F} (hlocal : r.space.target = .local)
    (h : r.goLocal zone = some r') :
    r'.space = r.space ∧ r'.released = r.released ++
      (r.activeId.map fun id => (id, F64.ofInt zone.x.toInt + r.space.x,
        F64.ofInt zone.y.toInt + r.space.y)).toList := by
  obtain ⟨space, hspace, h⟩ := Option.bind_eq_some_iff.mp h
  cases h
  rcases Space.forceLocal_cases hspace with ⟨-, rfl⟩ | ⟨y', hremote, -⟩
  · exact ⟨rfl, rfl⟩
  · rw [hlocal] at hremote
    cases hremote

theorem moves_goLocalIfActive {r r' : Router F} (hr : Returns r)
    (h : r.goLocalIfActive zone = some r') : Moves zone (some r.space.y) r r' := by
  rcases Router.goLocalIfActive_cases h with hlocal | ⟨-, rfl⟩
  · exact moves_goLocal hr hlocal
  · exact moves_of_eq rfl rfl

/-- Without the bridge there is a return, and after it nothing to return
from; otherwise the cursor is left alone. -/
theorem moves_keepalive {r r' : Router F} {due : Bool} (hr : Returns r)
    (h : r.keepalive zone due = some r') :
    Moves zone (some r.space.y) r r' ∧ (r'.activeId = none ∨
      r'.activeId = r.activeId ∧ r'.space = r.space ∧ r'.released = r.released) := by
  rcases Router.keepalive_cases h with rfl | ⟨b, hb, rfl⟩ | ⟨hid, rfl⟩ | hlocal
  · exact ⟨moves_of_eq rfl rfl, .inr ⟨rfl, rfl, rfl⟩⟩
  · exact ⟨moves_of_eq rfl rfl, .inr ⟨rfl, rfl, rfl⟩⟩
  · exact ⟨moves_of_eq rfl rfl, .inl hid⟩
  · have hmoves := moves_goLocal (r := { r with bridge := none, published := .noBridge })
      ⟨hr.edge, hr.remote⟩ hlocal
    exact ⟨hmoves.of_eq rfl rfl rfl rfl, .inl (Router.activeId_goLocal hlocal)⟩

theorem failsafe_of_local {r : Router F} (silent : Bool) (h : r.activeId = none) :
    r.failsafe zone silent = some r := by
  simp [Router.failsafe, h]

theorem moves_failsafe {r r' : Router F} {silent : Bool} (hr : Returns r)
    (h : r.failsafe zone silent = some r') : Moves zone (some r.space.y) r r' := by
  rcases Router.failsafe_cases h with hlocal | rfl
  · exact moves_goLocal hr hlocal
  · exact moves_of_eq rfl rfl

/-- What the connection attempt leaves alone. -/
theorem reconnect_eq {F : Type} (r : Router F) (due : Bool) (dial : Dial) :
    (r.reconnect due dial).activeId = r.activeId ∧ (r.reconnect due dial).space = r.space ∧
      (r.reconnect due dial).released = r.released := by
  rcases r.reconnect_cases due dial with heq | ⟨-, b, -, heq⟩
  · rw [heq]
    exact ⟨rfl, rfl, rfl⟩
  · rw [heq]
    exact ⟨rfl, rfl, rfl⟩

theorem flush_eq {F : Type} (r : Router F) (due : Bool) :
    (r.clearPending.flush due).space = r.space ∧
      (r.clearPending.flush due).released = r.released := by
  rw [Router.flush, Router.clearPending]
  split <;> split <;> exact ⟨rfl, rfl⟩

/-- There is one return at most on the way to the wait. -/
theorem moves_top {r : Router F} (t : Top) (hr : Returns r) :
    (r.top zone t).All (Moves zone (some r.space.y) r) := by
  rw [Router.top]
  split
  · refine all_orPanic ?_
    intro r' hr'
    exact all_returned (moves_goLocal hr hr')
  · refine all_orPanic ?_
    intro r₁ h₁
    refine all_orPanic ?_
    intro r₂ h₂
    refine all_waiting ?_
    obtain ⟨hspace, hreleased⟩ := flush_eq r₂ t.flushDue
    obtain ⟨hid, hsame, hrel⟩ := reconnect_eq r₁ t.reconnectDue t.dial
    obtain ⟨hmoves, hleft⟩ := moves_keepalive hr h₁
    rcases hleft with hnone | ⟨hid₁, hspace₁, hreleased₁⟩
    · rw [failsafe_of_local t.silent (hid.trans hnone)] at h₂
      cases h₂
      exact hmoves.of_eq rfl rfl (hspace.trans hsame) (hreleased.trans hrel)
    · have hback : Returns (r₁.reconnect t.reconnectDue t.dial) := by
        refine ⟨?_, ?_⟩
        · rw [hsame, hspace₁]
          exact hr.edge
        · rw [hid, hid₁, hsame, hspace₁]
          exact hr.remote
      have := moves_failsafe hback h₂
      rw [hsame, hspace₁] at this
      exact this.of_eq (hsame.trans hspace₁) (hrel.trans hreleased₁) hspace hreleased

/-! ## Events -/

/-- The height of the activation that is refused. -/
def refused {F : Type} (r : Router F) : Half F → Option F
  | .receive (.event (.portal (.activated _ _ cursorY)) _) =>
      if r.bridge.isNone then some cursorY else none
  | _ => none

/-- The height on the remote screen that a return starts from.  A frame
moves first. -/
def remoteY (r : Router F) : Half F → Option F
  | .receive (.event (.capture .frame) _) =>
      clamp (r.space.y + r.accDy) (F64.ofInt 0) (r.space.remote.height - F64.ofInt 1)
  | _ => some r.space.y

theorem moves_onPortal {r : Router F} {portal : Portal} {e : PortalEvent F}
    (hr : Returns r)
    (htaken : refused r (.receive (.event (.portal e) portal)) = none) :
    (r.onPortal zone portal e).All (Moves zone (some r.space.y) r) := by
  cases e with
  | activated id x y =>
      rw [Router.onPortal]
      cases hb : r.bridge with
      | none => simp [refused, hb] at htaken
      | some b =>
          refine all_orPanic ?_
          intro r' hr'
          obtain ⟨space, cx, cy, hspace, -, rfl⟩ := Router.activate_eq_some hr'
          exact all_head ⟨Space.sameLayout_enterRemote hspace, .inl rfl⟩
  | deactivated =>
      refine all_orPanic ?_
      intro r' hr'
      exact all_head (moves_goLocalIfActive hr hr')
  | disabled =>
      refine all_orPanic ?_
      intro r' hr'
      cases portal.enable with
      | error e => exact all_returned (moves_goLocalIfActive hr hr')
      | ok _ => exact all_head (moves_goLocalIfActive hr hr')
  | zonesChanged =>
      refine all_orPanic ?_
      intro r' hr'
      exact all_returned (moves_goLocal hr hr')

theorem moves_onScreenSaver {r : Router F} {portal : Portal} {locked : Bool}
    (hr : Returns r) :
    (r.onScreenSaver zone portal locked).All (Moves zone (some r.space.y) r) := by
  cases locked with
  | true =>
      refine all_orPanic ?_
      intro r' hr'
      exact all_head (moves_goLocalIfActive hr hr')
  | false =>
      rw [Router.onScreenSaver]
      cases portal.armBarriers with
      | error e => exact all_returned (moves_of_eq rfl rfl)
      | ok _ =>
          cases portal.enable with
          | error e => exact all_returned (moves_of_eq rfl rfl)
          | ok _ => exact all_head (moves_of_eq rfl rfl)

/-- The full combination is a return; any other key stays. -/
theorem moves_onKey {r : Router F} {code : UInt32} {pressed : Bool} (hr : Returns r) :
    (r.onKey zone code pressed).All (Moves zone (some r.space.y) r) := by
  rw [Router.onKey]
  cases keycodeToUsage code.toUInt16 with
  | none => exact all_head (moves_of_eq rfl rfl)
  | some usage =>
      cases hfull : (r.emergency.update usage pressed).2 with
      | true =>
          simp only [hfull, if_true]
          refine all_orPanic ?_
          intro r' hr'
          have hmoves := moves_goLocal (r := { r with emergency := .new })
            ⟨hr.edge, hr.remote⟩ hr'
          exact all_head (hmoves.of_eq rfl rfl rfl rfl)
      | false =>
          simp only [hfull, Bool.false_eq_true, if_false]
          exact all_head (moves_of_eq rfl rfl)

theorem moves_onButton (r : Router F) (code : UInt32) (pressed : Bool) :
    (r.onButton code pressed).All (Moves zone (some r.space.y) r) := by
  rw [Router.onButton]
  cases buttonToBit code.toUInt16 with
  | none => exact all_head (moves_of_eq rfl rfl)
  | some bit =>
      cases r.bridge with
      | none => exact all_head (moves_of_eq rfl rfl)
      | some b => exact all_head (moves_of_eq rfl rfl)

/-- A motion that crosses has seated the cursor before `go_local` runs, so
`force_local` finds nothing to do. -/
theorem moves_onFrame {r : Router F} (hr : Returns r) (htarget : r.space.target = .remote) :
    (r.onFrame zone).All (Moves zone (clamp (r.space.y + r.accDy) (F64.ofInt 0)
      (r.space.remote.height - F64.ofInt 1)) r) := by
  rw [Router.onFrame]
  split
  · exact all_head (moves_of_eq rfl rfl)
  · refine all_orPanic ?_
    rintro ⟨space, crossing⟩ hs
    have hlayout := Space.sameLayout_applyDelta hs
    cases crossing with
    | toLocal =>
        simp only [if_true]
        refine all_orPanic ?_
        intro r' hr'
        obtain ⟨y, hy, -, y', hy', rfl⟩ := Space.applyDelta_cases hs
        simp only [Space.curScreen, htarget] at hy
        obtain ⟨hspace, hreleased⟩ := goLocal_of_local rfl hr'
        refine all_head ⟨?_, ?_⟩
        · rw [hspace]
          exact hlayout
        · cases hid : r.activeId with
          | none =>
              rw [hid] at hreleased
              exact .inl (hreleased.trans (List.append_nil _))
          | some id =>
              refine .inr ⟨id, y, y', hy, hy', ?_⟩
              rw [hreleased, hid]
              simp only [Space.seatLocal, hr.edge]
              rfl
    | none =>
        simp only [reduceCtorEq, if_false]
        split
        · refine all_orPanic ?_
          intro pos hpos
          exact all_head ⟨hlayout, .inl rfl⟩
        · exact all_head ⟨hlayout, .inl rfl⟩
    | toRemote =>
        simp only [reduceCtorEq, if_false]
        split
        · refine all_orPanic ?_
          intro pos hpos
          exact all_head ⟨hlayout, .inl rfl⟩
        · exact all_head ⟨hlayout, .inl rfl⟩

theorem moves_onCapture {r : Router F} {e : CaptureEvent F} {portal : Portal} (h : Ok r)
    (hedge : r.space.edge = .right) :
    (r.onCapture zone e).All
      (Moves zone (remoteY r (.receive (.event (.capture e) portal))) r) := by
  have hr : Returns { r with eventsThisActivation := true } := ⟨hedge, h.active_iff.mp⟩
  have hflag : ∀ {y : Option F} (r' : Router F),
      Moves zone y { r with eventsThisActivation := true } r' → Moves zone y r r' :=
    fun _ h => h.of_eq rfl rfl rfl rfl
  rw [Router.onCapture]
  split
  · exact all_head (moves_of_eq rfl rfl)
  · next hid =>
      have htarget := (h.capturing (Bool.eq_false_of_not_eq_true hid)).remote
      cases e with
      | key code pressed time => exact (moves_onKey hr).imp hflag
      | button code pressed => exact (moves_onButton _ code pressed).imp hflag
      | motion dx dy => exact all_head (moves_of_eq rfl rfl)
      | scrollDiscrete x y => exact all_head (moves_of_eq rfl rfl)
      | scrollDelta dx dy =>
          refine all_head (moves_of_eq ?_ ?_)
          · simp only [Router.onScrollDelta]
            split <;> rfl
          · simp only [Router.onScrollDelta]
            split <;> rfl
      | frame => exact (moves_onFrame hr htarget).imp hflag
      | disconnected =>
          refine all_orPanic ?_
          intro r' hr'
          exact all_returned (hflag r' (moves_goLocal hr hr'))

theorem moves_receive {r : Router F} {e : Recv F} (h : Ok r) (hedge : r.space.edge = .right)
    (htaken : refused r (.receive e) = none) :
    (r.receive zone e).All (Moves zone (remoteY r (.receive e)) r) := by
  have hr : Returns r := ⟨hedge, h.active_iff.mp⟩
  cases e with
  | timeout => exact all_head (moves_of_eq rfl rfl)
  | disconnected => exact all_returned (moves_of_eq rfl rfl)
  | event e portal =>
      cases e with
      | portal e => exact moves_onPortal hr htaken
      | capture e => exact moves_onCapture h hedge
      | screenSaver locked => exact moves_onScreenSaver hr

/-- One step of the loop, unless it refuses an activation. -/
theorem moves_step {l l' : Loop F} {half : Half F} {r : Router F} (hok : LoopOk l)
    (hr : l.router = some r) (hedge : r.space.edge = .right) (htaken : refused r half = none)
    (hstep : (router zone).step l half = some l') : l'.All (Moves zone (remoteY r half) r) := by
  cases half with
  | top t =>
      obtain ⟨r₁, rfl, rfl⟩ := step_top hstep
      cases hr
      exact moves_top t ⟨hedge, hok.active_iff.mp⟩
  | receive e =>
      obtain ⟨r₁, rfl, rfl⟩ := step_receive hstep
      cases hr
      exact moves_receive hok.1 hedge htaken

/-! ## Runs -/

theorem refused_eq_some {F : Type} {r : Router F} {half : Half F} {cursorY : F}
    (h : refused r half = some cursorY) : r.bridge = none ∧
      ∃ id x portal, half = .receive (.event (.portal (.activated id x cursorY)) portal) := by
  cases half with
  | top t => cases h
  | receive e =>
      cases e with
      | timeout => cases h
      | disconnected => cases h
      | event e portal =>
          cases e with
          | capture e => cases h
          | screenSaver locked => cases h
          | portal e =>
              cases e with
              | deactivated => cases h
              | disabled => cases h
              | zonesChanged => cases h
              | activated id x y =>
                  rw [refused] at h
                  split at h
                  · next hb =>
                      cases h
                      exact ⟨Option.isNone_iff_eq_none.mp hb, id, x, portal, rfl⟩
                  · cases h

/-- A refused activation is released where the model has the cursor. -/
theorem router_refused {r : Router F} {half : Half F} {cursorY : F} (h : Ok r)
    (hrefused : refused r half = some cursorY) :
    ∃ r' id, (router zone).step (.waiting r) half = some (.head r') ∧ r'.space = r.space ∧
      r'.released = r.released ++
        [(id, F64.ofInt zone.x.toInt + r.space.x, F64.ofInt zone.y.toInt + r.space.y)] := by
  obtain ⟨hb, id, x, portal, rfl⟩ := refused_eq_some hrefused
  have hlocal : r.space.target = .local := by
    cases htarget : r.space.target with
    | «local» => rfl
    | remote =>
        have hid := h.active_iff.mpr htarget
        rw [h.local_of_bridge hb] at hid
        cases hid
  have hforce : r.space.forceLocal = some r.space := by
    rw [Space.forceLocal, if_neg (by rw [hlocal]; exact fun h => by cases h)]
  have hgo : ∃ r', Router.goLocal zone { r with activeId := some id, bridge := none } =
      some r' := by
    simp only [Router.goLocal, hforce]
    exact ⟨_, rfl⟩
  obtain ⟨r', hr'⟩ := hgo
  obtain ⟨hspace, hreleased⟩ := goLocal_of_local (by exact hlocal) hr'
  refine ⟨r', id, ?_, hspace, hreleased⟩
  show some (r.onPortal zone portal (.activated id x cursorY)) = _
  rw [Router.onPortal, hb]
  simp only [hr', Loop.orPanic]

/-- The screens and the edge the program starts with. -/
def Placed (zone : Zone) (remote : Screen F) (l : Loop F) : Prop :=
  l.All fun r => Space.SameLayout (.new zone.screen remote .right) r.space

theorem router_of_step {l l' : Loop F} {half : Half F}
    (h : (router zone).step l half = some l') : ∃ r, l.router = some r := by
  cases half with
  | top t =>
      obtain ⟨r, rfl, -⟩ := step_top h
      exact ⟨r, rfl⟩
  | receive e =>
      obtain ⟨r, rfl, -⟩ := step_receive h
      exact ⟨r, rfl⟩

theorem placed_step {remote : Screen F} {l l' : Loop F} {half : Half F} (hok : LoopOk l)
    (hplaced : Placed zone remote l) (hstep : (router zone).step l half = some l') :
    Placed zone remote l' := by
  obtain ⟨r, hr⟩ := router_of_step hstep
  have hlayout := hplaced r hr
  intro r' hr'
  cases hrefused : refused r half with
  | none => exact hlayout.trans (moves_step hok hr hlayout.edge hrefused hstep r' hr').layout
  | some cursorY =>
      obtain ⟨hb, id, x, portal, rfl⟩ := refused_eq_some hrefused
      obtain ⟨r₁, rfl, -⟩ := step_receive hstep
      cases hr
      obtain ⟨r₂, -, hstep₂, hspace, -⟩ := router_refused hok.1 hrefused
      rw [hstep₂] at hstep
      cases hstep
      cases hr'
      rw [hspace]
      exact hlayout

theorem placed_run {remote : Screen F} {dial : Dial} {halves : List (Half F)} {l : Loop F}
    (h : (router zone).exec (.head (.start zone remote dial)) halves = some l) :
    LoopOk l ∧ Placed zone remote l := by
  refine (router zone).exec_invariant (P := fun l => LoopOk l ∧ Placed zone remote l) ?_ ?_ h
  · refine ⟨ok_start, ?_⟩
    intro r hr
    cases hr
    exact ⟨rfl, rfl, rfl⟩
  · intro l half l' hl hstep
    exact ⟨loopOk_step hl.1 hstep, placed_step hl.1 hl.2 hstep⟩

/-! ## Every release -/

/-- The cursor of a release: on the right edge, at a height of the zone that
is the mapped remote one, or the one that a refused activation reports. -/
def Seats (zone : Zone) (remote : Screen F) (r : Router F) (half : Half F) (cursor : F × F) :
    Prop :=
  cursor.1 = zone.edgeX ∧ zone.Inside cursor.2 ∧
    match refused r half with
    | some cursorY => cursor.2 = cursorY
    | none => ∃ y y', remoteY r half = some y ∧ Space.mapY remote zone.screen y = some y' ∧
        cursor.2 = F64.ofInt zone.y.toInt + y'

/-- Whatever the step releases is seated. -/
def Seated (zone : Zone) (remote : Screen F) (l : Loop F) (half : Half F) : Prop :=
  ∀ r l' r', l.router = some r → (router zone).step l half = some l' → l'.router = some r' →
    ∃ new, r'.released = r.released ++ new ∧ ∀ call ∈ new, Seats zone remote r half call.2

/-- An activation is refused only with the cursor of the model on the right
edge, at the height that the activation reports, and that inside the zone. -/
def Seatable (zone : Zone) (l : Loop F) (half : Half F) : Prop :=
  ∀ r cursorY, l.atWait = some r → refused r half = some cursorY →
    F64.ofInt zone.x.toInt + r.space.x = zone.edgeX ∧
      F64.ofInt zone.y.toInt + r.space.y = cursorY ∧ zone.Inside cursorY

instance [DecidableEq F] (zone : Zone) (l : Loop F) (half : Half F) :
    Decidable (Seatable zone l half) :=
  match hwait : l.atWait with
  | none => isTrue fun _ _ h => by rw [hwait] at h; cases h
  | some r =>
      match hrefused : refused r half with
      | none => isTrue fun _ _ h h' => by
          rw [hwait, Option.some.injEq] at h
          rw [← h, hrefused] at h'
          cases h'
      | some cursorY =>
          decidable_of_iff (F64.ofInt zone.x.toInt + r.space.x = zone.edgeX ∧
              F64.ofInt zone.y.toInt + r.space.y = cursorY ∧ zone.Inside cursorY) (by
            constructor
            · intro h r₁ y hr₁ hy
              rw [hwait, Option.some.injEq] at hr₁
              rw [← hr₁, hrefused, Option.some.injEq] at hy
              rw [← hr₁, ← hy]
              exact h
            · intro h
              exact h r cursorY hwait hrefused)

/-- A return from the remote side. -/
theorem seats_of_moves [F64.Ordered F] {remote : Screen F} {r r' : Router F} {half : Half F}
    (hlayout : Space.SameLayout (.new zone.screen remote .right) r.space)
    (htaken : refused r half = none) (h : Moves zone (remoteY r half) r r') :
    ∃ new, r'.released = r.released ++ new ∧ ∀ call ∈ new, Seats zone remote r half call.2 := by
  rcases h.released with hsame | ⟨id, y, y', hy, hy', hreleased⟩
  · exact ⟨[], by rw [hsame, List.append_nil], fun _ h => by cases h⟩
  · rw [hlayout.local, hlayout.remote] at hy'
    refine ⟨_, hreleased, ?_⟩
    intro call hcall
    rw [List.mem_singleton] at hcall
    subst hcall
    refine ⟨?_, Zone.inside_of_mapY hy', ?_⟩
    · rw [hlayout.local]
      rfl
    · rw [htaken]
      exact ⟨y, y', hy, hy', rfl⟩

theorem seated_iff [F64.Ordered F] {remote : Screen F} {l : Loop F} (half : Half F)
    (hok : LoopOk l) (hplaced : Placed zone remote l) :
    Seated zone remote l half ↔ Seatable zone l half := by
  constructor
  · intro h r cursorY hwait hrefused
    rw [Loop.atWait_eq_some] at hwait
    subst hwait
    obtain ⟨r', id, hstep, -, hreleased⟩ := router_refused hok.1 hrefused
    obtain ⟨new, hnew, hseats⟩ := h r _ r' rfl hstep rfl
    rw [hreleased, List.append_cancel_left_eq] at hnew
    obtain ⟨hx, hinside, hy⟩ := hseats _ (by rw [← hnew]; exact List.mem_singleton_self _)
    rw [hrefused] at hy
    exact ⟨hx, hy, hy ▸ hinside⟩
  · intro h r l' r' hr hstep hr'
    cases hrefused : refused r half with
    | none =>
        have hlayout := hplaced r hr
        exact seats_of_moves hlayout hrefused
          (moves_step hok hr hlayout.edge hrefused hstep r' hr')
    | some cursorY =>
        obtain ⟨-, id, x, portal, rfl⟩ := refused_eq_some hrefused
        obtain ⟨r₁, rfl, -⟩ := step_receive hstep
        cases hr
        obtain ⟨hx, hy, hinside⟩ := h r cursorY rfl hrefused
        obtain ⟨r₂, id, hstep₂, -, hreleased⟩ := router_refused hok.1 hrefused
        rw [hstep₂] at hstep
        cases hstep
        cases hr'
        refine ⟨_, hreleased, ?_⟩
        intro call hcall
        rw [List.mem_singleton] at hcall
        subst hcall
        refine ⟨hx, hy.symm ▸ hinside, ?_⟩
        rw [hrefused]
        exact hy

/-- In any run, every release seats the cursor on the shared edge exactly if
every activation that is refused finds it there, at its own height. -/
theorem released_on_edge_iff [F64.Ordered F] (zone : Zone) (remote : Screen F) (dial : Dial)
    (halves : List (Half F)) :
    (router zone).Meets (Seated zone remote) (.head (.start zone remote dial)) halves ↔
      (router zone).Meets (Seatable zone) (.head (.start zone remote dial)) halves := by
  rw [Lts.meets_iff, Lts.meets_iff]
  constructor
  · intro h before half after l heq hrun
    obtain ⟨hok, hplaced⟩ := placed_run hrun
    exact (seated_iff half hok hplaced).mp (h before half after l heq hrun)
  · intro h before half after l heq hrun
    obtain ⟨hok, hplaced⟩ := placed_run hrun
    exact (seated_iff half hok hplaced).mpr (h before half after l heq hrun)

/-- Across and back; then the bridge takes no more bytes, and an activation at
the same height is refused. -/
def backAndRefused : List (Half ℚ) :=
  iteration (.portal (.activated 7 2559 720)) ++ iteration (.capture (.motion (-9) 0)) ++
    iteration (.capture .frame) ++
    [.top { Top.quiet with keepaliveDue := true },
      .receive (.event (.portal (.activated 8 2559 720)) ⟨.ok (), .ok ()⟩)]

theorem released_on_edge_iff_backAndRefused :
    (router ubuntu).Meets (Seated ubuntu windows)
        (.head (.start ubuntu windows (.opened (some 8) [0x02, 0x02, 0x01, 0x00])))
        backAndRefused ∧
      ((((router ubuntu).exec
          (.head (.start ubuntu windows (.opened (some 8) [0x02, 0x02, 0x01, 0x00])))
          backAndRefused).bind Loop.atHead).map Router.released) =
        some [(7, 2559, 720), (8, 2559, 720)] :=
  ⟨(released_on_edge_iff ubuntu windows _ backAndRefused).mpr (by decide +kernel),
    by decide +kernel⟩

/-- The first activation finds no bridge: the cursor is released in the middle
of the screen, neither on the edge nor at the height of the activation. -/
theorem released_off_edge :
    ((((router ubuntu).exec (.head (.start ubuntu windows .refused))
        (iteration (.portal (.activated 7 2559 300)))).bind Loop.atHead).map Router.released) =
      some [(7, 1280, 720)] ∧
    ¬ (router ubuntu).Meets (Seated ubuntu windows) (.head (.start ubuntu windows .refused))
        (iteration (.portal (.activated 7 2559 300))) := by
  refine ⟨by decide +kernel, ?_⟩
  rintro ⟨-, hmeets⟩
  have hseated := (hmeets ((Router.start ubuntu windows .refused).top ubuntu .quiet) rfl).1
  have hrun : (router ubuntu).exec (.head (.start ubuntu windows .refused)) [.top .quiet] =
      some ((Router.start ubuntu windows .refused).top ubuntu .quiet) := rfl
  obtain ⟨hok, hplaced⟩ := placed_run hrun
  have hseatable := (seated_iff _ hok hplaced).mp hseated
  revert hseatable
  decide +kernel

end Beaglewing.Input
