/-
# `Input.Screens` — where the cursor can be, in exact arithmetic

The operations of `Space` in any order, as labels of a transition system
(`Space.motions`).  Nothing depends on the sizes of the screens beyond two
pixels a side: the cursor is on the screen of its target, no operation
panics, and what changes the target seats the cursor on the shared edge
(`cursor_on_screen`).

Vertically a trip to the remote side and back is a function of the height it
starts from:

| | |
| :-- | :-- |
| `toRemoteY` | the height a crossing gives on the remote screen |
| `tripY` | the height on return, `min y (hL - hL / hR)` |
| `vertical_continuity` | what the code gives, over any number of crossings |

The loss is bounded by one remote pixel in local pixels, and the second trip
loses nothing.
-/
import Beaglewing.Base.Lts
import Beaglewing.Input.Geometry

namespace Beaglewing.Input

open Base

/-! ## Clamping rationals -/

theorem clamp_rat {a lo hi : ℚ} (h : lo ≤ hi) : clamp a lo hi = some (max lo (min a hi)) := by
  have hle : F64.le lo hi = true := decide_eq_true h
  rw [clamp, if_pos hle]
  simp only [F64.lt, decide_eq_true_eq]
  by_cases hlo : a < lo
  · rw [if_pos hlo, if_neg (not_lt.mpr h), min_eq_left (hlo.le.trans h), max_eq_left hlo.le]
  · rw [if_neg hlo]
    by_cases hhi : hi < a
    · rw [if_pos hhi, min_eq_right hhi.le, max_eq_right h]
    · rw [if_neg hhi, min_eq_left (not_lt.mp hhi), max_eq_right (not_lt.mp hlo)]

/-- What is in the range is left alone. -/
theorem clamp_rat_of_mem {a lo hi : ℚ} (hlo : lo ≤ a) (hhi : a ≤ hi) :
    clamp a lo hi = some a := by
  rw [clamp_rat (hlo.trans hhi), min_eq_left hhi, max_eq_right hlo]

theorem clamp_rat_mem {a lo hi b : ℚ} (h : lo ≤ hi) (hb : clamp a lo hi = some b) :
    lo ≤ b ∧ b ≤ hi := by
  rw [clamp_rat h, Option.some.injEq] at hb
  subst hb
  exact ⟨le_max_left _ _, max_le h (min_le_right _ _)⟩

namespace Space

theorem mapY_rat (src dst : Screen ℚ) (y : ℚ) (h : 1 ≤ dst.height) :
    mapY src dst y = some (max 0 (min (y / src.height * dst.height) (dst.height - 1))) :=
  clamp_rat (by simpa [F64.ofInt] using h)

/-! ## The operations as labels -/

/-- An operation of the model. -/
inductive Motion (F : Type) where
  | applyDelta (dx dy : F)
  | enterRemote (localY : F)
  | forceLocal

/-- `none` where the code panics. -/
def motion {F : Type} [F64 F] (s : Space F) : Motion F → Option (Space F)
  | .applyDelta dx dy => (s.applyDelta dx dy).map Prod.fst
  | .enterRemote localY => s.enterRemote localY
  | .forceLocal => s.forceLocal

def motions (F : Type) [F64 F] : Lts (Space F) (Motion F) where
  step := motion

/-- The x of the shared edge on the current screen. -/
def sharedEdge {F : Type} [F64 F] (s : Space F) : F :=
  match s.target, s.edge with
  | .local, .right => s.local.width - F64.ofInt 1
  | .local, .left => F64.ofInt 0
  | .remote, .right => F64.ofInt 0
  | .remote, .left => s.remote.width - F64.ofInt 1

/-- The screens and the edge are those of the other model. -/
structure SameLayout {F : Type} (s₀ s : Space F) : Prop where
  «local» : s.local = s₀.local
  remote : s.remote = s₀.remote
  edge : s.edge = s₀.edge

theorem SameLayout.trans {F : Type} {s₀ s₁ s₂ : Space F} (h₁ : SameLayout s₀ s₁)
    (h₂ : SameLayout s₁ s₂) : SameLayout s₀ s₂ :=
  ⟨h₂.local.trans h₁.local, h₂.remote.trans h₁.remote, h₂.edge.trans h₁.edge⟩

section Layout
variable {F : Type} [F64 F] {s s' : Space F}

theorem sharedEdge_seatRemote (s : Space F) (y : F) :
    (s.seatRemote y).x = (s.seatRemote y).sharedEdge := by
  cases hedge : s.edge <;> simp only [seatRemote, sharedEdge, hedge]

theorem sharedEdge_seatLocal (s : Space F) (y : F) :
    (s.seatLocal y).x = (s.seatLocal y).sharedEdge := by
  cases hedge : s.edge <;> simp only [seatLocal, sharedEdge, hedge]

/-- The remote side is entered from the local side only. -/
theorem local_of_crossing {nx : F} (h : s.crossing nx = .toRemote) : s.target = .local := by
  cases htarget : s.target with
  | «local» => rfl
  | remote =>
      cases hedge : s.edge <;>
        · simp only [crossing, htarget, hedge] at h
          split at h <;> cases h

theorem remote_of_crossing {nx : F} (h : s.crossing nx = .toLocal) : s.target = .remote := by
  cases htarget : s.target with
  | «local» =>
      cases hedge : s.edge <;>
        · simp only [crossing, htarget, hedge] at h
          split at h <;> cases h
  | remote => rfl

/-- What a motion does: it stays and both coordinates are clamped, or it
crosses and the height is mapped. -/
theorem applyDelta_cases {dx dy : F} {c : Crossing} (h : s.applyDelta dx dy = some (s', c)) :
    ∃ y, clamp (s.y + dy) (F64.ofInt 0) (s.curScreen.height - F64.ofInt 1) = some y ∧
      s.crossing (s.x + dx) = c ∧
      match c with
      | .none => ∃ x, clamp (s.x + dx) (F64.ofInt 0) (s.curScreen.width - F64.ofInt 1) = some x ∧
          s' = { s with x := x, y := y }
      | .toRemote => ∃ y', mapY s.local s.remote y = some y' ∧ s' = s.seatRemote y'
      | .toLocal => ∃ y', mapY s.remote s.local y = some y' ∧ s' = s.seatLocal y' := by
  simp only [applyDelta, Option.bind_eq_bind, Option.bind_eq_some_iff] at h
  obtain ⟨y, hy, h⟩ := h
  refine ⟨y, hy, ?_⟩
  cases hc : s.crossing (s.x + dx) with
  | none =>
      rw [hc] at h
      obtain ⟨x, hx, h⟩ := Option.bind_eq_some_iff.mp h
      cases h
      exact ⟨rfl, x, hx, rfl⟩
  | toRemote =>
      rw [hc] at h
      obtain ⟨y', hy', h⟩ := Option.bind_eq_some_iff.mp h
      cases h
      exact ⟨rfl, y', hy', rfl⟩
  | toLocal =>
      rw [hc] at h
      obtain ⟨y', hy', h⟩ := Option.bind_eq_some_iff.mp h
      cases h
      exact ⟨rfl, y', hy', rfl⟩

theorem enterRemote_cases {localY : F} (h : s.enterRemote localY = some s') :
    ∃ y y', clamp localY (F64.ofInt 0) (s.local.height - F64.ofInt 1) = some y ∧
      mapY s.local s.remote y = some y' ∧ s' = s.seatRemote y' := by
  simp only [enterRemote, Option.bind_eq_bind, Option.bind_eq_some_iff] at h
  obtain ⟨y, hy, y', hy', h⟩ := h
  cases h
  exact ⟨y, y', hy, hy', rfl⟩

theorem forceLocal_cases (h : s.forceLocal = some s') :
    (s.target = .local ∧ s' = s) ∨
      ∃ y', s.target = .remote ∧ mapY s.remote s.local s.y = some y' ∧ s' = s.seatLocal y' := by
  cases htarget : s.target with
  | «local» =>
      rw [forceLocal, if_neg (by simp [htarget])] at h
      cases h
      exact .inl ⟨rfl, rfl⟩
  | remote =>
      rw [forceLocal, if_pos htarget] at h
      obtain ⟨y', hy', h⟩ := Option.bind_eq_some_iff.mp h
      cases h
      exact .inr ⟨y', rfl, hy', rfl⟩

theorem sameLayout_applyDelta {dx dy : F} {c : Crossing}
    (h : s.applyDelta dx dy = some (s', c)) : SameLayout s s' := by
  obtain ⟨y, -, -, h⟩ := applyDelta_cases h
  cases c with
  | none =>
      obtain ⟨x, -, rfl⟩ := h
      exact ⟨rfl, rfl, rfl⟩
  | toRemote =>
      obtain ⟨y', -, rfl⟩ := h
      exact ⟨rfl, rfl, rfl⟩
  | toLocal =>
      obtain ⟨y', -, rfl⟩ := h
      exact ⟨rfl, rfl, rfl⟩

theorem sameLayout_enterRemote {y : F} (h : s.enterRemote y = some s') : SameLayout s s' := by
  obtain ⟨y₁, y₂, -, -, rfl⟩ := enterRemote_cases h
  exact ⟨rfl, rfl, rfl⟩

theorem sameLayout_forceLocal (h : s.forceLocal = some s') : SameLayout s s' := by
  rcases forceLocal_cases h with ⟨-, rfl⟩ | ⟨y', -, -, rfl⟩
  · exact ⟨rfl, rfl, rfl⟩
  · exact ⟨rfl, rfl, rfl⟩

/-- No operation changes the layout. -/
theorem sameLayout_motion {m : Motion F} (h : s.motion m = some s') : SameLayout s s' := by
  cases m with
  | applyDelta dx dy =>
      obtain ⟨⟨s₁, c⟩, hs, rfl⟩ := Option.map_eq_some_iff.mp h
      exact sameLayout_applyDelta hs
  | enterRemote y => exact sameLayout_enterRemote h
  | forceLocal => exact sameLayout_forceLocal h

/-- An operation that changes the target seats the cursor on the shared
edge of the new screen. -/
theorem sharedEdge_motion {m : Motion F} (h : s.motion m = some s') (ht : s'.target ≠ s.target) :
    s'.x = s'.sharedEdge := by
  cases m with
  | applyDelta dx dy =>
      obtain ⟨⟨s₁, c⟩, hs, rfl⟩ := Option.map_eq_some_iff.mp h
      obtain ⟨y, -, -, hs⟩ := applyDelta_cases hs
      cases c with
      | none =>
          obtain ⟨x, -, rfl⟩ := hs
          exact absurd rfl ht
      | toRemote =>
          obtain ⟨y', -, rfl⟩ := hs
          exact sharedEdge_seatRemote s y'
      | toLocal =>
          obtain ⟨y', -, rfl⟩ := hs
          exact sharedEdge_seatLocal s y'
  | enterRemote y =>
      obtain ⟨y₁, y₂, -, -, rfl⟩ := enterRemote_cases h
      exact sharedEdge_seatRemote s y₂
  | forceLocal =>
      rcases forceLocal_cases h with ⟨-, rfl⟩ | ⟨y', -, -, rfl⟩
      · exact absurd rfl ht
      · exact sharedEdge_seatLocal s y'

/-- A motion answers with the change of target it made. -/
theorem crossing_applyDelta {dx dy : F} {c : Crossing} (h : s.applyDelta dx dy = some (s', c)) :
    (c = .toRemote ↔ s.target = .local ∧ s'.target = .remote) ∧
      (c = .toLocal ↔ s.target = .remote ∧ s'.target = .local) := by
  obtain ⟨-, -, hc, -⟩ := applyDelta_cases h
  have hafter := target_applyDelta h
  cases c with
  | none => cases hs : s.target <;> simp_all
  | toRemote => simp_all [local_of_crossing hc]
  | toLocal => simp_all [remote_of_crossing hc]

end Layout

/-! ## The cursor stays on the screen -/

/-- Two pixels a side, or more. -/
structure Sized (screen : Screen ℚ) : Prop where
  width : 2 ≤ screen.width
  height : 2 ≤ screen.height

/-- The cursor is on the screen of the target. -/
structure OnScreen (s : Space ℚ) : Prop where
  x_nonneg : 0 ≤ s.x
  x_le : s.x ≤ s.curScreen.width - 1
  y_nonneg : 0 ≤ s.y
  y_le : s.y ≤ s.curScreen.height - 1

theorem sized_curScreen {s : Space ℚ} (hl : Sized s.local) (hr : Sized s.remote) :
    Sized s.curScreen := by
  rw [curScreen]
  split
  · exact hl
  · exact hr

theorem onScreen_new {here there : Screen ℚ} (edge : Edge) (h : Sized here) :
    OnScreen (new here there edge) := by
  obtain ⟨hw, hh⟩ := h
  constructor <;> simp only [new, curScreen, F64.ofInt] <;> push_cast <;> linarith

/-- A range of pixels is not empty. -/
theorem zero_le_pred {n : ℚ} (h : 1 ≤ n) : (F64.ofInt 0 : ℚ) ≤ n - F64.ofInt 1 := by
  simp only [F64.ofInt]
  push_cast
  linarith

theorem mapY_mem {src dst : Screen ℚ} (hdst : Sized dst) {y y' : ℚ}
    (h : mapY src dst y = some y') : 0 ≤ y' ∧ y' ≤ dst.height - 1 := by
  have h := clamp_rat_mem (zero_le_pred (by linarith [hdst.height])) h
  simpa only [F64.ofInt, Int.cast_zero, Int.cast_one] using h

theorem onScreen_seatRemote {s : Space ℚ} (hr : Sized s.remote) {y : ℚ} (h0 : 0 ≤ y)
    (hy : y ≤ s.remote.height - 1) : OnScreen (s.seatRemote y) := by
  have hw := hr.width
  cases hedge : s.edge <;> constructor <;>
    simp only [seatRemote, curScreen, hedge, F64.ofInt] <;> push_cast <;> linarith

theorem onScreen_seatLocal {s : Space ℚ} (hl : Sized s.local) {y : ℚ} (h0 : 0 ≤ y)
    (hy : y ≤ s.local.height - 1) : OnScreen (s.seatLocal y) := by
  have hw := hl.width
  cases hedge : s.edge <;> constructor <;>
    simp only [seatLocal, curScreen, hedge, F64.ofInt] <;> push_cast <;> linarith

theorem onScreen_motion {s s' : Space ℚ} (hl : Sized s.local) (hr : Sized s.remote)
    (hs : OnScreen s) {m : Motion ℚ} (h : s.motion m = some s') : OnScreen s' := by
  cases m with
  | applyDelta dx dy =>
      obtain ⟨⟨s₁, c⟩, hdelta, rfl⟩ := Option.map_eq_some_iff.mp h
      obtain ⟨y, hy, -, h⟩ := applyDelta_cases hdelta
      cases c with
      | none =>
          obtain ⟨x, hx, rfl⟩ := h
          have hcur := sized_curScreen hl hr
          have hx := clamp_rat_mem (zero_le_pred (by linarith [hcur.width])) hx
          have hy := clamp_rat_mem (zero_le_pred (by linarith [hcur.height])) hy
          simp only [F64.ofInt, Int.cast_zero, Int.cast_one] at hx hy
          exact ⟨hx.1, hx.2, hy.1, hy.2⟩
      | toRemote =>
          obtain ⟨y', hy', rfl⟩ := h
          obtain ⟨h0, h1⟩ := mapY_mem hr hy'
          exact onScreen_seatRemote hr h0 h1
      | toLocal =>
          obtain ⟨y', hy', rfl⟩ := h
          obtain ⟨h0, h1⟩ := mapY_mem hl hy'
          exact onScreen_seatLocal hl h0 h1
  | enterRemote y =>
      obtain ⟨y₁, y₂, -, hy₂, rfl⟩ := enterRemote_cases h
      obtain ⟨h0, h1⟩ := mapY_mem hr hy₂
      exact onScreen_seatRemote hr h0 h1
  | forceLocal =>
      rcases forceLocal_cases h with ⟨-, rfl⟩ | ⟨y', -, hy', rfl⟩
      · exact hs
      · obtain ⟨h0, h1⟩ := mapY_mem hl hy'
        exact onScreen_seatLocal hl h0 h1

/-! ## No operation panics -/

theorem enterRemote_isSome {s : Space ℚ} (hl : 1 ≤ s.local.height) (hr : 1 ≤ s.remote.height)
    (y : ℚ) : ∃ s', s.enterRemote y = some s' := by
  simp only [enterRemote, clamp_rat (zero_le_pred hl), Option.bind_eq_bind, Option.bind_some,
    mapY_rat _ _ _ hr]
  exact ⟨_, rfl⟩

theorem forceLocal_isSome {s : Space ℚ} (hl : 1 ≤ s.local.height) :
    ∃ s', s.forceLocal = some s' := by
  by_cases ht : s.target = .remote
  · rw [forceLocal, if_pos ht, mapY_rat _ _ _ hl]
    exact ⟨_, rfl⟩
  · rw [forceLocal, if_neg ht]
    exact ⟨_, rfl⟩

/-- A motion that crosses does not clamp across. -/
theorem applyDelta_isSome {s : Space ℚ} (hl : 1 ≤ s.local.height) (hr : 1 ≤ s.remote.height)
    (dx dy : ℚ) (h : s.crossing (s.x + dx) ≠ .none ∨ 1 ≤ s.curScreen.width) :
    ∃ s', s.applyDelta dx dy = some (s', s.crossing (s.x + dx)) := by
  have hcur : 1 ≤ s.curScreen.height := by
    rw [curScreen]
    split
    · exact hl
    · exact hr
  simp only [applyDelta, Option.bind_eq_bind, clamp_rat (zero_le_pred hcur), Option.bind_some]
  cases hc : s.crossing (s.x + dx) with
  | none =>
      have hw : 1 ≤ s.curScreen.width := h.resolve_left (by simp [hc])
      rw [clamp_rat (zero_le_pred hw)]
      exact ⟨_, rfl⟩
  | toRemote =>
      rw [mapY_rat _ _ _ hr]
      exact ⟨_, rfl⟩
  | toLocal =>
      rw [mapY_rat _ _ _ hl]
      exact ⟨_, rfl⟩

theorem motion_isSome {s : Space ℚ} (hl : Sized s.local) (hr : Sized s.remote) (m : Motion ℚ) :
    ∃ s', s.motion m = some s' := by
  have hlh : 1 ≤ s.local.height := by linarith [hl.height]
  have hrh : 1 ≤ s.remote.height := by linarith [hr.height]
  cases m with
  | applyDelta dx dy =>
      have hw : 1 ≤ s.curScreen.width := by linarith [(sized_curScreen hl hr).width]
      obtain ⟨s', hs'⟩ := applyDelta_isSome hlh hrh dx dy (.inr hw)
      exact ⟨s', by rw [motion, hs']; rfl⟩
  | enterRemote y => exact enterRemote_isSome hlh hrh y
  | forceLocal => exact forceLocal_isSome hlh

/-! ## Any sequence of operations -/

/-- The layout of the run, and a cursor on the screen. -/
structure Sound (here there : Screen ℚ) (edge : Edge) (s : Space ℚ) : Prop where
  layout : SameLayout (new here there edge) s
  onScreen : OnScreen s

theorem sound_exec {here there : Screen ℚ} (edge : Edge) (hl : Sized here) (hr : Sized there)
    (ms : List (Motion ℚ)) :
    ∃ s, (motions ℚ).exec (new here there edge) ms = some s ∧ Sound here there edge s := by
  induction ms using List.reverseRec with
  | nil => exact ⟨_, rfl, ⟨rfl, rfl, rfl⟩, onScreen_new edge hl⟩
  | append_singleton ms m ih =>
      obtain ⟨s, hrun, hlayout, hon⟩ := ih
      have hl' : Sized s.local := hlayout.local ▸ hl
      have hr' : Sized s.remote := hlayout.remote ▸ hr
      obtain ⟨s', hstep⟩ := motion_isSome hl' hr' m
      exact ⟨s', (motions ℚ).exec_snoc.mpr ⟨s, hrun, hstep⟩,
        hlayout.trans (sameLayout_motion hstep), onScreen_motion hl' hr' hon hstep⟩

/-- After any operations the cursor is on the screen of its target; the next
one, whatever it is, does not panic, and if it changes the target it seats
the cursor on the shared edge of the new screen; and a motion answers with
the change of target it made. -/
theorem cursor_on_screen {here there : Screen ℚ} (hl : Sized here) (hr : Sized there) (edge : Edge)
    (ms : List (Motion ℚ)) :
    ∃ s, (motions ℚ).exec (new here there edge) ms = some s ∧
      SameLayout (new here there edge) s ∧ OnScreen s ∧
      (∀ m, ∃ s', s.motion m = some s' ∧ (s'.target ≠ s.target → s'.x = s'.sharedEdge)) ∧
      ∀ dx dy, ∃ s' c, s.applyDelta dx dy = some (s', c) ∧
        (c = .toRemote ↔ s.target = .local ∧ s'.target = .remote) ∧
        (c = .toLocal ↔ s.target = .remote ∧ s'.target = .local) := by
  obtain ⟨s, hrun, hlayout, hon⟩ := sound_exec edge hl hr ms
  have hl' : Sized s.local := hlayout.local ▸ hl
  have hr' : Sized s.remote := hlayout.remote ▸ hr
  refine ⟨s, hrun, hlayout, hon, ?_, ?_⟩
  · intro m
    obtain ⟨s', hstep⟩ := motion_isSome hl' hr' m
    exact ⟨s', hstep, sharedEdge_motion hstep⟩
  · intro dx dy
    obtain ⟨s', hstep⟩ := motion_isSome hl' hr' (.applyDelta dx dy)
    obtain ⟨⟨s₁, c⟩, hdelta, rfl⟩ := Option.map_eq_some_iff.mp hstep
    exact ⟨s₁, c, hdelta, crossing_applyDelta hdelta⟩

theorem cursor_on_screen_thereAndBack :
    ∃ s, (motions ℚ).exec (new ⟨2560, 1440⟩ ⟨1920, 1080⟩ .right)
      [.applyDelta 9999 5, .applyDelta (-3) 9999, .enterRemote (-7), .forceLocal] = some s ∧
      OnScreen s := by
  obtain ⟨s, hrun, -, hon, -⟩ :=
    @cursor_on_screen ⟨2560, 1440⟩ ⟨1920, 1080⟩
      ⟨by norm_num, by norm_num⟩ ⟨by norm_num, by norm_num⟩ .right
      [.applyDelta 9999 5, .applyDelta (-3) 9999, .enterRemote (-7), .forceLocal]
  exact ⟨s, hrun, hon⟩

/-! ## Heights -/

/-- A height on one screen, scaled to another and cut off at its last row. -/
def scaleY (hSrc hDst y : ℚ) : ℚ := min (y / hSrc * hDst) (hDst - 1)

/-- The height after a trip from a screen of height `hL` to one of height
`hR` and back. -/
def tripY (hL hR y : ℚ) : ℚ := min y (hL - hL / hR)

section Heights
variable {hL hR y : ℚ}

theorem scaleY_mem (hl : 1 ≤ hL) (hr : 1 ≤ hR) (hy : 0 ≤ y) :
    0 ≤ scaleY hL hR y ∧ scaleY hL hR y ≤ hR - 1 := by
  refine ⟨le_min ?_ (by linarith), min_le_right _ _⟩
  have : 0 ≤ hL := by linarith
  have : 0 ≤ hR := by linarith
  positivity

theorem tripY_le (hL hR y : ℚ) : tripY hL hR y ≤ y := min_le_left _ _

theorem monotone_tripY (hL hR : ℚ) : Monotone (tripY hL hR) :=
  fun _ _ h => min_le_min_right _ h

theorem tripY_tripY (hL hR y : ℚ) : tripY hL hR (tripY hL hR y) = tripY hL hR y := by
  rw [tripY, tripY, min_assoc, min_self]

/-- What is lost is less than the local height of one remote row. -/
theorem sub_tripY_le (hy : y ≤ hL - 1) : y - tripY hL hR y ≤ max 0 (hL / hR - 1) := by
  rw [tripY]
  rcases min_choice y (hL - hL / hR) with h | h
  · rw [h, sub_self]
    exact le_max_left _ _
  · rw [h]
    exact le_max_of_le_right (by linarith)

/-- A remote screen that is at least as high loses nothing. -/
theorem tripY_eq (hr : 1 ≤ hR) (hle : hL ≤ hR) (hy : y ≤ hL - 1) : tripY hL hR y = y := by
  have : hL / hR ≤ 1 := (div_le_one (by linarith)).mpr hle
  exact min_eq_left (by linarith)

/-- Scaling there and back is the trip. -/
theorem scaleY_scaleY (hl : 1 ≤ hL) (hr : 1 ≤ hR) (hy : y ≤ hL - 1) :
    scaleY hR hL (scaleY hL hR y) = tripY hL hR y := by
  have hl0 : 0 < hL := by linarith
  have hr0 : 0 < hR := by linarith
  have hscale : 0 ≤ hL / hR := by positivity
  calc scaleY hR hL (scaleY hL hR y)
      = min (min (y / hL * hR) (hR - 1) * (hL / hR)) (hL - 1) := by
        rw [scaleY, scaleY]
        congr 1
        ring
    _ = min (min (y / hL * hR * (hL / hR)) ((hR - 1) * (hL / hR))) (hL - 1) := by
        rw [min_mul_of_nonneg _ _ hscale]
    _ = min (min y (hL - hL / hR)) (hL - 1) := by
        congr 2
        · field_simp
        · field_simp
    _ = tripY hL hR y := min_eq_left ((tripY_le hL hR y).trans hy)

/-- After a trip the remote height is what it was. -/
theorem scaleY_tripY (hl : 1 ≤ hL) (hr : 1 ≤ hR) :
    scaleY hL hR (tripY hL hR y) = scaleY hL hR y := by
  have hl0 : 0 < hL := by linarith
  have hr0 : 0 < hR := by linarith
  have hscale : 0 ≤ hR / hL := by positivity
  calc scaleY hL hR (tripY hL hR y)
      = min (min y (hL - hL / hR) * (hR / hL)) (hR - 1) := by
        rw [scaleY, tripY]
        congr 1
        ring
    _ = min (min (y / hL * hR) (hR - 1)) (hR - 1) := by
        rw [min_mul_of_nonneg _ _ hscale]
        congr 2
        · ring
        · field_simp
    _ = scaleY hL hR y := by rw [min_assoc, min_self, scaleY]

theorem tripY_mem (hl : 1 ≤ hL) (hr : 1 ≤ hR) (h0 : 0 ≤ y) (hy : y ≤ hL - 1) :
    0 ≤ tripY hL hR y ∧ tripY hL hR y ≤ hL - 1 := by
  rw [← scaleY_scaleY hl hr hy]
  exact scaleY_mem hr hl (scaleY_mem hl hr h0).1

end Heights

/-- A height that is on the screen is mapped by scaling. -/
theorem mapY_eq_scaleY {src dst : Screen ℚ} {y : ℚ} (hs : 1 ≤ src.height) (hd : 1 ≤ dst.height)
    (hy : 0 ≤ y) : mapY src dst y = some (scaleY src.height dst.height y) := by
  rw [mapY_rat src dst y hd, ← scaleY, max_eq_right (scaleY_mem hs hd hy).1]

/-! ## Crossings without vertical motion -/

/-- The remote side is entered from the local height `y`: by an activation,
or by a motion that crosses at that height. -/
inductive Enters (s : Space ℚ) (y : ℚ) (s₁ : Space ℚ) : Prop where
  | activation (h : s.enterRemote y = some s₁)
  | crossing (dx dy : ℚ) (h : s.applyDelta dx dy = some (s₁, .toRemote))
      (hy : clamp (s.y + dy) 0 (s.local.height - 1) = some y)

/-- The operation has no vertical motion. -/
def Level (s : Space ℚ) : Motion ℚ → Prop
  | .applyDelta _ dy => dy = 0
  | .enterRemote localY => s.target = .local ∧ localY = s.y
  | .forceLocal => True

instance (s : Space ℚ) : DecidablePred (Level s)
  | .applyDelta _ dy => inferInstanceAs (Decidable (dy = 0))
  | .enterRemote localY => inferInstanceAs (Decidable (s.target = .local ∧ localY = s.y))
  | .forceLocal => isTrue trivial

/-- The cursor is at the height of a trip from the local height `y`. -/
structure OnTrip (hL hR y : ℚ) (s : Space ℚ) : Prop where
  «local» : s.local.height = hL
  remote : s.remote.height = hR
  height : s.y = match s.target with
    | .local => tripY hL hR y
    | .remote => scaleY hL hR y

section Trips
variable {hL hR y : ℚ} {s s' : Space ℚ}

theorem onTrip_seatRemote (hs : OnTrip hL hR y s) {y' : ℚ} (hy' : y' = scaleY hL hR y) :
    OnTrip hL hR y (s.seatRemote y') :=
  ⟨hs.local, hs.remote, hy'⟩

theorem onTrip_seatLocal (hs : OnTrip hL hR y s) {y' : ℚ} (hy' : y' = tripY hL hR y) :
    OnTrip hL hR y (s.seatLocal y') :=
  ⟨hs.local, hs.remote, hy'⟩

theorem onTrip_enters (hl : 1 ≤ hL) (hr : 1 ≤ hR) (hlocal : s.local.height = hL)
    (hremote : s.remote.height = hR) (h0 : 0 ≤ y) (hy : y ≤ hL - 1) (h : Enters s y s') :
    OnTrip hL hR y s' := by
  subst hlocal hremote
  cases h with
  | activation h =>
      obtain ⟨y₁, y₂, hy₁, hy₂, rfl⟩ := enterRemote_cases h
      simp only [F64.ofInt, Int.cast_zero, Int.cast_one, clamp_rat_of_mem h0 hy,
        Option.some.injEq] at hy₁
      subst hy₁
      rw [mapY_eq_scaleY hl hr h0, Option.some.injEq] at hy₂
      exact ⟨rfl, rfl, hy₂.symm⟩
  | crossing dx dy h hclamp =>
      obtain ⟨y₁, hy₁, hc, y₂, hy₂, rfl⟩ := applyDelta_cases h
      have ht := local_of_crossing hc
      simp only [curScreen, ht, F64.ofInt, Int.cast_zero, Int.cast_one, hclamp,
        Option.some.injEq] at hy₁
      subst hy₁
      rw [mapY_eq_scaleY hl hr h0, Option.some.injEq] at hy₂
      exact ⟨rfl, rfl, hy₂.symm⟩

/-- Without vertical motion the clamp to the screen does nothing. -/
theorem clamp_onTrip (hl : 1 ≤ hL) (hr : 1 ≤ hR) (h0 : 0 ≤ y) (hy : y ≤ hL - 1)
    (hs : OnTrip hL hR y s) :
    clamp s.y (F64.ofInt 0) (s.curScreen.height - F64.ofInt 1) = some s.y := by
  simp only [F64.ofInt, Int.cast_zero, Int.cast_one]
  have hheight := hs.height
  cases ht : s.target with
  | «local» =>
      rw [ht] at hheight
      obtain ⟨h₁, h₂⟩ := tripY_mem hl hr h0 hy
      simp only [curScreen, ht, hs.local]
      exact clamp_rat_of_mem (hheight ▸ h₁) (hheight ▸ h₂)
  | remote =>
      rw [ht] at hheight
      obtain ⟨h₁, h₂⟩ := scaleY_mem hl hr h0
      simp only [curScreen, ht, hs.remote]
      exact clamp_rat_of_mem (hheight ▸ h₁) (hheight ▸ h₂)

theorem mapY_toRemote (hl : 1 ≤ hL) (hr : 1 ≤ hR) (h0 : 0 ≤ y) (hy : y ≤ hL - 1)
    (hs : OnTrip hL hR y s) (ht : s.target = .local) :
    mapY s.local s.remote s.y = some (scaleY hL hR y) := by
  have hheight := hs.height
  rw [ht] at hheight
  rw [hheight, mapY_eq_scaleY (hs.local ▸ hl) (hs.remote ▸ hr) (tripY_mem hl hr h0 hy).1,
    hs.local, hs.remote, scaleY_tripY hl hr]

theorem mapY_toLocal (hl : 1 ≤ hL) (hr : 1 ≤ hR) (h0 : 0 ≤ y) (hy : y ≤ hL - 1)
    (hs : OnTrip hL hR y s) (ht : s.target = .remote) :
    mapY s.remote s.local s.y = some (tripY hL hR y) := by
  have hheight := hs.height
  rw [ht] at hheight
  rw [hheight, mapY_eq_scaleY (hs.remote ▸ hr) (hs.local ▸ hl) (scaleY_mem hl hr h0).1,
    hs.local, hs.remote, scaleY_scaleY hl hr hy]

/-- Every operation without vertical motion keeps the height. -/
theorem onTrip_motion (hl : 1 ≤ hL) (hr : 1 ≤ hR) (h0 : 0 ≤ y) (hy : y ≤ hL - 1)
    (hs : OnTrip hL hR y s) {m : Motion ℚ} (hm : Level s m) (h : s.motion m = some s') :
    OnTrip hL hR y s' := by
  cases m with
  | applyDelta dx dy =>
      obtain rfl : dy = 0 := hm
      obtain ⟨⟨s₁, c⟩, hdelta, rfl⟩ := Option.map_eq_some_iff.mp h
      obtain ⟨y₁, hy₁, hc, hdelta⟩ := applyDelta_cases hdelta
      have hy₁ : s.y = y₁ := by
        simpa [clamp_onTrip hl hr h0 hy hs] using hy₁
      subst hy₁
      cases c with
      | none =>
          obtain ⟨x, -, rfl⟩ := hdelta
          exact ⟨hs.local, hs.remote, hs.height⟩
      | toRemote =>
          obtain ⟨y₂, hy₂, rfl⟩ := hdelta
          rw [mapY_toRemote hl hr h0 hy hs (local_of_crossing hc), Option.some.injEq] at hy₂
          exact onTrip_seatRemote hs hy₂.symm
      | toLocal =>
          obtain ⟨y₂, hy₂, rfl⟩ := hdelta
          rw [mapY_toLocal hl hr h0 hy hs (remote_of_crossing hc), Option.some.injEq] at hy₂
          exact onTrip_seatLocal hs hy₂.symm
  | enterRemote localY =>
      obtain ⟨ht, rfl⟩ := hm
      obtain ⟨y₁, y₂, hy₁, hy₂, rfl⟩ := enterRemote_cases h
      have hcur : s.curScreen = s.local := by rw [curScreen, ht]
      have hy₁ : s.y = y₁ := by
        rw [← hcur, clamp_onTrip hl hr h0 hy hs] at hy₁
        exact Option.some.inj hy₁
      subst hy₁
      rw [mapY_toRemote hl hr h0 hy hs ht, Option.some.injEq] at hy₂
      exact onTrip_seatRemote hs hy₂.symm
  | forceLocal =>
      rcases forceLocal_cases h with ⟨-, rfl⟩ | ⟨y₂, ht, hy₂, rfl⟩
      · exact hs
      · rw [mapY_toLocal hl hr h0 hy hs ht, Option.some.injEq] at hy₂
        exact onTrip_seatLocal hs hy₂.symm

/-- So does a run of such operations. -/
theorem onTrip_exec (hl : 1 ≤ hL) (hr : 1 ≤ hR) (h0 : 0 ≤ y) (hy : y ≤ hL - 1)
    (hs : OnTrip hL hR y s) {ms : List (Motion ℚ)} (hrun : (motions ℚ).exec s ms = some s')
    (hlevel : (motions ℚ).Meets Level s ms) : OnTrip hL hR y s' :=
  (motions ℚ).exec_meets hs
    (fun _ _ _ hs hm hstep => onTrip_motion hl hr h0 hy hs hm hstep) hrun hlevel

end Trips

/-- Entering the remote side from a local height and returning without
vertical motion gives a height that depends on that one and the screens'
heights alone.  It is at most `hL / hR - 1` less, and equal if the remote
screen is as high as the local one; it is monotone; and any number of further
crossings without vertical motion gives it again. -/
theorem vertical_continuity {hL hR : ℚ} (hl : 1 ≤ hL) (hr : 1 ≤ hR) :
    Monotone (tripY hL hR) ∧
      (∀ y, 0 ≤ y → y ≤ hL - 1 →
        0 ≤ y - tripY hL hR y ∧ y - tripY hL hR y ≤ max 0 (hL / hR - 1) ∧
        (hL ≤ hR → tripY hL hR y = y) ∧ tripY hL hR (tripY hL hR y) = tripY hL hR y) ∧
      ∀ s : Space ℚ, s.local.height = hL → s.remote.height = hR → ∀ y, 0 ≤ y → y ≤ hL - 1 →
        (∃ s₁, s.enterRemote y = some s₁) ∧
        (∀ dx dy, s.crossing (s.x + dx) = .toRemote →
          ∃ s₁, s.applyDelta dx dy = some (s₁, .toRemote)) ∧
        ∀ s₁, Enters s y s₁ →
          (∃ s₂, s₁.forceLocal = some s₂ ∧ s₂.target = .local) ∧
          (∀ dx, s₁.crossing (s₁.x + dx) = .toLocal →
            ∃ s₂, s₁.applyDelta dx 0 = some (s₂, .toLocal) ∧ s₂.target = .local) ∧
          ∀ ms s₂, (motions ℚ).exec s₁ ms = some s₂ → (motions ℚ).Meets Level s₁ ms →
            s₂.target = .local → s₂.y = tripY hL hR y := by
  refine ⟨monotone_tripY hL hR, ?_, ?_⟩
  · intro y _ hy
    exact ⟨sub_nonneg.mpr (tripY_le hL hR y), sub_tripY_le hy, fun hle => tripY_eq hr hle hy,
      tripY_tripY hL hR y⟩
  · intro s hlocal hremote y h0 hy
    refine ⟨enterRemote_isSome (hlocal ▸ hl) (hremote ▸ hr) y, ?_, ?_⟩
    · intro dx dy hc
      have h := applyDelta_isSome (hlocal ▸ hl) (hremote ▸ hr) dx dy
        (.inl (by rw [hc]; exact Crossing.noConfusion))
      rwa [hc] at h
    · intro s₁ hs₁
      have htrip := onTrip_enters hl hr hlocal hremote h0 hy hs₁
      have hl₁ : 1 ≤ s₁.local.height := htrip.local ▸ hl
      have hr₁ : 1 ≤ s₁.remote.height := htrip.remote ▸ hr
      refine ⟨?_, ?_, ?_⟩
      · obtain ⟨s₂, hs₂⟩ := forceLocal_isSome hl₁
        exact ⟨s₂, hs₂, target_forceLocal hs₂⟩
      · intro dx hc
        obtain ⟨s₂, hs₂⟩ := applyDelta_isSome hl₁ hr₁ dx 0
          (.inl (by rw [hc]; exact Crossing.noConfusion))
        rw [hc] at hs₂
        exact ⟨s₂, hs₂, target_applyDelta hs₂⟩
      · intro ms s₂ hrun hlevel ht
        have h := (onTrip_exec hl hr h0 hy htrip hrun hlevel).height
        rwa [ht] at h

/-- At the last row of a screen with a lower one beside it. -/
def lastRow : Space ℚ where
  «local» := ⟨2560, 1440⟩
  remote := ⟨1920, 1080⟩
  edge := .right
  target := .local
  x := 2550
  y := 1439

/-- Back over the edge, and then across again and forced back, twice. -/
def trips : List (Motion ℚ) :=
  [.applyDelta (-5) 0, .applyDelta 700 0, .applyDelta 80 0, .forceLocal, .applyDelta 1 0,
    .applyDelta (-1) 0]

theorem vertical_continuity_lastRow :
    ∃ s₁ s₂, lastRow.applyDelta 50 0 = some (s₁, .toRemote) ∧
      (motions ℚ).exec s₁ trips = some s₂ ∧ s₂.target = .local ∧ s₂.y = 1440 - 1440 / 1080 := by
  obtain ⟨⟨s₁, c⟩, h₁, hc⟩ : ∃ x, lastRow.applyDelta 50 0 = some x ∧ x.2 = .toRemote :=
    Option.map_eq_some_iff.mp (by decide +kernel)
  cases hc
  have hrun : ((lastRow.applyDelta 50 0).bind fun x => ((motions ℚ).exec x.1 trips).map fun s =>
      (s.target, decide ((motions ℚ).Meets Level x.1 trips))) = some (.local, true) := by
    decide +kernel
  rw [h₁, Option.bind_some, Option.map_eq_some_iff] at hrun
  obtain ⟨s₂, h₂, hstate⟩ := hrun
  obtain ⟨htarget, hlevel⟩ := Prod.mk.inj hstate
  obtain ⟨-, -, hspace⟩ := @vertical_continuity 1440 1080 (by norm_num) (by norm_num)
  obtain ⟨-, -, htrips⟩ := hspace lastRow rfl rfl 1439 (by norm_num) (by norm_num)
  have hclamp : clamp (lastRow.y + 0) 0 (lastRow.local.height - 1) = some 1439 := by decide +kernel
  obtain ⟨-, -, hlast⟩ := htrips s₁ (.crossing 50 0 h₁ hclamp)
  refine ⟨s₁, s₂, h₁, h₂, htarget, ?_⟩
  rw [hlast trips s₂ h₂ (of_decide_eq_true hlevel) htarget]
  norm_num [tripY]

end Space
end Beaglewing.Input
