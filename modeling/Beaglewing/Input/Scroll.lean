/-
# `Input.Scroll` — detents received and detents sent

Three places round or cut the scrolling down on its way to the wire.  In
exact arithmetic:

| | detents |
|---|---|
| discrete event of 120 or more, either way | `y / 120` toward zero; the rest is lost |
| discrete event of less | `y`, for compositors that count whole detents |
| continuous event | whole detents of 15 units; the rest is carried on |
| flush | at most 127 either way; the rest is lost |

So the detents of discrete events are sent exactly as they are counted, and
those of continuous events up to the part of one detent that is still
carried (`scroll_balance`), as long as nothing is cut off (`Fits`).
-/
import Beaglewing.Input.Order

namespace Beaglewing.Input

open Base

/-! ## 32-bit integers -/

/-- The number is one of `i32`. -/
def InI32 (n : Int) : Prop := -2147483648 ≤ n ∧ n < 2147483648

instance (n : Int) : Decidable (InI32 n) := by
  unfold InI32
  infer_instance

theorem toInt_sub_of_inI32 {a b : Int32} (h : InI32 (a.toInt - b.toInt)) :
    (a - b).toInt = a.toInt - b.toInt := by
  obtain ⟨hlo, hhi⟩ := h
  rw [Int32.toInt_sub]
  exact Int.bmod_eq_of_le (by omega) (by omega)

theorem toInt_detents {wheel : Int32} (hlo : -127 ≤ wheel.toInt) (hhi : wheel.toInt ≤ 127) :
    (Router.detents wheel).toInt = wheel.toInt := by
  have hmin : min 127 wheel = wheel := by
    show (if (127 : Int32) ≤ wheel then 127 else wheel) = wheel
    split
    · next hle =>
        rw [Int32.le_iff_toInt_le] at hle
        exact Int32.toInt_inj.mp (le_antisymm hle hhi)
    · rfl
  have hmax : max (-127) wheel = wheel := by
    show (if (-127 : Int32) ≤ wheel then wheel else -127) = wheel
    have hle : (-127 : Int32) ≤ wheel := by
      rw [Int32.le_iff_toInt_le]
      exact hlo
    exact if_pos hle
  rw [Router.detents, hmin, hmax, Int32.toInt_toInt8]
  exact Int.bmod_eq_of_le (by omega) (by omega)

/-- The detents that a discrete event counts for. -/
def wholeDetents (y : Int32) : Int := if 120 ≤ |y.toInt| then y.toInt.tdiv 120 else y.toInt

theorem toInt_discreteClicks {y : Int32} (hy : y ≠ Int32.minValue) :
    (Router.discreteClicks y).toInt = wholeDetents y := by
  have habs : y.abs.toInt = |y.toInt| := by
    have hmin : y.toBitVec ≠ BitVec.intMin 32 := by
      intro h
      exact hy (Int32.toBitVec_inj.mp h)
    rw [Int.abs_eq_natAbs]
    exact BitVec.toInt_abs_eq_natAbs_of_ne_intMin hmin
  rw [Router.discreteClicks, wholeDetents]
  have hiff : y.abs ≥ 120 ↔ 120 ≤ |y.toInt| := by
    rw [ge_iff_le, Int32.le_iff_toInt_le, habs]
    rfl
  by_cases h : 120 ≤ |y.toInt|
  · rw [if_pos (hiff.mpr h), if_pos h]
    exact Int32.toInt_div_of_ne_left y 120 hy
  · rw [if_neg (hiff.not.mpr h), if_neg h]

/-! ## Rounding toward zero -/

def trunc (q : ℚ) : Int := if q < 0 then ⌈q⌉ else ⌊q⌋

theorem abs_sub_trunc_lt (q : ℚ) : |q - trunc q| < 1 := by
  rw [trunc, abs_lt]
  split
  · have h₁ := Int.le_ceil q
    have h₂ := Int.ceil_lt_add_one q
    constructor <;> linarith
  · have h₁ := Int.floor_le q
    have h₂ := Int.lt_floor_add_one q
    constructor <;> linarith

theorem toInt_truncI32 {q : ℚ} (h : InI32 (trunc q)) : (F64.truncI32 q).toInt = trunc q := by
  obtain ⟨hlo, hhi⟩ := h
  show (Int32.ofInt (max (-2147483648) (min 2147483647 (trunc q)))).toInt = trunc q
  rw [min_eq_right (by omega), max_eq_right hlo]
  exact Int32.toInt_ofInt_of_le (by omega) (by omega)

/-! ## One half of an iteration -/

def Message.detents : Message → Int
  | .pointerWheel detents => detents.toInt
  | _ => 0

def Discrete.detents : Discrete → Int
  | .wheel detents => detents.toInt
  | _ => 0

/-- The detents that the discrete events of the half count for. -/
def Half.detents : Half ℚ → Int
  | .receive (.event (.capture (.scrollDiscrete _ y)) _) => wholeDetents y
  | _ => 0

/-- The units that it scrolls continuously, 15 to a detent. -/
def Half.units : Half ℚ → ℚ
  | .receive (.event (.capture (.scrollDelta _ dy)) _) => dy
  | _ => 0

/-- Nothing is cut off: a flush finds no more than a report can carry, and
the sums are numbers of `i32`. -/
def Fits (h : Hand ℚ) : Half ℚ → Prop
  | .top t => t.flushDue = true → -127 ≤ h.wheel.toInt ∧ h.wheel.toInt ≤ 127
  | .receive (.event (.capture (.scrollDiscrete _ y)) _) =>
      y ≠ Int32.minValue ∧ InI32 (h.wheel.toInt - wholeDetents y)
  | .receive (.event (.capture (.scrollDelta _ dy)) _) =>
      InI32 (trunc ((h.accScroll + dy) / 15)) ∧
        InI32 (h.wheel.toInt - trunc ((h.accScroll + dy) / 15))
  | _ => True

instance (h : Hand ℚ) : DecidablePred (Fits h)
  | .top t => inferInstanceAs (Decidable (t.flushDue = true → _))
  | .receive .timeout => isTrue trivial
  | .receive .disconnected => isTrue trivial
  | .receive (.event (.portal _) _) => isTrue trivial
  | .receive (.event (.screenSaver _) _) => isTrue trivial
  | .receive (.event (.capture (.key _ _ _)) _) => isTrue trivial
  | .receive (.event (.capture (.button _ _)) _) => isTrue trivial
  | .receive (.event (.capture (.motion _ _)) _) => isTrue trivial
  | .receive (.event (.capture (.scrollDiscrete _ _)) _) => inferInstanceAs (Decidable (_ ∧ _))
  | .receive (.event (.capture (.scrollDelta _ _)) _) => inferInstanceAs (Decidable (_ ∧ _))
  | .receive (.event (.capture .frame) _) => isTrue trivial
  | .receive (.event (.capture .disconnected) _) => isTrue trivial

/-- What was received is added to what is sent or pending, the other way, but
for less than a detent of units that is carried on. -/
def Balances (h : Hand ℚ) (received : Int) (units : ℚ) (out : Hand ℚ × List Discrete) : Prop :=
  ∃ clicks : Int,
    (out.2.map Discrete.detents).sum + out.1.wheel.toInt = h.wheel.toInt - received - clicks ∧
      out.1.accScroll = h.accScroll + units - 15 * clicks ∧
      (|h.accScroll| < 15 → |out.1.accScroll| < 15)

/-- Nothing is scrolled. -/
theorem balances_quiet {h : Hand ℚ} {out : Hand ℚ × List Discrete}
    (hwheel : out.1.wheel = h.wheel) (hscroll : out.1.accScroll = h.accScroll)
    (hout : (out.2.map Discrete.detents).sum = 0) : Balances h 0 0 out := by
  refine ⟨0, ?_, ?_, ?_⟩
  · rw [hout, hwheel]
    omega
  · rw [hscroll]
    push_cast
    ring
  · rw [hscroll]
    exact id

theorem balances_flush {h : Hand ℚ} {due : Bool}
    (hfits : due = true → -127 ≤ h.wheel.toInt ∧ h.wheel.toInt ≤ 127) :
    Balances h 0 0 (h.flush due) := by
  rw [Hand.flush]
  split
  · next hdue =>
      obtain ⟨hlo, hhi⟩ := hfits (Bool.and_eq_true_iff.mp hdue).1
      refine ⟨0, ?_, ?_, id⟩
      · simp [Discrete.detents, toInt_detents hlo hhi]
      · push_cast
        ring
  · exact balances_quiet rfl rfl rfl

theorem balances_scrollDiscrete {h : Hand ℚ} {y : Int32} (hy : y ≠ Int32.minValue)
    (hrange : InI32 (h.wheel.toInt - wholeDetents y)) :
    Balances h (wholeDetents y) 0 ({ h with wheel := h.wheel - Router.discreteClicks y }, []) := by
  rw [← toInt_discreteClicks hy] at hrange ⊢
  refine ⟨0, ?_, ?_, id⟩
  · simp only [toInt_sub_of_inI32 hrange, List.map_nil, List.sum_nil]
    omega
  · push_cast
    ring

/-- With no whole detent nothing is subtracted. -/
theorem scrollDelta_eq (h : Hand ℚ) (dy : ℚ) :
    h.scrollDelta dy = { h with
      accScroll := h.accScroll + dy - 15 * (F64.truncI32 ((h.accScroll + dy) / 15)).toInt
      wheel := h.wheel - F64.truncI32 ((h.accScroll + dy) / 15) } := by
  have h15 : (F64.ofInt 15 : ℚ) = 15 := by simp [F64.ofInt]
  simp only [Hand.scrollDelta, h15]
  split
  · simp only [F64.ofInt, mul_comm]
  · next hzero =>
      rw [not_not] at hzero
      rw [hzero]
      simp

theorem abs_remainder_lt {acc : ℚ} {clicks : Int} :
    |acc / 15 - clicks| < 1 ↔ |acc - 15 * clicks| < 15 := by
  rw [abs_lt, abs_lt]
  constructor
  · intro h
    constructor <;> linarith [h.1, h.2]
  · intro h
    constructor <;> linarith [h.1, h.2]

theorem balances_scrollDelta {h : Hand ℚ} {dy : ℚ}
    (hclicks : InI32 (trunc ((h.accScroll + dy) / 15)))
    (hrange : InI32 (h.wheel.toInt - trunc ((h.accScroll + dy) / 15))) :
    Balances h 0 dy (h.scrollDelta dy, []) := by
  have hrem := abs_sub_trunc_lt ((h.accScroll + dy) / 15)
  rw [← toInt_truncI32 hclicks] at hrange hrem
  rw [scrollDelta_eq]
  refine ⟨(F64.truncI32 ((h.accScroll + dy) / 15)).toInt, ?_, rfl, ?_⟩
  · simp only [toInt_sub_of_inI32 hrange, List.map_nil, List.sum_nil]
    omega
  · intro _
    exact abs_remainder_lt.mp hrem

theorem frame_scroll (h : Hand ℚ) :
    h.frame.wheel = h.wheel ∧ h.frame.accScroll = h.accScroll := by
  rw [Hand.frame]
  split
  · exact ⟨rfl, rfl⟩
  · split <;> exact ⟨rfl, rfl⟩

theorem hand_balances {h : Hand ℚ} {half : Half ℚ} (hfits : Fits h half) :
    Balances h half.detents half.units (hand.step h half) := by
  cases half with
  | top t => exact balances_flush hfits
  | receive e =>
      cases e with
      | timeout => exact balances_quiet rfl rfl rfl
      | disconnected => exact balances_quiet rfl rfl rfl
      | event e portal =>
          cases e with
          | portal e => exact balances_quiet rfl rfl rfl
          | screenSaver locked => exact balances_quiet rfl rfl rfl
          | capture e =>
              cases e with
              | key code pressed time =>
                  refine balances_quiet rfl rfl ?_
                  show (((keycodeToUsage code.toUInt16).map (Discrete.key · pressed)).toList.map
                    Discrete.detents).sum = 0
                  cases keycodeToUsage code.toUInt16 <;> rfl
              | button code pressed =>
                  show Balances h 0 0 (h.capture (.button code pressed))
                  rw [Hand.capture]
                  cases buttonToBit code.toUInt16 with
                  | none => exact balances_quiet rfl rfl rfl
                  | some bit => exact balances_quiet rfl rfl rfl
              | motion dx dy => exact balances_quiet rfl rfl rfl
              | scrollDiscrete x y => exact balances_scrollDiscrete hfits.1 hfits.2
              | scrollDelta dx dy => exact balances_scrollDelta hfits.1 hfits.2
              | frame =>
                  obtain ⟨hwheel, hscroll⟩ := frame_scroll h
                  exact balances_quiet hwheel hscroll rfl
              | disconnected => exact balances_quiet rfl rfl rfl

/-! ## An activation -/

theorem Balances.trans {h : Hand ℚ} {d d' : Int} {u u' : ℚ} {out out' : Hand ℚ × List Discrete}
    (h₁ : Balances h d u out) (h₂ : Balances out.1 d' u' out') :
    Balances h (d + d') (u + u') (out'.1, out.2 ++ out'.2) := by
  obtain ⟨n, hsum, hscroll, hlt⟩ := h₁
  obtain ⟨n', hsum', hscroll', hlt'⟩ := h₂
  refine ⟨n + n', ?_, ?_, fun h => hlt' (hlt h)⟩
  · simp only [List.map_append, List.sum_append]
    omega
  · rw [hscroll', hscroll]
    push_cast
    ring

/-- Wherever the loop is, the half cuts nothing off. -/
def FitsAt : Loop ℚ → Half ℚ → Prop
  | .head r, half => Fits r.hand half
  | .waiting r, half => Fits r.hand half
  | _, _ => True

instance : (l : Loop ℚ) → (half : Half ℚ) → Decidable (FitsAt l half)
  | .head r, half => inferInstanceAs (Decidable (Fits r.hand half))
  | .waiting r, half => inferInstanceAs (Decidable (Fits r.hand half))
  | .returned _ _, _ => isTrue trivial
  | .panicked, _ => isTrue trivial

theorem fits_of_fitsAt {l : Loop ℚ} {half : Half ℚ} {r : Router ℚ} (h : FitsAt l half)
    (hr : l.atHead = some r ∨ l.atWait = some r) : Fits r.hand half := by
  rcases hr with hhead | hwait
  · rw [Loop.atHead_eq_some] at hhead
    subst hhead
    exact h
  · rw [Loop.atWait_eq_some] at hwait
    subst hwait
    exact h

/-- The key, button and wheel messages have the detents of the messages. -/
theorem detents_discretes (pos : Option (UInt16 × UInt16)) (msgs : List Message) :
    ((discretes pos msgs).map Discrete.detents).sum = (msgs.map Message.detents).sum := by
  induction msgs generalizing pos with
  | nil => rfl
  | cons m msgs ih =>
      rw [discretes, List.map_append, List.sum_append, ih, List.map_cons, List.sum_cons]
      cases m <;> simp [Message.discrete, Message.detents, Discrete.detents]

/-- Since the activation, what was received is what was sent and is pending. -/
def Scrolled (r₀ : Router ℚ) (halves : List (Half ℚ)) (r : Router ℚ) : Prop :=
  Balances r₀.hand (halves.map Half.detents).sum (halves.map Half.units).sum
    (r.hand, (hand.outputs r₀.hand halves).flatten)

/-- That, and what the hand has, wherever the loop is, if nothing was cut off. -/
def ScrolledAt (zone : Zone) (r₀ : Router ℚ) (halves : List (Half ℚ)) (l : Loop ℚ) : Prop :=
  (router zone).Meets FitsAt (.head r₀) halves →
    ∀ r, l.atHead = some r ∨ l.atWait = some r → r.activeId.isSome →
      r.hand = hand.run r₀.hand halves ∧ Scrolled r₀ halves r

theorem scrolledAt_nil (zone : Zone) (r₀ : Router ℚ) : ScrolledAt zone r₀ [] (.head r₀) := by
  rintro - r (hr | hr) -
  · cases hr
    exact ⟨rfl, balances_quiet rfl rfl rfl⟩
  · cases hr

theorem scrolledAt_step {zone : Zone} {r₀ : Router ℚ} {halves : List (Half ℚ)} {half : Half ℚ}
    {l l' : Loop ℚ} (hok : LoopOk l) (hexec : (router zone).exec (.head r₀) halves = some l)
    (h : ScrolledAt zone r₀ halves l) (hhalf : half.activates = false)
    (hst : (router zone).step l half = some l') : ScrolledAt zone r₀ (halves ++ [half]) l' := by
  obtain ⟨r, hr, hdoes⟩ := does_step hok hhalf hst
  intro hmeets r' hr' hid
  obtain ⟨hbefore, hfits⟩ := (router zone).meets_snoc hmeets hexec
  obtain ⟨hactive, hhand, -⟩ := hdoes r' hr' hid
  obtain ⟨hrun, hscrolled⟩ := h hbefore r hr hactive
  have hbalances := hscrolled.trans (hand_balances (fits_of_fitsAt hfits hr))
  rw [Scrolled, hhand, Mealy.run_append, Mealy.outputs_append, ← hrun]
  refine ⟨rfl, ?_⟩
  simpa using hbalances

theorem scroll_activated {zone : Zone} {r r₀ : Router ℚ} {id : UInt32} {x y : ℚ} {portal : Portal}
    (h : r.receive zone (.event (.portal (.activated id x y)) portal) = .head r₀)
    (hactive : r₀.activeId.isSome) : r₀.hand.wheel = 0 ∧ r₀.hand.accScroll = 0 := by
  obtain ⟨b, -, hact⟩ := Router.activate_of_receive h hactive
  obtain ⟨space, cx, cy, -, -, rfl⟩ := Router.activate_eq_some hact
  exact ⟨rfl, by simp [Router.hand, F64.ofInt]⟩

/-- The detents sent since the activation, and those pending, are the detents
of the discrete events and those of the continuous ones but for less than
one, the other way. -/
theorem scroll_balance (zone : Zone) (remote : Screen ℚ) (dial : Dial) (before : List (Half ℚ))
    (id : UInt32) (cursorX cursorY : ℚ) (portal : Portal) (r₀ : Router ℚ)
    (halves : List (Half ℚ)) (l : Loop ℚ) (r : Router ℚ)
    (hstart : (router zone).exec (.head (.start zone remote dial))
      (before ++ [.receive (.event (.portal (.activated id cursorX cursorY)) portal)]) =
        some (.head r₀))
    (hactive₀ : r₀.activeId.isSome)
    (hrun : (router zone).exec (.head r₀) halves = some l)
    (hone : ∀ half ∈ halves, half.activates = false)
    (hl : l.atHead = some r ∨ l.atWait = some r) (hactive : r.activeId.isSome)
    (hfits : (router zone).Meets FitsAt (.head r₀) halves) :
    ∃ (b₀ : BridgeClient) (pos : UInt16 × UInt16) (msgs : List Message) (clicks : Int),
      r₀.bridge = some (b₀.pointerAbs pos.1 pos.2).1 ∧
      r.bridge = some (b₀.sendAll (.pointerAbs pos.1 pos.2 :: msgs)) ∧
      (msgs.map Message.detents).sum + r.pendingWheel.toInt =
        -((halves.map Half.detents).sum + clicks) ∧
      |(halves.map Half.units).sum / 15 - clicks| < 1 := by
  obtain ⟨r₁, -, hreceive⟩ := exec_receive hstart
  obtain ⟨b₀, pos, hb₀, -, hsince₀⟩ := since_activated hreceive hactive₀
  obtain ⟨hwheel₀, hscroll₀⟩ := scroll_activated hreceive hactive₀
  have hok : ∀ {halves l}, (router zone).exec (.head r₀) halves = some l → LoopOk l :=
    fun h => ok_run ((router zone).exec_trans hstart h)
  have hsince : Since r₀ (b₀.pointerAbs pos.1 pos.2).1 pos halves l := by
    refine (router zone).exec_induction_of_all hsince₀ ?_ hrun hone
    intro halves half l l' hexec hsince hhalf hst
    exact since_step (hok hexec) hsince hhalf hst
  have hscrolled := (router zone).exec_induction_of_all (P := ScrolledAt zone r₀)
    (scrolledAt_nil zone r₀)
    (fun _ _ _ _ hexec h hhalf hst => scrolledAt_step (hok hexec) hexec h hhalf hst) hrun hone
  obtain ⟨-, msgs, hb, hdiscrete, -⟩ := hsince r hl hactive
  obtain ⟨clicks, hsum, hscroll, hlt⟩ := (hscrolled hfits r hl hactive).2
  rw [← hdiscrete, detents_discretes, hwheel₀] at hsum
  rw [hscroll₀] at hscroll hlt
  refine ⟨b₀, pos, msgs, clicks, hb₀, hb, ?_, ?_⟩
  · have hpending : r.pendingWheel = r.hand.wheel := rfl
    rw [hpending]
    simp only [Int32.toInt_zero] at hsum
    omega
  · have hrem := hlt (by norm_num)
    rw [hscroll, zero_add] at hrem
    exact abs_remainder_lt.mpr hrem

/-- Two detents and one, and 31 units; the flush comes in between. -/
def turned : List (Half ℚ) :=
  iteration (.capture (.scrollDiscrete 0 240)) ++ iteration (.capture (.scrollDelta 0 20)) ++
    iteration (.capture (.scrollDiscrete 0 1)) ++
    [flushed, .receive (.event (.capture (.scrollDelta 0 11)) ⟨.ok (), .ok ()⟩)]

theorem scroll_balance_turned :
    ∃ (r₀ r : Router ℚ) (msgs : List Message) (clicks : Int),
      (router ubuntu).exec (.head (.start ubuntu windows answered)) entered = some (.head r₀) ∧
        (router ubuntu).exec (.head r₀) turned = some (.head r) ∧
        (msgs.map Message.detents).sum + r.pendingWheel.toInt = -(3 + clicks) ∧
        |31 / 15 - (clicks : ℚ)| < 1 := by
  have hrun : ((((router ubuntu).exec (.head (.start ubuntu windows answered)) entered).bind
      Loop.atHead).bind fun r₀ => (((router ubuntu).exec (.head r₀) turned).bind
        Loop.atHead).map fun r => (r₀.activeId.isSome, r.activeId.isSome,
          decide ((router ubuntu).Meets FitsAt (.head r₀) turned))) =
      some (true, true, true) := by
    decide +kernel
  obtain ⟨r₀, hr₀, hrun⟩ := Option.bind_eq_some_iff.mp hrun
  have hl₀ := Loop.bind_atHead_eq_some.mp hr₀
  obtain ⟨r, hr, hstate⟩ := Option.map_eq_some_iff.mp hrun
  have hl := Loop.bind_atHead_eq_some.mp hr
  simp only [Prod.mk.injEq, decide_eq_true_eq] at hstate
  obtain ⟨hactive₀, hactive, hfits⟩ := hstate
  obtain ⟨b₀, pos, msgs, clicks, -, -, hsum, hlt⟩ :=
    scroll_balance ubuntu windows answered [.top .quiet] 7 2559 720 ⟨.ok (), .ok ()⟩ r₀ turned
      _ r hl₀ hactive₀ hl (by decide +kernel) (.inl rfl) hactive hfits
  have hunits : (turned.map Half.units).sum = 31 := by decide +kernel
  have hdetents : (turned.map Half.detents).sum = 3 := by decide +kernel
  rw [hunits] at hlt
  rw [hdetents] at hsum
  exact ⟨r₀, r, msgs, clicks, hl₀, hl, hsum, hlt⟩

/-- The detents that a half scrolls, in 120ths and in units of a fifteenth. -/
def Half.exactDetents : Half ℚ → ℚ
  | .receive (.event (.capture (.scrollDiscrete _ y)) _) => y.toInt / 120
  | .receive (.event (.capture (.scrollDelta _ dy)) _) => dy / 15
  | _ => 0

/-- An activation in which what is sent and pending is two detents or more
away from what was received. -/
def Drifts (halves : List (Half ℚ)) (msgs : List Message) : Prop :=
  ∃ r b, (router ubuntu).exec (.head (.start ubuntu windows answered)) (entered ++ halves) =
      some (.waiting r) ∧
    r.activeId = some 7 ∧ r.bridge = some b ∧
    b.stream.written = wire (.pointerAbs 0 32798 :: msgs) ∧
    2 ≤ |((msgs.map Message.detents).sum + r.pendingWheel.toInt : ℚ) +
      (halves.map Half.exactDetents).sum|

theorem drifts_of_run {halves : List (Half ℚ)} {msgs : List Message} (pending : Int32)
    (hrun : ((((router ubuntu).exec (.head (.start ubuntu windows answered))
      (entered ++ halves)).bind Loop.atWait).map fun r => (r.activeId, r.bridge, r.pendingWheel)) =
        some (some 7, some ⟨wire (.pointerAbs 0 32798 :: msgs), none, false⟩, pending))
    (hfar : 2 ≤ |((msgs.map Message.detents).sum + pending.toInt : ℚ) +
      (halves.map Half.exactDetents).sum|) : Drifts halves msgs := by
  obtain ⟨r, hr, hstate⟩ := Option.map_eq_some_iff.mp hrun
  have hl := Loop.bind_atWait_eq_some.mp hr
  simp only [Prod.mk.injEq] at hstate
  obtain ⟨hactive, hbridge, hpending⟩ := hstate
  rw [← hpending] at hfar
  exact ⟨r, _, hl, hactive, hbridge, rfl, hfar⟩

/-- Half a detent of a fine wheel is sent as 60 detents; of 200 detents in one
window 127 are sent and none is pending; and what is more than an `i32` is
neither sent nor pending. -/
theorem scroll_drifts :
    Drifts (iteration (.capture (.scrollDiscrete 0 60)) ++ [flushed]) [.pointerWheel (-60)] ∧
      Drifts (iteration (.capture (.scrollDiscrete 0 24000)) ++ [flushed])
        [.pointerWheel (-127)] ∧
      Drifts (iteration (.capture (.scrollDelta 0 45000000000)) ++ [.top .quiet]) [] := by
  refine ⟨?_, ?_, ?_⟩
  · exact drifts_of_run 0 (by decide +kernel) (by decide +kernel)
  · exact drifts_of_run 0 (by decide +kernel) (by decide +kernel)
  · exact drifts_of_run (-2147483647) (by decide +kernel) (by decide +kernel)

end Beaglewing.Input
