/-
# `Input.Hotkey` — the emergency combination

The router follows three keys and returns to the local side when all three
are down.  What it keeps are three flags; what they mean is a history: of
the key events since the activation, the last of each of the keys is a press
(`Combo`).  A key that the table does not know is skipped before the flags
are looked at, and no other key of the table has one of the three usages
(`combo_usage`), so the flags are the history (`tracked_step`).

| key event | the router |
|---|---|
| completes the combination | RELEASE_ALL, then the local side |
| any other in the table | the message of the key |
| not in the table | nothing |

What else is received, and what the clock does, may end the activation, but
leaves the flags alone (`keeps_top`, `keeps_receive`).
-/
import Beaglewing.Input.Order
import Beaglewing.Input.Seat

namespace Beaglewing.Input

open Base

/-! ## The history of the keys -/

/-- A key event, with the code cut to 16 bits as the router does. -/
structure KeyEvent where
  code : UInt16
  pressed : Bool
  deriving DecidableEq

def Half.key {F : Type} : Half F → Option KeyEvent
  | .receive (.event (.capture (.key code pressed _)) _) => some ⟨code.toUInt16, pressed⟩
  | _ => none

def keyEvents {F : Type} (halves : List (Half F)) : List KeyEvent := halves.filterMap Half.key

/-- The last event of the key is a press. -/
def LastPressed (code : UInt16) (keys : List KeyEvent) : Prop :=
  ∃ before after, keys = before ++ ⟨code, true⟩ :: after ∧ ∀ k ∈ after, k.code ≠ code

/-- The left control key, the left alt key and backslash. -/
def Combo (keys : List KeyEvent) : Prop :=
  LastPressed 29 keys ∧ LastPressed 56 keys ∧ LastPressed 43 keys

def lastPressed (code : UInt16) (keys : List KeyEvent) : Bool :=
  (keys.filter fun k => k.code = code).getLast?.any KeyEvent.pressed

theorem lastPressed_snoc (code : UInt16) (keys : List KeyEvent) (k : KeyEvent) :
    lastPressed code (keys ++ [k]) =
      if k.code = code then k.pressed else lastPressed code keys := by
  rw [lastPressed, lastPressed, List.filter_append, List.getLast?_append]
  by_cases hcode : k.code = code
  · simp [hcode]
  · simp [hcode]

/-- The key events are read from the last one on. -/
theorem lastPressed_iff {code : UInt16} {keys : List KeyEvent} :
    lastPressed code keys = true ↔ LastPressed code keys := by
  induction keys using List.reverseRecOn with
  | nil =>
      refine iff_of_false Bool.false_ne_true ?_
      rintro ⟨before, after, h, -⟩
      simp at h
  | append_singleton keys k ih =>
      rw [lastPressed_snoc]
      constructor
      · intro h
        by_cases hcode : k.code = code
        · rw [if_pos hcode] at h
          refine ⟨keys, [], ?_, by simp⟩
          rw [← hcode, ← h]
        · rw [if_neg hcode] at h
          obtain ⟨before, after, rfl, hafter⟩ := ih.mp h
          refine ⟨before, after ++ [k], by simp, ?_⟩
          intro k' hk'
          rcases List.mem_append.mp hk' with hmem | hmem
          · exact hafter k' hmem
          · rw [List.mem_singleton.mp hmem]
            exact hcode
      · rintro ⟨before, after, heq, hafter⟩
        rcases List.eq_nil_or_concat after with rfl | ⟨after, k', rfl⟩
        · obtain ⟨-, hk⟩ := List.append_inj' heq rfl
          cases hk
          simp
        · rw [List.concat_eq_append, ← List.cons_append, ← List.append_assoc] at heq
          obtain ⟨rfl, hk⟩ := List.append_inj' heq rfl
          cases hk
          rw [if_neg (hafter k (by simp))]
          exact ih.mpr ⟨before, after, rfl, fun k' hk' => hafter k' (by simp [hk'])⟩

instance (keys : List KeyEvent) : Decidable (Combo keys) :=
  decidable_of_iff (lastPressed 29 keys ∧ lastPressed 56 keys ∧ lastPressed 43 keys) (by
    rw [lastPressed_iff, lastPressed_iff, lastPressed_iff]
    rfl)

/-! ## The three flags -/

namespace Emergency

def full (e : Emergency) : Bool := e.lCtrl && e.lAlt && e.backslash

/-- The flags that the history calls for. -/
def ofKeys (keys : List KeyEvent) : Emergency :=
  ⟨lastPressed 29 keys, lastPressed 56 keys, lastPressed 43 keys⟩

/-- The flags after one more event. -/
def after (e : Emergency) (k : KeyEvent) : Emergency :=
  ⟨if k.code = 29 then k.pressed else e.lCtrl, if k.code = 56 then k.pressed else e.lAlt,
    if k.code = 43 then k.pressed else e.backslash⟩

theorem after_ofKeys (keys : List KeyEvent) (k : KeyEvent) :
    (ofKeys keys).after k = ofKeys (keys ++ [k]) := by
  simp only [ofKeys, after, lastPressed_snoc]

theorem full_ofKeys {keys : List KeyEvent} : (ofKeys keys).full = true ↔ Combo keys := by
  simp only [ofKeys, full, Bool.and_eq_true, lastPressed_iff, Combo, and_assoc]

theorem update_fst (e : Emergency) (usage : UInt8) (pressed : Bool) :
    (e.update usage pressed).1 =
      ⟨if usage = 0xe0 then pressed else e.lCtrl, if usage = 0xe2 then pressed else e.lAlt,
        if usage = 0x31 then pressed else e.backslash⟩ := by
  by_cases hctrl : usage = 0xe0
  · subst hctrl
    rfl
  · by_cases halt : usage = 0xe2
    · subst halt
      rfl
    · by_cases hbackslash : usage = 0x31
      · subst hbackslash
        rfl
      · simp [update, hctrl, halt, hbackslash]

end Emergency

/-- The keys of the combination and their usages. -/
def comboKeys : List (UInt16 × UInt8) := [(29, 0xe0), (56, 0xe2), (43, 0x31)]

/-- A row of the table that has none of these keys, and none of these usages. -/
theorem combo_row {code lo hi : UInt16} {base : UInt8} (h : lo ≤ code ∧ code ≤ hi)
    (hfit : base.toNat + hi.toNat < 256 + lo.toNat)
    (hfree : ∀ p ∈ comboKeys, (p.1 < lo ∨ hi < p.1) ∧
      (p.2.toNat < base.toNat ∨ base.toNat + (hi.toNat - lo.toNat) < p.2.toNat)) :
    ∀ p ∈ comboKeys, (code - lo).toUInt8 + base = p.2 ↔ code = p.1 := by
  intro p hp
  obtain ⟨hcode, husage⟩ := hfree p hp
  refine iff_of_false ?_ ?_
  · intro heq
    have hrow := row_toNat h.1 h.2 hfit
    have h₁ := UInt16.le_iff_toNat_le.mp h.1
    have h₂ := UInt16.le_iff_toNat_le.mp h.2
    rw [heq] at hrow
    omega
  · intro heq
    rw [heq] at h
    rcases hcode with hlt | hlt
    · exact absurd h.1 (UInt16.not_le.mpr hlt)
    · exact absurd h.2 (UInt16.not_le.mpr hlt)

/-- Of all keys in the table, only the three have the usages that are
followed. -/
theorem combo_usage {code : UInt16} {usage : UInt8} (h : keycodeToUsage code = some usage) :
    ∀ p ∈ comboKeys, usage = p.2 ↔ code = p.1 := by
  unfold keycodeToUsage at h
  split_ifs at h with h₁ h₂ h₃ h₄ h₅
  · cases h
    exact combo_row h₁ (by decide) (by simp [comboKeys])
  · cases h
    exact combo_row h₂ (by decide) (by simp [comboKeys])
  · cases h
    exact combo_row h₃ (by decide) (by simp [comboKeys])
  · cases h
    exact combo_row h₄ (by decide) (by simp [comboKeys])
  · cases h
    exact combo_row h₅ (by decide) (by simp [comboKeys])
  · split at h <;> cases h <;> simp [comboKeys]

/-- The keys of the combination are in the table. -/
theorem combo_mapped {code : UInt16} (h : keycodeToUsage code = none) :
    ∀ p ∈ comboKeys, code ≠ p.1 := by
  rintro p hp rfl
  have hmapped : ∀ p ∈ comboKeys, keycodeToUsage p.1 = some p.2 := by
    rw [comboKeys, List.forall_mem_cons, List.forall_mem_cons, List.forall_mem_singleton]
    exact ⟨rfl, rfl, rfl⟩
  rw [hmapped p hp] at h
  cases h

namespace Emergency

/-- The flags after a key event, whether its key is in the table or not. -/
theorem update_after {code : UInt16} {usage : UInt8} (e : Emergency) (pressed : Bool)
    (h : keycodeToUsage code = some usage) :
    e.update usage pressed = (e.after ⟨code, pressed⟩, (e.after ⟨code, pressed⟩).full) := by
  have husage := combo_usage h
  simp only [comboKeys, List.forall_mem_cons] at husage
  obtain ⟨hctrl, halt, hbackslash, -⟩ := husage
  have hfirst : (e.update usage pressed).1 = e.after ⟨code, pressed⟩ := by
    rw [update_fst, after]
    simp only [hctrl, halt, hbackslash]
  exact Prod.ext hfirst (congrArg full hfirst)

theorem after_of_unmapped {code : UInt16} (e : Emergency) (pressed : Bool)
    (h : keycodeToUsage code = none) : e.after ⟨code, pressed⟩ = e := by
  have hcode := combo_mapped h
  simp only [comboKeys, List.forall_mem_cons] at hcode
  obtain ⟨hctrl, halt, hbackslash, -⟩ := hcode
  rw [after, if_neg hctrl, if_neg halt, if_neg hbackslash]

end Emergency

/-! ## A key event -/

variable {F : Type} [F64 F] {zone : Zone}

theorem le_of_clamp {a lo hi b : F} (h : clamp a lo hi = some b) : F64.le lo hi = true := by
  rw [clamp] at h
  split at h
  · next hle => exact hle
  · cases h

theorem clamp_isSome {lo hi : F} (a : F) (h : F64.le lo hi = true) :
    ∃ b, clamp a lo hi = some b := by
  rw [clamp, if_pos h]
  exact ⟨_, rfl⟩

/-- What the bridge gets of a key event that does not complete the combination. -/
def BridgeClient.key (b : BridgeClient) (code : UInt32) (pressed : Bool) : BridgeClient :=
  match keycodeToUsage code.toUInt16 with
  | none => b
  | some usage => (if pressed then b.keyDown usage else b.keyUp usage).1

/-- The combination is not complete before the event. -/
theorem onKey_eq (zone : Zone) (r : Router F) (hfull : r.emergency.full = false) (code : UInt32)
    (pressed : Bool) :
    r.onKey zone code pressed =
      if (r.emergency.after ⟨code.toUInt16, pressed⟩).full then
        .orPanic ({ r with emergency := .new }.goLocal zone) .head
      else
        .head { r with
          emergency := r.emergency.after ⟨code.toUInt16, pressed⟩
          bridge := r.bridge.map (·.key code pressed) } := by
  simp only [Router.onKey, BridgeClient.key]
  cases hcode : keycodeToUsage code.toUInt16 with
  | none =>
      rw [Emergency.after_of_unmapped _ _ hcode, hfull]
      cases hb : r.bridge with
      | none => simp [← hb]
      | some b => simp [← hb]
  | some usage =>
      simp only [Emergency.update_after _ _ hcode]

/-! ## Everything else leaves the flags alone -/

/-- The activation goes on as it was, or is over. -/
def Keeps (r r' : Router F) : Prop :=
  r'.activeId.isSome → r'.activeId = r.activeId ∧ r'.emergency = r.emergency

omit [F64 F] in
theorem Keeps.trans {r₁ r₂ r₃ : Router F} (h : Keeps r₁ r₂) (h' : Keeps r₂ r₃) :
    Keeps r₁ r₃ := by
  intro hid
  obtain ⟨hid₂, hflags₂⟩ := h' hid
  obtain ⟨hid₁, hflags₁⟩ := h (hid₂ ▸ hid)
  exact ⟨hid₂.trans hid₁, hflags₂.trans hflags₁⟩

omit [F64 F] in
theorem keeps_of_eq {r r' : Router F} (hid : r'.activeId = r.activeId)
    (hflags : r'.emergency = r.emergency) : Keeps r r' :=
  fun _ => ⟨hid, hflags⟩

omit [F64 F] in
theorem keeps_of_over {r r' : Router F} (h : r'.activeId = none) : Keeps r r' := by
  intro hid
  rw [h] at hid
  cases hid

theorem keeps_goLocal {r r₁ r' : Router F} (h : r₁.goLocal zone = some r') : Keeps r r' :=
  keeps_of_over (Router.activeId_goLocal h)

theorem keeps_keepalive {r r' : Router F} {due : Bool} (h : r.keepalive zone due = some r') :
    Keeps r r' := by
  rcases Router.keepalive_cases h with rfl | ⟨b, -, rfl⟩ | ⟨-, rfl⟩ | hlocal
  · exact keeps_of_eq rfl rfl
  · exact keeps_of_eq rfl rfl
  · exact keeps_of_eq rfl rfl
  · exact keeps_goLocal hlocal

omit [F64 F] in
theorem keeps_reconnect (r : Router F) (due : Bool) (dial : Dial) :
    Keeps r (r.reconnect due dial) := by
  rcases r.reconnect_cases due dial with heq | ⟨-, b, -, heq⟩
  · rw [heq]
    exact keeps_of_eq rfl rfl
  · rw [heq]
    exact keeps_of_eq rfl rfl

theorem keeps_failsafe {r r' : Router F} {silent : Bool} (h : r.failsafe zone silent = some r') :
    Keeps r r' := by
  rcases Router.failsafe_cases h with hlocal | rfl
  · exact keeps_goLocal hlocal
  · exact keeps_of_eq rfl rfl

omit [F64 F] in
theorem keeps_flush (r : Router F) (due : Bool) : Keeps r (r.clearPending.flush due) := by
  rw [Router.flush, Router.clearPending]
  split <;> split <;> exact keeps_of_eq rfl rfl

theorem keeps_top (r : Router F) (t : Top) : (r.top zone t).All (Keeps r) := by
  rw [Router.top]
  split
  · refine all_orPanic ?_
    intro r' hr'
    exact all_returned (keeps_goLocal hr')
  · refine all_orPanic ?_
    intro r₁ h₁
    refine all_orPanic ?_
    intro r₂ h₂
    have hkeeps := ((keeps_keepalive h₁).trans (keeps_reconnect _ _ _)).trans (keeps_failsafe h₂)
    exact all_waiting (hkeeps.trans (keeps_flush r₂ _))

theorem keeps_goLocalIfActive {r r' : Router F} (h : r.goLocalIfActive zone = some r') :
    Keeps r r' :=
  keeps_of_over (Router.activeId_goLocalIfActive h)

theorem keeps_onPortal {r : Router F} {portal : Portal} {e : PortalEvent F}
    (he : ∀ id x y, e ≠ .activated id x y) : (r.onPortal zone portal e).All (Keeps r) := by
  cases e with
  | activated id x y => exact absurd rfl (he id x y)
  | deactivated =>
      refine all_orPanic ?_
      intro r' hr'
      exact all_head (keeps_goLocalIfActive hr')
  | disabled =>
      refine all_orPanic ?_
      intro r' hr'
      cases portal.enable with
      | error e => exact all_returned (keeps_goLocalIfActive hr')
      | ok _ => exact all_head (keeps_goLocalIfActive hr')
  | zonesChanged =>
      refine all_orPanic ?_
      intro r' hr'
      exact all_returned (keeps_goLocal hr')

theorem keeps_onScreenSaver {r : Router F} {portal : Portal} {locked : Bool} :
    (r.onScreenSaver zone portal locked).All (Keeps r) := by
  cases locked with
  | true =>
      refine all_orPanic ?_
      intro r' hr'
      exact all_head (keeps_goLocalIfActive hr')
  | false =>
      rw [Router.onScreenSaver]
      cases portal.armBarriers with
      | error e => exact all_returned (keeps_of_eq rfl rfl)
      | ok _ =>
          cases portal.enable with
          | error e => exact all_returned (keeps_of_eq rfl rfl)
          | ok _ => exact all_head (keeps_of_eq rfl rfl)

omit [F64 F] in
theorem keeps_onButton (r : Router F) (code : UInt32) (pressed : Bool) :
    (r.onButton code pressed).All (Keeps r) := by
  rw [Router.onButton]
  cases buttonToBit code.toUInt16 with
  | none => exact all_head (keeps_of_eq rfl rfl)
  | some bit =>
      cases r.bridge with
      | none => exact all_head (keeps_of_eq rfl rfl)
      | some b => exact all_head (keeps_of_eq rfl rfl)

theorem keeps_onFrame (r : Router F) : (r.onFrame zone).All (Keeps r) := by
  rw [Router.onFrame]
  split
  · exact all_head (keeps_of_eq rfl rfl)
  · refine all_orPanic ?_
    rintro ⟨space, crossing⟩ hs
    simp only
    split
    · refine all_orPanic ?_
      intro r' hr'
      exact all_head (keeps_goLocal hr')
    · split
      · refine all_orPanic ?_
        intro pos hpos
        exact all_head (keeps_of_eq rfl rfl)
      · exact all_head (keeps_of_eq rfl rfl)

theorem keeps_onCapture {r : Router F} {e : CaptureEvent F}
    (he : ∀ code pressed time, e ≠ .key code pressed time) :
    (r.onCapture zone e).All (Keeps r) := by
  rw [Router.onCapture]
  split
  · exact all_head (keeps_of_eq rfl rfl)
  · have hflag : ∀ r' : Router F, Keeps { r with eventsThisActivation := true } r' → Keeps r r' :=
      fun _ h => h
    cases e with
    | key code pressed time => exact absurd rfl (he code pressed time)
    | button code pressed => exact (keeps_onButton _ code pressed).imp hflag
    | motion dx dy => exact all_head (keeps_of_eq rfl rfl)
    | scrollDiscrete x y => exact all_head (keeps_of_eq rfl rfl)
    | scrollDelta dx dy =>
        refine all_head ?_
        rw [Router.onScrollDelta]
        split <;> exact keeps_of_eq rfl rfl
    | frame => exact (keeps_onFrame _).imp hflag
    | disconnected =>
        refine all_orPanic ?_
        intro r' hr'
        exact all_returned (keeps_goLocal hr')

/-- Any half but a key event and an activation. -/
theorem keeps_step {l l' : Loop F} {half : Half F} {r : Router F} (hr : l.router = some r)
    (hkey : half.key = none) (hother : half.activates = false)
    (hstep : (router zone).step l half = some l') : l'.All (Keeps r) := by
  cases half with
  | top t =>
      obtain ⟨r₁, rfl, rfl⟩ := step_top hstep
      cases hr
      exact keeps_top r t
  | receive e =>
      obtain ⟨r₁, rfl, rfl⟩ := step_receive hstep
      cases hr
      cases e with
      | timeout => exact all_head (keeps_of_eq rfl rfl)
      | disconnected => exact all_returned (keeps_of_eq rfl rfl)
      | event e portal =>
          cases e with
          | screenSaver locked => exact keeps_onScreenSaver
          | portal e =>
              refine keeps_onPortal ?_
              rintro id x y rfl
              cases hother
          | capture e =>
              refine keeps_onCapture ?_
              rintro code pressed time rfl
              cases hkey

/-! ## During an activation -/

/-- The flags are the history since the activation, and the combination has
not been complete. -/
structure Tracked (id : UInt32) (halves : List (Half F)) (r : Router F) : Prop where
  active : r.activeId = some id
  flags : r.emergency = .ofKeys (keyEvents halves)
  incomplete : ∀ before, before <+: keyEvents halves → ¬ Combo before

omit [F64 F] in
theorem Tracked.full_eq_false {id : UInt32} {halves : List (Half F)} {r : Router F}
    (h : Tracked id halves r) : r.emergency.full = false := by
  refine Bool.eq_false_of_not_eq_true ?_
  intro hfull
  rw [h.flags, Emergency.full_ofKeys] at hfull
  exact h.incomplete _ (List.prefix_refl _) hfull

/-- What the router does with a key event during the activation. -/
theorem router_key {id : UInt32} {halves : List (Half F)} {r : Router F}
    (h : Tracked id halves r) (code : UInt32) (pressed : Bool) (time : UInt64) (portal : Portal) :
    (router zone).step (.waiting r) (.receive (.event (.capture (.key code pressed time)) portal)) =
      some (if Combo (keyEvents halves ++ [⟨code.toUInt16, pressed⟩]) then
          .orPanic ({ r with eventsThisActivation := true, emergency := .new }.goLocal zone) .head
        else
          .head { r with
            eventsThisActivation := true
            emergency := .ofKeys (keyEvents halves ++ [⟨code.toUInt16, pressed⟩])
            bridge := r.bridge.map (·.key code pressed) }) := by
  have hactive : r.activeId.isNone = false := by rw [h.active]; rfl
  show some (r.onCapture zone (.key code pressed time)) = _
  rw [Router.onCapture, hactive, if_neg Bool.false_ne_true]
  have hkey := onKey_eq zone { r with eventsThisActivation := true } h.full_eq_false code pressed
  simp only [hkey]
  simp only [h.flags, Emergency.after_ofKeys, Emergency.full_ofKeys]

omit [F64 F] in
theorem keyEvents_snoc (halves : List (Half F)) (half : Half F) :
    keyEvents (halves ++ [half]) = keyEvents halves ++ half.key.toList := by
  rw [keyEvents, List.filterMap_append]
  cases hkey : half.key with
  | none => simp [hkey, keyEvents]
  | some k => simp [hkey, keyEvents]

omit [F64 F] in
theorem key_eq_some {half : Half F} {k : KeyEvent} (h : half.key = some k) :
    ∃ code pressed time portal,
      half = .receive (.event (.capture (.key code pressed time)) portal) ∧
        k = ⟨code.toUInt16, pressed⟩ := by
  cases half with
  | top t => cases h
  | receive e =>
      cases e with
      | timeout => cases h
      | disconnected => cases h
      | event e portal =>
          cases e with
          | portal e => cases h
          | screenSaver locked => cases h
          | capture e =>
              cases e with
              | key code pressed time =>
                  cases h
                  exact ⟨code, pressed, time, portal, rfl, rfl⟩
              | button code pressed => cases h
              | motion dx dy => cases h
              | scrollDiscrete x y => cases h
              | scrollDelta dx dy => cases h
              | frame => cases h
              | disconnected => cases h

theorem tracked_step {id : UInt32} {halves : List (Half F)} {half : Half F} {l l' : Loop F}
    (h : l.All fun r => r.activeId.isSome → Tracked id halves r) (hother : half.activates = false)
    (hstep : (router zone).step l half = some l') :
    l'.All fun r => r.activeId.isSome → Tracked id (halves ++ [half]) r := by
  obtain ⟨r, hr⟩ := router_of_step hstep
  cases hkey : half.key with
  | none =>
      intro r' hr' hid
      obtain ⟨hsame, hflags⟩ := keeps_step hr hkey hother hstep r' hr' hid
      obtain ⟨hactive, hhistory, hincomplete⟩ := h r hr (hsame ▸ hid)
      have hkeys : keyEvents (halves ++ [half]) = keyEvents halves := by
        rw [keyEvents_snoc, hkey, Option.toList_none, List.append_nil]
      refine ⟨hsame.trans hactive, ?_, ?_⟩
      · rw [hkeys]
        exact hflags.trans hhistory
      · rw [hkeys]
        exact hincomplete
  | some k =>
      obtain ⟨code, pressed, time, portal, rfl, rfl⟩ := key_eq_some hkey
      obtain ⟨r₁, rfl, -⟩ := step_receive hstep
      cases hr
      by_cases hactive : r.activeId.isSome
      · have htracked := h r rfl hactive
        rw [router_key htracked, Option.some.injEq] at hstep
        subst hstep
        split
        · refine all_orPanic ?_
          intro r' hr'
          refine all_head ?_
          intro hid
          rw [Router.activeId_goLocal hr'] at hid
          cases hid
        · next hcombo =>
            refine all_head fun _ => ⟨htracked.active, ?_, ?_⟩
            · rw [keyEvents_snoc, hkey]
              rfl
            · intro before hbefore
              rw [keyEvents_snoc, hkey, Option.toList_some, List.prefix_concat_iff] at hbefore
              rcases hbefore with rfl | hbefore
              · exact hcombo
              · exact htracked.incomplete before hbefore
      · have hstays : (router zone).step (.waiting r)
            (.receive (.event (.capture (.key code pressed time)) portal)) =
              some (.head r) := by
          show some (r.onCapture zone (.key code pressed time)) = _
          rw [Router.onCapture, if_pos (by simpa using hactive)]
        rw [hstays, Option.some.injEq] at hstep
        subst hstep
        exact all_head fun hid => absurd hid hactive

/-- An activation that is taken starts with no key held. -/
theorem tracked_activated {r r₀ : Router F} {id : UInt32} {x y : F} {portal : Portal}
    (h : r.receive zone (.event (.portal (.activated id x y)) portal) = .head r₀)
    (hactive : r₀.activeId.isSome) :
    r₀.emergency = .new ∧ F64.le (F64.ofInt 0) (r.space.local.height - F64.ofInt 1) = true ∧
      Tracked id [] r₀ := by
  obtain ⟨b, -, hact⟩ := Router.activate_of_receive h hactive
  obtain ⟨space, cx, cy, hspace, -, rfl⟩ := Router.activate_eq_some hact
  obtain ⟨y₁, y₂, hclamp, -, -⟩ := Space.enterRemote_cases hspace
  refine ⟨rfl, le_of_clamp hclamp, rfl, rfl, ?_⟩
  intro before hbefore
  rw [List.prefix_nil.mp hbefore]
  decide

/-- The return, where the height can be mapped. -/
theorem goLocal_isSome (zone : Zone) (r : Router F) {id : UInt32} (hid : r.activeId = some id)
    (h : F64.le (F64.ofInt 0) (r.space.local.height - F64.ofInt 1) = true) :
    ∃ r' cursor, r.goLocal zone = some r' ∧ r'.activeId = none ∧ r'.space.target = .local ∧
      r'.bridge = r.bridge.map (fun b => b.releaseAll.1) ∧ r'.emergency = r.emergency ∧
      r'.released = r.released ++ [(id, cursor)] := by
  have hforce : ∃ space, r.space.forceLocal = some space := by
    by_cases htarget : r.space.target = .remote
    · obtain ⟨y, hy⟩ := clamp_isSome (r.space.y / r.space.remote.height * r.space.local.height) h
      rw [Space.forceLocal, if_pos htarget, Space.mapY, hy]
      exact ⟨_, rfl⟩
    · rw [Space.forceLocal, if_neg htarget]
      exact ⟨_, rfl⟩
  obtain ⟨space, hspace⟩ := hforce
  have hlocal := Space.target_forceLocal hspace
  simp only [Router.goLocal, hspace, hid]
  exact ⟨_, _, rfl, rfl, hlocal, rfl, rfl, rfl⟩

/-- During an activation, a key event returns the router to the local side
exactly if after it, and not before, the last events since the activation of
the three keys are all presses.  It then sends RELEASE_ALL and not the key.
An activation starts with none of them held, whatever came before it. -/
theorem hotkey_iff_combo (zone : Zone) (remote : Screen F) (dial : Dial) (before : List (Half F))
    (id : UInt32) (cursorX cursorY : F) (portal : Portal) (r₀ : Router F)
    (halves : List (Half F)) (r : Router F)
    (hstart : (router zone).exec (.head (.start zone remote dial))
      (before ++ [.receive (.event (.portal (.activated id cursorX cursorY)) portal)]) =
        some (.head r₀))
    (hactive₀ : r₀.activeId.isSome)
    (hrun : (router zone).exec (.head r₀) halves = some (.waiting r))
    (hone : ∀ half ∈ halves, half.activates = false) (hactive : r.activeId.isSome) :
    r₀.emergency = .new ∧ (∀ keys, keys <+: keyEvents halves → ¬ Combo keys) ∧
      ∃ b, r.bridge = some b ∧ ∀ code pressed time portal, ∃ r',
        (router zone).step (.waiting r)
            (.receive (.event (.capture (.key code pressed time)) portal)) = some (.head r') ∧
          if Combo (keyEvents halves ++ [⟨code.toUInt16, pressed⟩]) then
            r'.activeId = none ∧ r'.space.target = .local ∧
              r'.bridge = some b.releaseAll.1 ∧ r'.emergency = .new ∧
              ∃ cursor, r'.released = r.released ++ [(id, cursor)]
          else
            r'.activeId = some id ∧ r'.space = r.space ∧ r'.bridge = some (b.key code pressed) ∧
              r'.released = r.released := by
  obtain ⟨r₁, hbefore, hreceive⟩ := exec_receive hstart
  obtain ⟨hnew, hheight, htracked₀⟩ := tracked_activated hreceive hactive₀
  have hinit : (Loop.head r₀).All fun r => r.activeId.isSome → Tracked id [] r :=
    all_head fun _ => htracked₀
  have hkept := (router zone).exec_induction_of_all
    (P := fun halves l => l.All fun r => r.activeId.isSome → Tracked id halves r) hinit
    (fun _ _ _ _ _ h hhalf hst => tracked_step h hhalf hst) hrun hone
  have htracked : Tracked id halves r := hkept r rfl hactive
  obtain ⟨⟨hok, -⟩, hplaced⟩ := placed_run ((router zone).exec_trans hstart hrun)
  obtain ⟨b, hb⟩ := Option.isSome_iff_exists.mp (hok.captured hactive)
  have hlocal : r.space.local = r₁.space.local :=
    (hplaced r rfl).local.trans ((placed_run hbefore).2 r₁ rfl).local.symm
  refine ⟨hnew, htracked.incomplete, b, hb, ?_⟩
  intro code pressed time portal
  rw [router_key htracked]
  split
  · obtain ⟨r', cursor, hgo, hover, htarget, hbridge, hemergency, hreleased⟩ :=
      goLocal_isSome zone { r with eventsThisActivation := true, emergency := .new }
        htracked.active (hlocal ▸ hheight)
    rw [hgo]
    refine ⟨r', rfl, hover, htarget, ?_, hemergency, cursor, hreleased⟩
    simp only [hbridge, hb, Option.map_some]
  · refine ⟨_, rfl, htracked.active, rfl, ?_, rfl⟩
    simp only [hb, Option.map_some]

/-! An activation in which left control goes down, and one after it in which
the other two keys do, before left control. -/

def controlBefore : List (Half ℚ) :=
  control ++ iteration (.portal .deactivated) ++ [.top .quiet]

def altBackslash : List (Half ℚ) :=
  iteration (.capture (.key 56 true 0)) ++ iteration (.capture (.key 30 true 0)) ++
    iteration (.capture (.key 43 true 0)) ++ [.top .quiet]

theorem hotkey_iff_combo_altBackslash :
    ∃ r₀ r r' : Router ℚ,
      (router ubuntu).exec (.head (.start ubuntu windows answered)) (controlBefore ++
        [.receive (.event (.portal (.activated 8 2559 720)) ⟨.ok (), .ok ()⟩)]) =
          some (.head r₀) ∧
        (router ubuntu).exec (.head r₀) altBackslash = some (.waiting r) ∧ r.activeId = some 8 ∧
        (router ubuntu).step (.waiting r)
          (.receive (.event (.capture (.key 29 true 0)) ⟨.ok (), .ok ()⟩)) = some (.head r') ∧
        r'.activeId = none := by
  have hrun : ((((router ubuntu).exec (.head (.start ubuntu windows answered)) (controlBefore ++
      [.receive (.event (.portal (.activated 8 2559 720)) ⟨.ok (), .ok ()⟩)])).bind
        Loop.atHead).bind fun r₀ => (((router ubuntu).exec (.head r₀) altBackslash).bind
          Loop.atWait).map fun r => (r₀.activeId, r.activeId)) = some (some 8, some 8) := by
    decide +kernel
  obtain ⟨r₀, hr₀, hrun⟩ := Option.bind_eq_some_iff.mp hrun
  have hl₀ := Loop.bind_atHead_eq_some.mp hr₀
  obtain ⟨r, hr, hstate⟩ := Option.map_eq_some_iff.mp hrun
  have hl := Loop.bind_atWait_eq_some.mp hr
  simp only [Prod.mk.injEq] at hstate
  obtain ⟨hactive₀, hactive⟩ := hstate
  obtain ⟨-, -, b, -, hkey⟩ :=
    hotkey_iff_combo ubuntu windows answered controlBefore 8 2559 720 ⟨.ok (), .ok ()⟩ r₀
      altBackslash r hl₀ (by rw [hactive₀]; rfl) hl (by decide +kernel) (by rw [hactive]; rfl)
  obtain ⟨r', hstep, hr'⟩ := hkey 29 true 0 ⟨.ok (), .ok ()⟩
  rw [if_pos (by decide +kernel)] at hr'
  exact ⟨r₀, r, r', hl₀, hl, hactive, hstep, hr'.1⟩

end Beaglewing.Input
