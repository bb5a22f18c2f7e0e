/-
# `Input.Activations` — signals of one activation and the next

The compositor starts activations one after the other; each ends with its
Deactivated signal or with the router's Release.  Signals and captured
events reach the router through threads of their own, one for each portal
signal and one for EI, that all send into one queue: each thread keeps its
order, and nothing orders the threads among each other.  Of all these only
Activated carries the number of its activation on.

The numbers that the router does not see are ghosts: `Sent` says which
activation an event of the queue belongs to, and `owner` which one
`active_id` stands for.  If the threads do not overtake each other
(`Ordered`), the queue tells of one activation after the other (`told`), and
what belongs to an activation finds the router at that one or at none.

| event of the queue | the activation it belongs to | the router |
|---|---|---|
| Activated | the next one | takes it, or releases it |
| Deactivated | the last one told of | ends it, unless it was released |
| captured | the last one told of | acts, unless that has ended |
| captured | the next one, if the last has ended | does nothing |
-/
import Beaglewing.Input.Mode

namespace Beaglewing.Input

open Base

/-- What a thread has sent, with the activation it belongs to. -/
inductive Sent (F : Type) where
  | activated (n : Nat) (cursorX cursorY : F)
  | deactivated (n : Nat)
  | input (n : Nat) (e : CaptureEvent F)
  /-- Disabled, ZonesChanged, the screen saver, the end of the EI stream. -/
  | other (e : Event F)

/-- The activation id of the portal. -/
def idOf (n : Nat) : UInt32 := UInt32.ofNat n

/-- What the router receives of it. -/
def Sent.event {F : Type} : Sent F → Event F
  | .activated n x y => .portal (.activated (idOf n) x y)
  | .deactivated _ => .portal .deactivated
  | .input _ e => .capture e
  | .other e => e

/-- The activation that a Deactivated signal or a captured event belongs to. -/
def Sent.belongs {F : Type} : Sent F → Option Nat
  | .deactivated n => some n
  | .input n _ => some n
  | _ => none

/-- An event of no activation. -/
def Event.Other {F : Type} : Event F → Prop
  | .portal (.activated _ _ _) => False
  | .portal .deactivated => False
  | .portal .disabled => True
  | .portal .zonesChanged => True
  | .capture .disconnected => True
  | .capture _ => False
  | .screenSaver _ => True

instance {F : Type} : DecidablePred (Event.Other (F := F)) := by
  rintro (e | e | e)
  · cases e <;> simp only [Event.Other] <;> infer_instance
  · cases e <;> simp only [Event.Other] <;> infer_instance
  · exact isTrue trivial

/-- The compositor's activations, the threads, the queue and the router. -/
structure World (F : Type) where
  /-- The number of the last activation. -/
  issued : Nat
  /-- The activation that has neither been deactivated nor released. -/
  current : Option Nat
  activated : List (Nat × F × F)
  deactivated : List Nat
  ei : List (Nat × CaptureEvent F)
  queue : List (Sent F)
  loop : Loop F
  owner : Option Nat

inductive Move (F : Type) where
  /-- The compositor starts an activation, ends it, captures an event. -/
  | activate (cursorX cursorY : F)
  | deactivate
  | input (e : CaptureEvent F)
  | forwardActivated
  | forwardDeactivated
  | forwardInput
  | other (e : Event F)
  /-- The router goes to the wait, finds nothing, or receives. -/
  | top (t : Top)
  | timeout
  | handle (portal : Portal)

def Loop.router {F : Type} : Loop F → Option (Router F)
  | .head r => some r
  | .waiting r => some r
  | .returned r _ => some r
  | .panicked => none

/-- The state of the loop, if it has not panicked, is such a state. -/
def Loop.All {F : Type} (P : Router F → Prop) (l : Loop F) : Prop :=
  ∀ r, l.router = some r → P r

section All
variable {F : Type} {P Q : Router F → Prop} {r : Router F} {l : Loop F}

theorem all_head (h : P r) : (Loop.head r).All P := by
  intro r₁ h₁
  cases h₁
  exact h

theorem all_waiting (h : P r) : (Loop.waiting r).All P := by
  intro r₁ h₁
  cases h₁
  exact h

theorem all_returned {result : Except String Unit} (h : P r) : (Loop.returned r result).All P := by
  intro r₁ h₁
  cases h₁
  exact h

theorem all_orPanic {α : Type} {o : Option α} {k : α → Loop F}
    (h : ∀ a, o = some a → (k a).All P) : (Loop.orPanic o k).All P := by
  cases o with
  | none => exact fun _ h => by cases h
  | some a => exact h a rfl

theorem Loop.All.imp (h : l.All P) (himp : ∀ r, P r → Q r) : l.All Q :=
  fun r hr => himp r (h r hr)

end All

/-- After a step of the router: what it was capturing for is released if
`portal.release` was called, and `active_id` stands for it if it is set. -/
def World.settle {F : Type} (w : World F) (r : Router F) (capturing : Option Nat) (l : Loop F) :
    World F :=
  match l.router with
  | none => { w with loop := l }
  | some r' =>
      { w with
        loop := l
        owner := if r'.activeId.isSome then capturing else none
        current :=
          if r.released.length < r'.released.length ∧ w.current = capturing then none
          else w.current }

/-- The activation a step of the router may release. -/
def Sent.capturing {F : Type} (e : Sent F) (owner : Option Nat) : Option Nat :=
  match e with
  | .activated n _ _ => some n
  | _ => owner

variable {F : Type}

/-! ## What a step of the router does to an activation -/

/-- The activation goes on, or it is released. -/
def Kept (r r' : Router F) : Prop :=
  (r'.activeId = r.activeId ∧ r'.released = r.released) ∨
    (r.activeId.isSome ∧ r'.activeId = none ∧ r.released.length < r'.released.length)

theorem kept_of_eq {r r' : Router F} (hid : r'.activeId = r.activeId)
    (hreleased : r'.released = r.released) : Kept r r' :=
  .inl ⟨hid, hreleased⟩

theorem Kept.trans {r₁ r₂ r₃ : Router F} (h : Kept r₁ r₂) (h' : Kept r₂ r₃) : Kept r₁ r₃ := by
  rcases h with ⟨hid, hrel⟩ | ⟨hsome, hnone, hlt⟩
  · rcases h' with ⟨hid', hrel'⟩ | ⟨hsome', hnone', hlt'⟩
    · exact .inl ⟨hid'.trans hid, hrel'.trans hrel⟩
    · exact .inr ⟨hid ▸ hsome', hnone', hrel ▸ hlt'⟩
  · rcases h' with ⟨hid', hrel'⟩ | ⟨hsome', -, -⟩
    · exact .inr ⟨hsome, hid'.trans hnone, hrel' ▸ hlt⟩
    · rw [hnone] at hsome'
      cases hsome'

/-- Whatever the loop does then, the activation is kept or released. -/
def LoopKept (r : Router F) (l : Loop F) : Prop := ∀ r', l.router = some r' → Kept r r'

theorem kept_reconnect (r : Router F) (due : Bool) (dial : Dial) :
    Kept r (r.reconnect due dial) := by
  rcases r.reconnect_cases due dial with heq | ⟨-, b, -, heq⟩
  · rw [heq]
    exact kept_of_eq rfl rfl
  · rw [heq]
    exact kept_of_eq rfl rfl

theorem kept_flush (r : Router F) (due : Bool) : Kept r (r.clearPending.flush due) := by
  have hclear : Kept r r.clearPending := by
    rw [Router.clearPending]
    split <;> exact kept_of_eq rfl rfl
  refine hclear.trans ?_
  rw [Router.flush]
  split <;> exact kept_of_eq rfl rfl

theorem kept_onButton (r : Router F) (code : UInt32) (pressed : Bool) :
    LoopKept r (r.onButton code pressed) := by
  rw [Router.onButton]
  cases buttonToBit code.toUInt16 with
  | none => exact all_head (kept_of_eq rfl rfl)
  | some bit =>
      cases r.bridge with
      | none => exact all_head (kept_of_eq rfl rfl)
      | some b => exact all_head (kept_of_eq rfl rfl)

/-! ## What the queue tells -/

/-- The last activation the router was told of, and whether it has ended. -/
structure Told where
  last : Nat
  ended : Bool
  deriving DecidableEq

def told : Lts Told (Sent F) where
  step t
    | .activated n _ _ => if n = t.last + 1 then some ⟨n, false⟩ else none
    | .deactivated n => if n = t.last then some ⟨n, true⟩ else none
    | .input n _ => if n = t.last ∨ n = t.last + 1 ∧ t.ended then some t else none
    | .other e => if e.Other then some t else none

theorem told_activated {t t' : Told} {n : Nat} {x y : F}
    (h : told.step t (.activated n x y) = some t') : n = t.last + 1 ∧ t' = ⟨n, false⟩ := by
  by_cases hn : n = t.last + 1
  · simp only [told, if_pos hn, Option.some.injEq] at h
    exact ⟨hn, h.symm⟩
  · simp [told, if_neg hn] at h

theorem told_deactivated {t t' : Told} {n : Nat}
    (h : told.step t (.deactivated n : Sent F) = some t') : n = t.last ∧ t' = ⟨n, true⟩ := by
  by_cases hn : n = t.last
  · simp only [told, if_pos hn, Option.some.injEq] at h
    exact ⟨hn, h.symm⟩
  · simp [told, if_neg hn] at h

theorem told_input {t t' : Told} {n : Nat} {e : CaptureEvent F}
    (h : told.step t (.input n e) = some t') :
    (n = t.last ∨ n = t.last + 1 ∧ t.ended) ∧ t' = t := by
  by_cases hn : n = t.last ∨ n = t.last + 1 ∧ t.ended
  · simp only [told, if_pos hn, Option.some.injEq] at h
    exact ⟨hn, h.symm⟩
  · simp [told, if_neg hn] at h

theorem told_other {t t' : Told} {e : Event F} (h : told.step t (.other e) = some t') :
    e.Other ∧ t' = t := by
  by_cases he : e.Other
  · simp only [told, if_pos he, Option.some.injEq] at h
    exact ⟨he, h.symm⟩
  · simp [told, if_neg he] at h

/-- Activations are told of in order. -/
theorem told_le {t t' : Told} {queue : List (Sent F)} (h : told.exec t queue = some t') :
    t.last ≤ t'.last := by
  refine told.exec_invariant (P := fun t' => t.last ≤ t'.last) Nat.le.refl ?_ h
  intro t₁ e t₂ hle hstep
  cases e with
  | activated n x y =>
      obtain ⟨rfl, rfl⟩ := told_activated hstep
      exact Nat.le_succ_of_le hle
  | deactivated n =>
      obtain ⟨rfl, rfl⟩ := told_deactivated hstep
      exact hle
  | input n e =>
      obtain ⟨-, rfl⟩ := told_input hstep
      exact hle
  | other e =>
      obtain ⟨-, rfl⟩ := told_other hstep
      exact hle

/-- An end that comes before the queue is one more end. -/
theorem told_end {t t' : Told} {queue : List (Sent F)} (h : told.exec t queue = some t') :
    ∃ t₁, told.exec ⟨t.last, true⟩ queue = some t₁ ∧ t₁.last = t'.last ∧
      (t₁.ended = true ↔ t'.ended = true ∨ t.last = t'.last) := by
  induction queue generalizing t with
  | nil =>
      cases h
      exact ⟨_, rfl, rfl, by simp⟩
  | cons e rest ih =>
      obtain ⟨s, hstep, hrest⟩ := Option.bind_eq_some_iff.mp h
      obtain ⟨t₁, hrun, hlast, hended⟩ := ih hrest
      cases e with
      | activated n x y =>
          obtain ⟨rfl, rfl⟩ := told_activated hstep
          have hlt : t.last + 1 ≤ t'.last := told_le hrest
          refine ⟨t', ?_, rfl, ?_⟩
          · simpa [told] using hrest
          · have hne : t.last ≠ t'.last := by omega
            simp [hne]
      | deactivated n =>
          obtain ⟨rfl, rfl⟩ := told_deactivated hstep
          refine ⟨t₁, ?_, hlast, hended⟩
          simpa [told] using hrun
      | input n e =>
          obtain ⟨hn, rfl⟩ := told_input hstep
          refine ⟨t₁, ?_, hlast, hended⟩
          have hs : told.step ⟨s.last, true⟩ (.input n e) = some ⟨s.last, true⟩ :=
            if_pos (hn.imp_right fun h => ⟨h.1, rfl⟩)
          rw [Lts.exec_cons, hs]
          exact hrun
      | other e =>
          obtain ⟨he, rfl⟩ := told_other hstep
          have hs : told.step ⟨s.last, true⟩ (.other e) = some ⟨s.last, true⟩ := if_pos he
          refine ⟨t₁, ?_, hlast, hended⟩
          rw [Lts.exec_cons, hs]
          exact hrun

/-! ## Order -/

/-- No Activated overtakes what belongs to an activation before it, no
Deactivated overtakes its Activated, and no captured event overtakes the
Deactivated of an activation before its own. -/
def Ordered (w : World F) : Move F → Prop
  | .forwardActivated =>
      match w.activated with
      | [] => True
      | (n, _, _) :: _ => (∀ m ∈ w.deactivated, n ≤ m) ∧ ∀ p ∈ w.ei, n ≤ p.1
  | .forwardDeactivated =>
      match w.deactivated with
      | [] => True
      | n :: _ => n ∉ w.activated.map Prod.fst
  | .forwardInput =>
      match w.ei with
      | [] => True
      | (n, _) :: _ => ∀ m ∈ w.deactivated, n ≤ m
  | _ => True

instance (w : World F) : DecidablePred (Ordered w)
  | .forwardActivated =>
      match h : w.activated with
      | [] => isTrue (by simp only [Ordered, h])
      | (n, _, _) :: _ =>
          decidable_of_iff ((∀ m ∈ w.deactivated, n ≤ m) ∧ ∀ p ∈ w.ei, n ≤ p.1)
            (by simp only [Ordered, h])
  | .forwardDeactivated =>
      match h : w.deactivated with
      | [] => isTrue (by simp only [Ordered, h])
      | n :: _ => decidable_of_iff (n ∉ w.activated.map Prod.fst) (by simp only [Ordered, h])
  | .forwardInput =>
      match h : w.ei with
      | [] => isTrue (by simp only [Ordered, h])
      | (n, _) :: _ => decidable_of_iff (∀ m ∈ w.deactivated, n ≤ m) (by simp only [Ordered, h])
  | .activate _ _ => isTrue trivial
  | .deactivate => isTrue trivial
  | .input _ => isTrue trivial
  | .other _ => isTrue trivial
  | .top _ => isTrue trivial
  | .timeout => isTrue trivial
  | .handle _ => isTrue trivial

/-- Nothing is on its way. -/
structure Drained (w : World F) : Prop where
  activated : w.activated = []
  deactivated : w.deactivated = []
  ei : w.ei = []
  queue : w.queue = []

/-! ## The threads and the compositor -/

/-- What the compositor and the threads still hold, `t` being what has been
forwarded. -/
structure Waiting (w : World F) (t : Told) : Prop where
  activated : w.activated.map Prod.fst = List.range' (t.last + 1) (w.issued - t.last)
  last : t.last ≤ w.issued
  deactivated : ∀ n ∈ w.deactivated, t.last ≤ n ∧ n ≤ w.issued ∧ w.current ≠ some n
  ei : ∀ p ∈ w.ei, t.last ≤ p.1 ∧ p.1 ≤ w.issued
  current : ∀ n, w.current = some n → n = w.issued
  /-- An activation not yet told of ends with a signal. -/
  ahead : ∀ n, t.last < n → n ≤ w.issued → w.current = some n ∨ n ∈ w.deactivated
  behind : t.ended = false → w.current = some t.last ∨ t.last ∈ w.deactivated
  closed : t.ended = true → w.current ≠ some t.last

/-- The world of an open router: the queue tells of the activations from the
one that `active_id` stands for, or stood for, up to what was forwarded. -/
structure Isolated (w : World F) (r : Router F) (h t : Told) : Prop where
  queue : told.exec h w.queue = some t
  waiting : Waiting w t
  active : r.activeId = w.owner.map idOf
  owner : ∀ n, w.owner = some n → n = h.last
  ended : h.ended = w.owner.isNone

/-- The router's release ends an activation it was told of. -/
theorem Waiting.released {w : World F} {t t' : Told} {n : Nat} (h : Waiting w t)
    (hn : n ≤ t.last) (hlast : t'.last = t.last)
    (hended : t'.ended = true ↔ t.ended = true ∨ n = t.last) :
    Waiting { w with current := if w.current = some n then none else w.current } t' := by
  obtain ⟨last', ended'⟩ := t'
  cases hlast
  have hsub : ∀ m, (if w.current = some n then none else w.current) = some m →
      w.current = some m ∧ m ≠ n := by
    intro m hm
    split at hm
    · cases hm
    · next hne => exact ⟨hm, fun heq => hne (heq ▸ hm)⟩
  have hkeep : ∀ m, w.current = some m → m ≠ n →
      (if w.current = some n then none else w.current) = some m := by
    intro m hm hne
    rw [if_neg, hm]
    rw [hm]
    exact fun heq => hne (Option.some.inj heq)
  constructor
  case activated => exact h.activated
  case last => exact h.last
  case deactivated =>
    intro m hm
    obtain ⟨hle, hissued, hne⟩ := h.deactivated m hm
    exact ⟨hle, hissued, fun heq => hne (hsub m heq).1⟩
  case ei => exact h.ei
  case current => exact fun m hm => h.current m (hsub m hm).1
  case ahead =>
    intro m hlt hle
    have hne : m ≠ n := (lt_of_le_of_lt hn hlt).ne'
    exact (h.ahead m hlt hle).imp_left fun hm => hkeep m hm hne
  case behind =>
    intro hfalse
    have hnot : ¬ (t.ended = true ∨ n = t.last) := by
      intro hor
      cases hfalse.symm.trans (hended.mpr hor)
    have hopen : t.ended = false := by
      cases ht : t.ended with
      | true => exact absurd (.inl ht) hnot
      | false => rfl
    exact (h.behind hopen).imp_left fun hm => hkeep _ hm fun heq => hnot (.inr heq.symm)
  case closed =>
    intro htrue hcurrent
    obtain ⟨hm, hne⟩ := hsub _ hcurrent
    rcases hended.mp htrue with ht | heq
    · exact h.closed ht hm
    · exact hne heq.symm

/-! ## The steps of the compositor and the threads -/

theorem Waiting.congr {w w' : World F} {t : Told} (h : Waiting w t)
    (hissued : w'.issued = w.issued) (hcurrent : w'.current = w.current)
    (hactivated : w'.activated = w.activated) (hdeactivated : w'.deactivated = w.deactivated)
    (hei : w'.ei = w.ei) : Waiting w' t := by
  constructor
  case activated => rw [hactivated, hissued]; exact h.activated
  case last => rw [hissued]; exact h.last
  case deactivated => rw [hdeactivated, hissued, hcurrent]; exact h.deactivated
  case ei => rw [hei, hissued]; exact h.ei
  case current => rw [hcurrent, hissued]; exact h.current
  case ahead => rw [hissued, hcurrent, hdeactivated]; exact h.ahead
  case behind => rw [hcurrent, hdeactivated]; exact h.behind
  case closed => rw [hcurrent]; exact h.closed

theorem Waiting.activate {w : World F} {t : Told} (h : Waiting w t) (hnone : w.current = none)
    (x y : F) :
    Waiting { w with
      issued := w.issued + 1
      current := some (w.issued + 1)
      activated := w.activated ++ [(w.issued + 1, x, y)] } t := by
  have hlast := h.last
  constructor
  case activated =>
    have hnum : t.last + 1 + (w.issued - t.last) = w.issued + 1 := by omega
    show (w.activated ++ _).map Prod.fst = List.range' (t.last + 1) (w.issued + 1 - t.last)
    rw [List.map_append, h.activated, Nat.sub_add_comm hlast, List.range'_1_concat, hnum]
    rfl
  case last => exact Nat.le_succ_of_le hlast
  case deactivated =>
    intro n hn
    obtain ⟨hle, hissued, -⟩ := h.deactivated n hn
    refine ⟨hle, Nat.le_succ_of_le hissued, ?_⟩
    intro heq
    cases heq
    exact absurd hissued (Nat.not_succ_le_self _)
  case ei => exact fun p hp => ⟨(h.ei p hp).1, Nat.le_succ_of_le (h.ei p hp).2⟩
  case current => exact fun n hn => (Option.some.inj hn).symm
  case ahead =>
    intro n hlt hle
    rcases Nat.le_succ_iff.mp hle with hle | rfl
    · exact (h.ahead n hlt hle).imp_left fun hn => by rw [hnone] at hn; cases hn
    · exact .inl rfl
  case behind =>
    intro hopen
    exact (h.behind hopen).imp_left fun hn => by rw [hnone] at hn; cases hn
  case closed =>
    rintro - heq
    have : w.issued + 1 = t.last := Option.some.inj heq
    omega

theorem Waiting.deactivate {w : World F} {t : Told} {n : Nat} (h : Waiting w t)
    (hn : w.current = some n) :
    Waiting { w with current := none, deactivated := w.deactivated ++ [n] } t := by
  have hissued := h.current n hn
  have hlast := h.last
  have hmem : ∀ m, w.current = some m → m ∈ w.deactivated ++ [n] := by
    intro m hm
    rw [hn] at hm
    cases hm
    exact List.mem_append_right _ List.mem_cons_self
  constructor
  case activated => exact h.activated
  case last => exact hlast
  case deactivated =>
    intro m hm
    rcases List.mem_append.mp hm with hm | hm
    · obtain ⟨hle, hle', -⟩ := h.deactivated m hm
      exact ⟨hle, hle', nofun⟩
    · cases List.mem_singleton.mp hm
      exact ⟨hissued ▸ hlast, hissued.le, nofun⟩
  case ei => exact h.ei
  case current => exact nofun
  case ahead =>
    intro m hlt hle
    rcases h.ahead m hlt hle with hm | hm
    · exact .inr (hmem m hm)
    · exact .inr (List.mem_append_left _ hm)
  case behind =>
    intro hopen
    rcases h.behind hopen with hm | hm
    · exact .inr (hmem _ hm)
    · exact .inr (List.mem_append_left _ hm)
  case closed => exact nofun

theorem Waiting.capture {w : World F} {t : Told} {n : Nat} (h : Waiting w t)
    (hn : w.current = some n) (e : CaptureEvent F) :
    Waiting { w with ei := w.ei ++ [(n, e)] } t := by
  constructor
  case activated => exact h.activated
  case last => exact h.last
  case deactivated => exact h.deactivated
  case ei =>
    intro p hp
    rcases List.mem_append.mp hp with hp | hp
    · exact h.ei p hp
    · cases List.mem_singleton.mp hp
      exact ⟨(h.current n hn) ▸ h.last, (h.current n hn).le⟩
  case current => exact h.current
  case ahead => exact h.ahead
  case behind => exact h.behind
  case closed => exact h.closed

theorem Waiting.forwardActivated {w : World F} {t : Told} {n : Nat} {x y : F}
    {rest : List (Nat × F × F)} (h : Waiting w t) (hw : w.activated = (n, x, y) :: rest)
    (hordered : Ordered w .forwardActivated) (queue : List (Sent F)) :
    n = t.last + 1 ∧ Waiting { w with activated := rest, queue := queue } ⟨n, false⟩ := by
  have hrange := h.activated
  rw [hw, List.map_cons] at hrange
  have hpos : 0 < w.issued - t.last := by
    rcases Nat.eq_zero_or_pos (w.issued - t.last) with hz | hpos
    · rw [hz] at hrange
      cases hrange
    · exact hpos
  obtain ⟨k, hk⟩ : ∃ k, w.issued - t.last = k + 1 := ⟨_, (Nat.succ_pred_eq_of_pos hpos).symm⟩
  rw [hk, List.range'_succ, List.cons.injEq] at hrange
  obtain ⟨rfl, hrest⟩ := hrange
  simp only [Ordered, hw] at hordered
  refine ⟨rfl, ?_⟩
  constructor
  case activated =>
    have hk' : w.issued - (t.last + 1) = k := by omega
    show rest.map Prod.fst = List.range' (t.last + 1 + 1) (w.issued - (t.last + 1))
    rw [hk']
    exact hrest
  case last =>
    show t.last + 1 ≤ w.issued
    omega
  case deactivated =>
    intro m hm
    exact ⟨hordered.1 m hm, (h.deactivated m hm).2⟩
  case ei => exact fun p hp => ⟨hordered.2 p hp, (h.ei p hp).2⟩
  case current => exact h.current
  case ahead => exact fun m hlt hle => h.ahead m ((Nat.lt_succ_self _).trans hlt) hle
  case behind => exact fun _ => h.ahead (t.last + 1) (Nat.lt_succ_self _) (by omega)
  case closed => exact nofun

theorem Waiting.forwardDeactivated {w : World F} {t : Told} {n : Nat} {rest : List Nat}
    (h : Waiting w t) (hw : w.deactivated = n :: rest)
    (hordered : Ordered w .forwardDeactivated) (queue : List (Sent F)) :
    n = t.last ∧ Waiting { w with deactivated := rest, queue := queue } ⟨n, true⟩ := by
  obtain ⟨hle, hissued, hne⟩ := h.deactivated n (hw ▸ List.mem_cons_self)
  simp only [Ordered, hw, h.activated, List.mem_range'_1] at hordered
  have hn : n = t.last := by omega
  subst hn
  refine ⟨rfl, ?_⟩
  constructor
  case activated => exact h.activated
  case last => exact h.last
  case deactivated => exact fun m hm => h.deactivated m (hw ▸ List.mem_cons_of_mem _ hm)
  case ei => exact h.ei
  case current => exact h.current
  case ahead =>
    intro m hlt hle
    refine (h.ahead m hlt hle).imp_right fun hm => ?_
    rw [hw] at hm
    exact (List.mem_cons.mp hm).resolve_left hlt.ne'
  case behind => exact nofun
  case closed => exact fun _ => hne

/-- A captured event belongs to the last activation told of, or to the next
one, the last one being over. -/
theorem Waiting.forwardInput {w : World F} {t : Told} {n : Nat} {e : CaptureEvent F}
    {rest : List (Nat × CaptureEvent F)} (h : Waiting w t) (hw : w.ei = (n, e) :: rest)
    (hordered : Ordered w .forwardInput) (queue : List (Sent F)) :
    told.step t (.input n e) = some t ∧ Waiting { w with ei := rest, queue := queue } t := by
  obtain ⟨hle, hissued⟩ := h.ei (n, e) (hw ▸ List.mem_cons_self)
  simp only [Ordered, hw] at hordered
  have hended : n ≠ t.last → t.ended = true := by
    intro hne
    cases hopen : t.ended with
    | true => rfl
    | false =>
        rcases h.behind hopen with hcurrent | hmem
        · have := h.current _ hcurrent
          omega
        · have := hordered _ hmem
          omega
  have hnext : n ≤ t.last + 1 := by
    by_contra hgt
    rcases h.ahead (t.last + 1) (Nat.lt_succ_self _) (by omega) with hcurrent | hmem
    · have := h.current _ hcurrent
      omega
    · have := hordered _ hmem
      omega
  refine ⟨if_pos ?_, ?_⟩
  · by_cases hn : n = t.last
    · exact .inl hn
    · exact .inr ⟨by omega, hended hn⟩
  · constructor
    case activated => exact h.activated
    case last => exact h.last
    case deactivated => exact h.deactivated
    case ei => exact fun p hp => h.ei p (hw ▸ List.mem_cons_of_mem _ hp)
    case current => exact h.current
    case ahead => exact h.ahead
    case behind => exact h.behind
    case closed => exact h.closed

/-! ## What a step of the router does to the world -/

theorem Isolated.loop {w : World F} {r r' : Router F} {h t : Told} (hw : Isolated w r h t)
    (hid : r'.activeId = r.activeId) (l : Loop F) :
    Isolated { w with loop := l } r' h t where
  queue := hw.queue
  waiting := hw.waiting.congr rfl rfl rfl rfl rfl
  active := hid.trans hw.active
  owner := hw.owner
  ended := hw.ended

@[simp] theorem settle_loop (w : World F) (r : Router F) (capturing : Option Nat) (l : Loop F) :
    (w.settle r capturing l).loop = l := by
  rw [World.settle]
  split <;> rfl

theorem settle_kept {w : World F} {r r' : Router F} {l : Loop F} {owner : Option Nat}
    (howner : w.owner = owner) (hl : l.router = some r') (hactive : r.activeId = owner.map idOf)
    (hkept : Kept r r') :
    (r'.activeId = r.activeId ∧ w.settle r owner l = { w with loop := l }) ∨
      ∃ n, owner = some n ∧ r'.activeId = none ∧
        w.settle r owner l = { w with
          loop := l
          owner := none
          current := if w.current = some n then none else w.current } := by
  rcases hkept with ⟨hid, hreleased⟩ | ⟨hsome, hnone, hlt⟩
  · refine .inl ⟨hid, ?_⟩
    simp only [World.settle, hl, hid, hreleased, lt_self_iff_false, false_and, if_false, hactive]
    cases howner
    cases w.owner <;> rfl
  · cases owner with
    | none =>
        rw [hactive] at hsome
        cases hsome
    | some n =>
        refine .inr ⟨n, rfl, hnone, ?_⟩
        simp only [World.settle, hl, hnone, hlt, true_and, Option.isSome_none, Bool.false_eq_true,
          if_false]

/-- The router was told of the activation, and released it. -/
theorem Isolated.release {w : World F} {r' : Router F} {t t' : Told} {n : Nat} {l : Loop F}
    (hqueue : told.exec ⟨n, true⟩ w.queue = some t') (hlast : t'.last = t.last)
    (hended : t'.ended = true ↔ t.ended = true ∨ n = t.last) (hw : Waiting w t)
    (hnone : r'.activeId = none) :
    Isolated { w with
      loop := l
      owner := none
      current := if w.current = some n then none else w.current } r' ⟨n, true⟩ t' where
  queue := hqueue
  waiting := (hw.released (hlast ▸ told_le hqueue) hlast hended).congr rfl rfl rfl rfl rfl
  active := hnone
  owner := nofun
  ended := rfl

theorem Isolated.settle {w : World F} {r r' : Router F} {h t : Told} {l : Loop F}
    (hw : Isolated w r h t) (hl : l.router = some r') (hkept : Kept r r') :
    ∃ h' t', Isolated (w.settle r w.owner l) r' h' t' := by
  rcases settle_kept rfl hl hw.active hkept with ⟨hid, heq⟩ | ⟨n, howner, hnone, heq⟩
  · rw [heq]
    exact ⟨h, t, hw.loop hid l⟩
  · have hn := hw.owner n howner
    obtain ⟨t', hqueue, hlast, hended⟩ := told_end hw.queue
    rw [← hn] at hqueue hended
    rw [heq]
    exact ⟨_, t', .release hqueue hlast hended hw.waiting hnone⟩

/-- While one activation is current, what belongs to another finds none. -/
theorem Isolated.stray {w : World F} {r : Router F} {h t : Told} {e : Sent F}
    {rest : List (Sent F)} {n : Nat} (hw : Isolated w r h t) (hqueue : w.queue = e :: rest)
    (he : e.belongs = some n) (hne : w.owner ≠ some n) : r.activeId = none := by
  have hrun := hw.queue
  rw [hqueue, Lts.exec_cons, Option.bind_eq_some_iff] at hrun
  obtain ⟨h₁, hstep, -⟩ := hrun
  have hid : w.owner = none → r.activeId = none := by
    intro hnone
    rw [hw.active, hnone]
    rfl
  have hlast : n = h.last → w.owner = none := by
    intro hn
    cases howner : w.owner with
    | none => rfl
    | some m =>
        have hm := hw.owner m howner
        exact absurd (by rw [howner, hm, hn]) hne
  cases e with
  | activated m x y => cases he
  | deactivated m =>
      cases he
      obtain ⟨hn, -⟩ := told_deactivated hstep
      exact hid (hlast hn)
  | input m e =>
      cases he
      obtain ⟨hn | ⟨-, hended⟩, -⟩ := told_input hstep
      · exact hid (hlast hn)
      · rw [hw.ended, Option.isNone_iff_eq_none] at hended
        exact hid hended
  | other e => cases he

/-- Once nothing is on its way, the router and the compositor agree. -/
theorem Isolated.drained {w : World F} {r : Router F} {h t : Told} (hw : Isolated w r h t)
    (hd : Drained w) : w.owner = w.current := by
  have hrun := hw.queue
  rw [hd.queue] at hrun
  cases hrun
  have hnum := hw.waiting.activated
  rw [hd.activated, List.map_nil, eq_comm, List.range'_eq_nil_iff] at hnum
  have hissued : w.issued = h.last := Nat.le_antisymm (Nat.le_of_sub_eq_zero hnum) hw.waiting.last
  cases howner : w.owner with
  | none =>
      have hended : h.ended = true := by
        rw [hw.ended, howner]
        rfl
      cases hcurrent : w.current with
      | none => rfl
      | some n =>
          have hn := hw.waiting.current n hcurrent
          exact absurd (by rw [hcurrent, hn, hissued]) (hw.waiting.closed hended)
  | some n =>
      have hended : h.ended = false := by
        rw [hw.ended, howner]
        rfl
      obtain rfl := hw.owner n howner
      rcases hw.waiting.behind hended with hcurrent | hmem
      · exact hcurrent.symm
      · rw [hd.deactivated] at hmem
        cases hmem

/-! ## The system -/

variable [F64 F]

def world (zone : Zone) : Lts (World F) (Move F) where
  step w
    | .activate x y =>
        if w.current.isNone then
          some { w with
            issued := w.issued + 1
            current := some (w.issued + 1)
            activated := w.activated ++ [(w.issued + 1, x, y)] }
        else none
    | .deactivate =>
        w.current.map fun n => { w with current := none, deactivated := w.deactivated ++ [n] }
    | .input e =>
        match w.current, e with
        | _, .disconnected => none
        | none, _ => none
        | some n, e => some { w with ei := w.ei ++ [(n, e)] }
    | .forwardActivated =>
        match w.activated with
        | [] => none
        | (n, x, y) :: rest =>
            some { w with activated := rest, queue := w.queue ++ [.activated n x y] }
    | .forwardDeactivated =>
        match w.deactivated with
        | [] => none
        | n :: rest => some { w with deactivated := rest, queue := w.queue ++ [.deactivated n] }
    | .forwardInput =>
        match w.ei with
        | [] => none
        | (n, e) :: rest => some { w with ei := rest, queue := w.queue ++ [.input n e] }
    | .other e => if e.Other then some { w with queue := w.queue ++ [.other e] } else none
    | .top t =>
        match w.loop with
        | .head r => some (w.settle r w.owner (r.top zone t))
        | _ => none
    | .timeout =>
        match w.loop with
        | .waiting r => some { w with loop := .head r }
        | _ => none
    | .handle portal =>
        match w.loop, w.queue with
        | .waiting r, e :: rest =>
            some ({ w with queue := rest }.settle r (e.capturing w.owner)
              (r.receive zone (.event e.event portal)))
        | _, _ => none

def World.start (zone : Zone) (remote : Screen F) (dial : Dial) : World F where
  issued := 0
  current := none
  activated := []
  deactivated := []
  ei := []
  queue := []
  loop := .head (.start zone remote dial)
  owner := none

variable {zone : Zone}

/-! ## The router's steps -/

/-- `go_local` releases what is captured. -/
theorem released_goLocal {r r' : Router F} (h : r.goLocal zone = some r') :
    r'.released.length = r.released.length + if r.activeId.isSome then 1 else 0 := by
  obtain ⟨space, -, h⟩ := Option.bind_eq_some_iff.mp h
  cases h
  cases r.activeId <;> simp

theorem kept_goLocal {r r' : Router F} (h : r.goLocal zone = some r') : Kept r r' := by
  have hid := Router.activeId_goLocal h
  have hlen := released_goLocal h
  cases hr : r.activeId with
  | none =>
      obtain ⟨space, -, h⟩ := Option.bind_eq_some_iff.mp h
      cases h
      exact kept_of_eq hr.symm (by simp [hr])
  | some id =>
      rw [hr] at hlen
      exact .inr ⟨by rw [hr]; rfl, hid, by simp only [Option.isSome_some, if_true] at hlen; omega⟩

theorem kept_goLocalIfActive {r r' : Router F} (h : r.goLocalIfActive zone = some r') :
    Kept r r' := by
  rcases Router.goLocalIfActive_cases h with hlocal | ⟨-, rfl⟩
  · exact kept_goLocal hlocal
  · exact kept_of_eq rfl rfl

theorem kept_keepalive {r r' : Router F} {due : Bool} (h : r.keepalive zone due = some r') :
    Kept r r' := by
  have hlost : Kept r { r with bridge := none, published := .noBridge } := kept_of_eq rfl rfl
  rcases Router.keepalive_cases h with rfl | ⟨b, -, rfl⟩ | ⟨-, rfl⟩ | hlocal
  · exact kept_of_eq rfl rfl
  · exact kept_of_eq rfl rfl
  · exact hlost
  · exact hlost.trans (kept_goLocal hlocal)

theorem kept_failsafe {r r' : Router F} {silent : Bool} (h : r.failsafe zone silent = some r') :
    Kept r r' := by
  rcases Router.failsafe_cases h with hlocal | rfl
  · exact kept_goLocal hlocal
  · exact kept_of_eq rfl rfl

theorem kept_top (r : Router F) (t : Top) : LoopKept r (r.top zone t) := by
  rw [Router.top]
  split
  · refine all_orPanic ?_
    intro r' hr'
    exact all_returned (kept_goLocal hr')
  · refine all_orPanic ?_
    intro r₁ h₁
    refine all_orPanic ?_
    intro r₂ h₂ r' hr'
    cases hr'
    exact (((kept_keepalive h₁).trans (kept_reconnect _ _ _)).trans (kept_failsafe h₂)).trans
      (kept_flush _ _)

theorem kept_onKey (r : Router F) (code : UInt32) (pressed : Bool) :
    LoopKept r (r.onKey zone code pressed) := by
  rw [Router.onKey]
  cases keycodeToUsage code.toUInt16 with
  | none => exact all_head (kept_of_eq rfl rfl)
  | some usage =>
      cases hfull : (r.emergency.update usage pressed).2 with
      | true =>
          simp only [hfull, if_true]
          have hreset : Kept r { r with emergency := .new } := kept_of_eq rfl rfl
          refine all_orPanic ?_
          intro r' hr'
          exact all_head (hreset.trans (kept_goLocal hr'))
      | false =>
          simp only [hfull, Bool.false_eq_true, if_false]
          exact all_head (kept_of_eq rfl rfl)

theorem kept_onFrame (r : Router F) : LoopKept r (r.onFrame zone) := by
  rw [Router.onFrame]
  split
  · exact all_head (kept_of_eq rfl rfl)
  · refine all_orPanic ?_
    rintro ⟨space, crossing⟩ -
    have hmoved : Kept r { r with space := space, accDx := F64.ofInt 0, accDy := F64.ofInt 0 } :=
      kept_of_eq rfl rfl
    by_cases hc : crossing = .toLocal
    · simp only [hc, if_true]
      refine all_orPanic ?_
      intro r' hr'
      exact all_head (hmoved.trans (kept_goLocal hr'))
    · simp only [hc, if_false]
      by_cases ht : space.target = .remote
      · simp only [ht, if_true]
        refine all_orPanic ?_
        intro pos _
        exact all_head (kept_of_eq rfl rfl)
      · simp only [ht, if_false]
        exact all_head hmoved

theorem kept_onCapture (r : Router F) (e : CaptureEvent F) : LoopKept r (r.onCapture zone e) := by
  have hevent : Kept r { r with eventsThisActivation := true } := kept_of_eq rfl rfl
  rw [Router.onCapture]
  split
  · exact all_head (kept_of_eq rfl rfl)
  · cases e with
    | key code pressed time => exact fun r' hr' => hevent.trans (kept_onKey _ code pressed r' hr')
    | button code pressed => exact fun r' hr' => hevent.trans (kept_onButton _ code pressed r' hr')
    | motion dx dy => exact all_head (kept_of_eq rfl rfl)
    | scrollDiscrete x y => exact all_head (kept_of_eq rfl rfl)
    | scrollDelta dx dy =>
        refine all_head ?_
        rw [Router.onScrollDelta]
        split <;> exact kept_of_eq rfl rfl
    | frame => exact fun r' hr' => hevent.trans (kept_onFrame _ r' hr')
    | disconnected =>
        refine all_orPanic ?_
        intro r' hr'
        exact all_returned (hevent.trans (kept_goLocal hr'))

/-- Every event but an activation keeps what is captured, or releases it. -/
theorem kept_receive (r : Router F) (e : Event F) (portal : Portal)
    (he : ∀ id x y, e ≠ .portal (.activated id x y)) :
    LoopKept r (r.receive zone (.event e portal)) := by
  cases e with
  | portal e =>
      cases e with
      | activated id x y => exact absurd rfl (he id x y)
      | deactivated =>
          refine all_orPanic ?_
          intro r' hr'
          exact all_head (kept_goLocalIfActive hr')
      | disabled =>
          refine all_orPanic ?_
          intro r' hr'
          cases portal.enable with
          | error e => exact all_returned (kept_goLocalIfActive hr')
          | ok _ => exact all_head (kept_goLocalIfActive hr')
      | zonesChanged =>
          refine all_orPanic ?_
          intro r' hr'
          exact all_returned (kept_goLocal hr')
  | capture e => exact kept_onCapture r e
  | screenSaver locked =>
      show LoopKept r (r.onScreenSaver zone portal locked)
      rw [Router.onScreenSaver]
      cases locked with
      | true =>
          refine all_orPanic ?_
          intro r' hr'
          exact all_head (kept_goLocalIfActive hr')
      | false =>
          cases portal.armBarriers with
          | error e => exact all_returned (kept_of_eq rfl rfl)
          | ok _ =>
              cases portal.enable with
              | error e => exact all_returned (kept_of_eq rfl rfl)
              | ok _ => exact all_head (kept_of_eq rfl rfl)

/-- An activation is taken, or refused and released. -/
theorem receive_activated {r r' : Router F} {id : UInt32} {x y : F} {portal : Portal}
    (h : (r.receive zone (.event (.portal (.activated id x y)) portal)).router = some r') :
    (r'.activeId = some id ∧ r'.released = r.released) ∨
      (r'.activeId = none ∧ r.released.length < r'.released.length) := by
  rcases Router.receive_activated_cases zone r id x y portal with heq | ⟨r₁, heq, htaken⟩
  · rw [heq] at h
    cases h
  · rw [heq] at h
    cases h
    rcases htaken with hlocal | ⟨b, -, hact⟩
    · refine .inr ⟨Router.activeId_goLocal hlocal, ?_⟩
      rw [released_goLocal hlocal]
      exact Nat.lt_succ_self _
    · obtain ⟨space, cx, cy, -, -, rfl⟩ := Router.activate_eq_some hact
      exact .inl ⟨rfl, rfl⟩

/-- A Deactivated signal ends what is captured. -/
theorem receive_deactivated {r r' : Router F} {portal : Portal}
    (h : (r.receive zone (.event (.portal .deactivated) portal)).router = some r') :
    r'.activeId = none := by
  simp only [Router.receive, Router.onPortal] at h
  cases hlocal : r.goLocalIfActive zone with
  | none =>
      rw [hlocal] at h
      cases h
  | some r₁ =>
      rw [hlocal] at h
      cases h
      exact Router.activeId_goLocalIfActive hlocal

/-- What belongs to an activation does nothing while none is current. -/
theorem receive_stray {r : Router F} {e : Sent F} {n : Nat} (he : e.belongs = some n)
    (hid : r.activeId = none) (portal : Portal) :
    r.receive zone (.event e.event portal) = .head r := by
  cases e with
  | activated m x y => cases he
  | deactivated m => simp [Sent.event, Router.receive, Router.onPortal, Router.goLocalIfActive, hid,
      Loop.orPanic]
  | input m e => simp [Sent.event, Router.receive, Router.onCapture, hid]
  | other e => cases he

/-! ## What the router receives -/

theorem isolated_activated {w : World F} {r r' : Router F} {h t : Told} {n : Nat} {x y : F}
    {rest : List (Sent F)} {portal : Portal} (hw : Isolated w r h t)
    (hqueue : w.queue = .activated n x y :: rest)
    (hl : (r.receive zone (.event (.portal (.activated (idOf n) x y)) portal)).router = some r') :
    ∃ h' t', Isolated ({ w with queue := rest }.settle r (some n)
      (r.receive zone (.event (.portal (.activated (idOf n) x y)) portal))) r' h' t' := by
  have hrun := hw.queue
  rw [hqueue, Lts.exec_cons, Option.bind_eq_some_iff] at hrun
  obtain ⟨h₁, hstep, hrun⟩ := hrun
  obtain ⟨-, rfl⟩ := told_activated hstep
  -- the router as if it had taken the activation
  have htaken : Isolated { w with queue := rest, owner := some n }
      { r with activeId := some (idOf n) } ⟨n, false⟩ t :=
    { queue := hrun
      waiting := hw.waiting.congr rfl rfl rfl rfl rfl
      active := rfl
      owner := fun m hm => (Option.some.inj hm).symm
      ended := rfl }
  have hkept : Kept { r with activeId := some (idOf n) } r' := by
    rcases receive_activated hl with ⟨hid, hreleased⟩ | ⟨hnone, hlt⟩
    · exact kept_of_eq hid hreleased
    · exact .inr ⟨rfl, hnone, hlt⟩
  obtain ⟨h', t', hsettled⟩ := htaken.settle hl hkept
  refine ⟨h', t', ?_⟩
  simp only [World.settle, hl] at hsettled ⊢
  exact hsettled

theorem isolated_deactivated {w : World F} {r r' : Router F} {h t : Told} {n : Nat}
    {rest : List (Sent F)} {portal : Portal} (hw : Isolated w r h t)
    (hqueue : w.queue = .deactivated n :: rest)
    (hl : (r.receive zone (.event (.portal .deactivated) portal)).router = some r') :
    ∃ h' t', Isolated ({ w with queue := rest }.settle r w.owner
      (r.receive zone (.event (.portal .deactivated) portal))) r' h' t' := by
  have hrun := hw.queue
  rw [hqueue, Lts.exec_cons, Option.bind_eq_some_iff] at hrun
  obtain ⟨h₁, hstep, hrun⟩ := hrun
  obtain ⟨rfl, rfl⟩ := told_deactivated hstep
  have hnone := receive_deactivated hl
  have hkept := kept_receive r (.portal .deactivated) portal nofun r' hl
  have hwaiting : Waiting { w with queue := rest } t := hw.waiting.congr rfl rfl rfl rfl rfl
  have hsettle := settle_kept (w := { w with queue := rest }) rfl hl hw.active hkept
  rcases hsettle with ⟨hid, heq⟩ | ⟨n, howner, -, heq⟩
  · have howner : w.owner = none := by
      rw [hid, hw.active, Option.map_eq_none_iff] at hnone
      exact hnone
    refine ⟨⟨h.last, true⟩, t, ?_⟩
    rw [heq]
    exact { queue := hrun
            waiting := hwaiting.congr rfl rfl rfl rfl rfl
            active := by rw [hnone, howner]; rfl
            owner := by rw [howner]; exact nofun
            ended := by rw [howner]; rfl }
  · obtain rfl := hw.owner n howner
    obtain ⟨t', hrun', -, hended⟩ := told_end hrun
    cases hrun.symm.trans hrun'
    rw [heq]
    exact ⟨⟨h.last, true⟩, t, .release hrun rfl hended hwaiting hnone⟩

/-- A captured event, or one that belongs to no activation. -/
theorem isolated_other {w : World F} {r r' : Router F} {h t : Told} {e : Sent F}
    {rest : List (Sent F)} {portal : Portal} (hw : Isolated w r h t)
    (hqueue : w.queue = e :: rest) (hstep : told.step h e = some h)
    (he : ∀ id x y, e.event ≠ .portal (.activated id x y))
    (hl : (r.receive zone (.event e.event portal)).router = some r') :
    ∃ h' t', Isolated ({ w with queue := rest }.settle r w.owner
      (r.receive zone (.event e.event portal))) r' h' t' := by
  have hrun := hw.queue
  rw [hqueue, Lts.exec_cons, hstep] at hrun
  have hpopped : Isolated { w with queue := rest } r h t :=
    { queue := hrun
      waiting := hw.waiting.congr rfl rfl rfl rfl rfl
      active := hw.active
      owner := hw.owner
      ended := hw.ended }
  exact hpopped.settle hl (kept_receive r e.event portal he r' hl)

/-! ## Runs -/

/-- The invariant: an open router is isolated. -/
def World.Isolated (w : World F) : Prop :=
  ∀ r, w.loop.router = some r → ∃ h t, Input.Isolated w r h t

theorem isolated_handle {w : World F} {r r' : Router F} {e : Sent F} {rest : List (Sent F)}
    {portal : Portal} {h t : Told} (hw : Isolated w r h t) (hqueue : w.queue = e :: rest)
    (hl : (r.receive zone (.event e.event portal)).router = some r') :
    ∃ h' t', Isolated ({ w with queue := rest }.settle r (e.capturing w.owner)
      (r.receive zone (.event e.event portal))) r' h' t' := by
  have hrun := hw.queue
  rw [hqueue, Lts.exec_cons, Option.bind_eq_some_iff] at hrun
  obtain ⟨h₁, hstep, -⟩ := hrun
  cases e with
  | activated n x y => exact isolated_activated hw hqueue hl
  | deactivated n => exact isolated_deactivated hw hqueue hl
  | input n e =>
      obtain ⟨-, rfl⟩ := told_input hstep
      exact isolated_other hw hqueue hstep nofun hl
  | other e =>
      obtain ⟨he, rfl⟩ := told_other hstep
      refine isolated_other hw hqueue hstep ?_ hl
      rintro id x y rfl
      exact he

theorem isolated_step {w w' : World F} {m : Move F} (hw : w.Isolated) (hordered : Ordered w m)
    (hstep : (world zone).step w m = some w') : w'.Isolated := by
  intro r' hr'
  cases m with
  | activate x y =>
      simp only [world] at hstep
      split at hstep
      · next hnone =>
          cases hstep
          obtain ⟨h, t, hi⟩ := hw r' hr'
          refine ⟨h, t, hi.queue, ?_, hi.active, hi.owner, hi.ended⟩
          exact hi.waiting.activate (Option.isNone_iff_eq_none.mp hnone) x y
      · cases hstep
  | deactivate =>
      obtain ⟨n, hn, rfl⟩ := Option.map_eq_some_iff.mp hstep
      obtain ⟨h, t, hi⟩ := hw r' hr'
      exact ⟨h, t, hi.queue, hi.waiting.deactivate hn, hi.active, hi.owner, hi.ended⟩
  | input e =>
      simp only [world] at hstep
      split at hstep
      · cases hstep
      · cases hstep
      · next n hn _ =>
          cases hstep
          obtain ⟨h, t, hi⟩ := hw r' hr'
          exact ⟨h, t, hi.queue, hi.waiting.capture hn _, hi.active, hi.owner, hi.ended⟩
  | forwardActivated =>
      simp only [world] at hstep
      split at hstep
      · cases hstep
      · next n x y rest heq =>
          cases hstep
          obtain ⟨h, t, hi⟩ := hw r' hr'
          obtain ⟨hn, hwaiting⟩ := hi.waiting.forwardActivated heq hordered _
          refine ⟨h, ⟨n, false⟩, ?_, hwaiting, hi.active, hi.owner, hi.ended⟩
          exact told.exec_snoc.mpr ⟨t, hi.queue, if_pos hn⟩
  | forwardDeactivated =>
      simp only [world] at hstep
      split at hstep
      · cases hstep
      · next n rest heq =>
          cases hstep
          obtain ⟨h, t, hi⟩ := hw r' hr'
          obtain ⟨hn, hwaiting⟩ := hi.waiting.forwardDeactivated heq hordered _
          refine ⟨h, ⟨n, true⟩, ?_, hwaiting, hi.active, hi.owner, hi.ended⟩
          exact told.exec_snoc.mpr ⟨t, hi.queue, if_pos hn⟩
  | forwardInput =>
      simp only [world] at hstep
      split at hstep
      · cases hstep
      · next n e rest heq =>
          cases hstep
          obtain ⟨h, t, hi⟩ := hw r' hr'
          obtain ⟨htold, hwaiting⟩ := hi.waiting.forwardInput heq hordered _
          refine ⟨h, t, ?_, hwaiting, hi.active, hi.owner, hi.ended⟩
          exact told.exec_snoc.mpr ⟨t, hi.queue, htold⟩
  | other e =>
      simp only [world] at hstep
      split at hstep
      · next he =>
          cases hstep
          obtain ⟨h, t, hi⟩ := hw r' hr'
          refine ⟨h, t, ?_, hi.waiting.congr rfl rfl rfl rfl rfl, hi.active, hi.owner, hi.ended⟩
          exact told.exec_snoc.mpr ⟨t, hi.queue, if_pos he⟩
      · cases hstep
  | top clock =>
      simp only [world] at hstep
      split at hstep
      · next r hloop =>
          cases hstep
          obtain ⟨h, t, hi⟩ := hw r (by rw [hloop]; rfl)
          rw [settle_loop] at hr'
          exact hi.settle hr' (kept_top r clock r' hr')
      · cases hstep
  | timeout =>
      simp only [world] at hstep
      split at hstep
      · next r hloop =>
          cases hstep
          cases hr'
          obtain ⟨h, t, hi⟩ := hw r' (by rw [hloop]; rfl)
          exact ⟨h, t, hi.loop rfl _⟩
      · cases hstep
  | handle portal =>
      simp only [world] at hstep
      split at hstep
      · next r e rest hloop hqueue =>
          cases hstep
          obtain ⟨h, t, hi⟩ := hw r (by rw [hloop]; rfl)
          rw [settle_loop] at hr'
          exact isolated_handle hi hqueue hr'
      · cases hstep

theorem isolated_start (zone : Zone) (remote : Screen F) (dial : Dial) :
    (World.start zone remote dial).Isolated := by
  rintro r hr
  cases hr
  refine ⟨⟨0, true⟩, ⟨0, true⟩, rfl, ?_, rfl, nofun, rfl⟩
  constructor
  case activated => rfl
  case last => exact Nat.le.refl
  case deactivated => exact nofun
  case ei => exact nofun
  case current => exact nofun
  case ahead => exact fun n hlt hle => absurd hle (Nat.not_le.mpr hlt)
  case behind => exact nofun
  case closed => exact nofun

/-- In every run in which the threads do not overtake each other, a
Deactivated signal or a captured event of one activation does nothing while
another is current; and once everything is drained, `active_id` stands for
the compositor's activation, if there is one. -/
theorem activation_isolation (zone : Zone) (remote : Screen F) (dial : Dial)
    (moves : List (Move F)) (w : World F)
    (hrun : (world zone).exec (.start zone remote dial) moves = some w)
    (hordered : (world zone).Meets Ordered (.start zone remote dial) moves) :
    (∀ r e rest n portal, w.loop = .waiting r → w.queue = e :: rest → e.belongs = some n →
      w.owner ≠ some n → r.receive zone (.event e.event portal) = .head r) ∧
    ∀ r, w.loop.router = some r → Drained w →
      w.owner = w.current ∧ r.activeId = w.current.map idOf := by
  have hw : w.Isolated :=
    (world zone).exec_meets (P := World.Isolated) (isolated_start zone remote dial)
      (fun _ _ _ hw hm hstep => isolated_step hw hm hstep) hrun hordered
  constructor
  · intro r e rest n portal hloop hqueue he hne
    obtain ⟨h, t, hi⟩ := hw r (by rw [hloop]; rfl)
    exact receive_stray he (hi.stray hqueue he hne) portal
  · intro r hr hd
    obtain ⟨h, t, hi⟩ := hw r hr
    have howner := hi.drained hd
    exact ⟨howner, howner ▸ hi.active⟩

/-! Two re-crossings: the signals of the first are forwarded in order, those
of the second are not. -/

def World.underway (w : World ℚ) : Nat :=
  w.activated.length + w.deactivated.length + w.ei.length + w.queue.length

theorem drained_of_underway {w : World ℚ} (h : w.underway = 0) : Drained w := by
  simp only [World.underway, Nat.add_eq_zero_iff, List.length_eq_zero_iff] at h
  obtain ⟨⟨⟨hactivated, hdeactivated⟩, hei⟩, hqueue⟩ := h
  exact ⟨hactivated, hdeactivated, hei, hqueue⟩

/-- Going to the wait, and receiving. -/
def handled : List (Move ℚ) := [.top .quiet, .handle ⟨.ok (), .ok ()⟩]

/-- A key of the first activation comes after its Deactivated. -/
def recrossing : List (Move ℚ) :=
  [.activate 2559 720, .forwardActivated] ++ handled ++
    [.input (.key 29 true 0), .deactivate, .activate 2559 360, .forwardDeactivated] ++ handled ++
    [.forwardInput, .top .quiet]

def recrossed : List (Move ℚ) :=
  recrossing ++ [.handle ⟨.ok (), .ok ()⟩, .forwardActivated] ++ handled

theorem activation_isolation_recrossed :
    (∃ (w : World ℚ) (r : Router ℚ) (e : Sent ℚ),
      (world ubuntu).exec (.start ubuntu windows answered) recrossing = some w ∧
        w.loop = .waiting r ∧ w.queue = [e] ∧ e.belongs = some 1 ∧ w.current = some 2 ∧
        r.receive ubuntu (.event e.event ⟨.ok (), .ok ()⟩) = .head r) ∧
    ∃ (w : World ℚ) (r : Router ℚ),
      (world ubuntu).exec (.start ubuntu windows answered) recrossed = some w ∧
        w.loop = .head r ∧ r.activeId = some 2 := by
  constructor
  · have hrun : ((world ubuntu).exec (.start ubuntu windows answered) recrossing).map (fun w =>
        (w.loop.atWait.isSome, w.queue.map Sent.belongs, w.owner, w.current)) =
        some (true, [some 1], none, some 2) := by decide +kernel
    obtain ⟨w, hw, hstate⟩ := Option.map_eq_some_iff.mp hrun
    simp only [Prod.mk.injEq] at hstate
    obtain ⟨hwait, hqueue, howner, hcurrent⟩ := hstate
    obtain ⟨r, hr⟩ := Option.isSome_iff_exists.mp hwait
    rw [Loop.atWait_eq_some] at hr
    obtain ⟨e, rest, hw', he, hrest⟩ := List.map_eq_cons_iff.mp hqueue
    rw [List.map_eq_nil_iff] at hrest
    subst hrest
    obtain ⟨hstray, -⟩ :=
      activation_isolation ubuntu windows answered recrossing w hw (by decide +kernel)
    exact ⟨w, r, e, hw, hr, hw', he, hcurrent,
      hstray r e [] 1 _ hr hw' he (by rw [howner]; exact nofun)⟩
  · have hrun : ((world ubuntu).exec (.start ubuntu windows answered) recrossed).map (fun w =>
        (w.loop.atHead.isSome, w.underway, w.current)) = some (true, 0, some 2) := by
      decide +kernel
    obtain ⟨w, hw, hstate⟩ := Option.map_eq_some_iff.mp hrun
    simp only [Prod.mk.injEq] at hstate
    obtain ⟨hhead, hunderway, hcurrent⟩ := hstate
    obtain ⟨r, hr⟩ := Option.isSome_iff_exists.mp hhead
    rw [Loop.atHead_eq_some] at hr
    obtain ⟨-, hdrained⟩ :=
      activation_isolation ubuntu windows answered recrossed w hw (by decide +kernel)
    obtain ⟨-, hid⟩ := hdrained r (by rw [hr]; rfl) (drained_of_underway hunderway)
    exact ⟨w, r, hw, hr, by rw [hid, hcurrent]; rfl⟩

/-- The Deactivated of the first activation waits behind the next
Activated. -/
def overtaken : List (Move ℚ) :=
  [.activate 2559 720, .forwardActivated] ++ handled ++
    [.deactivate, .activate 2559 360, .forwardActivated] ++ handled ++
    [.forwardDeactivated, .top .quiet]

/-- An activation that is over before the router is told of it. -/
def toldLate : List (Move ℚ) :=
  [.activate 2559 720, .deactivate, .forwardDeactivated] ++ handled ++
    [.forwardActivated] ++ handled

/-- Overtaken, a Deactivated signal ends the activation that is current; or
it is lost, and the router keeps an activation that is over. -/
theorem activation_overtaken :
    (∃ (w : World ℚ) (r r' : Router ℚ) (e : Sent ℚ),
      (world ubuntu).exec (.start ubuntu windows answered) overtaken = some w ∧
        w.loop = .waiting r ∧ w.queue = [e] ∧ e.belongs = some 1 ∧
        w.current = some 2 ∧ r.activeId = some 2 ∧
        r.receive ubuntu (.event e.event ⟨.ok (), .ok ()⟩) = .head r' ∧ r'.activeId = none) ∧
    ∃ (w : World ℚ) (r : Router ℚ),
      (world ubuntu).exec (.start ubuntu windows answered) toldLate = some w ∧
        w.loop = .head r ∧ Drained w ∧ w.current = none ∧ r.activeId = some 1 := by
  constructor
  · have hrun : ((world ubuntu).exec (.start ubuntu windows answered) overtaken).bind (fun w =>
        w.loop.atWait.map fun r => (w.queue.map Sent.belongs, w.current, r.activeId,
          w.queue.head?.bind fun e =>
            ((r.receive ubuntu (.event e.event ⟨.ok (), .ok ()⟩)).atHead.map Router.activeId))) =
        some ([some 1], some 2, some 2, some none) := by decide +kernel
    obtain ⟨w, hw, hrun⟩ := Option.bind_eq_some_iff.mp hrun
    obtain ⟨r, hr, hstate⟩ := Option.map_eq_some_iff.mp hrun
    simp only [Prod.mk.injEq] at hstate
    obtain ⟨hqueue, hcurrent, hid, hreceive⟩ := hstate
    rw [Loop.atWait_eq_some] at hr
    obtain ⟨e, rest, hw', he, hrest⟩ := List.map_eq_cons_iff.mp hqueue
    rw [List.map_eq_nil_iff] at hrest
    subst hrest
    rw [hw', List.head?_cons, Option.bind_some, Option.map_eq_some_iff] at hreceive
    obtain ⟨r', hr', hnone⟩ := hreceive
    rw [Loop.atHead_eq_some] at hr'
    exact ⟨w, r, r', e, hw, hr, hw', he, hcurrent, hid, hr', hnone⟩
  · have hrun : ((world ubuntu).exec (.start ubuntu windows answered) toldLate).bind (fun w =>
        w.loop.atHead.map fun r => (w.underway, w.current, r.activeId)) =
        some (0, none, some 1) := by decide +kernel
    obtain ⟨w, hw, hrun⟩ := Option.bind_eq_some_iff.mp hrun
    obtain ⟨r, hr, hstate⟩ := Option.map_eq_some_iff.mp hrun
    simp only [Prod.mk.injEq] at hstate
    obtain ⟨hunderway, hcurrent, hid⟩ := hstate
    rw [Loop.atHead_eq_some] at hr
    exact ⟨w, r, hw, hr, drained_of_underway hunderway, hcurrent, hid⟩

end Beaglewing.Input
