/-
# `Input.Capture` — the EI thread, and the end of its stream

`capture.rs`: a thread of the router reads what the compositor captures, and
sends it into the queue of the loop.  Whatever ends it (the context, the
handshake, the stream, a Disconnected), Disconnected is what it sends then,
and nothing after that.

    EI thread   starting → reading → ended
    channel     what it has sent, in that order, among the other senders' events
    router      the loop with its instants (`Input.Clock`)

The loop ends at Disconnected if a capture is on.  If none is, it drops it
with the other stray events, and goes on without a thread: each crossing from
then on is a capture to which nothing comes, and the failsafe is what returns
it (`dead_stream_briefly`).

What it is not: how long Disconnected lies in the channel is not bounded, and
until the loop takes it a capture may be one that events still come to.
-/
import Beaglewing.Input.Clock

namespace Beaglewing.Input

open Base

deriving instance DecidableEq for CaptureEvent

/-! ## The thread -/

/-- The events of the stream, as far as the thread looks at them. -/
inductive EiEvent (F : Type) where
  | seatAdded
  | keyboardKey (key : UInt32) (press : Bool) (time : UInt64)
  | button (code : UInt32) (press : Bool)
  | pointerMotion (dx dy : F)
  | scrollDiscrete (discreteDx discreteDy : Int32)
  | scrollDelta (dx dy : F)
  | frame
  | disconnected
  | other

/-- What is sent to the router for it. -/
def EiEvent.mapped {F : Type} : EiEvent F → Option (CaptureEvent F)
  | .seatAdded => none
  | .keyboardKey key press time => some (.key key press time)
  | .button code press => some (.button code press)
  | .pointerMotion dx dy => some (.motion dx dy)
  | .scrollDiscrete dx dy => some (.scrollDiscrete dx dy)
  | .scrollDelta dx dy => some (.scrollDelta dx dy)
  | .frame => some .frame
  | .disconnected => some .disconnected
  | .other => none

inductive EiThread where
  | starting
  | reading
  | ended
deriving DecidableEq

/-- What the thread meets: no context or no handshake, or both; an event; an
error in the place of one, or the end of the stream. -/
inductive EiAct (F : Type) where
  | fails
  | connects
  | event (e : EiEvent F)
  | stops

/-- The thread, and what it sends. -/
def EiThread.step {F : Type} : EiThread → EiAct F → Option (EiThread × List (CaptureEvent F))
  | .starting, .fails => some (.ended, [.disconnected])
  | .starting, .connects => some (.reading, [])
  | .reading, .event .disconnected => some (.ended, [.disconnected])
  | .reading, .event e => some (.reading, e.mapped.toList)
  | .reading, .stops => some (.ended, [.disconnected])
  | _, _ => none

/-! ## What the loop has received -/

/-- The event of the thread that the half receives. -/
def Half.captured {F : Type} : Half F → Option (CaptureEvent F)
  | .receive (.event (.capture e) _) => some e
  | _ => none

variable {F : Type} [F64 F]

/-- Nothing captured has come to the capture that is on. -/
def Unfed (r : Router F) : Prop := r.activeId.isSome → r.eventsThisActivation = false

section Unfed
variable {zone : Zone} {r r' : Router F}

omit [F64 F] in
theorem unfed_of_none (h : r.activeId = none) : Unfed r := by
  intro hid
  rw [h] at hid
  cases hid

theorem unfed_goLocal (h : r.goLocal zone = some r') : Unfed r' :=
  unfed_of_none (Router.activeId_goLocal h)

theorem unfed_goLocalIfActive (hu : Unfed r) (h : r.goLocalIfActive zone = some r') :
    Unfed r' := by
  rcases Router.goLocalIfActive_cases h with hlocal | ⟨-, rfl⟩
  · exact unfed_goLocal hlocal
  · exact hu

theorem unfed_top (hu : Unfed r) (t : Top) : (r.top zone t).All Unfed := by
  rw [Router.top]
  split
  · refine all_orPanic ?_
    intro r' hr'
    exact all_returned (unfed_goLocal hr')
  · refine all_orPanic ?_
    intro r₁ h₁
    have hkept : Unfed r₁ := by
      rcases Router.keepalive_cases h₁ with rfl | ⟨b, -, rfl⟩ | ⟨-, rfl⟩ | hlocal
      · exact hu
      · exact hu
      · exact hu
      · exact unfed_goLocal hlocal
    have hconnected : Unfed (r₁.reconnect t.reconnectDue t.dial) := by
      rcases r₁.reconnect_cases t.reconnectDue t.dial with heq | ⟨-, b, -, heq⟩ <;> rw [heq]
      · exact hkept
      · exact hkept
    refine all_orPanic ?_
    intro r₂ h₂
    have hsafe : Unfed r₂ := by
      rcases Router.failsafe_cases h₂ with hlocal | rfl
      · exact unfed_goLocal hlocal
      · exact hconnected
    have hcleared : Unfed r₂.clearPending := by
      rw [Router.clearPending]
      split
      · exact hsafe
      · exact hsafe
    refine all_waiting ?_
    rw [Router.flush]
    split
    · exact hcleared
    · exact hcleared

/-- What is no captured event leaves it so, also an activation. -/
theorem unfed_receive (hu : Unfed r) {e : Recv F} (he : (Half.receive e).captured = none) :
    (r.receive zone e).All Unfed := by
  cases e with
  | timeout => exact all_head hu
  | disconnected => exact all_returned hu
  | event e portal =>
      cases e with
      | capture e => cases he
      | portal e =>
          cases e with
          | activated id x y =>
              rw [Router.receive, Router.onPortal]
              split
              · refine all_orPanic ?_
                intro r' hr'
                exact all_head (unfed_goLocal hr')
              · refine all_orPanic ?_
                intro r' hr'
                obtain ⟨space, cx, cy, -, -, rfl⟩ := Router.activate_eq_some hr'
                exact all_head fun _ => rfl
          | deactivated =>
              refine all_orPanic ?_
              intro r' hr'
              exact all_head (unfed_goLocalIfActive hu hr')
          | disabled =>
              refine all_orPanic ?_
              intro r' hr'
              have hkept := unfed_goLocalIfActive hu hr'
              split
              · exact all_returned hkept
              · exact all_head hkept
          | zonesChanged =>
              refine all_orPanic ?_
              intro r' hr'
              exact all_returned (unfed_goLocal hr')
      | screenSaver locked =>
          rw [Router.receive, Router.onScreenSaver]
          split
          · refine all_orPanic ?_
            intro r' hr'
            exact all_head (unfed_goLocalIfActive hu hr')
          · split
            · exact all_returned hu
            · split
              · exact all_returned hu
              · exact all_head hu

/-- The end of the stream ends the loop, or finds no capture. -/
theorem unfed_disconnected (r : Router F) (portal : Portal) :
    (r.receive zone (.event (.capture .disconnected) portal)).All Unfed := by
  rw [Router.receive, Router.onCapture]
  split
  next hnone => exact all_head (unfed_of_none (Option.isNone_iff_eq_none.mp hnone))
  next =>
    refine all_orPanic ?_
    intro r' hr'
    exact all_returned (unfed_goLocal hr')

theorem unfed_step {l l' : Loop F} {half : Half F} (hst : (router zone).step l half = some l')
    (h : half.captured = none ∧ l.All Unfed ∨ half.captured = some .disconnected) :
    l'.All Unfed := by
  cases half with
  | top t =>
      obtain ⟨r, rfl, rfl⟩ := step_top hst
      rcases h with ⟨-, hu⟩ | hlast
      · exact unfed_top (hu r rfl) t
      · cases hlast
  | receive e =>
      obtain ⟨r, rfl, rfl⟩ := step_receive hst
      rcases h with ⟨hnone, hu⟩ | hlast
      · exact unfed_receive (hu r rfl) hnone
      · match e, hlast with
        | .event (.capture .disconnected) portal, _ => exact unfed_disconnected r portal

end Unfed

/-! ## The thread and the loop -/

/-- The channel holds what the thread has sent and the loop not received. -/
structure Feed (F : Type) where
  thread : EiThread
  channel : List (CaptureEvent F)
  timed : Timed F

inductive FeedAct (F : Type) where
  | ei (a : EiAct F)
  | router (now : Nat) (half : Half F)

variable [DecidableEq F]

def feed (zone : Zone) : Lts (Feed F) (FeedAct F) where
  step s
    | .ei a => (s.thread.step a).map fun (thread, sent) =>
        { s with thread, channel := s.channel ++ sent }
    | .router now half =>
        match half.captured with
        | none => ((timed zone).step s.timed (now, half)).map fun timed => { s with timed }
        | some e =>
            match s.channel with
            | [] => none
            | e' :: rest =>
                if e = e' then
                  ((timed zone).step s.timed (now, half)).map fun timed =>
                    { s with timed, channel := rest }
                else none

def Feed.start (zone : Zone) (remote : Screen F) (dial : Dial) (now : Nat) : Feed F where
  thread := .starting
  channel := []
  timed := .start zone remote dial now

/-- The halves of the loop. -/
def FeedAct.half {F : Type} : FeedAct F → Option (TimedHalf F)
  | .ei _ => none
  | .router now half => some (now, half)

/-- The event of the thread that the loop receives. -/
def FeedAct.received {F : Type} : FeedAct F → Option (CaptureEvent F)
  | .ei _ => none
  | .router _ half => half.captured

/-- The halves are paced. -/
def FeedPaced (δ : Nat) (s : Feed F) : FeedAct F → Prop
  | .ei _ => True
  | .router now half => Paced δ s.timed (now, half)

instance (δ : Nat) (s : Feed F) : DecidablePred (FeedPaced δ s)
  | .ei _ => isTrue trivial
  | .router now half => inferInstanceAs (Decidable (Paced δ s.timed (now, half)))

/-! ## Every run -/

section Runs
variable {zone : Zone} {remote : Screen F} {dial : Dial} {δ start : Nat}
  {as : List (FeedAct F)} {a : FeedAct F} {s s' : Feed F} {r : Router F}

omit [F64 F] [DecidableEq F] in
/-- A thread that ends sends Disconnected, and nothing else does. -/
theorem ei_step {t t' : EiThread} {e : EiAct F} {sent : List (CaptureEvent F)}
    (h : t.step e = some (t', sent)) : t ≠ .ended ∧
      (t' ≠ .ended ∧ CaptureEvent.disconnected ∉ sent ∨ t' = .ended ∧ sent = [.disconnected]) := by
  cases t with
  | starting =>
      cases e with
      | fails =>
          cases h
          exact ⟨nofun, .inr ⟨rfl, rfl⟩⟩
      | connects =>
          cases h
          exact ⟨nofun, .inl ⟨nofun, nofun⟩⟩
      | event e => cases h
      | stops => cases h
  | reading =>
      cases e with
      | fails => cases h
      | connects => cases h
      | event e =>
          cases e with
          | disconnected =>
              cases h
              exact ⟨nofun, .inr ⟨rfl, rfl⟩⟩
          | _ =>
              cases h
              exact ⟨nofun, .inl ⟨nofun, by simp [EiEvent.mapped]⟩⟩
      | stops =>
          cases h
          exact ⟨nofun, .inr ⟨rfl, rfl⟩⟩
  | ended => cases e <;> cases h

theorem feed_ei {e : EiAct F} (h : (feed zone).step s (.ei e) = some s') :
    ∃ t sent, s.thread.step e = some (t, sent) ∧
      s' = { s with thread := t, channel := s.channel ++ sent } := by
  obtain ⟨⟨t, sent⟩, ht, rfl⟩ := Option.map_eq_some_iff.mp h
  exact ⟨t, sent, ht, rfl⟩

/-- A half of the loop, with the event at the front of the channel if it is one
of the thread's. -/
theorem feed_router {now : Nat} {half : Half F}
    (h : (feed zone).step s (.router now half) = some s') :
    ∃ t channel, (timed zone).step s.timed (now, half) = some t ∧
      s' = { s with timed := t, channel } ∧ half.captured.toList ++ channel = s.channel := by
  simp only [feed] at h
  split at h
  next hnone =>
    obtain ⟨t, ht, rfl⟩ := Option.map_eq_some_iff.mp h
    exact ⟨t, s.channel, ht, rfl, by rw [hnone]; rfl⟩
  next e he =>
    split at h
    next => cases h
    next e' rest hchannel =>
      split at h
      next heq =>
        obtain ⟨t, ht, rfl⟩ := Option.map_eq_some_iff.mp h
        exact ⟨t, rest, ht, rfl, by rw [he, hchannel, heq]; rfl⟩
      next => cases h

/-- The runs of the feed are runs of the loop with its instants. -/
theorem feed_half (s : Feed F) (a : FeedAct F) (s' : Feed F)
    (h : (feed zone).step s a = some s') :
    (∀ half, a.half = some half → (timed zone).step s.timed half = some s'.timed) ∧
      (a.half = none → s'.timed = s.timed) := by
  cases a with
  | ei e =>
      obtain ⟨t, sent, -, rfl⟩ := feed_ei h
      exact ⟨(fun _ hhalf => by cases hhalf), fun _ => rfl⟩
  | router now half =>
      obtain ⟨t, channel, ht, rfl, -⟩ := feed_router h
      refine ⟨?_, fun hnone => by cases hnone⟩
      rintro _ ⟨⟩
      exact ht

omit [F64 F] [DecidableEq F] in
theorem paced_half {half : TimedHalf F} (hhalf : a.half = some half) (h : FeedPaced δ s a) :
    Paced δ s.timed half := by
  cases a with
  | ei e => cases hhalf
  | router now half =>
      cases hhalf
      exact h

/-- What the thread has sent: what the loop has received, and what it has not. -/
def eiSent (as : List (FeedAct F)) (s : Feed F) : List (CaptureEvent F) :=
  as.filterMap FeedAct.received ++ s.channel

/-- Disconnected is what the thread sends last; once the loop has received it,
nothing captured has come to a capture that is on. -/
structure Ending (as : List (FeedAct F)) (s : Feed F) : Prop where
  before : s.thread ≠ .ended → .disconnected ∉ eiSent as s
  after : s.thread = .ended → ∃ l, eiSent as s = l ++ [.disconnected] ∧ .disconnected ∉ l
  unfed : s.thread = .ended → s.channel = [] → s.timed.loop.All Unfed

omit [F64 F] [DecidableEq F] in
/-- The loop takes what is at the front of the channel, and so sends nothing. -/
theorem eiSent_router {now : Nat} {half : Half F} {channel : List (CaptureEvent F)} {t : Timed F}
    (h : half.captured.toList ++ channel = s.channel) :
    eiSent (as ++ [.router now half]) { s with timed := t, channel } = eiSent as s := by
  rw [eiSent, eiSent, List.filterMap_append, List.append_assoc, ← h]
  cases hcaptured : half.captured <;> simp [FeedAct.received, hcaptured]

theorem ending_step (h : Ending as s) (hst : (feed zone).step s a = some s') :
    Ending (as ++ [a]) s' := by
  obtain ⟨hbefore, hafter, hunfed⟩ := h
  cases a with
  | ei e =>
      obtain ⟨t, more, ht, rfl⟩ := feed_ei hst
      have hsent : eiSent (as ++ [.ei e]) { s with thread := t, channel := s.channel ++ more } =
          eiSent as s ++ more := by
        simp [eiSent, FeedAct.received]
      obtain ⟨hreading, ⟨hgoes, hmore⟩ | ⟨hends, rfl⟩⟩ := ei_step ht
      · refine ⟨?_, fun hends => absurd hends hgoes, fun hends => absurd hends hgoes⟩
        intro _ hmem
        rw [hsent] at hmem
        rcases List.mem_append.mp hmem with hmem | hmem
        · exact hbefore hreading hmem
        · exact hmore hmem
      · refine ⟨fun hgoes => absurd hends hgoes, fun _ => ⟨_, hsent, hbefore hreading⟩, ?_⟩
        intro _ hempty
        exact absurd hempty (List.append_ne_nil_of_right_ne_nil _ (List.cons_ne_nil _ _))
  | router now half =>
      obtain ⟨t, channel, ht, rfl, hchannel⟩ := feed_router hst
      obtain ⟨-, -, l, hl, rfl⟩ := timed_step ht
      refine ⟨?_, ?_, ?_⟩
      · rw [eiSent_router hchannel]
        exact hbefore
      · rw [eiSent_router hchannel]
        exact hafter
      · intro hends hempty
        replace hempty : channel = [] := hempty
        subst hempty
        cases hcaptured : half.captured with
        | none =>
            rw [hcaptured] at hchannel
            exact unfed_step hl (.inl ⟨hcaptured, hunfed hends hchannel.symm⟩)
        | some e =>
            -- It is the last that the thread has sent.
            rw [hcaptured] at hchannel
            obtain ⟨l', hsent, -⟩ := hafter hends
            rw [eiSent, ← hchannel] at hsent
            obtain ⟨-, hlast⟩ := List.append_inj' hsent rfl
            cases hlast
            exact unfed_step hl (.inr hcaptured)

/-- A Disconnected that comes while no capture is on is dropped. -/
theorem dropped {now : Nat} {portal : Portal} (hwait : s.timed.loop = .waiting r)
    (hlocal : r.activeId = none)
    (hst : (feed zone).step s
      (.router now (.receive (.event (.capture .disconnected) portal))) = some s') :
    s'.timed.loop = .head r := by
  obtain ⟨t, channel, ht, rfl, -⟩ := feed_router hst
  obtain ⟨-, -, l, hl, rfl⟩ := timed_step ht
  obtain ⟨r', hr', rfl⟩ := step_receive hl
  rw [hwait] at hr'
  cases hr'
  exact if_pos (Option.isNone_iff_eq_none.mpr hlocal)

/-- **A dead stream.** In a paced run, Disconnected is the last that the EI
thread sends, and it sends it when it ends.  The loop drops it while no capture
is on, and goes on.  Once the loop has received all that the thread sent, a
capture that is on has got nothing, and was activated at most 3 s and `δ`
ago. -/
theorem dead_stream_briefly
    (hrun : (feed zone).exec (.start zone remote dial start) as = some s)
    (hpaced : (feed zone).Meets (FeedPaced δ) (.start zone remote dial start) as) :
    (s.thread ≠ .ended → .disconnected ∉ eiSent as s) ∧
      (s.thread = .ended → ∃ l, eiSent as s = l ++ [.disconnected] ∧ .disconnected ∉ l) ∧
      (∀ r now portal s', s.timed.loop = .waiting r → r.activeId = none →
        (feed zone).step s (.router now (.receive (.event (.capture .disconnected) portal))) =
          some s' → s'.timed.loop = .head r) ∧
      (s.thread = .ended → s.channel = [] →
        ∀ r, s.timed.loop.router = some r → r.activeId.isSome →
          r.eventsThisActivation = false ∧ ∃ t id x y portal,
            .router t (.receive (.event (.portal (.activated id x y)) portal)) ∈ as ∧
              r.activeId = some id ∧ s.timed.now ≤ t + fromSecs 3 + δ) := by
  have hending : Ending as s := by
    refine (feed zone).exec_induction (P := Ending) ?_ (fun _ _ _ _ => ending_step) hrun
    refine ⟨?_, ?_, ?_⟩
    · intro _ hmem
      cases hmem
    · intro hends
      cases hends
    · intro hends
      cases hends
  refine ⟨hending.before, hending.after, fun r now portal s' => dropped, ?_⟩
  intro hended hreceived r hr hactive
  have hquiet : r.eventsThisActivation = false := hending.unfed hended hreceived r hr hactive
  refine ⟨hquiet, ?_⟩
  have htimed := (feed zone).exec_filterMap feed_half hrun
  have hhalves : (timed zone).Meets (Paced δ) (.start zone remote dial start)
      (as.filterMap FeedAct.half) :=
    (feed zone).meets_filterMap feed_half (fun _ _ _ => paced_half) hrun hpaced
  obtain ⟨pre, t, id, x, y, portal, post, heq, hid, -, -, hlate⟩ :=
    waits_run htimed r hr hactive
  have hnow := now_le_of_paced (Nat.le_add_right _ _) htimed hhalves
  have htop := hlate hquiet
  obtain ⟨a, ha, hhalf⟩ :=
    List.mem_filterMap.mp (heq ▸ List.mem_append_right pre List.mem_cons_self)
  refine ⟨t, id, x, y, portal, ?_, hid, by omega⟩
  cases a with
  | ei e => cases hhalf
  | router now half =>
      cases hhalf
      exact ha

end Runs

/-! ## A crossing after the stream has ended -/

/-- The stream ends while no capture is on; the loop goes on, and the pointer
crosses. -/
def endedAndCrossed : List (FeedAct ℚ) :=
  [.ei .connects, .router 0 (.top .quiet), .ei .stops,
    .router 100000 (.receive (.event (.capture .disconnected) ⟨.ok (), .ok ()⟩)),
    .router 100000 (.top { Top.quiet with flushDue := true }),
    .router 200000 (.receive (.event (.portal (.activated 7 2559 720)) ⟨.ok (), .ok ()⟩))]

theorem dead_stream_briefly_crossed : ∃ s r,
    (feed ubuntu).exec (.start ubuntu windows answered 0) endedAndCrossed = some s ∧
      s.timed.loop.router = some r ∧ r.activeId = some 7 ∧
      (∃ l, eiSent endedAndCrossed s = l ++ [.disconnected]) ∧ r.eventsThisActivation = false ∧
      ∃ t, s.timed.now ≤ t + fromSecs 3 + fromMillis 300 := by
  have hrun : (((feed ubuntu).exec (.start ubuntu windows answered 0) endedAndCrossed).bind
      fun s => s.timed.loop.router.map fun r => (s.thread, s.channel, r.activeId)) =
        some (.ended, [], some 7) := by
    decide +kernel
  obtain ⟨s, hs, hrun⟩ := Option.bind_eq_some_iff.mp hrun
  obtain ⟨r, hr, hstate⟩ := Option.map_eq_some_iff.mp hrun
  simp only [Prod.mk.injEq] at hstate
  obtain ⟨hended, hreceived, hid⟩ := hstate
  have hpaced : (feed ubuntu).Meets (FeedPaced (fromMillis 300)) (.start ubuntu windows answered 0)
      endedAndCrossed := by decide +kernel
  obtain ⟨-, hlast, -, hbriefly⟩ := dead_stream_briefly hs hpaced
  obtain ⟨l, hl, -⟩ := hlast hended
  obtain ⟨hquiet, t, -, -, -, -, -, -, hnow⟩ :=
    hbriefly hended hreceived r hr (by rw [hid]; rfl)
  exact ⟨s, r, hs, hr, hid, ⟨l, hl⟩, hquiet, t, hnow⟩

end Beaglewing.Input
