/-
# `Input.Watchdog` — the five seconds of the bridge

The bridge drops a client of which it has read nothing for more than 5 s, and
releases everything; the router sends something at least once a second.  Here
are both with their clocks, on one connection: the router with its instants
(`Input.Clock`), the bridge with `last_rx`, and the bytes that were written and
not read yet, each with the time at which it was written.

    router    keepalive after 1 s without a message, tested once an iteration
    network   a byte is read at most `D` after it was written
    bridge    heartbeat timeout after 5 s without a read, tested before a read

| statement | theorem |
|---|---|
| a router that comes to its head every `δ` keeps its session, if `1 s + δ + 2 D` are at most 5 s | `never_dropped` |
| once the bridge has read nothing for 5 s, and gone on twice, a host that took its last reports holds nothing | `released_in_time` |

What the first rests on is that `last_send` only moves when something was
written (`Passes.sends`), also where the results of the calls are dropped.

## What it is not

The bounds `δ` and `D` are hypotheses on the run, not facts of the programs: a
call of the router that blocks on its socket, or a network that holds bytes
back, breaks them.  The first result is of a connection on which no write has
failed.
-/
import Beaglewing.Bridge.Reports
import Beaglewing.Input.Clock

namespace Beaglewing.Input

open Base Bridge

/-! ## One connection -/

/-- `Duration::from_secs(5)`. -/
def heartbeatTimeout : Nat := fromSecs 5

/-- `stale` is what the heartbeat test has said, while the read goes on;
`tested` is when it was made.  `flight` are the bytes that were written and
not read, and when they were written. -/
structure Link (F : Type) where
  router : Timed F
  daemon : Daemon
  now : Nat
  lastRx : Nat
  stale : Option Bool
  tested : Nat
  flight : List (UInt8 × Nat)

inductive LinkAct (F : Type) where
  | router (half : Half F)
  /-- The bridge tests `last_rx`, and then reads. -/
  | test
  | turn (t : Turn)

/-- The connection of a loop that goes on. -/
def Loop.bridge {F : Type} : Loop F → Option BridgeClient
  | .head r => r.bridge
  | .waiting r => r.bridge
  | .returned _ _ => none
  | .panicked => none

/-- The bytes that the turn comes to read. -/
def takes (t : Turn) : List UInt8 := if t.shutdown || t.stale then [] else t.received

def isServing : Daemon → Bool
  | .serving _ => true
  | _ => false

variable {F : Type} [F64 F]

namespace Link

/-- A half of the router, on the connection that it has. -/
def routes (zone : Zone) (s : Link F) (now : Nat) (half : Half F) : Option (Link F) := do
  let router ← (timed zone).step s.router (now, half)
  let b ← s.router.loop.bridge
  let b' ← router.loop.bridge
  if (s.router.loop.marks zone half).lastReconnect then none
  else
    some { s with
      router
      now
      flight := s.flight ++
        (b'.stream.written.drop b.stream.written.length).map fun byte => (byte, now) }

/-- `last_rx.elapsed() > HEARTBEAT_TIMEOUT`. -/
def test (s : Link F) (now : Nat) : Option (Link F) :=
  if s.stale.isNone && isServing s.daemon then
    some { s with now, stale := some (decide (heartbeatTimeout < now - s.lastRx)), tested := now }
  else none

/-- The rest of the turn; the read gives what comes next. -/
def turns (s : Link F) (now : Nat) (t : Turn) : Option (Link F) :=
  if s.stale = some t.stale ∧ takes t <+: s.flight.map Prod.fst then
    (Bridge.daemon.step s.daemon (.turn t)).map fun d =>
      { s with
        daemon := d
        now
        lastRx := if takes t = [] then s.lastRx else now
        stale := none
        flight := s.flight.drop (takes t).length }
  else none

end Link

def link (zone : Zone) : Lts (Link F) (Nat × LinkAct F) where
  step s a :=
    if s.now ≤ a.1 then
      match a.2 with
      | .router half => s.routes zone a.1 half
      | .test => s.test a.1
      | .turn t => s.turns a.1 t
    else none

/-- The router has come to its head in the last `δ`, and what was written `D`
ago has been read. -/
def Timely (δ D : Nat) (s : Link F) (a : Nat × LinkAct F) : Prop :=
  a.1 ≤ s.router.lastTop + δ ∧ ∀ x ∈ s.flight.head?, a.1 ≤ x.2 + D

instance (δ D : Nat) (s : Link F) (a : Nat × LinkAct F) : Decidable (Timely δ D s a) :=
  inferInstanceAs (Decidable (_ ∧ _))

/-- The bridge has tested `last_rx` in the last `ε`, as long as it serves. -/
def Attended (ε : Nat) (s : Link F) (a : Nat × LinkAct F) : Prop :=
  isServing s.daemon = true → a.1 ≤ s.tested + ε

instance (ε : Nat) (s : Link F) (a : Nat × LinkAct F) : Decidable (Attended ε s a) :=
  inferInstanceAs (Decidable (_ → _))

/-- The router has just connected: the answer to its HELLO, which the bridge has
read, came in at most `D` later. -/
structure Connected (D : Nat) (s : Link F) : Prop where
  past : Past s.router
  sent : s.router.instants.lastSend = s.now
  top : s.router.lastTop = s.now
  router : s.router.now = s.now
  heard : s.lastRx ≤ s.now
  answered : s.now ≤ s.lastRx + D
  tested : s.stale = none
  flight : ∀ x ∈ s.flight, x.2 ≤ s.now

/-! ## A router that goes on is not dropped -/

/-- Where the last bytes are. -/
structure Alive (δ D : Nat) (s : Link F) : Prop where
  router : s.router.now ≤ s.now
  past : Past s.router
  heard : s.lastRx ≤ s.now
  flight : ∀ x ∈ s.flight, x.2 ≤ s.now
  first : ∀ x ∈ s.flight.head?, x.2 ≤ s.lastRx + (fromSecs 1 + δ + D)
  read : s.flight = [] → s.router.instants.lastSend ≤ s.lastRx + D
  top : s.router.lastTop ≤ s.router.instants.lastSend + fromSecs 1
  fresh : s.stale ≠ some true

/-- No write on the connection has failed. -/
def Unbroken (s : Link F) : Prop :=
  ∀ b, s.router.loop.bridge = some b → b.stream.broken = false

theorem broken_sendAll {b : BridgeClient} {msgs : List Message}
    (h : (b.sendAll msgs).stream.broken = false) : b.stream.broken = false := by
  induction msgs generalizing b with
  | nil => exact h
  | cons m msgs ih =>
      have hnext := ih (b := (b.send m.msgType m.payload).1) h
      exact (written_send hnext).1

omit [F64 F] in
theorem router_of_bridge {l : Loop F} {b : BridgeClient} (h : l.bridge = some b) :
    ∃ r, l.router = some r ∧ r.bridge = some b ∧ (l = .head r ∨ l = .waiting r) := by
  cases l with
  | head r => exact ⟨r, rfl, h, .inl rfl⟩
  | waiting r => exact ⟨r, rfl, h, .inr rfl⟩
  | returned r result => cases h
  | panicked => cases h

variable {zone : Zone} {δ D : Nat} {s s' : Link F}

/-- The bytes that a half has written; there are some if `last_send` moved. -/
theorem routes_eq_some {now : Nat} {half : Half F} (h : s.routes zone now half = some s') :
    ∃ router bytes, (timed zone).step s.router (now, half) = some router ∧
      s' = { s with router, now, flight := s.flight ++ bytes.map fun byte => (byte, now) } ∧
      (∃ b, s.router.loop.bridge = some b ∧
        (s.router.loop.marks zone half).lastReconnect = false) ∧
      (∃ b', router.loop.bridge = some b') ∧
      (Unbroken s' → Unbroken s ∧
        ((s.router.loop.marks zone half).lastSend = true → bytes ≠ [])) := by
  obtain ⟨router, hst, h⟩ := Option.bind_eq_some_iff.mp h
  obtain ⟨b, hb, h⟩ := Option.bind_eq_some_iff.mp h
  obtain ⟨b', hb', h⟩ := Option.bind_eq_some_iff.mp h
  split at h
  · cases h
  next hagain =>
    cases h
    obtain ⟨r, hr, hrb, -⟩ := router_of_bridge hb
    obtain ⟨r', hr', hrb', -⟩ := router_of_bridge hb'
    obtain ⟨-, -, l, hl, hrouter⟩ := timed_step hst
    rw [hrouter] at hr'
    -- The connection goes on with the messages of the half.
    obtain ⟨b₁, msgs, hb₁, rfl, hsent⟩ :=
      (passes_step hr hl r' hr').sends (Bool.eq_false_of_not_eq_true hagain) b' hrb'
    obtain rfl := Option.some.inj (hb₁.symm.trans hrb)
    refine ⟨router, _, hst, rfl, ⟨_, hb, Bool.eq_false_of_not_eq_true hagain⟩, ⟨_, hb'⟩, ?_⟩
    intro hunbroken
    have hok : (b₁.sendAll msgs).stream.broken = false := hunbroken _ hb'
    refine ⟨?_, ?_⟩
    · intro b₂ hb₂
      obtain rfl := Option.some.inj (hb.symm.trans hb₂)
      exact broken_sendAll hok
    · intro hmark
      rw [(written_sendAll b₁ msgs).2 hok, List.drop_left]
      cases msgs with
      | nil => exact absurd rfl (hsent hmark)
      | cons m msgs =>
          rw [List.flatMap_cons]
          exact List.append_ne_nil_of_left_ne_nil (List.cons_ne_nil _ _) _

theorem link_step {now : Nat} {act : LinkAct F} (h : (link zone).step s (now, act) = some s') :
    s.now ≤ now ∧ match act with
      | .router half => s.routes zone now half = some s'
      | .test => s.test now = some s'
      | .turn t => s.turns now t = some s' := by
  simp only [link] at h
  split at h
  next hnow =>
    refine ⟨hnow, ?_⟩
    cases act <;> exact h
  next => cases h

/-- After the head of the loop, the last message is at most 1 s old. -/
theorem top_of_timed {t t' : Timed F} {now : Nat} {half : Half F} (hpast : Past t)
    (hst : (timed zone).step t (now, half) = some t')
    (hb : ∃ b, t.loop.bridge = some b) (hb' : ∃ b', t'.loop.bridge = some b')
    (hagain : (t.loop.marks zone half).lastReconnect = false)
    (htop : t.lastTop ≤ t.instants.lastSend + fromSecs 1) :
    t'.lastTop ≤ t'.instants.lastSend + fromSecs 1 := by
  obtain ⟨hnow, hagrees, l, hl, rfl⟩ := timed_step hst
  have hsend := hpast.lastSend
  cases half with
  | receive e =>
      show t.lastTop ≤ (if (t.loop.marks zone (.receive e)).lastSend then now
        else t.instants.lastSend) + fromSecs 1
      dsimp only at hnow
      split <;> omega
  | top tests =>
      obtain ⟨r, hhead, rfl⟩ := step_top hl
      show now ≤ (if (t.loop.marks zone (.top tests)).lastSend then now
        else t.instants.lastSend) + fromSecs 1
      split
      · exact Nat.le_add_right _ _
      next hquiet =>
        -- No keepalive was due, or it would have been sent.
        have hnotDue : tests.keepaliveDue = false := by
          refine Bool.eq_false_of_not_eq_true fun hdue => hquiet ?_
          obtain ⟨b', hb'⟩ := hb'
          obtain ⟨r', -, hrb', hplace⟩ := router_of_bridge hb'
          obtain ⟨b, hb⟩ := hb
          rw [hhead] at hb hagain ⊢
          have hwait : r.top zone tests = .waiting r' := by
            rcases hplace with heq | heq
            · rcases top_cases zone r tests with ⟨r₁, -, h₁⟩ | h₁ | ⟨r₁, h₁⟩ <;>
                cases h₁.symm.trans heq
            · exact heq
          exact sent_of_top hwait (Option.isSome_of_eq_some hb) (Option.isSome_of_eq_some hrb')
            hagain hdue
        rw [hagrees.1] at hnotDue
        have hrecent := of_decide_eq_false hnotDue
        dsimp only at hrecent
        omega

theorem alive_routes {now : Nat} {half : Half F} (hnow : s.now ≤ now)
    (hpace : now ≤ s.router.lastTop + δ) (hst : s.routes zone now half = some s')
    (hunbroken : Unbroken s') (h : Unbroken s → Alive δ D s) : Alive δ D s' := by
  obtain ⟨router, bytes, hrouter, rfl, ⟨b, hb, hagain⟩, hb', hwritten⟩ := routes_eq_some hst
  obtain ⟨hbefore, hbytes⟩ := hwritten hunbroken
  obtain ⟨hrnow, hpast, hheard, hflight, hfirst, hread, htop, hfresh⟩ := h hbefore
  have htop' := top_of_timed hpast hrouter ⟨b, hb⟩ hb' hagain htop
  have hpast' := past_step hpast hrouter
  obtain ⟨-, -, l, -, rfl⟩ := timed_step hrouter
  refine ⟨Nat.le_refl _, hpast', hheard.trans hnow, ?_, ?_, ?_, htop', hfresh⟩
  · intro x hx
    rcases List.mem_append.mp hx with hx | hx
    · exact (hflight x hx).trans hnow
    · obtain ⟨byte, -, rfl⟩ := List.mem_map.mp hx
      exact Nat.le_refl _
  · intro x hx
    cases hold : s.flight with
    | cons y rest =>
        rw [hold] at hx hfirst
        exact hfirst x hx
    | nil =>
        -- All was read before; this is the first message since.
        rw [hold, List.nil_append] at hx
        obtain ⟨byte, -, rfl⟩ := List.mem_map.mp (List.mem_of_head? hx)
        have hlast := hread hold
        show now ≤ s.lastRx + (fromSecs 1 + δ + D)
        omega
  · intro hnil
    obtain ⟨hold, hnone⟩ := List.append_eq_nil_iff.mp hnil
    have hquiet : (s.router.loop.marks zone half).lastSend = false := by
      refine Bool.eq_false_of_not_eq_true fun hmark => hbytes hmark ?_
      exact List.map_eq_nil_iff.mp hnone
    show (s.router.instants.mark (s.router.loop.marks zone half) now).lastSend ≤ _
    rw [Instants.mark, hquiet]
    exact hread hold

omit [F64 F] in
/-- The test finds the session alive: what is oldest on the way is not old. -/
theorem alive_test {now : Nat} (hnow : s.now ≤ now) (htimely : Timely δ D s (now, .test))
    (hsmall : fromSecs 1 + δ + 2 * D ≤ heartbeatTimeout) (hst : s.test now = some s')
    (h : Alive δ D s) : Alive δ D s' := by
  obtain ⟨hrnow, hpast, hheard, hflight, hfirst, hread, htop, hfresh⟩ := h
  obtain ⟨hpace, hdelay⟩ := htimely
  have hrecent : ¬ heartbeatTimeout < now - s.lastRx := by
    cases hold : s.flight with
    | nil =>
        have hlast := hread hold
        dsimp only at hpace
        omega
    | cons x rest =>
        have hx := hdelay x (by rw [hold]; rfl)
        have hxread := hfirst x (by rw [hold]; rfl)
        dsimp only at hx
        omega
  rw [Link.test] at hst
  split at hst
  · cases hst
    refine ⟨hrnow.trans hnow, hpast, hheard.trans hnow, ?_, hfirst, hread, htop, ?_⟩
    · intro x hx
      exact (hflight x hx).trans hnow
    · intro hstale
      exact hrecent (of_decide_eq_true (Option.some.inj hstale))
  · cases hst

omit [F64 F] in
theorem alive_turns {now : Nat} {t : Turn} (hnow : s.now ≤ now)
    (hst : s.turns now t = some s') (h : Alive δ D s) : Alive δ D s' := by
  obtain ⟨hrnow, hpast, hheard, hflight, hfirst, hread, htop, hfresh⟩ := h
  rw [Link.turns] at hst
  split at hst
  next hguard =>
    obtain ⟨d, -, rfl⟩ := Option.map_eq_some_iff.mp hst
    have hrest : ∀ x ∈ s.flight.drop (takes t).length, x.2 ≤ now := by
      intro x hx
      exact (hflight x (List.mem_of_mem_drop hx)).trans hnow
    by_cases hnone : takes t = []
    · simp only [hnone, if_true, List.length_nil, List.drop_zero]
      refine ⟨hrnow.trans hnow, hpast, hheard.trans hnow, ?_, hfirst, hread, htop, nofun⟩
      intro x hx
      exact (hflight x hx).trans hnow
    · simp only [hnone, if_false]
      refine ⟨hrnow.trans hnow, hpast, Nat.le_refl _, hrest, ?_, ?_, htop, nofun⟩
      · intro x hx
        exact Nat.le_add_right_of_le (hrest x (List.mem_of_head? hx))
      · intro _
        have hsend := hpast.lastSend
        show s.router.instants.lastSend ≤ now + D
        omega
  next => cases hst

theorem unbroken_of_step {a : Nat × LinkAct F} (hst : (link zone).step s a = some s')
    (h : Unbroken s') : Unbroken s := by
  obtain ⟨now, act⟩ := a
  obtain ⟨-, hst⟩ := link_step hst
  cases act with
  | router half =>
      obtain ⟨router, bytes, -, rfl, -, -, hwritten⟩ := routes_eq_some hst
      exact (hwritten h).1
  | test =>
      simp only [Link.test] at hst
      split at hst
      · cases hst
        exact h
      · cases hst
  | turn t =>
      simp only [Link.turns] at hst
      split at hst
      · obtain ⟨d, -, rfl⟩ := Option.map_eq_some_iff.mp hst
        exact h
      · cases hst

/-- **A live router is not dropped.** Once connected, and as long as the
connection takes what is written: if the router comes to its head at least
every `δ`, what it writes is read at most `D` later, and `1 s + δ + 2 D` are at
most 5 s, no heartbeat test of the bridge fails. -/
theorem never_dropped {s₀ : Link F} {as : List (Nat × LinkAct F)} (hconnected : Connected D s₀)
    (hrun : (link zone).exec s₀ as = some s)
    (htimely : (link zone).Meets (Timely δ D) s₀ as) (hunbroken : Unbroken s)
    (hsmall : fromSecs 1 + δ + 2 * D ≤ heartbeatTimeout) : s.stale ≠ some true := by
  suffices halive : Unbroken s → Alive δ D s from (halive hunbroken).fresh
  refine (link zone).exec_meets (P := fun s => Unbroken s → Alive δ D s) ?_ ?_ hrun htimely
  · intro _
    obtain ⟨hpast, hsent, htop, hrouter, hheard, hanswered, htested, hflight⟩ := hconnected
    refine ⟨hrouter.le, hpast, hheard, hflight, ?_, ?_, ?_, ?_⟩
    · intro x hx
      have hx := hflight x (List.mem_of_head? hx)
      omega
    · intro _
      omega
    · omega
    · rw [htested]
      exact nofun
  · intro s a s' hs htimely hst hunbroken'
    have hbefore := unbroken_of_step hst hunbroken'
    obtain ⟨now, act⟩ := a
    obtain ⟨hnow, hst⟩ := link_step hst
    cases act with
    | router half => exact alive_routes hnow htimely.1 hst hunbroken' hs
    | test => exact alive_test hnow htimely hsmall hst (hs hbefore)
    | turn t => exact alive_turns hnow hst (hs hbefore)

/-! ## A silent router is dropped -/

/-- The session has just begun. -/
structure Accepted (s : Link F) : Prop where
  heard : s.lastRx = s.now
  tested : s.tested = s.now
  fresh : s.stale = none

/-- How long ago the last bytes can be, while the bridge serves. -/
structure Served (ε : Nat) (s : Link F) : Prop where
  shown : Shown s.daemon.hid
  ok : DaemonOk s.daemon
  heard : s.lastRx ≤ s.now
  now : isServing s.daemon = true → s.now ≤ s.tested + ε
  tested : isServing s.daemon = true → s.tested ≤ s.lastRx + heartbeatTimeout +
    if s.stale = some true then ε else 0

/-- A session that was found stale is over after the turn. -/
theorem over_of_stale {d d' : Daemon} {t : Turn} (hst : Bridge.daemon.step d (.turn t) = some d')
    (hstale : t.stale = true) : isServing d' = false := by
  cases d with
  | serving s =>
      have hstop : s.turn t = .stop s := by
        rw [Session.turn, hstale]
        split <;> rfl
      simp only [Bridge.daemon, hstop] at hst
      cases hst
      rfl
  | listening hid => cases hst
  | exited hid => cases hst

theorem serving_of_turn {d d' : Daemon} {t : Turn}
    (hst : Bridge.daemon.step d (.turn t) = some d') : isServing d = true := by
  cases d with
  | serving s => rfl
  | listening hid => cases hst
  | exited hid => cases hst

theorem served_step {ε : Nat} {a : Nat × LinkAct F} (h : Served ε s) (hattended : Attended ε s a)
    (hst : (link zone).step s a = some s') : Served ε s' := by
  obtain ⟨now, act⟩ := a
  obtain ⟨hnow, hst⟩ := link_step hst
  obtain ⟨hshown, hok, hheard, hage, htested⟩ := h
  cases act with
  | router half =>
      obtain ⟨router, bytes, -, rfl, -, -, -⟩ := routes_eq_some hst
      exact ⟨hshown, hok, hheard.trans hnow, hattended, htested⟩
  | test =>
      simp only [Link.test] at hst
      split at hst
      next hguard =>
        cases hst
        rw [Bool.and_eq_true, Option.isNone_iff_eq_none] at hguard
        refine ⟨hshown, hok, hheard.trans hnow, fun _ => Nat.le_add_right _ _, ?_⟩
        intro hserving
        have hbefore := htested hserving
        have hin := hattended hserving
        rw [hguard.1, if_neg nofun] at hbefore
        dsimp only at hin ⊢
        split
        next => omega
        next hfresh =>
          have hrecent : ¬ heartbeatTimeout < now - s.lastRx := by
            intro hlate
            exact hfresh (by rw [decide_eq_true hlate])
          omega
      next => cases hst
  | turn t =>
      simp only [Link.turns] at hst
      split at hst
      next hguard =>
        obtain ⟨d, hd, rfl⟩ := Option.map_eq_some_iff.mp hst
        have hserving := serving_of_turn hd
        have hlater : s.lastRx ≤ if takes t = [] then s.lastRx else now := by
          split <;> omega
        have hby : (if takes t = [] then s.lastRx else now) ≤ now := by
          split <;> omega
        refine ⟨shown_step hshown hd, daemonOk_step hok hd, hby, fun _ => hattended hserving, ?_⟩
        intro hgoesOn
        have hbefore := htested hserving
        cases hstale : t.stale with
        | true =>
            rw [over_of_stale hd hstale] at hgoesOn
            cases hgoesOn
        | false =>
            rw [hguard.1, hstale, if_neg (by decide)] at hbefore
            dsimp only
            omega
      next => cases hst

/-- **A silent router is dropped.** If the bridge makes its test at least every
`ε`: once it has read nothing for 5 s and twice that, its session is over, and a
host that took the last report of a device is told by it of nothing held. -/
theorem released_in_time {s₀ : Link F} {as : List (Nat × LinkAct F)} {ε : Nat}
    {takes : Nat → Bool} {events : List DaemonEvent}
    (hdaemon : Bridge.daemon.exec (.listening (.open takes)) events = some s₀.daemon)
    (haccepted : Accepted s₀) (hrun : (link zone).exec s₀ as = some s)
    (hattended : (link zone).Meets (Attended ε) s₀ as)
    (hsilent : s.lastRx + heartbeatTimeout + 2 * ε < s.now) :
    isServing s.daemon = false ∧
      (s.daemon.hid.Took .kbd → ∀ u : UInt8, u ≠ 0 → ¬ s.daemon.hid.ToldKey u.toNat) ∧
      (s.daemon.hid.Took .ptr → ∀ b, ¬ s.daemon.hid.ToldButton (b + 1)) := by
  have hserved : Served ε s := by
    refine (link zone).exec_meets (P := Served ε) ?_ ?_ hrun hattended
    · obtain ⟨hheard, htested, hfresh⟩ := haccepted
      refine ⟨shown_run hdaemon, daemonOk_run hdaemon, hheard.le, ?_, ?_⟩
      · intro _
        omega
      · intro _
        rw [hfresh, if_neg nofun]
        omega
    · intro s a s' hs hatt hst
      exact served_step hs hatt hst
  obtain ⟨hshown, hok, -, hage, htested⟩ := hserved
  have hover : isServing s.daemon = false := by
    refine Bool.eq_false_of_not_eq_true fun hserving => ?_
    have h₁ := hage hserving
    have h₂ := htested hserving
    split at h₂ <;> omega
  have hreleased : s.daemon.hid.Released := by
    cases hd : s.daemon with
    | serving s₁ =>
        rw [hd] at hover
        cases hover
    | listening hid =>
        rw [hd] at hok
        exact hok
    | exited hid =>
        rw [hd] at hok
        exact hok
  obtain ⟨hmodifiers, hkeys, hbuttons⟩ := hreleased
  refine ⟨hover, ?_, ?_⟩
  · intro htook u hu htold
    rcases (hshown.key hu).mp ((Hid.told_iff htook _).mp htold) with ⟨-, hbit⟩ | ⟨-, i, hi⟩
    · rw [hmodifiers, bitOf_zero] at hbit
      cases hbit
    · exact hu (hi.symm.trans (hkeys i))
  · intro htook b htold
    obtain ⟨-, hbit⟩ := (hshown.button b).mp ((Hid.told_iff htook _).mp htold)
    rw [hbuttons] at hbit
    simp at hbit

/-! ## Two links -/

def routed (now : Nat) (half : Half ℚ) : Nat × LinkAct ℚ := (now, .router half)

/-- A turn of the bridge with its test: nothing comes in its 500 ms. -/
def unread (now : Nat) (stale : Bool) : List (Nat × LinkAct ℚ) :=
  [(now, .test), (now + fromMillis 500, .turn ⟨false, stale, .wouldBlock⟩)]

/-- A turn of the bridge with its test, in which the bytes come. -/
def reads (now : Nat) (bytes : List UInt8) (h : 0 < bytes.length ∧ bytes.length ≤ 256) :
    List (Nat × LinkAct ℚ) :=
  [(now, .test), (now, .turn ⟨false, false, .bytes ⟨bytes, h.1, h.2⟩⟩)]

/-- The router has connected, and the bridge is about to read what it wrote. -/
def linked (flight : List UInt8) : Link ℚ where
  router := .start ubuntu windows answered 0
  daemon := .serving (.new (.open fun _ => true) none)
  now := 0
  lastRx := 0
  stale := none
  tested := 0
  flight := flight.map fun byte => (byte, 0)

/-- Nothing has come to the router in its 300 ms. -/
def waited (now : Nat) (keepaliveDue : Bool) : List (Nat × LinkAct ℚ) :=
  [routed now (.receive .timeout),
    routed now (.top { Top.quiet with keepaliveDue, flushDue := true })]

/-- Nothing comes to the router for more than a second: it sends a keepalive. -/
def kept : List (Nat × LinkAct ℚ) :=
  reads 0 (wire []) (by decide) ++ [routed 0 (.top .quiet), (0, .test)] ++
    waited (fromMillis 300) false ++
    [(fromMillis 500, .turn ⟨false, false, .wouldBlock⟩), (fromMillis 500, .test)] ++
    waited (fromMillis 600) false ++ waited (fromMillis 900) false ++
    [(fromMillis 1000, .turn ⟨false, false, .wouldBlock⟩)] ++ waited (fromMillis 1200) true ++
    reads (fromMillis 1250) Message.keepalive.bytes (by decide) ++ [(fromMillis 1250, .test)]

/-- The router stops; the bridge drops it after its fifth second. -/
def stalled : List (Nat × LinkAct ℚ) :=
  reads 0 (wire [.keyDown 4]) (by decide) ++
    ([0, 500, 1000, 1500, 2000, 2500, 3000, 3500, 4000, 4500, 5000].flatMap fun ms =>
      unread (fromMillis ms) false) ++ unread (fromMillis 5500) true ++
    [routed (fromMillis 6300) (.top ⟨false, true, true, .refused, true, true⟩)]

theorem never_dropped_kept : ∃ s, (link ubuntu).exec (linked (wire [])) kept = some s ∧
    s.now = fromMillis 1250 ∧ isServing s.daemon = true ∧ s.stale ≠ some true := by
  have hrun : ((link ubuntu).exec (linked (wire [])) kept).map (fun s =>
      (s.now, isServing s.daemon, s.router.loop.bridge.map fun b => b.stream.broken)) =
        some (fromMillis 1250, true, some false) := by
    decide +kernel
  obtain ⟨s, hs, hstate⟩ := Option.map_eq_some_iff.mp hrun
  simp only [Prod.mk.injEq] at hstate
  obtain ⟨hnow, hserving, hbroken⟩ := hstate
  have hconnected : Connected (fromMillis 100) (linked (wire [])) := by
    refine ⟨⟨Nat.le_refl _, Nat.le_refl _, Nat.le_refl _⟩, rfl, rfl, rfl, Nat.le_refl _,
      Nat.zero_le _, rfl, ?_⟩
    intro x hx
    obtain ⟨byte, -, rfl⟩ := List.mem_map.mp hx
    exact Nat.le_refl _
  have htimely : (link ubuntu).Meets (Timely (fromMillis 300) (fromMillis 100)) (linked (wire []))
      kept := by decide +kernel
  have hunbroken : Unbroken s := by
    intro b hb
    rw [hb] at hbroken
    exact Option.some.inj hbroken
  exact ⟨s, hs, hnow, hserving, never_dropped hconnected hs htimely hunbroken (by decide)⟩

theorem released_in_time_stalled :
    ∃ s, (link ubuntu).exec (linked (wire [.keyDown 4])) stalled = some s ∧
      isServing s.daemon = false ∧ ¬ s.daemon.hid.ToldKey 4 := by
  have hrun : ((link ubuntu).exec (linked (wire [.keyDown 4])) stalled).map
      (fun s => (s.now, s.lastRx, decide (s.daemon.hid.Took .kbd))) =
        some (fromMillis 6300, 0, true) := by
    decide +kernel
  obtain ⟨s, hs, hstate⟩ := Option.map_eq_some_iff.mp hrun
  simp only [Prod.mk.injEq, decide_eq_true_eq] at hstate
  obtain ⟨hnow, hheard, htook⟩ := hstate
  have hattended : (link ubuntu).Meets (Attended (fromMillis 500)) (linked (wire [.keyDown 4]))
      stalled := by decide +kernel
  have hsilent : s.lastRx + heartbeatTimeout + 2 * fromMillis 500 < s.now := by
    rw [hnow, hheard]
    decide
  obtain ⟨hover, hkeys, -⟩ :=
    released_in_time
      (show daemon.exec (.listening (.open fun _ => true)) [.accept true none] = _ from rfl)
      ⟨rfl, rfl, rfl⟩ hs hattended hsilent
  exact ⟨s, hs, hover, hkeys htook 4 (by decide)⟩

end Beaglewing.Input
