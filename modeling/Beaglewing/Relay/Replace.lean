/-
# `Relay.Replace` — when a new connection is served

"One client at a time; a new connection replaces the old one": the accept
loop, which serves the old one, takes the new one only when the old one has
ended.  The connections that were accepted or wait to be stand in a line
(`State.line`); the relay's own steps only drop its head, and only when that
connection was closed by its peer or failed (`own_run`).  A closed connection
is left, whatever it had sent and wherever the two threads are
(`leaves_closed`).  So

    B is accepted by steps of the relay alone
      iff   A and all that wait before B have been closed    (`accepts_iff`)

and an A that stays open and silent keeps B out (`silent_keeps_out`).

## What it is not

Closing is up to the peers: nothing here makes a silent connection close, and
the relay has no time-out on one.
-/
import Beaglewing.Relay.Data

namespace Beaglewing.Relay

open Base Clipframe
/-! ## What a step can change -/

/-- The connection being served. -/
def Main.served : Main → List Nat
  | .incoming => []
  | .accepted c | .reading c | .pong c _ | .hid c _ | .ended c => [c]

/-- The connection being served, and those that wait. -/
def State.line (s : State) : List Nat := s.main.served ++ s.backlog

/-- Every step, as far as the end of a connection is concerned: connections
that were closed stay closed, a write fails on these only, the accept loop
leaves these only, and gets to the next when it has left one. -/
structure Effect (s : State) (a : Act) (s' : State) : Prop where
  arrived : s.arrived ≤ s'.arrived
  eof : ∀ c, (s.conns c).eof = true → (s'.conns c).eof = true
  own : Own a → ∀ c, (s'.conns c).eof = (s.conns c).eof
  broken : ∀ c, (s'.conns c).broken = true →
    (s.conns c).broken = true ∨ (s.conns c).eof = true
  ended : ∀ c, s'.main = .ended c →
    s.main = .ended c ∨ (s.conns c).eof = true ∨ (s.conns c).broken = true
  line : s'.line = s.line ∨
    (s'.line = s.line ++ [s.arrived] ∧ s'.arrived = s.arrived + 1 ∧ ¬ Own a) ∨
    ∃ c, s.main = .ended c ∧ s.line = c :: s'.line

/-- A step of the relay that gets to no other connection. -/
theorem Effect.stay {s s' : State} {a : Act} (harrived : s'.arrived = s.arrived)
    (heof : ∀ c, (s'.conns c).eof = (s.conns c).eof)
    (hbroken : ∀ c, (s'.conns c).broken = true →
      (s.conns c).broken = true ∨ (s.conns c).eof = true)
    (hended : ∀ c, s'.main = .ended c →
      s.main = .ended c ∨ (s.conns c).eof = true ∨ (s.conns c).broken = true)
    (hline : s'.line = s.line) : Effect s a s' where
  arrived := Nat.le_of_eq harrived.symm
  eof c h := (heof c).trans h
  own _ := heof
  broken := hbroken
  ended := hended
  line := Or.inl hline

/-- A step that leaves the connections alone. -/
theorem Effect.local {s s' : State} {a : Act} (harrived : s'.arrived = s.arrived)
    (hconns : s'.conns = s.conns)
    (hended : ∀ c, s'.main = .ended c →
      s.main = .ended c ∨ (s.conns c).eof = true ∨ (s.conns c).broken = true)
    (hline : s'.line = s.line) : Effect s a s' :=
  .stay harrived (fun c => by rw [hconns]) (fun c h => Or.inl (hconns ▸ h)) hended hline

theorem setConn_broken {s : State} {c : Nat} {k : Conn}
    (hk : k.broken = true → (s.conns c).broken = true ∨ (s.conns c).eof = true) (d : Nat)
    (h : ((s.setConn c k).conns d).broken = true) :
    (s.conns d).broken = true ∨ (s.conns d).eof = true := by
  rw [State.setConn_conns] at h
  split at h
  next hd => rw [hd]; exact hk h
  next => exact Or.inl h

theorem step_effect {s s' : State} {a : Act} (h : relay.step s a = some s') : Effect s a s' := by
  cases a with
  | connect =>
      cases h
      exact ⟨Nat.le_succ _, fun _ h => h, fun h => h.elim, fun _ h => Or.inl h,
        fun _ h => Or.inl h, Or.inr (Or.inl ⟨by simp [State.line], rfl, fun h => h⟩)⟩
  | send c bytes =>
      rw [send_eq_some h]
      exact .stay rfl (s.setConn_keeps c Conn.eof rfl) (setConn_broken Or.inl)
        (fun _ hd => Or.inl hd) rfl
  | close c =>
      cases h
      refine ⟨Nat.le_refl _, ?_, fun h => h.elim, setConn_broken Or.inl,
        fun _ h => Or.inl h, Or.inl rfl⟩
      intro d hd
      rw [State.setConn_conns]
      split
      · rfl
      · exact hd
  | accept =>
      obtain ⟨c, rest, hm, hb, rfl⟩ := accept_eq_some h
      exact .local rfl rfl (fun _ hd => by cases hd) (by simp [State.line, hm, hb, Main.served])
  | setCurrent =>
      obtain ⟨c, hm, -, rfl⟩ := setCurrent_eq_some h
      exact .local rfl rfl (fun _ hd => by cases hd) (by simp [State.line, hm, Main.served])
  | readExact =>
      obtain ⟨c, hm, ⟨f, rest, -, rfl⟩ | ⟨he, -, rfl⟩⟩ := readExact_eq_some h
      · refine .stay rfl (s.setConn_keeps c Conn.eof rfl) (setConn_broken Or.inl) ?_ ?_
        · intro d hd
          simp only at hd
          split at hd <;> cases hd
        · simp only [State.line, hm]
          split <;> rfl
      · refine .local rfl rfl ?_ (by simp [State.line, hm, Main.served])
        intro d hd
        cases hd
        exact Or.inr (Or.inl he)
  | pongPart n =>
      obtain ⟨c, rest, hm, -, -, -, rfl⟩ := pongPart_eq_some h
      refine .stay rfl (s.setConn_keeps c Conn.eof rfl) (setConn_broken Or.inl) ?_ ?_
      · intro d hd
        simp only [State.afterPong] at hd
        split at hd <;> cases hd
      · simp only [State.line, State.afterPong, hm]
        split <;> rfl
  | pongFail =>
      obtain ⟨c, rest, hm, hc, rfl⟩ := pongFail_eq_some h
      refine .stay rfl (s.setConn_keeps c Conn.eof rfl) (setConn_broken fun _ => hc.symm) ?_
        (by simp [State.line, State.setConn, hm, Main.served])
      intro d hd
      cases hd
      exact Or.inr hc
  | writeFrame written =>
      obtain ⟨c, f, hm, rfl⟩ := writeFrame_eq_some h
      exact .local rfl rfl (fun _ hd => by cases hd) (by simp [State.line, hm, Main.served])
  | clear known =>
      obtain ⟨c, hm, -, rfl⟩ := clear_eq_some h
      refine ⟨Nat.le_refl _, fun _ h => h, fun _ _ => rfl, fun _ h => Or.inl h,
        (fun _ hd => by cases hd), Or.inr (Or.inr ⟨c, hm, ?_⟩)⟩
      simp [State.line, State.clear, hm, Main.served]
  | report f =>
      obtain ⟨-, rfl⟩ := report_eq_some h
      exact .local rfl rfl (fun _ hd => Or.inl hd) rfl
  | lock =>
      obtain ⟨f, -, rfl⟩ := lock_eq_some h
      unfold State.lock
      split <;> exact .local rfl rfl (fun _ hd => Or.inl hd) rfl
  | pumpPart n =>
      obtain ⟨c, rest, -, -, -, -, rfl⟩ := pumpPart_eq_some h
      exact .stay rfl (s.setConn_keeps c Conn.eof rfl) (setConn_broken Or.inl)
        (fun _ hd => Or.inl hd) rfl
  | pumpFail =>
      obtain ⟨c, rest, -, hc, rfl⟩ := pumpFail_eq_some h
      exact .stay rfl (s.setConn_keeps c Conn.eof rfl) (setConn_broken fun _ => hc.symm)
        (fun _ hd => Or.inl hd) rfl

/-- A write in progress has bytes left. -/
theorem writing_step {s s' : State} {a : Act} (h : relay.step s a = some s')
    (hs : ∀ c, s.pump ≠ .writing c []) (c : Nat) : s'.pump ≠ .writing c [] := by
  cases a with
  | lock =>
      obtain ⟨f, -, rfl⟩ := lock_eq_some h
      unfold State.lock
      split
      · intro hw
        have := congrArg List.length (Pump.writing.inj hw).2
        rw [f.size] at this
        cases this
      · exact fun hw => by cases hw
  | pumpPart n =>
      obtain ⟨d, rest, -, -, -, -, rfl⟩ := pumpPart_eq_some h
      simp only [State.afterPart]
      split
      · exact fun hw => by cases hw
      next hr => exact fun hw => hr (Pump.writing.inj hw).2
  | pumpFail =>
      obtain ⟨d, rest, -, -, rfl⟩ := pumpFail_eq_some h
      exact fun hw => by cases hw
  | report f =>
      obtain ⟨-, rfl⟩ := report_eq_some h
      exact fun hw => by cases hw
  | _ =>
      rw [(pump_step h (fun h => h)).1]
      exact hs c

/-! ## Reachable states -/

/-- Writes fail on closed connections only, a loop is left for one of these
only, no connection waits twice, and a write in progress has bytes left. -/
structure Sound (s : State) : Prop where
  broken : ∀ c, (s.conns c).broken = true → (s.conns c).eof = true
  ended : ∀ c, s.main = .ended c → (s.conns c).eof = true
  nodup : s.line.Nodup
  arrived : ∀ c ∈ s.line, c < s.arrived
  writing : ∀ c, s.pump ≠ .writing c []

theorem Sound.step {s s' : State} {a : Act} (hs : Sound s) (h : relay.step s a = some s') :
    Sound s' := by
  have he := step_effect h
  refine ⟨?_, ?_, ?_, ?_, writing_step h hs.writing⟩
  · intro c hc
    rcases he.broken c hc with hb | hb
    · exact he.eof c (hs.broken c hb)
    · exact he.eof c hb
  · intro c hc
    rcases he.ended c hc with hd | hd | hd
    · exact he.eof c (hs.ended c hd)
    · exact he.eof c hd
    · exact he.eof c (hs.broken c hd)
  · rcases he.line with hl | ⟨hl, -, -⟩ | ⟨c, -, hl⟩
    · rw [hl]
      exact hs.nodup
    · rw [hl, List.nodup_append]
      refine ⟨hs.nodup, List.nodup_singleton _, ?_⟩
      intro c hc d hd hcd
      rw [List.mem_singleton.mp hd] at hcd
      exact Nat.lt_irrefl _ (hcd ▸ hs.arrived c hc)
    · have := hs.nodup
      rw [hl] at this
      exact (List.nodup_cons.mp this).2
  · intro c hc
    rcases he.line with hl | ⟨hl, harr, -⟩ | ⟨d, -, hl⟩
    · rw [hl] at hc
      exact Nat.lt_of_lt_of_le (hs.arrived c hc) he.arrived
    · rw [hl] at hc
      rcases List.mem_append.mp hc with hc | hc
      · exact Nat.lt_of_lt_of_le (hs.arrived c hc) he.arrived
      · rw [List.mem_singleton.mp hc, harr]
        exact Nat.lt_succ_self _
    · have : c ∈ s.line := by
        rw [hl]
        exact List.mem_cons_of_mem _ hc
      exact Nat.lt_of_lt_of_le (hs.arrived c this) he.arrived

theorem Sound.init : Sound .init where
  broken c h := by cases h
  ended c h := by cases h
  nodup := List.nodup_nil
  arrived c h := by cases h
  writing c h := by cases h

theorem sound_of_run {as : List Act} {s : State} (h : relay.exec .init as = some s) : Sound s :=
  relay.exec_invariant Sound.init (fun _ _ _ hs hst => hs.step hst) h

/-! ## The relay on its own -/

/-- Steps of the relay alone lead there. -/
def Reaches (s s' : State) : Prop :=
  ∃ bs, (∀ b ∈ bs, Own b) ∧ relay.exec s bs = some s'

theorem Reaches.refl (s : State) : Reaches s s :=
  ⟨[], (fun _ h => by cases h), rfl⟩

theorem Reaches.step {s s' : State} {a : Act} (h : relay.step s a = some s') (ha : Own a) :
    Reaches s s' := by
  refine ⟨[a], fun b hb => List.mem_singleton.mp hb ▸ ha, ?_⟩
  rw [Lts.exec_cons, h]
  rfl

theorem Reaches.trans {s₁ s₂ s₃ : State} (h : Reaches s₁ s₂) (h' : Reaches s₂ s₃) :
    Reaches s₁ s₃ := by
  obtain ⟨as, ha, has⟩ := h
  obtain ⟨bs, hb, hbs⟩ := h'
  refine ⟨as ++ bs, ?_, relay.exec_trans has hbs⟩
  intro b hmem
  exact (List.mem_append.mp hmem).elim (ha b) (hb b)

/-- Left to itself, the relay goes along the line, and leaves only connections
that were closed. -/
theorem own_run {s s' : State} (hs : Sound s) (h : Reaches s s') :
    (∃ gone, s.line = gone ++ s'.line ∧ ∀ c ∈ gone, (s.conns c).eof = true) := by
  obtain ⟨bs, hown, hrun⟩ := h
  induction bs generalizing s with
  | nil =>
      cases hrun
      exact ⟨[], rfl, fun _ h => by cases h⟩
  | cons b bs ih =>
      obtain ⟨s₁, h₁, hrun⟩ := Option.bind_eq_some_iff.mp hrun
      have he := step_effect h₁
      have heof := he.own (hown b List.mem_cons_self)
      obtain ⟨gone, hl, hgone⟩ := ih (hs.step h₁)
        (fun c hc => hown c (List.mem_cons_of_mem _ hc)) hrun
      have hgone' : ∀ c ∈ gone, (s.conns c).eof = true := fun c hc =>
        (heof c).symm.trans (hgone c hc)
      rcases he.line with hline | ⟨-, -, hnot⟩ | ⟨c, hc, hline⟩
      · exact ⟨gone, hline ▸ hl, hgone'⟩
      · exact absurd (hown b List.mem_cons_self) hnot
      · refine ⟨c :: gone, ?_, ?_⟩
        · rw [hline, hl]
          rfl
        · intro d hd
          rcases List.mem_cons.mp hd with rfl | hd
          · exact hs.ended d hc
          · exact hgone' d hd

/-- Steps of the relay alone lead there, and no connection is accepted on the
way. -/
structure Leads (s s' : State) : Prop where
  reaches : Reaches s s'
  backlog : s'.backlog = s.backlog
  eof : ∀ c, (s'.conns c).eof = (s.conns c).eof

theorem Leads.refl (s : State) : Leads s s := ⟨.refl s, rfl, fun _ => rfl⟩

theorem Leads.step {s s' : State} {a : Act} (h : relay.step s a = some s') (ha : Own a)
    (hb : s'.backlog = s.backlog) : Leads s s' :=
  ⟨.step h ha, hb, (step_effect h).own ha⟩

theorem Leads.trans {s₁ s₂ s₃ : State} (h : Leads s₁ s₂) (h' : Leads s₂ s₃) : Leads s₁ s₃ :=
  ⟨h.reaches.trans h'.reaches, h'.backlog.trans h.backlog, fun c => (h'.eof c).trans (h.eof c)⟩

/-- The mutex gets free: what the pump is writing goes out, or fails. -/
theorem unlocks {s : State} (hs : Sound s) :
    ∃ s', Leads s s' ∧ s'.Unlocked ∧ s'.main = s.main := by
  cases hp : s.pump with
  | reading => exact ⟨s, .refl s, (fun c rest h => by rw [hp] at h; cases h), rfl⟩
  | locking f => exact ⟨s, .refl s, (fun c rest h => by rw [hp] at h; cases h), rfl⟩
  | writing c rest =>
      by_cases hb : (s.conns c).broken = true
      · have hfail : relay.step s .pumpFail = some { s.setConn c
            { s.conns c with broken := true } with pump := .reading, current := none } := by
          simp [relay, hp, State.fail, hb]
        exact ⟨_, .step hfail trivial rfl, (fun _ _ h => by cases h), rfl⟩
      · have hr : 0 < rest.length := List.length_pos_iff.mpr fun h => hs.writing c (h ▸ hp)
        have hpart : relay.step s (.pumpPart rest.length) = some { s.setConn c
            { s.conns c with output := (s.conns c).output ++ rest } with pump := .reading } := by
          simp [relay, hp, State.part, hb, hr, State.afterPart]
        exact ⟨_, .step hpart trivial rfl, (fun _ _ h => by cases h), rfl⟩

theorem leaves_pong {s : State} {c : Nat} {rest : List UInt8} (hm : s.main = .pong c rest)
    (hc : (s.conns c).eof = true) : ∃ s', Leads s s' ∧ s'.main = .ended c := by
  have hfail : relay.step s .pongFail = some { s.setConn c
      { s.conns c with broken := true } with main := .ended c } := by
    simp [relay, hm, State.fail, hc]
  exact ⟨_, .step hfail trivial rfl, rfl⟩

/-- A connection that was closed is left, after what it had sent. -/
theorem leaves_reading {s : State} {c : Nat} (hm : s.main = .reading c)
    (hc : (s.conns c).eof = true) : ∃ s', Leads s s' ∧ s'.main = .ended c := by
  obtain ⟨n, hn⟩ : ∃ n, (s.conns c).input.length = n := ⟨_, rfl⟩
  induction n using Nat.strong_induction_on generalizing s with
  | _ n ih =>
    cases hf : readFrame (s.conns c).input with
    | none =>
        have hend : relay.step s .readExact = some { s with main := .ended c } := by
          simp [relay, hm, State.readExact, hf, hc]
        exact ⟨_, .step hend trivial rfl, rfl⟩
    | some x =>
        obtain ⟨f, rest⟩ := x
        have hless : rest.length < (s.conns c).input.length := by
          unfold readFrame at hf
          split at hf
          next hle =>
            cases hf
            rw [List.length_drop]
            exact Nat.sub_lt (Nat.lt_of_lt_of_le (by decide) hle) (by decide)
          next => cases hf
        by_cases hping : f.byte 0 = 0x01
        · have hread : relay.step s .readExact = some { s.setConn c
              { s.conns c with input := rest } with main := .pong c pong.bytes } := by
            simp [relay, hm, State.readExact, hf, hping]
          have h₁ := Leads.step hread trivial rfl
          obtain ⟨s', h', hs'⟩ := leaves_pong (c := c) rfl ((h₁.eof c).trans hc)
          exact ⟨s', h₁.trans h', hs'⟩
        · have hread : relay.step s .readExact = some { s.setConn c
              { s.conns c with input := rest } with main := .hid c f } := by
            simp [relay, hm, State.readExact, hf, hping]
          have h₁ := Leads.step hread trivial rfl
          have h₂ := h₁.trans (.step (a := .writeFrame true) rfl trivial rfl)
          have hin : rest.length < n := hn ▸ hless
          obtain ⟨s', h', hs'⟩ := ih rest.length hin (s := _) rfl ((h₂.eof c).trans hc)
            (by simp [State.setConn_conns])
          exact ⟨s', h₂.trans h', hs'⟩

/-- A connection that was closed is left, wherever the accept loop is with
it. -/
theorem leaves_closed {s : State} (hs : Sound s) {c : Nat} (hm : s.main.served = [c])
    (hc : (s.conns c).eof = true) : ∃ s', Leads s s' ∧ s'.main = .incoming := by
  have hended : ∃ s', Leads s s' ∧ s'.main = .ended c := by
    cases h : s.main with
    | incoming =>
        rw [h] at hm
        cases hm
    | accepted d =>
        rw [h] at hm
        cases hm
        obtain ⟨s₁, h₁, hfree, hm₁⟩ := unlocks hs
        have hset : relay.step s₁ .setCurrent
            = some { s₁ with main := .reading c, current := some c } := by
          simp [relay, hm₁, h, hfree]
        have h₂ := h₁.trans (.step hset trivial rfl)
        obtain ⟨s', h', hs'⟩ := leaves_reading (c := c) rfl ((h₂.eof c).trans hc)
        exact ⟨s', h₂.trans h', hs'⟩
    | reading d =>
        rw [h] at hm
        cases hm
        exact leaves_reading h hc
    | pong d rest =>
        rw [h] at hm
        cases hm
        exact leaves_pong h hc
    | hid d f =>
        rw [h] at hm
        cases hm
        have hwrite : relay.step s (.writeFrame true)
            = some { s with main := .reading c, toHost := s.toHost ++ [f] } := by
          simp [relay, h]
        have h₁ := Leads.step hwrite trivial rfl
        obtain ⟨s', h', hs'⟩ := leaves_reading (c := c) rfl ((h₁.eof c).trans hc)
        exact ⟨s', h₁.trans h', hs'⟩
    | ended d =>
        rw [h] at hm
        cases hm
        exact ⟨s, .refl s, h⟩
  obtain ⟨s₁, h₁, hm₁⟩ := hended
  obtain ⟨bs, -, hrun⟩ := h₁.reaches
  have hs₁ : Sound s₁ := relay.exec_invariant hs (fun _ _ _ hs hst => hs.step hst) hrun
  obtain ⟨s₂, h₂, hfree, hm₂⟩ := unlocks hs₁
  have hclear : relay.step s₂ (.clear true) = some (s₂.clear c true) := by
    simp [relay, hm₂, hm₁, hfree]
  exact ⟨_, (h₁.trans h₂).trans (.step hclear trivial rfl), rfl⟩

/-! ## When a pending connection is accepted -/

/-- From here every frame of the connection that has arrived and is no PING
gets to the host. -/
def Forwards (s : State) (c : Nat) : Prop :=
  ∀ f rest, readFrame (s.conns c).input = some (f, rest) → f.byte 0 ≠ 0x01 →
    ∃ s', Reaches s s' ∧ s'.toHost = s.toHost ++ [f]

/-- Steps of the relay alone accept the connection: it receives the host's
frames, and its own are forwarded. -/
def Accepts (s : State) (c : Nat) : Prop :=
  ∃ s', Reaches s s' ∧ s'.main = .reading c ∧ s'.current = some c ∧ Forwards s' c

theorem forwards_reading {s : State} {c : Nat} (hm : s.main = .reading c) : Forwards s c := by
  intro f rest hf hping
  have hread : relay.step s .readExact = some { s.setConn c
      { s.conns c with input := rest } with main := .hid c f } := by
    simp [relay, hm, State.readExact, hf, hping]
  have hwrite : relay.step { s.setConn c { s.conns c with input := rest } with main := .hid c f }
      (.writeFrame true) = some { s.setConn c { s.conns c with input := rest } with
        main := .reading c, toHost := s.toHost ++ [f] } := rfl
  exact ⟨_, (Reaches.step hread trivial).trans (.step hwrite trivial), rfl⟩

/-- The head of the backlog is accepted once nothing is served. -/
theorem accepts_next {s : State} (hs : Sound s) (hm : s.main = .incoming) {c : Nat}
    {post : List Nat} (hb : s.backlog = c :: post) :
    ∃ s', Reaches s s' ∧ s'.main = .reading c ∧ s'.current = some c ∧ s'.backlog = post ∧
      Sound s' ∧ ∀ d, (s'.conns d).eof = (s.conns d).eof := by
  have haccept : relay.step s .accept
      = some { s with main := .accepted c, backlog := post } := by
    simp [relay, hm, hb]
  obtain ⟨s₁, h₁, hfree, hm₁⟩ := unlocks (hs.step haccept)
  have hset : relay.step s₁ .setCurrent
      = some { s₁ with main := .reading c, current := some c } := by
    simp [relay, hm₁, hfree]
  have hreach := ((Reaches.step haccept trivial).trans h₁.reaches).trans
    (.step hset trivial)
  obtain ⟨bs, -, hrun⟩ := id hreach
  exact ⟨_, hreach, rfl, rfl, h₁.backlog,
    relay.exec_invariant hs (fun _ _ _ hs hst => hs.step hst) hrun, h₁.eof⟩

theorem accepts_of_closed {pre : List Nat} : ∀ {s : State} (_ : Sound s) {A B : Nat}
    {post : List Nat}, s.main.served = [A] → s.backlog = pre ++ B :: post →
    (∀ c ∈ A :: pre, (s.conns c).eof = true) → Accepts s B := by
  induction pre with
  | nil =>
      intro s hs A B post hm hb hclosed
      obtain ⟨s₁, h₁, hm₁⟩ := leaves_closed hs hm (hclosed A List.mem_cons_self)
      obtain ⟨bs, -, hrun⟩ := h₁.reaches
      have hs₁ : Sound s₁ := relay.exec_invariant hs (fun _ _ _ hs hst => hs.step hst) hrun
      obtain ⟨s', h', hm', hcur, -⟩ := accepts_next hs₁ hm₁ (h₁.backlog.trans hb)
      exact ⟨s', h₁.reaches.trans h', hm', hcur, forwards_reading hm'⟩
  | cons C pre ih =>
      intro s hs A B post hm hb hclosed
      obtain ⟨s₁, h₁, hm₁⟩ := leaves_closed hs hm (hclosed A List.mem_cons_self)
      obtain ⟨bs, -, hrun⟩ := h₁.reaches
      have hs₁ : Sound s₁ := relay.exec_invariant hs (fun _ _ _ hs hst => hs.step hst) hrun
      obtain ⟨s₂, h₂, hm₂, -, hb₂, hs₂, heof₂⟩ :=
        accepts_next hs₁ hm₁ (h₁.backlog.trans hb)
      have hserved : s₂.main.served = [C] := by rw [hm₂]; rfl
      obtain ⟨s', h', hacc⟩ := ih hs₂ hserved hb₂ fun c hc =>
        (heof₂ c).trans ((h₁.eof c).trans (hclosed c (List.mem_cons_of_mem _ hc)))
      exact ⟨s', (h₁.reaches.trans h₂).trans h', hacc⟩

/-- A connection is accepted when all before it were left. -/
theorem closed_of_accepts {s : State} (hs : Sound s) {A B : Nat} {pre post : List Nat}
    (hserved : s.main.served = [A]) (hpending : s.backlog = pre ++ B :: post)
    (h : Accepts s B) : ∀ c ∈ A :: pre, (s.conns c).eof = true := by
  obtain ⟨s', hreach, hm', -, -⟩ := h
  obtain ⟨gone, hline, hgone⟩ := own_run hs hreach
  have hleft : s.line = (A :: pre) ++ B :: post := by
    rw [State.line, hserved, hpending]
    rfl
  have hright : s.line = gone ++ B :: s'.backlog := by
    rw [hline, State.line, hm']
    rfl
  have hnodup := hs.nodup
  rw [hleft, List.nodup_append] at hnodup
  have hpre : B ∉ A :: pre := fun h => hnodup.2.2 B h B List.mem_cons_self rfl
  have hpost : B ∉ post := (List.nodup_cons.mp hnodup.2.1).1
  have hsame := (List.append_cons_inj_of_notMem hpre hpost).mp (hleft.symm.trans hright)
  rw [hsame.1]
  exact hgone

/-- **When a new connection replaces the old one.** The relay has steps that
accept a pending connection exactly when the one it serves, and all that wait
before it, have been closed. -/
theorem accepts_iff {as : List Act} {s : State} (hrun : relay.exec .init as = some s) {A B : Nat}
    {pre post : List Nat} (hserved : s.main.served = [A])
    (hpending : s.backlog = pre ++ B :: post) :
    Accepts s B ↔ ∀ c ∈ A :: pre, (s.conns c).eof = true :=
  ⟨closed_of_accepts (sound_of_run hrun) hserved hpending,
    accepts_of_closed (sound_of_run hrun) hserved hpending⟩

/-- One agent is served, and a second connection is pending. -/
def secondPending : List Act := [.connect, .accept, .setCurrent, .connect]

theorem accepts_iff_closed : ∃ s, relay.exec .init (secondPending ++ [.close 0]) = some s ∧
    s.backlog = [1] ∧ Accepts s 1 := by
  refine ⟨_, rfl, rfl, ?_⟩
  have hpending : [1] = [] ++ 1 :: [] := rfl
  refine (accepts_iff (show relay.exec .init (secondPending ++ [.close 0]) = _ from rfl) rfl
    hpending).mpr ?_
  intro c hc
  cases List.mem_singleton.mp hc
  rfl

/-- **A silent agent keeps the next one out.** The first connection is open,
and has sent nothing. -/
theorem silent_keeps_out :
    ¬ ∀ (as : List Act) (s : State) (A B : Nat), relay.exec .init as = some s →
      s.main.served = [A] → B ∈ s.backlog → Accepts s B := by
  intro h
  obtain ⟨s, hrun, hserved, hpending, hopen⟩ : ∃ s, relay.exec .init secondPending = some s ∧
      s.main.served = [0] ∧ s.backlog = [1] ∧ (s.conns 0).eof = false := ⟨_, rfl, rfl, rfl, rfl⟩
  have haccepts := h _ s 0 1 hrun hserved (hpending ▸ List.mem_singleton_self 1)
  have hnext : s.backlog = [] ++ 1 :: [] := hpending
  have hclosed := closed_of_accepts (sound_of_run hrun) hserved hnext haccepts 0
    List.mem_cons_self
  rw [hopen] at hclosed
  cases hclosed

end Beaglewing.Relay
