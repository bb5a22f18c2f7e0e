/-
# `Relay.Return` — what the relay writes to its agents

The other direction of `Relay.Forward`, for every run: `Relay.Align` needs
that the two writers keep out of each other's way, and here they need not.
What a connection carries is the bytes of two streams, in any mixture,

    the pump         reports, one after the other
    the accept loop  a PONG for each PING that was read

and neither loses, repeats or reorders a byte of its own, unless a write on
the connection fails (`Carried`).  A report goes to one connection at most,
and never to an older one than the report before (`returned`).

## What it is not

A PING that the relay has not read yet, or never reads since the connection
ended, has no PONG here.  Where in the bytes of one frame the other writer gets
in is left open: that is when the agent's frames are torn (`Relay.Align`).
-/
import Beaglewing.Relay.Align
import Beaglewing.Relay.Forward

namespace Beaglewing.Relay

open Base Clipframe

/-- The bytes of one writer. -/
def bytesOf (x : Source) (tags : List (Source × UInt8)) : List UInt8 :=
  (tags.filter fun t => t.1 = x).map Prod.snd

/-- A PONG for each PING. -/
def answers (fs : List Frame) : List Frame := (fs.filter fun f => f.byte 0 = 0x01).map fun _ => pong

/-- Bytes of one writer among those of both. -/
def tagged (x : Source) (bytes : List UInt8) : List (Source × UInt8) := bytes.map fun b => (x, b)

theorem bytesOf_append (x : Source) (tags tags' : List (Source × UInt8)) :
    bytesOf x (tags ++ tags') = bytesOf x tags ++ bytesOf x tags' := by
  rw [bytesOf, List.filter_append, List.map_append]
  rfl

theorem bytesOf_tagged (x y : Source) (bytes : List UInt8) :
    bytesOf x (tagged y bytes) = if y = x then bytes else [] := by
  induction bytes with
  | nil => split <;> rfl
  | cons b bytes ih =>
      rw [tagged, bytesOf] at ih
      by_cases hyx : y = x
      · simp_all [bytesOf, tagged]
      · simp_all [bytesOf, tagged]

theorem snd_tagged (x : Source) (bytes : List UInt8) : (tagged x bytes).map Prod.snd = bytes := by
  rw [tagged, List.map_map]
  exact List.map_id _

theorem answers_append (fs gs : List Frame) : answers (fs ++ gs) = answers fs ++ answers gs := by
  rw [answers, List.filter_append, List.map_append]
  rfl

theorem readOn_append (c : Nat) (log log' : List (Nat × Frame)) :
    readOn c (log ++ log') = readOn c log ++ readOn c log' := by
  rw [readOn, List.filter_append, List.map_append]
  rfl

/-- The reports the pump has not in hand. -/
def State.taken (s : State) : List Frame :=
  match s.pump with
  | .locking _ => s.fromHost.dropLast
  | _ => s.fromHost

theorem taken_eq {s : State} (h : ∀ f, s.pump ≠ .locking f) : s.taken = s.fromHost := by
  unfold State.taken
  split
  next f hf => exact absurd hf (h f)
  next => rfl

/-! ## One connection -/

/-- What was read from a connection and what was written on it, with the
reports that the pump was to write there. -/
structure Carried (as : List Act) (s : State) (given : List (Nat × Frame)) (c : Nat)
    (fs : List Frame) (tags : List (Source × UInt8)) : Prop where
  read : stream fs ++ (s.conns c).input = sentOn c as
  output : tags.map Prod.snd = (s.conns c).output
  host : bytesOf .host tags <+: stream (readOn c given)
  pong : bytesOf .pong tags <+: stream (answers fs)
  whole : (s.conns c).broken = false →
    bytesOf .host tags ++ s.pump.owed c = stream (readOn c given) ∧
      bytesOf .pong tags ++ s.main.owed c = stream (answers fs)

namespace Carried
variable {as : List Act} {s s' : State} {given : List (Nat × Frame)} {c : Nat}
  {fs : List Frame} {tags : List (Source × UInt8)}

/-- A step that reads some frames, gives the connection some reports and
writes some bytes there. -/
theorem next (h : Carried as s given c fs tags) (as' : List Act) (s' : State) (gs : List Frame)
    (more : List (Nat × Frame)) (ts : List (Source × UInt8))
    (hread : stream (fs ++ gs) ++ (s'.conns c).input = sentOn c as')
    (hout : (s'.conns c).output = (s.conns c).output ++ ts.map Prod.snd)
    (hbroken : (s'.conns c).broken = false → (s.conns c).broken = false)
    (hwrites : (s'.conns c).broken = true → ts = [])
    (hhost : (s'.conns c).broken = false →
      bytesOf .host ts ++ s'.pump.owed c = s.pump.owed c ++ stream (readOn c more))
    (hpong : (s'.conns c).broken = false →
      bytesOf .pong ts ++ s'.main.owed c = s.main.owed c ++ stream (answers gs)) :
    Carried as' s' (given ++ more) c (fs ++ gs) (tags ++ ts) := by
  have hwhole : (s'.conns c).broken = false →
      bytesOf .host (tags ++ ts) ++ s'.pump.owed c = stream (readOn c (given ++ more)) ∧
        bytesOf .pong (tags ++ ts) ++ s'.main.owed c = stream (answers (fs ++ gs)) := by
    intro hok
    obtain ⟨hh, hp⟩ := h.whole (hbroken hok)
    constructor
    · rw [bytesOf_append, List.append_assoc, hhost hok, ← List.append_assoc, hh, readOn_append,
        stream_append]
    · rw [bytesOf_append, List.append_assoc, hpong hok, ← List.append_assoc, hp, answers_append,
        stream_append]
  refine ⟨hread, ?_, ?_, ?_, hwhole⟩
  · rw [List.map_append, h.output, hout]
  · cases hok : (s'.conns c).broken with
    | false => exact ⟨_, (hwhole hok).1⟩
    | true =>
        rw [hwrites hok, List.append_nil, readOn_append, stream_append]
        exact h.host.trans (List.prefix_append _ _)
  · cases hok : (s'.conns c).broken with
    | false => exact ⟨_, (hwhole hok).2⟩
    | true =>
        rw [hwrites hok, List.append_nil, answers_append, stream_append]
        exact h.pong.trans (List.prefix_append _ _)

/-- A step that reads nothing, and gives and writes nothing. -/
theorem still (h : Carried as s given c fs tags) {a : Act} (ha : ∀ d bytes, a ≠ .send d bytes)
    (hconn : s'.conns c = s.conns c ∨ s'.conns c = { s.conns c with eof := true })
    (hpump : s'.pump.owed c = s.pump.owed c) (hmain : s'.main.owed c = s.main.owed c) :
    Carried (as ++ [a]) s' given c fs tags := by
  obtain ⟨hread, hout, hhost, hpong, hwhole⟩ := h
  refine ⟨?_, ?_, hhost, hpong, ?_⟩
  · rw [Forward.sentOn_snoc c ha, ← hread]
    rcases hconn with hconn | hconn <;> rw [hconn]
  · rw [hout]
    rcases hconn with hconn | hconn <;> rw [hconn]
  · intro hok
    rw [hpump, hmain]
    refine hwhole ?_
    rcases hconn with hconn | hconn
    · rwa [hconn] at hok
    · rwa [hconn] at hok

/-- A frame is read, and answered if it is a PING. -/
theorem read_frame (h : Carried as s given c fs tags) (f : Frame) (rest : List UInt8)
    (hinput : (s.conns c).input = f.bytes ++ rest)
    (hconn : s'.conns c = { s.conns c with input := rest })
    (hpump : s'.pump.owed c = s.pump.owed c) (hidle : s.main.owed c = [])
    (hmain : s'.main.owed c = if f.byte 0 = 0x01 then Relay.pong.bytes else []) :
    Carried (as ++ [.readExact]) s' given c (fs ++ [f]) tags := by
  have hnext := h.next (as ++ [.readExact]) s' [f] [] []
  rw [List.append_nil, List.append_nil] at hnext
  refine hnext ?_ ?_ (fun hok => by rwa [hconn] at hok) (fun _ => rfl) ?_ ?_
  · rw [Forward.sentOn_snoc c (by simp), ← h.read, hinput, hconn, stream_append]
    simp [stream]
  · rw [hconn]
    exact (List.append_nil _).symm
  · intro _
    rw [hpump]
    exact (List.append_nil _).symm
  · intro _
    rw [hidle, hmain, answers]
    by_cases hf : f.byte 0 = 0x01
    · simp [hf, stream, bytesOf]
    · simp [hf, stream, bytesOf]

/-- One of the two writers writes a part of what it owes. -/
theorem part (h : Carried as s given c fs tags) {a : Act} (ha : ∀ d bytes, a ≠ .send d bytes)
    (x : Source) (bytes : List UInt8) (hok : (s.conns c).broken = false)
    (hconn : s'.conns c = { s.conns c with output := (s.conns c).output ++ bytes })
    (hpump : s.pump.owed c = (if x = .host then bytes else []) ++ s'.pump.owed c)
    (hmain : s.main.owed c = (if x = .pong then bytes else []) ++ s'.main.owed c) :
    Carried (as ++ [a]) s' given c fs (tags ++ tagged x bytes) := by
  have hnext := h.next (as ++ [a]) s' [] [] (tagged x bytes)
  rw [List.append_nil, List.append_nil] at hnext
  refine hnext ?_ ?_ (fun _ => hok) ?_ ?_ ?_
  · rw [hconn, Forward.sentOn_snoc c ha]
    exact h.read
  · rw [hconn, snd_tagged]
  · intro hbroken
    rw [hconn, hok] at hbroken
    cases hbroken
  · intro _
    rw [bytesOf_tagged, hpump]
    exact (List.append_nil _).symm
  · intro _
    rw [bytesOf_tagged, hmain]
    exact (List.append_nil _).symm

/-- A write on the connection fails. -/
theorem fail (h : Carried as s given c fs tags) {a : Act} (ha : ∀ d bytes, a ≠ .send d bytes)
    (hconn : s'.conns c = { s.conns c with broken := true }) :
    Carried (as ++ [a]) s' given c fs tags := by
  refine ⟨?_, ?_, h.host, h.pong, ?_⟩
  · rw [hconn, Forward.sentOn_snoc c ha]
    exact h.read
  · rw [hconn]
    exact h.output
  · intro hok
    rw [hconn] at hok
    cases hok

/-- The pump takes the mutex, with a report for the connection or for another. -/
theorem give (h : Carried as s given c fs tags) {d : Nat} {f : Frame}
    (hp : s.pump = .locking f) :
    Carried (as ++ [.lock]) { s with pump := .writing d f.bytes } (given ++ [(d, f)]) c fs
      tags := by
  have hnext := h.next (as ++ [.lock]) { s with pump := .writing d f.bytes } [] [(d, f)] []
  rw [List.append_nil, List.append_nil] at hnext
  refine hnext ?_ (List.append_nil _).symm id (fun _ => rfl) ?_
    (fun _ => (List.append_nil _).symm)
  · rw [Forward.sentOn_snoc c (by simp)]
    exact h.read
  · intro _
    rw [hp, Pump.owed_writing]
    by_cases hdc : d = c
    · simp [hdc, readOn, stream, Pump.owed, bytesOf]
    · simp [hdc, readOn, stream, Pump.owed, bytesOf]

end Carried

/-! ## The order of the connections -/

/-- The connection that gets the reports, and the line. -/
def State.chain (s : State) : List Nat := s.current.toList ++ s.line

/-- Reports went to connections in the order of their arrival. -/
structure Ordered (given : List (Nat × Frame)) (s : State) : Prop where
  order : (given.map Prod.fst ++ s.chain).Pairwise (· ≤ ·)
  arrived : ∀ c ∈ given.map Prod.fst ++ s.chain, c < s.arrived

section Order
variable {s s' : State} {a : Act} {given : List (Nat × Frame)}

theorem pairwise_twice {l r : List Nat} {c : Nat} (h : (l ++ c :: r).Pairwise (· ≤ ·)) :
    (l ++ c :: c :: r).Pairwise (· ≤ ·) := by
  obtain ⟨hl, hr, hcross⟩ := List.pairwise_append.mp h
  refine List.pairwise_append.mpr ⟨hl, List.pairwise_cons.mpr ⟨?_, hr⟩, ?_⟩
  · intro d hd
    rcases List.mem_cons.mp hd with rfl | hd
    · exact Nat.le_refl _
    · exact (List.pairwise_cons.mp hr).1 d hd
  · intro d hd e he
    rcases List.mem_cons.mp he with rfl | he
    · exact hcross d hd _ List.mem_cons_self
    · exact hcross d hd e he

theorem chain_same (hcurrent : s'.current = s.current ∨ s'.current = none)
    (hline : s'.line = s.line) (harrived : s'.arrived = s.arrived) :
    s'.chain.Sublist s.chain ∧ s'.arrived = s.arrived := by
  refine ⟨?_, harrived⟩
  rw [State.chain, State.chain, hline]
  rcases hcurrent with hcurrent | hcurrent
  · rw [hcurrent]
  · rw [hcurrent]
    exact List.sublist_append_right _ _

/-- The line goes on, or its first connection gets the reports from now on. -/
theorem chain_step (h : relay.step s a = some s') :
    (s'.chain.Sublist s.chain ∧ s'.arrived = s.arrived) ∨
      (s'.chain = s.chain ++ [s.arrived] ∧ s'.arrived = s.arrived + 1) ∨
      ∃ c rest, s.line = c :: rest ∧ s'.chain = c :: c :: rest ∧ s'.arrived = s.arrived := by
  cases a with
  | connect =>
      cases h
      exact .inr (.inl ⟨by simp [State.chain, State.line], rfl⟩)
  | send c bytes =>
      cases send_eq_some h
      exact .inl (chain_same (.inl rfl) rfl rfl)
  | close c =>
      cases h
      exact .inl (chain_same (.inl rfl) rfl rfl)
  | accept =>
      obtain ⟨c, rest, hm, hb, rfl⟩ := accept_eq_some h
      exact .inl (chain_same (.inl rfl) (by simp [State.line, Main.served, hm, hb]) rfl)
  | setCurrent =>
      obtain ⟨c, hm, -, rfl⟩ := setCurrent_eq_some h
      exact .inr (.inr ⟨c, s.backlog, by rw [State.line, hm]; rfl, rfl, rfl⟩)
  | readExact =>
      obtain ⟨c, hm, ⟨f, rest, -, rfl⟩ | ⟨-, -, rfl⟩⟩ := readExact_eq_some h
      · refine .inl (chain_same (.inl rfl) ?_ rfl)
        rw [State.line, State.line, hm]
        dsimp only
        split <;> rfl
      · exact .inl (chain_same (.inl rfl) (by rw [State.line, State.line, hm]; rfl) rfl)
  | pongPart n =>
      obtain ⟨c, rest, hm, -, -, -, rfl⟩ := pongPart_eq_some h
      refine .inl (chain_same (.inl rfl) ?_ rfl)
      rw [State.line, State.line, hm, State.afterPong]
      dsimp only
      split <;> rfl
  | pongFail =>
      obtain ⟨c, rest, hm, -, rfl⟩ := pongFail_eq_some h
      exact .inl (chain_same (.inl rfl) (by rw [State.line, State.line, hm]; rfl) rfl)
  | writeFrame written =>
      obtain ⟨c, f, hm, rfl⟩ := writeFrame_eq_some h
      exact .inl (chain_same (.inl rfl) (by rw [State.line, State.line, hm]; rfl) rfl)
  | clear known =>
      obtain ⟨c, hm, -, rfl⟩ := clear_eq_some h
      refine .inl ⟨?_, rfl⟩
      have hline : s.line = c :: s.backlog := by rw [State.line, hm]; rfl
      rw [State.chain, State.chain, hline]
      refine List.Sublist.append ?_ (List.sublist_cons_self _ _)
      rw [State.clear]
      dsimp only
      split
      · exact List.nil_sublist _
      · exact List.Sublist.refl _
  | report f =>
      obtain ⟨-, rfl⟩ := report_eq_some h
      exact .inl (chain_same (.inl rfl) rfl rfl)
  | lock =>
      obtain ⟨f, -, rfl⟩ := lock_eq_some h
      refine .inl (chain_same (.inl ?_) ?_ ?_) <;> rw [State.lock] <;> split <;> rfl
  | pumpPart n =>
      obtain ⟨c, rest, -, -, -, -, rfl⟩ := pumpPart_eq_some h
      exact .inl (chain_same (.inl rfl) rfl rfl)
  | pumpFail =>
      obtain ⟨c, rest, -, -, rfl⟩ := pumpFail_eq_some h
      exact .inl (chain_same (.inr rfl) rfl rfl)

theorem Ordered.step (h : Ordered given s) (hst : relay.step s a = some s') : Ordered given s' := by
  rcases chain_step hst with ⟨hsub, harrived⟩ | ⟨heq, harrived⟩ | ⟨c, rest, hline, heq, harrived⟩
  · refine ⟨h.order.sublist (hsub.append_left _), ?_⟩
    intro c hc
    rw [harrived]
    exact h.arrived c ((hsub.append_left _).subset hc)
  · constructor
    · rw [heq, ← List.append_assoc]
      refine List.pairwise_append.mpr ⟨h.order, List.pairwise_singleton _ _, ?_⟩
      intro c hc d hd
      rw [List.mem_singleton.mp hd]
      exact Nat.le_of_lt (h.arrived c hc)
    · intro c hc
      rw [heq, ← List.append_assoc] at hc
      rw [harrived]
      rcases List.mem_append.mp hc with hc | hc
      · exact Nat.lt_succ_of_lt (h.arrived c hc)
      · rw [List.mem_singleton.mp hc]
        exact Nat.lt_succ_self _
  · have hsub : (given.map Prod.fst ++ s.line).Sublist (given.map Prod.fst ++ s.chain) :=
      (List.sublist_append_right _ _).append_left _
    have horder := h.order.sublist hsub
    rw [hline] at horder hsub
    constructor
    · rw [heq]
      exact pairwise_twice horder
    · intro d hd
      rw [harrived]
      refine h.arrived d (hsub.subset ?_)
      rw [heq] at hd
      simpa using hd

/-- A report more for the connection that gets them. -/
theorem Ordered.give (h : Ordered given s) {c : Nat} (hcurrent : s.current = some c) (f : Frame) :
    Ordered (given ++ [(c, f)]) s := by
  have hchain : s.chain = c :: s.line := by
    rw [State.chain, hcurrent]
    rfl
  obtain ⟨horder, harrived⟩ := h
  rw [hchain] at horder harrived
  constructor
  · rw [hchain, List.map_append, List.append_assoc]
    exact pairwise_twice horder
  · intro d hd
    refine harrived d ?_
    rw [hchain] at hd
    simp only [List.map_append, List.mem_append, List.map_cons, List.map_nil, List.mem_cons,
      List.not_mem_nil, or_false] at hd ⊢
    tauto

end Order

/-! ## The reports of the host -/

/-- Whoever takes a report from the host finds an agent. -/
def HasAgent (s : State) : Act → Prop
  | .lock => s.current ≠ none
  | _ => True

instance (s : State) : DecidablePred (HasAgent s)
  | .lock => inferInstanceAs (Decidable (s.current ≠ none))
  | .connect | .send _ _ | .close _ | .accept | .setCurrent | .readExact | .pongPart _
  | .pongFail | .writeFrame _ | .clear _ | .report _ | .pumpPart _ | .pumpFail => isTrue trivial

/-- The reports that went to the agents; if one always was there, all. -/
structure Reported (as : List Act) (given : List (Nat × Frame)) (s : State) : Prop where
  inHand : ∀ f, s.pump = .locking f → ∃ l, s.fromHost = l ++ [f]
  taken : (given.map Prod.snd).Sublist s.taken
  kept : relay.Meets HasAgent .init as → given.map Prod.snd = s.taken

section Reports
variable {as : List Act} {s s' : State} {a : Act} {given : List (Nat × Frame)}

/-- The pump takes a report with `report`, and hands it over with `lock`. -/
theorem hand_step (hst : relay.step s a = some s') (hreport : ∀ f, a ≠ .report f)
    (hlock : a ≠ .lock) : (∀ f, s'.pump = .locking f → s.pump = .locking f) ∧
      s'.fromHost = s.fromHost ∧ s'.taken = s.taken := by
  by_cases hpump : OfPump a
  · have hwriting : (∀ f, s.pump ≠ .locking f) → (∀ f, s'.pump ≠ .locking f) →
        s'.fromHost = s.fromHost → (∀ f, s'.pump = .locking f → s.pump = .locking f) ∧
          s'.fromHost = s.fromHost ∧ s'.taken = s.taken := by
      intro hbefore hafter hfrom
      refine ⟨fun f hf => absurd hf (hafter f), hfrom, ?_⟩
      rw [taken_eq hbefore, taken_eq hafter, hfrom]
    cases a with
    | report f => exact absurd rfl (hreport f)
    | lock => exact absurd rfl hlock
    | pumpPart n =>
        obtain ⟨c, rest, hp, -, -, -, rfl⟩ := pumpPart_eq_some hst
        refine hwriting (fun f hf => by rw [hp] at hf; cases hf) ?_ rfl
        intro f hf
        rw [State.afterPart] at hf
        dsimp only at hf
        split at hf <;> cases hf
    | pumpFail =>
        obtain ⟨c, rest, hp, -, rfl⟩ := pumpFail_eq_some hst
        exact hwriting (fun f hf => by rw [hp] at hf; cases hf) (fun f hf => by cases hf) rfl
    | _ => exact hpump.elim
  · obtain ⟨hsame, hfrom⟩ := pump_step hst hpump
    refine ⟨fun f hf => hsame ▸ hf, hfrom, ?_⟩
    rw [State.taken, State.taken, hsame, hfrom]

theorem Reported.step (h : Reported as given s) (hrun : relay.exec .init as = some s)
    (hst : relay.step s a = some s') (hlock : a ≠ .lock) : Reported (as ++ [a]) given s' := by
  have hkept : s'.taken = s.taken → relay.Meets HasAgent .init (as ++ [a]) →
      given.map Prod.snd = s'.taken := by
    intro htaken hmeets
    rw [htaken]
    exact h.kept (relay.meets_snoc hmeets hrun).1
  by_cases hreport : ∃ f, a = .report f
  · obtain ⟨f, rfl⟩ := hreport
    obtain ⟨hp, rfl⟩ := report_eq_some hst
    have htaken : State.taken { s with pump := .locking f, fromHost := s.fromHost ++ [f] } =
        s.taken := by
      rw [taken_eq (s := s) fun g hg => by rw [hp] at hg; cases hg]
      exact List.dropLast_concat
    refine ⟨?_, htaken ▸ h.taken, hkept htaken⟩
    intro g hg
    cases hg
    exact ⟨_, rfl⟩
  · obtain ⟨hpump, hfrom, htaken⟩ := hand_step hst (fun f hf => hreport ⟨f, hf⟩) hlock
    refine ⟨?_, htaken ▸ h.taken, hkept htaken⟩
    intro f hf
    rw [hfrom]
    exact h.inHand f (hpump f hf)

/-- The report goes to the agent, or is dropped if there is none. -/
theorem Reported.lock (h : Reported as given s) (hrun : relay.exec .init as = some s) {f : Frame}
    (hp : s.pump = .locking f) : (∀ c, s.current = some c →
      Reported (as ++ [.lock]) (given ++ [(c, f)]) (s.lock f)) ∧
    (s.current = none → Reported (as ++ [.lock]) given (s.lock f)) := by
  obtain ⟨l, hl⟩ := h.inHand f hp
  have htaken : s.taken = l := by simp [State.taken, hp, hl]
  have hnot : ∀ g, (s.lock f).pump ≠ .locking g := by
    intro g hg
    rw [State.lock] at hg
    split at hg <;> cases hg
  have htaken' : (s.lock f).taken = l ++ [f] := by
    rw [taken_eq hnot, ← hl, State.lock]
    split <;> rfl
  have hsub := h.taken
  rw [htaken] at hsub
  constructor
  · intro c hc
    refine ⟨fun g hg => absurd hg (hnot g), ?_, ?_⟩
    · rw [htaken', List.map_append]
      exact hsub.append_right _
    · intro hmeets
      rw [htaken', List.map_append, h.kept (relay.meets_snoc hmeets hrun).1, htaken]
      rfl
  · intro hc
    refine ⟨fun g hg => absurd hg (hnot g), ?_, ?_⟩
    · rw [htaken']
      exact hsub.trans (List.sublist_append_left _ _)
    · intro hmeets
      exact absurd hc (relay.meets_snoc hmeets hrun).2

end Reports

/-! ## Every step -/

/-- What the relay has read, given and written. -/
structure Returned (as : List Act) (s : State) (given : List (Nat × Frame)) : Prop where
  ordered : Ordered given s
  reported : Reported as given s
  conn : ∀ c, ∃ fs tags, Carried as s given c fs tags

namespace Returned
variable {as : List Act} {s s' : State} {a : Act} {given : List (Nat × Frame)} {d : Nat}

theorem init : Returned [] .init [] where
  ordered := ⟨List.Pairwise.nil, fun c hc => by cases hc⟩
  reported := ⟨(fun f hf => by cases hf), List.Sublist.refl _, fun _ => rfl⟩
  conn c := ⟨[], [], rfl, rfl, List.prefix_refl _, List.prefix_refl _, fun _ => ⟨rfl, rfl⟩⟩

/-- A connection after a step that hands no report over. -/
theorem conn_step (h : ∃ fs tags, Carried as s given d fs tags) (hlock : a ≠ .lock)
    (hst : relay.step s a = some s') : ∃ fs tags, Carried (as ++ [a]) s' given d fs tags := by
  obtain ⟨fs, tags, hd⟩ := h
  have hother : ∀ {c : Nat} (k : Conn), c ≠ d → (s.setConn c k).conns d = s.conns d := by
    intro c k hcd
    rw [State.setConn_conns, if_neg (Ne.symm hcd)]
  have hthis : ∀ k : Conn, (s.setConn d k).conns d = k := by
    intro k
    rw [State.setConn_conns, if_pos rfl]
  cases a with
  | lock => exact absurd rfl hlock
  | connect =>
      cases hst
      exact ⟨fs, tags, hd.still (by simp) (.inl rfl) rfl rfl⟩
  | send c bytes =>
      cases send_eq_some hst
      obtain ⟨hread, hout, hhost, hpong, hwhole⟩ := hd
      by_cases hcd : c = d
      · subst hcd
        refine ⟨fs, tags, ?_, ?_, hhost, hpong, ?_⟩
        · rw [hthis, sentOn_append, ← hread, List.append_assoc]
          simp [sentOn]
        · rw [hthis]
          exact hout
        · rw [hthis]
          exact hwhole
      · refine ⟨fs, tags, ?_, ?_, hhost, hpong, ?_⟩
        · rw [hother _ hcd, sentOn_append, ← hread]
          simp [sentOn, hcd]
        · rw [hother _ hcd]
          exact hout
        · rw [hother _ hcd]
          exact hwhole
  | close c =>
      cases hst
      refine ⟨fs, tags, hd.still (by simp) ?_ rfl rfl⟩
      by_cases hcd : c = d
      · subst hcd
        exact .inr (hthis _)
      · exact .inl (hother _ hcd)
  | accept =>
      obtain ⟨c, rest, hm, -, rfl⟩ := accept_eq_some hst
      exact ⟨fs, tags, hd.still (by simp) (.inl rfl) rfl (by rw [hm]; rfl)⟩
  | setCurrent =>
      obtain ⟨c, hm, -, rfl⟩ := setCurrent_eq_some hst
      exact ⟨fs, tags, hd.still (by simp) (.inl rfl) rfl (by rw [hm]; rfl)⟩
  | readExact =>
      obtain ⟨c, hm, ⟨f, rest, hf, rfl⟩ | ⟨-, -, rfl⟩⟩ := readExact_eq_some hst
      · have howed : Main.owed d (if f.byte 0 = 0x01 then .pong c pong.bytes else .hid c f) =
            if c = d ∧ f.byte 0 = 0x01 then pong.bytes else [] := by
          by_cases hf : f.byte 0 = 0x01
          · simp [hf, Main.owed]
          · simp [hf, Main.owed]
        by_cases hcd : c = d
        · subst hcd
          refine ⟨_, tags, hd.read_frame f rest (readFrame_eq_some hf) (hthis _) rfl ?_ ?_⟩
          · rw [hm]
            rfl
          · rw [howed]
            simp
        · refine ⟨fs, tags, hd.still (by simp) (.inl (hother _ hcd)) rfl ?_⟩
          rw [howed, hm, if_neg fun h => hcd h.1]
          rfl
      · exact ⟨fs, tags, hd.still (by simp) (.inl rfl) rfl (by rw [hm]; rfl)⟩
  | pongPart n =>
      obtain ⟨c, rest, hm, hok, -, -, rfl⟩ := pongPart_eq_some hst
      by_cases hcd : c = d
      · subst hcd
        refine ⟨fs, _, hd.part (by simp) .pong (rest.take n) hok (hthis _) rfl ?_⟩
        rw [owed_afterPong, hm, Main.owed_pong]
        simp
      · refine ⟨fs, tags, hd.still (by simp) (.inl (hother _ hcd)) rfl ?_⟩
        rw [owed_afterPong, hm, Main.owed_pong, if_neg hcd, if_neg hcd]
  | pongFail =>
      obtain ⟨c, rest, hm, -, rfl⟩ := pongFail_eq_some hst
      by_cases hcd : c = d
      · subst hcd
        exact ⟨fs, tags, hd.fail (by simp) (hthis _)⟩
      · refine ⟨fs, tags, hd.still (by simp) (.inl (hother _ hcd)) rfl ?_⟩
        rw [hm, Main.owed_pong, if_neg hcd]
        rfl
  | writeFrame written =>
      obtain ⟨c, f, hm, rfl⟩ := writeFrame_eq_some hst
      exact ⟨fs, tags, hd.still (by simp) (.inl rfl) rfl (by rw [hm]; rfl)⟩
  | clear known =>
      obtain ⟨c, hm, -, rfl⟩ := clear_eq_some hst
      exact ⟨fs, tags, hd.still (by simp) (.inl rfl) rfl (by rw [hm]; rfl)⟩
  | report f =>
      obtain ⟨hp, rfl⟩ := report_eq_some hst
      exact ⟨fs, tags, hd.still (by simp) (.inl rfl) (by rw [hp]; rfl) rfl⟩
  | pumpPart n =>
      obtain ⟨c, rest, hp, hok, -, -, rfl⟩ := pumpPart_eq_some hst
      by_cases hcd : c = d
      · subst hcd
        refine ⟨fs, _, hd.part (by simp) .host (rest.take n) hok (hthis _) ?_ rfl⟩
        rw [owed_afterPart, hp, Pump.owed_writing]
        simp
      · refine ⟨fs, tags, hd.still (by simp) (.inl (hother _ hcd)) ?_ rfl⟩
        rw [owed_afterPart, hp, Pump.owed_writing, if_neg hcd, if_neg hcd]
  | pumpFail =>
      obtain ⟨c, rest, hp, -, rfl⟩ := pumpFail_eq_some hst
      by_cases hcd : c = d
      · subst hcd
        exact ⟨fs, tags, hd.fail (by simp) (hthis _)⟩
      · refine ⟨fs, tags, hd.still (by simp) (.inl (hother _ hcd)) ?_ rfl⟩
        rw [hp, Pump.owed_writing, if_neg hcd]
        rfl

theorem step (h : Returned as s given) (hrun : relay.exec .init as = some s)
    (hst : relay.step s a = some s') : ∃ given', Returned (as ++ [a]) s' given' := by
  by_cases hlock : a = .lock
  · subst hlock
    have hordered := h.ordered.step hst
    obtain ⟨f, hp, rfl⟩ := lock_eq_some hst
    obtain ⟨hgive, hdrop⟩ := h.reported.lock hrun hp
    cases hc : s.current with
    | some c =>
        have heq : s.lock f = { s with pump := .writing c f.bytes } := by
          rw [State.lock]
          split
          next d hd =>
            rw [hc] at hd
            cases hd
            rfl
          next hd =>
            rw [hc] at hd
            cases hd
        have hreported := hgive c hc
        rw [heq] at hordered hreported ⊢
        refine ⟨given ++ [(c, f)], hordered.give hc f, hreported, ?_⟩
        intro d
        obtain ⟨fs, tags, hd⟩ := h.conn d
        exact ⟨fs, tags, hd.give hp⟩
    | none =>
        refine ⟨given, hordered, hdrop hc, ?_⟩
        intro d
        obtain ⟨fs, tags, hd⟩ := h.conn d
        refine ⟨fs, tags, hd.still (by simp) (.inl ?_) ?_ ?_⟩
        · rw [State.lock, hc]
        · rw [State.lock, hc, hp]
          rfl
        · rw [State.lock, hc]
  · exact ⟨given, h.ordered.step hst, h.reported.step hrun hst hlock,
      fun d => conn_step (h.conn d) hlock hst⟩

end Returned

/-- **What the agents are sent.** In every run the reports of the host go to
connections in the order of these, each report to one, and all of them if
there always is an agent.  The bytes on a connection are those of its reports
and those of a PONG for each PING read there, in any mixture, each in order;
and all of them, but for the writes in progress, unless a write failed. -/
theorem returned {as : List Act} {s : State} (h : relay.exec .init as = some s) :
    ∃ given : List (Nat × Frame), (given.map Prod.fst).Pairwise (· ≤ ·) ∧
      (given.map Prod.snd).Sublist s.fromHost ∧
      (relay.Meets HasAgent .init as → given.map Prod.snd = s.taken) ∧
      ∀ c, ∃ (fs : List Frame) (tags : List (Source × UInt8)),
        stream fs ++ (s.conns c).input = sentOn c as ∧ tags.map Prod.snd = (s.conns c).output ∧
        bytesOf .host tags <+: stream (readOn c given) ∧
        bytesOf .pong tags <+: stream (answers fs) ∧
        ((s.conns c).broken = false →
          bytesOf .host tags ++ s.pump.owed c = stream (readOn c given) ∧
            bytesOf .pong tags ++ s.main.owed c = stream (answers fs)) := by
  have hall : ∃ given, Returned as s given := by
    refine relay.exec_induction_of_all (Q := fun _ => True)
      (P := fun as s => ∃ given, Returned as s given) ⟨[], .init⟩ ?_ h fun _ _ => trivial
    rintro as a s s' hrun ⟨given, hgiven⟩ - hst
    exact hgiven.step hrun hst
  obtain ⟨given, hordered, hreported, hconn⟩ := hall
  refine ⟨given, (List.pairwise_append.mp hordered.order).1, ?_, hreported.kept, ?_⟩
  · refine hreported.taken.trans ?_
    rw [State.taken]
    split
    · exact List.dropLast_sublist _
    · exact List.Sublist.refl _
  · intro c
    obtain ⟨fs, tags, hread, hout, hhost, hpong, hwhole⟩ := hconn c
    exact ⟨fs, tags, hread, hout, hhost, hpong, hwhole⟩

/-! A PING is answered in the middle of a report. -/

theorem returned_mixed : ∃ (s : State) (given : List (Nat × Frame)),
    relay.exec .init mixed = some s ∧ given.map Prod.snd = [sevens] ∧
      (given.map Prod.fst).Pairwise (· ≤ ·) := by
  have hrun : (relay.exec .init mixed).map State.taken = some [sevens] := by decide +kernel
  obtain ⟨s, hs, htaken⟩ := Option.map_eq_some_iff.mp hrun
  have hagent : relay.Meets HasAgent .init mixed := by decide +kernel
  obtain ⟨given, horder, -, hkept, -⟩ := returned hs
  exact ⟨s, given, hs, (hkept hagent).trans htaken, horder⟩

end Beaglewing.Relay
