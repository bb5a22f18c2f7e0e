/-
# `Relay.Data` — the relay between the agent's TCP and the HID data node

`beaglewing-data` (`pi/bridge/src/bin/beaglewing-data.rs`): two threads, and
the agents' connections as the kernel holds them.

    main   accepts a connection, makes it `current`, and serves it until its
           stream ends: a PING is answered, any other frame goes to the host
    pump   reads a report from the host and writes it to `current`, if any

`current` is under a mutex.  The pump holds it while it writes; main takes it
to set and to clear `current`, and writes its PONGs without it.  A
`write_all` is as many partial writes as the kernel likes (`pongPart`,
`pumpPart`), with any step of the other thread in between.  The label of a
step says what the kernel and the peers decide; `Own` are the steps that the
two threads take by themselves.
-/
import Beaglewing.Base.Lts
import Beaglewing.Clipframe.Frame

namespace Beaglewing.Relay

open Base Clipframe

/-- One accepted or pending connection: what arrived and was not read, what
was written, whether the peer has closed it or it failed (`eof`), and whether
a write on it has failed. -/
structure Conn where
  input : List UInt8
  output : List UInt8
  eof : Bool
  broken : Bool
deriving DecidableEq

def Conn.opened : Conn := ⟨[], [], false, false⟩

/-- Places of the accept loop. -/
inductive Main where
  | incoming
  | accepted (c : Nat)
  | reading (c : Nat)
  | pong (c : Nat) (rest : List UInt8)
  | hid (c : Nat) (f : Frame)
  | ended (c : Nat)
deriving DecidableEq

/-- Places of the host pump; `writing` holds the mutex. -/
inductive Pump where
  | reading
  | locking (f : Frame)
  | writing (c : Nat) (rest : List UInt8)
deriving DecidableEq

/-- A connection is known by the number it arrived as.  `toHost` are the frames
written to the HID node, `fromHost` the reports read from it. -/
structure State where
  conns : Nat → Conn
  arrived : Nat
  backlog : List Nat
  main : Main
  pump : Pump
  current : Option Nat
  toHost : List Frame
  fromHost : List Frame

def State.init : State where
  conns _ := .opened
  arrived := 0
  backlog := []
  main := .incoming
  pump := .reading
  current := none
  toHost := []
  fromHost := []

inductive Act where
  -- the agents
  | connect
  | send (c : Nat) (bytes : List UInt8)
  | close (c : Nat)
  -- the accept loop
  | accept
  | setCurrent
  | readExact
  | pongPart (n : Nat)
  | pongFail
  | writeFrame (written : Bool)
  | clear (known : Bool)
  -- the pump
  | report (f : Frame)
  | lock
  | pumpPart (n : Nat)
  | pumpFail
deriving DecidableEq

/-- The steps the threads of the relay take without a peer or the host. -/
def Own : Act → Prop
  | .connect | .send _ _ | .close _ | .report _ => False
  | _ => True

/-- `let mut pong = [0u8; FRAME]; pong[0] = 0x02`. -/
def pong : Frame where
  bytes := 0x02 :: List.replicate (frameLen - 1) 0
  size := by rw [List.length_cons, List.length_replicate]; rfl

/-- `read_exact` of one frame, if it has arrived. -/
def readFrame (input : List UInt8) : Option (Frame × List UInt8) :=
  if h : frameLen ≤ input.length then
    some (⟨input.take frameLen, List.length_take_of_le h⟩, input.drop frameLen)
  else none

namespace State

def setConn (s : State) (c : Nat) (k : Conn) : State :=
  { s with conns := Function.update s.conns c k }

/-- A partial write: the first `n` bytes, at least one. -/
def part (s : State) (c : Nat) (rest : List UInt8) (n : Nat) : Option State :=
  if (s.conns c).broken = false ∧ 0 < n ∧ n ≤ rest.length then
    some (s.setConn c { s.conns c with output := (s.conns c).output ++ rest.take n })
  else none

/-- A write fails on a connection that was closed or that failed before. -/
def fail (s : State) (c : Nat) : Option State :=
  if (s.conns c).eof = true ∨ (s.conns c).broken = true then
    some (s.setConn c { s.conns c with broken := true })
  else none

/-- The mutex on `current` is free. -/
def Unlocked (s : State) : Prop := ∀ c rest, s.pump ≠ .writing c rest

instance (s : State) : Decidable s.Unlocked :=
  match h : s.pump with
  | .reading => isTrue fun _ _ hp => by rw [h] at hp; cases hp
  | .locking f => isTrue fun _ _ hp => by rw [h] at hp; cases hp
  | .writing c rest => isFalse fun hu => hu c rest h

/-! ## The accept loop -/

/-- `match stream.read_exact(&mut buf)`. -/
def readExact (s : State) (c : Nat) : Option State :=
  match readFrame (s.conns c).input with
  | some (f, rest) =>
      let s := s.setConn c { s.conns c with input := rest }
      if f.byte 0 = 0x01 then some { s with main := .pong c pong.bytes }
      else some { s with main := .hid c f }
  | none => if (s.conns c).eof then some { s with main := .ended c } else none

/-- The end of `stream.write_all(&pong)`, and `continue`. -/
def afterPong (s : State) (c : Nat) (rest : List UInt8) : State :=
  { s with main := if rest = [] then .reading c else .pong c rest }

/-- After the loop: `current` is cleared if it is this peer's, as far as the
kernel can still tell its address. -/
def clear (s : State) (c : Nat) (known : Bool) : State :=
  { s with
    main := .incoming
    current := if known ∧ s.current = some c then none else s.current }

/-! ## The host pump -/

/-- `let mut guard = current.lock().unwrap()`, with a report in hand. -/
def lock (s : State) (f : Frame) : State :=
  match s.current with
  | some c => { s with pump := .writing c f.bytes }
  | none => { s with pump := .reading }

/-- The end of `stream.write_all(&buf)`. -/
def afterPart (s : State) (c : Nat) (rest : List UInt8) : State :=
  { s with pump := if rest = [] then .reading else .writing c rest }

end State

def relay : Lts State Act where
  step s
    | .connect =>
        some { s with arrived := s.arrived + 1, backlog := s.backlog ++ [s.arrived] }
    | .send c bytes =>
        if (s.conns c).eof then none
        else some (s.setConn c { s.conns c with input := (s.conns c).input ++ bytes })
    | .close c => some (s.setConn c { s.conns c with eof := true })
    | .accept =>
        match s.main, s.backlog with
        | .incoming, c :: rest => some { s with main := .accepted c, backlog := rest }
        | _, _ => none
    | .setCurrent =>
        match s.main with
        | .accepted c =>
            if s.Unlocked then some { s with main := .reading c, current := some c } else none
        | _ => none
    | .readExact =>
        match s.main with
        | .reading c => s.readExact c
        | _ => none
    | .pongPart n =>
        match s.main with
        | .pong c rest => (s.part c rest n).map fun s => s.afterPong c (rest.drop n)
        | _ => none
    | .pongFail =>
        match s.main with
        | .pong c _ => (s.fail c).map fun s => { s with main := .ended c }
        | _ => none
    | .writeFrame written =>
        match s.main with
        | .hid c f =>
            some { s with
              main := .reading c
              toHost := if written then s.toHost ++ [f] else s.toHost }
        | _ => none
    | .clear known =>
        match s.main with
        | .ended c => if s.Unlocked then some (s.clear c known) else none
        | _ => none
    | .report f =>
        match s.pump with
        | .reading => some { s with pump := .locking f, fromHost := s.fromHost ++ [f] }
        | _ => none
    | .lock =>
        match s.pump with
        | .locking f => some (s.lock f)
        | _ => none
    | .pumpPart n =>
        match s.pump with
        | .writing c rest => (s.part c rest n).map fun s => s.afterPart c (rest.drop n)
        | _ => none
    | .pumpFail =>
        match s.pump with
        | .writing c _ => (s.fail c).map fun s => { s with pump := .reading, current := none }
        | _ => none

/-! ## Reading the steps -/

section Steps
variable {s s' : State} {c : Nat}

theorem State.setConn_conns (s : State) (c d : Nat) (k : Conn) :
    (s.setConn c k).conns d = if d = c then k else s.conns d :=
  Function.update_apply _ _ _ _

/-- What a connection keeps, all keep. -/
theorem State.setConn_keeps {α : Type} (s : State) (c : Nat) (g : Conn → α) {k : Conn}
    (hk : g k = g (s.conns c)) (d : Nat) : g ((s.setConn c k).conns d) = g (s.conns d) := by
  rw [State.setConn_conns]
  split
  next hd => rw [hk, hd]
  next => rfl

theorem part_eq_some {rest : List UInt8} {n : Nat} (h : s.part c rest n = some s') :
    s' = s.setConn c { s.conns c with output := (s.conns c).output ++ rest.take n } ∧
      (s.conns c).broken = false ∧ 0 < n ∧ n ≤ rest.length := by
  unfold State.part at h
  split at h
  next hn =>
    cases h
    exact ⟨rfl, hn⟩
  next => cases h

theorem fail_eq_some (h : s.fail c = some s') :
    s' = s.setConn c { s.conns c with broken := true } ∧
      ((s.conns c).eof = true ∨ (s.conns c).broken = true) := by
  unfold State.fail at h
  split at h
  next hc =>
    cases h
    exact ⟨rfl, hc⟩
  next => cases h

theorem send_eq_some {bytes : List UInt8} (h : relay.step s (.send c bytes) = some s') :
    s' = s.setConn c { s.conns c with input := (s.conns c).input ++ bytes } := by
  simp only [relay] at h
  split at h <;> cases h
  rfl

theorem accept_eq_some (h : relay.step s .accept = some s') :
    ∃ c rest, s.main = .incoming ∧ s.backlog = c :: rest ∧
      s' = { s with main := .accepted c, backlog := rest } := by
  simp only [relay] at h
  split at h
  next c rest hm hb =>
    cases h
    exact ⟨c, rest, hm, hb, rfl⟩
  next => cases h

theorem setCurrent_eq_some (h : relay.step s .setCurrent = some s') :
    ∃ c, s.main = .accepted c ∧ s.Unlocked ∧
      s' = { s with main := .reading c, current := some c } := by
  simp only [relay] at h
  split at h
  next c hm =>
    split at h
    next hu =>
      cases h
      exact ⟨c, hm, hu, rfl⟩
    next => cases h
  next => cases h

/-- `read_exact` takes a frame that has arrived, or fails at the end of the
stream. -/
theorem readExact_eq_some (h : relay.step s .readExact = some s') :
    ∃ c, s.main = .reading c ∧
      ((∃ f rest, readFrame (s.conns c).input = some (f, rest) ∧
        s' = { s.setConn c { s.conns c with input := rest } with
          main := if f.byte 0 = 0x01 then .pong c pong.bytes else .hid c f }) ∨
      ((s.conns c).eof = true ∧ readFrame (s.conns c).input = none ∧
        s' = { s with main := .ended c })) := by
  simp only [relay] at h
  split at h
  next c hm =>
    refine ⟨c, hm, ?_⟩
    unfold State.readExact at h
    split at h
    next f rest hf =>
      refine Or.inl ⟨f, rest, hf, ?_⟩
      simp only at h
      split at h
      next hp =>
        cases h
        rw [if_pos hp]
      next hp =>
        cases h
        rw [if_neg hp]
    next hf =>
      split at h
      next he =>
        cases h
        exact Or.inr ⟨he, hf, rfl⟩
      next => cases h
  next => cases h

theorem pongPart_eq_some {n : Nat} (h : relay.step s (.pongPart n) = some s') :
    ∃ c rest, s.main = .pong c rest ∧ (s.conns c).broken = false ∧ 0 < n ∧ n ≤ rest.length ∧
      s' = (s.setConn c { s.conns c with output := (s.conns c).output ++ rest.take n }).afterPong
        c (rest.drop n) := by
  simp only [relay] at h
  split at h
  next c rest hm =>
    obtain ⟨s₁, h₁, rfl⟩ := Option.map_eq_some_iff.mp h
    obtain ⟨rfl, hb, hn, hle⟩ := part_eq_some h₁
    exact ⟨c, rest, hm, hb, hn, hle, rfl⟩
  next => cases h

theorem pongFail_eq_some (h : relay.step s .pongFail = some s') :
    ∃ c rest, s.main = .pong c rest ∧ ((s.conns c).eof = true ∨ (s.conns c).broken = true) ∧
      s' = { s.setConn c { s.conns c with broken := true } with main := .ended c } := by
  simp only [relay] at h
  split at h
  next c rest hm =>
    obtain ⟨s₁, h₁, rfl⟩ := Option.map_eq_some_iff.mp h
    obtain ⟨rfl, hc⟩ := fail_eq_some h₁
    exact ⟨c, rest, hm, hc, rfl⟩
  next => cases h

theorem writeFrame_eq_some {written : Bool}
    (h : relay.step s (.writeFrame written) = some s') :
    ∃ c f, s.main = .hid c f ∧
      s' = { s with
        main := .reading c
        toHost := if written then s.toHost ++ [f] else s.toHost } := by
  simp only [relay] at h
  split at h
  next c f hm =>
    cases h
    exact ⟨c, f, hm, rfl⟩
  next => cases h

theorem clear_eq_some {known : Bool} (h : relay.step s (.clear known) = some s') :
    ∃ c, s.main = .ended c ∧ s.Unlocked ∧ s' = s.clear c known := by
  simp only [relay] at h
  split at h
  next c hm =>
    split at h
    next hu =>
      cases h
      exact ⟨c, hm, hu, rfl⟩
    next => cases h
  next => cases h

theorem report_eq_some {f : Frame} (h : relay.step s (.report f) = some s') :
    s.pump = .reading ∧ s' = { s with pump := .locking f, fromHost := s.fromHost ++ [f] } := by
  simp only [relay] at h
  split at h
  next hp =>
    cases h
    exact ⟨hp, rfl⟩
  next => cases h

theorem lock_eq_some (h : relay.step s .lock = some s') :
    ∃ f, s.pump = .locking f ∧ s' = s.lock f := by
  simp only [relay] at h
  split at h
  next f hp =>
    cases h
    exact ⟨f, hp, rfl⟩
  next => cases h

theorem pumpPart_eq_some {n : Nat} (h : relay.step s (.pumpPart n) = some s') :
    ∃ c rest, s.pump = .writing c rest ∧ (s.conns c).broken = false ∧ 0 < n ∧ n ≤ rest.length ∧
      s' = (s.setConn c { s.conns c with output := (s.conns c).output ++ rest.take n }).afterPart
        c (rest.drop n) := by
  simp only [relay] at h
  split at h
  next c rest hp =>
    obtain ⟨s₁, h₁, rfl⟩ := Option.map_eq_some_iff.mp h
    obtain ⟨rfl, hb, hn, hle⟩ := part_eq_some h₁
    exact ⟨c, rest, hp, hb, hn, hle, rfl⟩
  next => cases h

theorem pumpFail_eq_some (h : relay.step s .pumpFail = some s') :
    ∃ c rest, s.pump = .writing c rest ∧ ((s.conns c).eof = true ∨ (s.conns c).broken = true) ∧
      s' = { s.setConn c { s.conns c with broken := true } with
        pump := .reading
        current := none } := by
  simp only [relay] at h
  split at h
  next c rest hp =>
    obtain ⟨s₁, h₁, rfl⟩ := Option.map_eq_some_iff.mp h
    obtain ⟨rfl, hc⟩ := fail_eq_some h₁
    exact ⟨c, rest, hp, hc, rfl⟩
  next => cases h

end Steps

/-- The steps of the pump. -/
def OfPump : Act → Prop
  | .report _ | .lock | .pumpPart _ | .pumpFail => True
  | _ => False

/-- No other step moves the pump. -/
theorem pump_step {s s' : State} {a : Act} (h : relay.step s a = some s') (ha : ¬ OfPump a) :
    s'.pump = s.pump ∧ s'.fromHost = s.fromHost := by
  cases a with
  | connect | close =>
      cases h
      exact ⟨rfl, rfl⟩
  | send c bytes =>
      rw [send_eq_some h]
      exact ⟨rfl, rfl⟩
  | accept =>
      obtain ⟨c, rest, -, -, rfl⟩ := accept_eq_some h
      exact ⟨rfl, rfl⟩
  | setCurrent =>
      obtain ⟨c, -, -, rfl⟩ := setCurrent_eq_some h
      exact ⟨rfl, rfl⟩
  | readExact =>
      obtain ⟨c, -, ⟨f, rest, -, rfl⟩ | ⟨-, -, rfl⟩⟩ := readExact_eq_some h
      · exact ⟨rfl, rfl⟩
      · exact ⟨rfl, rfl⟩
  | pongPart n =>
      obtain ⟨c, rest, -, -, -, -, rfl⟩ := pongPart_eq_some h
      exact ⟨rfl, rfl⟩
  | pongFail =>
      obtain ⟨c, rest, -, -, rfl⟩ := pongFail_eq_some h
      exact ⟨rfl, rfl⟩
  | writeFrame written =>
      obtain ⟨c, f, -, rfl⟩ := writeFrame_eq_some h
      exact ⟨rfl, rfl⟩
  | clear known =>
      obtain ⟨c, -, -, rfl⟩ := clear_eq_some h
      exact ⟨rfl, rfl⟩
  | report | lock | pumpPart | pumpFail => exact absurd trivial ha

end Beaglewing.Relay
