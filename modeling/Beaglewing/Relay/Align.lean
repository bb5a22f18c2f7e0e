/-
# `Relay.Align` — the frames an agent reads from the relay

An agent reads 1024 bytes at a time, so what it reads are frames only if the
relay writes whole frames.  Both threads write to the agent's connection, and
the mutex the pump holds is not taken for a PONG: a PONG can get between two
parts of a report, and every later frame is cut in the wrong place
(`pong_inside_report`).

A write has begun when its first byte is written.  If none begins on a
connection where a frame of the other thread is begun and not finished
(`Exclusive`), the connection carries whole frames, PONGs and reports in the
order the host sent them (`aligned`).

| the other thread | and so the write may begin |
| :-- | :-- |
| has taken the mutex, or read the PING, and written nothing yet | yes |
| has written a part of its frame, and not the rest | no |
| has written all of it, or failed | yes |

## What it is not

* It does not say that every PING is answered or every report written: a write
  that fails on a closed connection leaves a part of a frame behind, and nothing
  comes after it there.
* Nothing is said of two agents' streams together; what one connection gets and
  another does not is in `Relay.Return`.
-/
import Beaglewing.Base.Blocks
import Beaglewing.Relay.Data

namespace Beaglewing.Relay

open Base Clipframe

inductive Source where
  | pong
  | host
deriving DecidableEq

/-- The reports among some frames. -/
def hosts (fs : List (Source × Frame)) : List Frame :=
  (fs.filter fun x => x.1 = .host).map Prod.snd

/-- What the accept loop has yet to write on a connection. -/
def Main.owed (c : Nat) : Main → List UInt8
  | .pong d rest => if d = c then rest else []
  | _ => []

/-- What the pump has yet to write on it. -/
def Pump.owed (c : Nat) : Pump → List UInt8
  | .writing d rest => if d = c then rest else []
  | _ => []

/-- What is left of a frame of which a part is written; nothing, if none is. -/
def begun (rest : List UInt8) : List UInt8 := if rest.length < frameLen then rest else []

/-- The stream of a connection is whole frames, PONGs or reports in the order
of the host, but for a frame begun and not finished, or a write that failed. -/
def Aligned (s : State) (c : Nat) : Prop :=
  ∃ fs : List (Source × Frame), (∀ x ∈ fs, x.1 = .pong → x.2 = pong) ∧
    (hosts fs).Sublist s.fromHost ∧
    (s.conns c).output <+: (fs.map fun x => x.2.bytes).flatten ∧
    (begun (s.main.owed c) = [] → begun (s.pump.owed c) = [] → (s.conns c).broken = false →
      (s.conns c).output = (fs.map fun x => x.2.bytes).flatten)

/-- No frame is begun on a connection where one of the other thread is begun and
not finished. -/
def Exclusive (s : State) : Act → Prop
  | .pongPart _ =>
      match s.main with
      | .pong c rest => rest.length = frameLen → begun (s.pump.owed c) = []
      | _ => True
  | .pumpPart _ =>
      match s.pump with
      | .writing c rest => rest.length = frameLen → begun (s.main.owed c) = []
      | _ => True
  | _ => True

instance decExclusive : ∀ (s : State) (a : Act), Decidable (Exclusive s a)
  | ⟨_, _, _, .pong _ _, _, _, _, _⟩, .pongPart _ => inferInstanceAs (Decidable (_ → _))
  | ⟨_, _, _, .incoming, _, _, _, _⟩, .pongPart _ => isTrue trivial
  | ⟨_, _, _, .accepted _, _, _, _, _⟩, .pongPart _ => isTrue trivial
  | ⟨_, _, _, .reading _, _, _, _, _⟩, .pongPart _ => isTrue trivial
  | ⟨_, _, _, .hid _ _, _, _, _, _⟩, .pongPart _ => isTrue trivial
  | ⟨_, _, _, .ended _, _, _, _, _⟩, .pongPart _ => isTrue trivial
  | ⟨_, _, _, _, .writing _ _, _, _, _⟩, .pumpPart _ => inferInstanceAs (Decidable (_ → _))
  | ⟨_, _, _, _, .reading, _, _, _⟩, .pumpPart _ => isTrue trivial
  | ⟨_, _, _, _, .locking _, _, _, _⟩, .pumpPart _ => isTrue trivial
  | _, .connect | _, .send _ _ | _, .close _ | _, .accept | _, .setCurrent | _, .readExact
  | _, .pongFail | _, .writeFrame _ | _, .clear _ | _, .report _ | _, .lock | _, .pumpFail =>
      isTrue trivial

/-! ## What is begun -/

theorem begun_nil : begun [] = [] := by
  unfold begun
  split <;> rfl

theorem begun_full {rest : List UInt8} (h : rest.length = frameLen) : begun rest = [] :=
  if_neg (by omega)

theorem begun_part {rest : List UInt8} (h : rest.length < frameLen) : begun rest = rest := if_pos h

/-- After a part is written, what is left is left of a frame begun. -/
theorem begun_drop {rest : List UInt8} {n : Nat} (hle : rest.length ≤ frameLen) (hn : 0 < n)
    (hpos : n ≤ rest.length) : begun (rest.drop n) = rest.drop n := by
  refine begun_part ?_
  rw [List.length_drop]
  omega

/-! ## The invariant -/

/-- The reports of which the pump has written something, or which it dropped. -/
def State.started (s : State) : List Frame :=
  match s.pump with
  | .reading => s.fromHost
  | .locking _ => s.fromHost.dropLast
  | .writing _ rest => if rest.length < frameLen then s.fromHost else s.fromHost.dropLast

theorem started_sublist (s : State) : s.started.Sublist s.fromHost := by
  unfold State.started
  split
  · exact List.Sublist.refl _
  · exact List.dropLast_sublist _
  · split
    · exact List.Sublist.refl _
    · exact List.dropLast_sublist _

structure Streams (s : State) (c : Nat) (fs : List (Source × Frame)) : Prop where
  pongs : ∀ x ∈ fs, x.1 = .pong → x.2 = pong
  hosts : (hosts fs).Sublist s.started
  one : begun (s.main.owed c) = [] ∨ begun (s.pump.owed c) = []
  account : Blocks.Account (s.conns c).output (begun (s.main.owed c) ++ begun (s.pump.owed c))
    (s.conns c).broken (fs.map fun x => x.2.bytes)

/-- A frame of which nothing is written is the PONG, or the report read last. -/
structure Writes (s : State) : Prop where
  ponging : ∀ c rest, s.main = .pong c rest → rest = pong.bytes ∨ rest.length < frameLen
  inHand : ∀ f, s.pump = .locking f → ∃ l, s.fromHost = l ++ [f]
  writing : ∀ c rest, s.pump = .writing c rest →
    rest.length < frameLen ∨ ∃ f l, s.fromHost = l ++ [f] ∧ rest = f.bytes
  streams : ∀ c, ∃ fs, Streams s c fs

/-- A step that writes nothing on the connection. -/
theorem Streams.quiet {s s' : State} {c : Nat} {fs : List (Source × Frame)} (h : Streams s c fs)
    (hout : (s'.conns c).output = (s.conns c).output)
    (hbroken : (s'.conns c).broken = (s.conns c).broken)
    (hmain : begun (s'.main.owed c) = begun (s.main.owed c))
    (hpump : begun (s'.pump.owed c) = begun (s.pump.owed c))
    (hstarted : s.started.Sublist s'.started) : Streams s' c fs where
  pongs := h.pongs
  hosts := h.hosts.trans hstarted
  one := by
    rw [hmain, hpump]
    exact h.one
  account := by
    rw [hout, hbroken, hmain, hpump]
    exact h.account

/-- A part of a frame begun before. -/
theorem Streams.part {s s' : State} {c n : Nat} {rest : List UInt8} {fs : List (Source × Frame)}
    (h : Streams s c fs) (howed : begun (s.main.owed c) ++ begun (s.pump.owed c) = rest)
    (hok : (s.conns c).broken = false) (hok' : (s'.conns c).broken = false)
    (hout : (s'.conns c).output = (s.conns c).output ++ rest.take n)
    (howed' : begun (s'.main.owed c) ++ begun (s'.pump.owed c) = rest.drop n)
    (hone : begun (s'.main.owed c) = [] ∨ begun (s'.pump.owed c) = [])
    (hstarted : s.started.Sublist s'.started) : Streams s' c fs := by
  refine ⟨h.pongs, h.hosts.trans hstarted, hone, ?_⟩
  have hacc := h.account
  rw [howed, hok, ← List.take_append_drop n rest] at hacc
  rw [hout, howed', hok']
  exact hacc.part

/-- The first part of a frame, where none is begun. -/
theorem Streams.first {s s' : State} {c n : Nat} {fs : List (Source × Frame)} {x : Source × Frame}
    (h : Streams s c fs) (hmain : begun (s.main.owed c) = []) (hpump : begun (s.pump.owed c) = [])
    (hok : (s.conns c).broken = false) (hok' : (s'.conns c).broken = false)
    (hout : (s'.conns c).output = (s.conns c).output ++ x.2.bytes.take n)
    (howed : begun (s'.main.owed c) ++ begun (s'.pump.owed c) = x.2.bytes.drop n)
    (hone : begun (s'.main.owed c) = [] ∨ begun (s'.pump.owed c) = [])
    (hx : x.1 = .pong → x.2 = pong)
    (hhosts : (Relay.hosts (fs ++ [x])).Sublist s'.started) : Streams s' c (fs ++ [x]) := by
  refine ⟨?_, hhosts, hone, ?_⟩
  · intro y hy
    rcases List.mem_append.mp hy with hy | hy
    · exact h.pongs y hy
    · rw [List.mem_singleton.mp hy]
      exact hx
  · have hacc := h.account
    rw [hmain, hpump, hok] at hacc
    have hnext := hacc.next x.2.bytes
    rw [← List.take_append_drop n x.2.bytes] at hnext
    have hpart := hnext.part
    rw [List.take_append_drop] at hpart
    rw [hout, hok', howed, List.map_append]
    exact hpart

/-- A write that fails, or one on a connection where a write failed. -/
theorem Streams.fail {s s' : State} {c : Nat} {fs : List (Source × Frame)} (h : Streams s c fs)
    (hout : (s'.conns c).output = (s.conns c).output) (hbroken : (s'.conns c).broken = true)
    (hone : begun (s'.main.owed c) = [] ∨ begun (s'.pump.owed c) = [])
    (hstarted : s.started.Sublist s'.started) : Streams s' c fs := by
  refine ⟨h.pongs, h.hosts.trans hstarted, hone, ?_⟩
  rw [hout, hbroken]
  exact h.account.fail _

/-- A write in progress has bytes left for its connection only. -/
theorem Main.owed_pong (c d : Nat) (rest : List UInt8) :
    Main.owed d (.pong c rest) = if c = d then rest else [] := rfl

theorem Pump.owed_writing (c d : Nat) (rest : List UInt8) :
    Pump.owed d (.writing c rest) = if c = d then rest else [] := rfl

theorem owed_afterPong (s : State) (c d : Nat) (rest : List UInt8) :
    (s.afterPong c rest).main.owed d = if c = d then rest else [] := by
  simp only [State.afterPong]
  split
  next h => simp [Main.owed, h]
  next => rfl

theorem owed_afterPart (s : State) (c d : Nat) (rest : List UInt8) :
    (s.afterPart c rest).pump.owed d = if c = d then rest else [] := by
  simp only [State.afterPart]
  split
  next h => simp [Pump.owed, h]
  next => rfl

/-- What a part that is written does to the connections. -/
theorem setConn_output (s : State) (c d : Nat) (out : List UInt8) :
    (s.setConn c { s.conns c with output := out }).conns d =
      if c = d then { s.conns d with output := out } else s.conns d := by
  rw [State.setConn_conns]
  by_cases h : c = d
  · subst h
    simp
  · rw [if_neg (Ne.symm h), if_neg h]

/-! ## The accept loop -/

section MainSteps
variable {s s' : State}

/-- A step that is not the pump's, connection by connection. -/
theorem Writes.ofMain {a : Act} (h : Writes s) (hs : relay.step s a = some s') (ha : ¬ OfPump a)
    (hpong : ∀ c rest, s'.main = .pong c rest → rest = pong.bytes ∨ rest.length < frameLen)
    (hstep : s'.pump = s.pump → s'.started = s.started →
      ∀ c fs, Streams s c fs → ∃ fs', Streams s' c fs') : Writes s' := by
  obtain ⟨hpump, hhost⟩ := pump_step hs ha
  have hstarted : s'.started = s.started := by
    simp only [State.started, hpump, hhost]
  refine ⟨hpong, ?_, ?_, ?_⟩
  · intro f hf
    rw [hhost]
    exact h.inHand f (hpump ▸ hf)
  · intro c rest hwriting
    rw [hhost]
    exact h.writing c rest (hpump ▸ hwriting)
  · intro c
    obtain ⟨fs, hfs⟩ := h.streams c
    exact hstep hpump hstarted c fs hfs

/-- The steps that write nothing, and begin no PONG. -/
theorem Writes.quiet {a : Act} (h : Writes s) (hs : relay.step s a = some s') (ha : ¬ OfPump a)
    (hout : ∀ c, (s'.conns c).output = (s.conns c).output)
    (hbroken : ∀ c, (s'.conns c).broken = (s.conns c).broken)
    (hmain : s'.main = s.main ∨ (∀ c, s.main.owed c = []) ∧ ∀ c rest, s'.main ≠ .pong c rest) :
    Writes s' := by
  have howed : ∀ c, s'.main.owed c = s.main.owed c := by
    intro c
    rcases hmain with hmain | ⟨hidle, hno⟩
    · rw [hmain]
    · rw [hidle]
      cases hm : s'.main with
      | pong d rest => exact absurd hm (hno d rest)
      | _ => rfl
  refine h.ofMain hs ha ?_ ?_
  · intro c rest hm
    rcases hmain with hmain | ⟨-, hno⟩
    · exact h.ponging c rest (hmain ▸ hm)
    · exact absurd hm (hno c rest)
  · intro hpump hstarted c fs hfs
    exact ⟨fs, hfs.quiet (hout c) (hbroken c) (by rw [howed]) (by rw [hpump]) (by rw [hstarted])⟩

theorem Writes.pongPart {n : Nat} (h : Writes s) (hs : relay.step s (.pongPart n) = some s')
    (hex : Exclusive s (.pongPart n)) : Writes s' := by
  obtain ⟨c, rest, hm, hb, hn, hle, hs'⟩ := pongPart_eq_some hs
  have hkind := h.ponging c rest hm
  have hlen : rest.length ≤ frameLen := by
    rcases hkind with rfl | hlt
    · exact Nat.le_of_eq pong.size
    · omega
  have hconn : ∀ d, s'.conns d = if c = d then
      { s.conns d with output := (s.conns c).output ++ rest.take n } else s.conns d := by
    intro d
    rw [hs']
    exact setConn_output s c d _
  have howed' : ∀ d, s'.main.owed d = if c = d then rest.drop n else [] := by
    intro d
    rw [hs', owed_afterPong]
  refine h.ofMain hs (fun h => h) ?_ ?_
  · intro d rest' hm'
    right
    have howed := howed' d
    rw [hm', Main.owed_pong, if_pos rfl] at howed
    split at howed
    · rw [howed, List.length_drop]
      omega
    · rw [howed, List.length_nil]
      decide
  intro hpump hstarted d fs hfs
  have howed : s.main.owed d = if c = d then rest else [] := by rw [hm, Main.owed_pong]
  by_cases hd : c = d
  · subst hd
    rw [if_pos rfl] at howed
    have hleft : begun (s'.main.owed c) = rest.drop n := by
      rw [howed', if_pos rfl, begun_drop hlen hn hle]
    have hhere := hconn c
    rw [if_pos rfl] at hhere
    rcases hkind with rfl | hlt
    · -- the PONG is begun
      simp only [Exclusive, hm] at hex
      have hidle := hex pong.size
      refine ⟨fs ++ [(.pong, pong)], hfs.first (by rw [howed, begun_full pong.size]) hidle hb
        (by rw [hhere]; exact hb) (by rw [hhere]) ?_ (Or.inr (hpump ▸ hidle)) (fun _ => rfl) ?_⟩
      · rw [hleft, hpump, hidle, List.append_nil]
      · rw [hstarted]
        simpa [Relay.hosts] using hfs.hosts
    · have hidle : begun (s.pump.owed c) = [] := by
        refine hfs.one.resolve_left ?_
        rw [howed, begun_part hlt]
        exact List.ne_nil_of_length_pos (by omega)
      refine ⟨fs, hfs.part (by rw [howed, begun_part hlt, hidle, List.append_nil]) hb
        (by rw [hhere]; exact hb) (by rw [hhere]) ?_ (Or.inr (hpump ▸ hidle)) (by rw [hstarted])⟩
      rw [hleft, hpump, hidle, List.append_nil]
  · have hhere := hconn d
    rw [if_neg hd] at hhere howed
    refine ⟨fs, hfs.quiet (by rw [hhere]) (by rw [hhere]) ?_ (by rw [hpump]) (by rw [hstarted])⟩
    rw [howed', if_neg hd, howed]

theorem Writes.pongFail (h : Writes s) (hs : relay.step s .pongFail = some s') : Writes s' := by
  obtain ⟨c, rest, hm, -, rfl⟩ := pongFail_eq_some hs
  refine h.ofMain hs (fun h => h) (fun _ _ hm' => by cases hm') ?_
  intro hpump hstarted d fs hfs
  refine ⟨fs, ?_⟩
  by_cases hd : c = d
  · subst hd
    exact hfs.fail (by simp [State.setConn_conns]) (by simp [State.setConn_conns])
      (Or.inl begun_nil) (by rw [hstarted])
  · refine hfs.quiet ?_ ?_ ?_ (by rw [hpump]) (by rw [hstarted])
    · simp [State.setConn_conns, Ne.symm hd]
    · simp [State.setConn_conns, Ne.symm hd]
    · rw [hm, Main.owed_pong, if_neg hd]
      rfl

/-- A frame is read; of the PONG for a PING nothing is written yet. -/
theorem Writes.readExact (h : Writes s) (hs : relay.step s .readExact = some s') : Writes s' := by
  obtain ⟨c, hm, hread⟩ := readExact_eq_some hs
  rcases hread with ⟨f, rest, hf, rfl⟩ | ⟨-, -, rfl⟩
  · refine h.ofMain hs (fun h => h) ?_ ?_
    · intro d rest' hm'
      dsimp only at hm'
      split at hm'
      · cases hm'
        exact Or.inl rfl
      · cases hm'
    · intro hpump hstarted d fs hfs
      refine ⟨fs, hfs.quiet (s.setConn_keeps c Conn.output (by rfl) d)
        (s.setConn_keeps c Conn.broken (by rfl) d) ?_ (by rw [hpump]) (by rw [hstarted])⟩
      · have howed : s.main.owed d = [] := by rw [hm]; rfl
        rw [howed, begun_nil]
        dsimp only
        split
        · rw [Main.owed_pong]
          split
          · exact begun_full pong.size
          · exact begun_nil
        · exact begun_nil
  · exact h.quiet hs (fun h => h) (fun _ => rfl) (fun _ => rfl)
      (Or.inr ⟨fun d => by rw [hm]; rfl, fun _ _ hm' => by cases hm'⟩)

end MainSteps

/-! ## The pump -/

section PumpSteps
variable {s s' : State}

/-- The report in hand is the last one read. -/
theorem Writes.report {f : Frame} (h : Writes s) (hs : relay.step s (.report f) = some s') :
    Writes s' := by
  obtain ⟨hp, rfl⟩ := report_eq_some hs
  refine ⟨h.ponging, ?_, (fun _ _ hw => by cases hw), ?_⟩
  · intro g hg
    cases hg
    exact ⟨s.fromHost, rfl⟩
  · intro c
    obtain ⟨fs, hfs⟩ := h.streams c
    refine ⟨fs, hfs.quiet rfl rfl rfl (by rw [hp]; rfl) ?_⟩
    simp [State.started, hp]

/-- The mutex is taken, and nothing is written yet; or the report is dropped. -/
theorem Writes.lock (h : Writes s) (hs : relay.step s .lock = some s') : Writes s' := by
  obtain ⟨f, hp, rfl⟩ := lock_eq_some hs
  obtain ⟨l, hl⟩ := h.inHand f hp
  have hstarted : s.started = l := by simp [State.started, hp, hl]
  have hidle : ∀ c, s.pump.owed c = [] := fun c => by rw [hp]; rfl
  cases hcur : s.current with
  | none =>
      have hs' : s.lock f = { s with pump := .reading } := by simp [State.lock, hcur]
      rw [hs']
      refine ⟨h.ponging, (fun g hg => by cases hg), (fun _ _ hw => by cases hw), ?_⟩
      intro c
      obtain ⟨fs, hfs⟩ := h.streams c
      refine ⟨fs, hfs.quiet rfl rfl rfl (by rw [hidle]; rfl) ?_⟩
      show s.started.Sublist s.fromHost
      rw [hstarted, hl]
      exact List.sublist_append_left l [f]
  | some d =>
      have hs' : s.lock f = { s with pump := .writing d f.bytes } := by simp [State.lock, hcur]
      rw [hs']
      refine ⟨h.ponging, (fun g hg => by cases hg), ?_, ?_⟩
      · intro c rest hw
        cases hw
        exact Or.inr ⟨f, l, hl, rfl⟩
      · intro c
        obtain ⟨fs, hfs⟩ := h.streams c
        refine ⟨fs, hfs.quiet rfl rfl rfl ?_ ?_⟩
        · rw [hidle, Pump.owed_writing, begun_nil]
          split
          · exact begun_full f.size
          · exact begun_nil
        · rw [hstarted]
          simp [State.started, hl, f.size]

theorem Writes.pumpPart {n : Nat} (h : Writes s) (hs : relay.step s (.pumpPart n) = some s')
    (hex : Exclusive s (.pumpPart n)) : Writes s' := by
  obtain ⟨c, rest, hp, hb, hn, hle, hs'⟩ := pumpPart_eq_some hs
  have hkind := h.writing c rest hp
  have hlen : rest.length ≤ frameLen := by
    rcases hkind with hlt | ⟨f, -, -, rfl⟩
    · omega
    · exact Nat.le_of_eq f.size
  have hleft : (rest.drop n).length < frameLen := by
    rw [List.length_drop]
    omega
  have hconn : ∀ d, s'.conns d = if c = d then
      { s.conns d with output := (s.conns c).output ++ rest.take n } else s.conns d := by
    intro d
    rw [hs']
    exact setConn_output s c d _
  have howed' : ∀ d, s'.pump.owed d = if c = d then rest.drop n else [] := by
    intro d
    rw [hs', owed_afterPart]
  have hmain : s'.main = s.main := by rw [hs']; rfl
  have hpump : s'.pump = if rest.drop n = [] then .reading else .writing c (rest.drop n) := by
    rw [hs']
    rfl
  have hhost : s'.fromHost = s.fromHost := by rw [hs']; rfl
  have hstarted : s'.started = s.fromHost := by
    rw [State.started, hpump, hhost]
    split
    · rfl
    next hloc => split at hloc <;> cases hloc
    next hw =>
      split at hw
      · cases hw
      · cases hw
        exact if_pos hleft
  have hmore : s.started.Sublist s'.started := hstarted ▸ started_sublist s
  refine ⟨hmain ▸ h.ponging, ?_, ?_, ?_⟩
  · intro g hg
    rw [hpump] at hg
    split at hg <;> cases hg
  · intro d rest' hw
    rw [hpump] at hw
    split at hw
    · cases hw
    · cases hw
      exact Or.inl hleft
  intro d
  obtain ⟨fs, hfs⟩ := h.streams d
  have howed : s.pump.owed d = if c = d then rest else [] := by rw [hp, Pump.owed_writing]
  by_cases hd : c = d
  · subst hd
    rw [if_pos rfl] at howed
    have hdrop : begun (s'.pump.owed c) = rest.drop n := by
      rw [howed', if_pos rfl, begun_drop hlen hn hle]
    have hhere := hconn c
    rw [if_pos rfl] at hhere
    by_cases hlt : rest.length < frameLen
    · have hidle : begun (s.main.owed c) = [] := by
        refine hfs.one.resolve_right ?_
        rw [howed, begun_part hlt]
        exact List.ne_nil_of_length_pos (by omega)
      refine ⟨fs, hfs.part (by rw [howed, begun_part hlt, hidle, List.nil_append]) hb
        (by rw [hhere]; exact hb) (by rw [hhere]) ?_ (Or.inl (hmain ▸ hidle)) hmore⟩
      rw [hdrop, hmain, hidle, List.nil_append]
    · -- the report is begun, the last one read
      obtain ⟨f, l, hl, rfl⟩ := hkind.resolve_left hlt
      simp only [Exclusive, hp] at hex
      have hidle := hex f.size
      have hbefore : s.started = l := by simp [State.started, hp, hl, f.size]
      have hhosts : (hosts fs).Sublist l := hbefore ▸ hfs.hosts
      refine ⟨fs ++ [(.host, f)], hfs.first hidle (by rw [howed, begun_full f.size]) hb
        (by rw [hhere]; exact hb) (by rw [hhere]) ?_ (Or.inl (hmain ▸ hidle))
        (fun hx => by cases hx) ?_⟩
      · rw [hdrop, hmain, hidle, List.nil_append]
      · rw [hstarted, hl]
        simpa [hosts] using hhosts.append_right [f]
  · have hhere := hconn d
    rw [if_neg hd] at hhere howed
    refine ⟨fs, hfs.quiet (by rw [hhere]) (by rw [hhere]) (by rw [hmain]) ?_ hmore⟩
    rw [howed', if_neg hd, howed]

theorem Writes.pumpFail (h : Writes s) (hs : relay.step s .pumpFail = some s') : Writes s' := by
  obtain ⟨c, rest, hp, -, rfl⟩ := pumpFail_eq_some hs
  have hmore := started_sublist s
  refine ⟨h.ponging, (fun g hg => by cases hg), (fun _ _ hw => by cases hw), ?_⟩
  intro d
  obtain ⟨fs, hfs⟩ := h.streams d
  refine ⟨fs, ?_⟩
  by_cases hd : c = d
  · subst hd
    exact hfs.fail (by simp [State.setConn_conns]) (by simp [State.setConn_conns])
      (Or.inr begun_nil) hmore
  · refine hfs.quiet ?_ ?_ rfl ?_ hmore
    · simp [State.setConn_conns, Ne.symm hd]
    · simp [State.setConn_conns, Ne.symm hd]
    · rw [hp, Pump.owed_writing, if_neg hd]
      rfl

end PumpSteps

/-! ## Every run -/

theorem Writes.step {s s' : State} {a : Act} (h : Writes s) (hex : Exclusive s a)
    (hs : relay.step s a = some s') : Writes s' := by
  cases a with
  | readExact => exact h.readExact hs
  | pongPart n => exact h.pongPart hs hex
  | pongFail => exact h.pongFail hs
  | report f => exact h.report hs
  | lock => exact h.lock hs
  | pumpPart n => exact h.pumpPart hs hex
  | pumpFail => exact h.pumpFail hs
  | connect =>
      cases hs
      exact h.quiet (a := .connect) rfl (fun h => h) (fun _ => rfl) (fun _ => rfl) (Or.inl rfl)
  | send c bytes =>
      have heq := send_eq_some hs
      refine h.quiet hs (fun h => h) ?_ ?_ (Or.inl ?_) <;> rw [heq]
      · exact s.setConn_keeps c Conn.output rfl
      · exact s.setConn_keeps c Conn.broken rfl
      · rfl
  | close c =>
      refine h.quiet hs (fun h => h) ?_ ?_ (Or.inl ?_) <;> cases hs
      · exact s.setConn_keeps c Conn.output rfl
      · exact s.setConn_keeps c Conn.broken rfl
      · rfl
  | accept =>
      obtain ⟨c, rest, hm, -, rfl⟩ := accept_eq_some hs
      exact h.quiet hs (fun h => h) (fun _ => rfl) (fun _ => rfl)
        (Or.inr ⟨fun d => by rw [hm]; rfl, fun _ _ hm' => by cases hm'⟩)
  | setCurrent =>
      obtain ⟨c, hm, -, rfl⟩ := setCurrent_eq_some hs
      exact h.quiet hs (fun h => h) (fun _ => rfl) (fun _ => rfl)
        (Or.inr ⟨fun d => by rw [hm]; rfl, fun _ _ hm' => by cases hm'⟩)
  | writeFrame written =>
      obtain ⟨c, f, hm, rfl⟩ := writeFrame_eq_some hs
      exact h.quiet hs (fun h => h) (fun _ => rfl) (fun _ => rfl)
        (Or.inr ⟨fun d => by rw [hm]; rfl, fun _ _ hm' => by cases hm'⟩)
  | clear known =>
      obtain ⟨c, hm, -, rfl⟩ := clear_eq_some hs
      exact h.quiet hs (fun h => h) (fun _ => rfl) (fun _ => rfl)
        (Or.inr ⟨fun d => by rw [hm]; rfl, fun _ _ hm' => by cases hm'⟩)

theorem Writes.init : Writes .init where
  ponging c rest h := by cases h
  inHand f h := by cases h
  writing c rest h := by cases h
  streams c := ⟨[], (fun x hx => by cases hx), List.Sublist.refl _, Or.inl begun_nil,
    Blocks.Account.nil⟩

theorem Writes.carries {s : State} (h : Writes s) (c : Nat) : Aligned s c := by
  obtain ⟨fs, hfs⟩ := h.streams c
  refine ⟨fs, hfs.pongs, hfs.hosts.trans (started_sublist s), hfs.account.begun, ?_⟩
  intro hmain hpump hb
  have hacc := hfs.account
  rw [hmain, hpump, hb] at hacc
  exact hacc.whole

/-- **Whole frames.** In every run in which no frame is begun on a connection
where one of the other thread is begun and not finished, each connection carries
whole frames, PONGs and reports in the order of the host. -/
theorem aligned {as : List Act} {s : State} (hrun : relay.exec .init as = some s)
    (hex : relay.Meets Exclusive .init as) (c : Nat) : Aligned s c :=
  (relay.exec_meets Writes.init (fun _ _ _ h hC hs => h.step hC hs) hrun hex).carries c

/-- An agent that is served, and a report on its way to it. -/
def served : List Act := [.connect, .accept, .setCurrent]

/-- A frame that is a PING to the relay. -/
def ping : Frame where
  bytes := 0x01 :: List.replicate (frameLen - 1) 0
  size := by rw [List.length_cons, List.length_replicate]; rfl

/-- A report of sevens. -/
def sevens : Frame where
  bytes := 0x07 :: List.replicate (frameLen - 1) 0x07
  size := by rw [List.length_cons, List.length_replicate]; rfl

/-- The pump takes the mutex before the PONG is written, and the second PING is
read while the report is being written; each frame is finished before the next
is begun. -/
def inTurn : List Act :=
  served ++ [.send 0 (ping.bytes ++ ping.bytes), .readExact, .report sevens, .lock,
    .pongPart 1000, .pongPart 24, .readExact, .pumpPart 600, .pumpPart 424, .pongPart 1024]

theorem aligned_inTurn : ∃ s, relay.exec .init inTurn = some s ∧
    (s.conns 0).output = pong.bytes ++ sevens.bytes ++ pong.bytes ∧ Aligned s 0 := by
  have houtput : (relay.exec .init inTurn).map (fun s => (s.conns 0).output) =
      some (pong.bytes ++ sevens.bytes ++ pong.bytes) := by
    decide +kernel
  obtain ⟨s, hrun, hout⟩ := Option.map_eq_some_iff.mp houtput
  have hex : relay.Meets Exclusive .init inTurn := by decide +kernel
  exact ⟨s, hrun, hout, aligned hrun hex 0⟩

/-- One byte of the report, then one of the PONG. -/
def mixed : List Act :=
  served ++ [.send 0 ping.bytes, .report sevens, .lock, .pumpPart 1, .readExact, .pongPart 1]

theorem mixed_output :
    (relay.exec .init mixed).map (fun s => ((s.conns 0).output, s.fromHost))
      = some ([0x07, 0x02], [sevens]) := by
  decide +kernel

/-- **A PONG inside a report.** What the agent reads is not whole frames. -/
theorem pong_inside_report :
    ¬ ∀ (as : List Act) (s : State) (c : Nat), relay.exec .init as = some s → Aligned s c := by
  intro h
  obtain ⟨s, hrun, hs⟩ := Option.map_eq_some_iff.mp mixed_output
  obtain ⟨hout, hhost⟩ := Prod.mk.inj hs
  obtain ⟨fs, hpong, hhosts, hbegun, -⟩ := h mixed s 0 hrun
  rw [hout] at hbegun
  rw [hhost] at hhosts
  obtain ⟨tail, htail⟩ := hbegun
  cases fs with
  | nil => cases htail
  | cons x fs =>
      obtain ⟨src, f⟩ := x
      rw [List.map_cons, List.flatten_cons] at htail
      -- the first frame starts with the report's first byte and goes on with the PONG's
      obtain ⟨b₀, b₁, rest, hf⟩ : ∃ b₀ b₁ rest, f.bytes = b₀ :: b₁ :: rest := by
        match hb : f.bytes, f.size with
        | b₀ :: b₁ :: rest, _ => exact ⟨b₀, b₁, rest, rfl⟩
      rw [hf] at htail
      obtain ⟨h₀, htail⟩ := List.cons.inj htail
      obtain ⟨h₁, -⟩ := List.cons.inj htail
      cases src with
      | pong =>
          have hp : f = pong := hpong (.pong, f) List.mem_cons_self rfl
          rw [hp] at hf
          exact absurd (h₀.trans (List.cons.inj hf).1.symm) (by decide)
      | host =>
          have hmem : f ∈ [sevens] := hhosts.subset (by simp [hosts])
          rw [List.mem_singleton.mp hmem] at hf
          have htwo := (List.cons.inj (List.cons.inj hf).2).1
          exact absurd (h₁.trans htwo.symm) (by decide)

end Beaglewing.Relay
