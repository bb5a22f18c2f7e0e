/-
# `Agents.Session` — both agents at once

The Linux agent and the Windows helper over two FIFO channels that lose
nothing.  A step belongs to one of five threads, or brings a new copy:

    linuxMain     takes the next event: a copy to send, or a frame to feed
    linuxSend     the main loop inside `send_with_retry`; it takes no event
    linuxReader   stores an ACK count, queues any other frame
    winBegin, winSend   the Windows send loop
    winReader     stores an ACK count, feeds and acknowledges any other frame

No clock is past its limit and no write fails.  Each direction is a `Lane`:
frames queued in the Linux main loop or in a channel are pending, ACKs in
the other channel are on their way back.  Every step is a step of the lanes
(`ok_step`), so the lane invariants hold of every run, and there is no
circular wait: the Windows reader never waits, hence a Linux sender gets
all its ACKs, hence the Linux main loop gets back to its queue, hence a
Windows sender gets all of its (`no_deadlock`).

## What it is not

Offers of files and the requests for them are in `Agents.Crossing`.  With a
stall clock past its limit a sender aborts (`Agents.Once`), and with a write
that fails the session ends (`Agents.Isolation`).
-/
import Beaglewing.Agents.Lane

namespace Beaglewing.Agents

open Base Clipframe

/-- What the Linux main loop receives. -/
inductive Ev where
  | copy (kind : UInt8) (data : List UInt8)
  | frame (f : Frame)

/-- `linuxBegun` and `winBegun`, the transfers taken up, and `linuxGot` and
`winGot`, those completed at this side, are not in the program. -/
structure Session where
  queue : List Ev
  linuxFrames : List Frame
  linuxSend : Linux.Retry
  linuxAcked : UInt32
  linuxRecv : Reassembler
  linuxBegun : List (UInt8 × List UInt8)
  linuxGot : List (UInt8 × List UInt8)
  copies : List (UInt8 × List UInt8)
  winFrames : List Frame
  winSend : Windows.Sending
  winAcked : UInt32
  winRecv : Reassembler
  winBegun : List (UInt8 × List UInt8)
  winGot : List (UInt8 × List UInt8)
  toWindows : List Frame
  toLinux : List Frame

inductive SessionAct where
  | linuxCopy (kind : UInt8) (data : List UInt8)
  | winCopy (kind : UInt8) (data : List UInt8)
  | linuxMain
  | linuxSend (a : SendAct)
  | linuxReader
  | winBegin
  | winSend (a : SendAct)
  | winReader

def Session.init : Session where
  queue := []
  linuxFrames := []
  linuxSend := .done (.ok ())
  linuxAcked := 0
  linuxRecv := .default
  linuxBegun := []
  linuxGot := []
  copies := []
  winFrames := []
  winSend := .done true
  winAcked := 0
  winRecv := .default
  winBegun := []
  winGot := []
  toWindows := []
  toLinux := []

/-- A frame the reader threads hand on. -/
def notAck (f : Frame) : Bool := (parseAck f).isNone

/-- The main loop of the Linux agent at `rx.recv`. -/
def linuxMain (s : Session) : Option Session :=
  if Linux.idle s.linuxSend then
    match s.queue with
    | [] => none
    | .copy kind data :: rest =>
        some { s with
          queue := rest
          linuxFrames := encodeTransfer kind data
          linuxSend := Linux.start
          linuxBegun := s.linuxBegun ++ [(kind, data)] }
    | .frame f :: rest =>
        some { s with
          queue := rest
          linuxRecv := (s.linuxRecv.feed f).1
          linuxGot := s.linuxGot ++ completions [(s.linuxRecv.feed f).2]
          toWindows := s.toWindows ++ acksFor (s.linuxRecv.feed f).2 }
  else none

/-- The main loop of the Linux agent in `send_with_retry`. -/
def linuxSend (s : Session) : SendAct → Option Session
  | .store => ((Linux.sendWithRetry s.linuxFrames).step s.linuxSend .store).map fun p =>
      { s with linuxSend := p, linuxAcked := 0 }
  | .load v =>
      if v = s.linuxAcked then
        ((Linux.sendWithRetry s.linuxFrames).step s.linuxSend (.load v)).map fun p =>
          { s with linuxSend := p }
      else none
  | .expired b =>
      if b then none
      else ((Linux.sendWithRetry s.linuxFrames).step s.linuxSend (.expired false)).map fun p =>
        { s with linuxSend := p }
  | .write f ok =>
      if ok then
        ((Linux.sendWithRetry s.linuxFrames).step s.linuxSend (.write f true)).map fun p =>
          { s with linuxSend := p, toWindows := s.toWindows ++ [f] }
      else none

/-- `spawn_reader`. -/
def linuxReader (s : Session) : Option Session :=
  match s.toLinux with
  | [] => none
  | f :: rest =>
      match parseAck f with
      | some n => some { s with toLinux := rest, linuxAcked := n }
      | none => some { s with toLinux := rest, queue := s.queue ++ [.frame f] }

/-- The Windows send loop finds a new copy. -/
def winBegin (s : Session) : Option Session :=
  if Windows.idle s.winSend then
    match s.copies with
    | [] => none
    | (kind, data) :: rest =>
        some { s with
          copies := rest
          winFrames := encodeTransfer kind data
          winSend := Windows.start
          winBegun := s.winBegun ++ [(kind, data)] }
  else none

/-- The Windows send loop in `send_frames`. -/
def winSend (s : Session) : SendAct → Option Session
  | .store => ((Windows.sendFrames s.winFrames).step s.winSend .store).map fun p =>
      { s with winSend := p, winAcked := 0 }
  | .load v =>
      if v = s.winAcked then
        ((Windows.sendFrames s.winFrames).step s.winSend (.load v)).map fun p =>
          { s with winSend := p }
      else none
  | .expired b =>
      if b then none
      else ((Windows.sendFrames s.winFrames).step s.winSend (.expired false)).map fun p =>
        { s with winSend := p }
  | .write f ok =>
      if ok then
        ((Windows.sendFrames s.winFrames).step s.winSend (.write f true)).map fun p =>
          { s with winSend := p, toLinux := s.toLinux ++ [f] }
      else none

/-- The Windows reader thread. -/
def winReader (s : Session) : Option Session :=
  match s.toWindows with
  | [] => none
  | f :: rest =>
      match parseAck f with
      | some n => some { s with toWindows := rest, winAcked := n }
      | none =>
          some { s with
            toWindows := rest
            winRecv := (s.winRecv.feed f).1
            winGot := s.winGot ++ completions [(s.winRecv.feed f).2]
            toLinux := s.toLinux ++ acksFor (s.winRecv.feed f).2 }

/-- The two agents.  A copy is of at most `maxTransfer` bytes. -/
def session : Lts Session SessionAct where
  step s
    | .linuxCopy kind data =>
        if data.length ≤ maxTransfer.toNat then
          some { s with queue := s.queue ++ [.copy kind data] }
        else none
    | .winCopy kind data =>
        if data.length ≤ maxTransfer.toNat then
          some { s with copies := s.copies ++ [(kind, data)] }
        else none
    | .linuxMain => linuxMain s
    | .linuxSend a => linuxSend s a
    | .linuxReader => linuxReader s
    | .winBegin => winBegin s
    | .winSend a => winSend s a
    | .winReader => winReader s

/-! ## The two lanes -/

/-- The frames waiting in the Linux main loop. -/
def queued (q : List Ev) : List Frame :=
  q.filterMap fun
    | .frame f => some f
    | .copy _ _ => none

namespace Session

/-- Traffic of the Linux sender. -/
def linuxLane (s : Session) : Lane where
  cell := s.linuxAcked
  acks := s.toLinux.filterMap parseAck
  pending := s.toWindows.filter notAck
  recv := s.winRecv
  got := s.winGot

/-- Traffic of the Windows sender. -/
def winLane (s : Session) : Lane where
  cell := s.winAcked
  acks := s.toWindows.filterMap parseAck
  pending := queued s.queue ++ s.toLinux.filter notAck
  recv := s.linuxRecv
  got := s.linuxGot

structure Ok (s : Session) : Prop where
  linux : LaneOk s.linuxFrames s.linuxBegun s.linuxLane.drain s.linuxSend
  windows : ∃ p, s.winSend = Agents.toWindows p ∧
    LaneOk s.winFrames s.winBegun s.winLane.drain p
  queue : ∀ kind data, .copy kind data ∈ s.queue → data.length ≤ maxTransfer.toNat
  copies : ∀ x ∈ s.copies, x.2.length ≤ maxTransfer.toNat

end Session

theorem session_init_ok : Session.init.Ok :=
  ⟨rfl, ⟨.done (.ok ()), rfl, rfl⟩, (fun _ _ h => nomatch h), (fun _ h => nomatch h)⟩

theorem filterMap_acksFor (o : FeedResult) : (acksFor o).filterMap parseAck = counts [o] := by
  simp [counts]

theorem filter_acksFor (o : FeedResult) : (acksFor o).filter notAck = [] := by
  refine List.filter_eq_nil_iff.mpr ?_
  intro f hf
  unfold acksFor at hf
  split at hf
  next n =>
    split at hf
    · rw [List.mem_singleton.mp hf, notAck, parseAck_ackFrame]
      exact Bool.false_ne_true
    · cases hf
  next => cases hf

theorem notAck_of_mem {kind : UInt8} {data : List UInt8} {f : Frame}
    (h : f ∈ encodeTransfer kind data) : parseAck f = none := by
  have hframe : ∀ {t : UInt8} {q : UInt16} {c : Payload}, t ≠ tAck →
      parseAck (frame t q c) = none := fun ht => by
    simp [parseAck, ht]
  rw [encodeTransfer_eq] at h
  rcases List.mem_cons.mp h with rfl | h
  · exact hframe (by decide)
  rcases List.mem_append.mp h with h | h
  · obtain ⟨q, c, rfl⟩ := dataPart_frames data f h
    exact hframe (by decide)
  · rw [List.mem_singleton.mp h]
    exact hframe (by decide)

/-- A frame that a sender writes is one of its transfer. -/
theorem write_mem {frames : List Frame} {begun : List (UInt8 × List UInt8)} {d : Drained}
    {p p' : Linux.Retry} (h : LaneOk frames begun d p) {f : Frame}
    (hs : (Linux.sendWithRetry frames).step p (.write f true) = some p') : parseAck f = none := by
  rcases Linux.step_write hs with ⟨k, i, sent, rfl, hf, -⟩ | ⟨k, rfl, -, -⟩
  · obtain ⟨kind, data, -, rfl, -, -⟩ := h
    exact notAck_of_mem (List.mem_of_getElem? hf)
  · obtain ⟨kind, data, -, -, -, hq⟩ := h
    exact absurd hq (fun h => h)

/-! ## One step -/

section Steps
variable {s s' : Session} (h : s.Ok)
include h

theorem ok_linuxReader (hs : linuxReader s = some s') : s'.Ok := by
  unfold linuxReader at hs
  split at hs
  next => cases hs
  next f rest hto =>
    have hmap : s.linuxLane.acks = (f :: rest).filterMap parseAck := by rw [← hto]; rfl
    have hpend : s.winLane.pending = queued s.queue ++ (f :: rest).filter notAck := by
      rw [← hto]; rfl
    split at hs
    next n hack =>
      cases hs
      rw [List.filterMap_cons_some hack] at hmap
      rw [List.filter_cons_of_neg (by simp [notAck, hack])] at hpend
      refine ⟨?_, ?_, h.queue, h.copies⟩
      · have := h.linux
        rwa [← drain_deliver hmap] at this
      · have hsame : Session.winLane { s with toLinux := rest, linuxAcked := n } = s.winLane := by
          simp only [Session.winLane] at hpend ⊢
          rw [hpend]
        rw [hsame]
        exact h.windows
    next hack =>
      cases hs
      rw [List.filterMap_cons_none hack] at hmap
      rw [List.filter_cons_of_pos (by simp [notAck, hack])] at hpend
      refine ⟨?_, ?_, ?_, h.copies⟩
      · have hsame : Session.linuxLane
            { s with toLinux := rest, queue := s.queue ++ [.frame f] } = s.linuxLane := by
          simp only [Session.linuxLane] at hmap ⊢
          rw [hmap]
        rw [hsame]
        exact h.linux
      · have hsame : Session.winLane
            { s with toLinux := rest, queue := s.queue ++ [.frame f] } = s.winLane := by
          simp only [Session.winLane] at hpend ⊢
          rw [hpend]
          simp [queued]
        rw [hsame]
        exact h.windows
      · intro kind data hmem
        rcases List.mem_append.mp hmem with hmem | hmem
        · exact h.queue kind data hmem
        · cases List.mem_singleton.mp hmem

theorem ok_winReader (hs : winReader s = some s') : s'.Ok := by
  unfold winReader at hs
  split at hs
  next => cases hs
  next f rest hto =>
    have hmap : s.winLane.acks = (f :: rest).filterMap parseAck := by rw [← hto]; rfl
    have hpend : s.linuxLane.pending = (f :: rest).filter notAck := by rw [← hto]; rfl
    split at hs
    next n hack =>
      cases hs
      rw [List.filterMap_cons_some hack] at hmap
      rw [List.filter_cons_of_neg (by simp [notAck, hack])] at hpend
      refine ⟨?_, ?_, h.queue, h.copies⟩
      · have hsame : Session.linuxLane { s with toWindows := rest, winAcked := n } = s.linuxLane := by
          simp only [Session.linuxLane] at hpend ⊢
          rw [hpend]
        rw [hsame]
        exact h.linux
      · have := h.windows
        rwa [← drain_deliver hmap] at this
    next hack =>
      cases hs
      rw [List.filterMap_cons_none hack] at hmap
      rw [List.filter_cons_of_pos (by simp [notAck, hack])] at hpend
      refine ⟨?_, ?_, h.queue, h.copies⟩
      · have hlane : Session.linuxLane { s with
            toWindows := rest
            winRecv := (s.winRecv.feed f).1
            winGot := s.winGot ++ completions [(s.winRecv.feed f).2]
            toLinux := s.toLinux ++ acksFor (s.winRecv.feed f).2 }
            = s.linuxLane.receive f (rest.filter notAck) := by
          simp only [Session.linuxLane, Lane.receive, List.filterMap_append, filterMap_acksFor]
        rw [hlane, drain_receive hpend]
        exact h.linux
      · have hsame : Session.winLane { s with
            toWindows := rest
            winRecv := (s.winRecv.feed f).1
            winGot := s.winGot ++ completions [(s.winRecv.feed f).2]
            toLinux := s.toLinux ++ acksFor (s.winRecv.feed f).2 } = s.winLane := by
          simp only [Session.winLane, List.filter_append, filter_acksFor, List.append_nil] at hmap ⊢
          rw [hmap]
        rw [hsame]
        exact h.windows

theorem ok_linuxMain (hs : linuxMain s = some s') : s'.Ok := by
  unfold linuxMain at hs
  split at hs
  next hidle =>
    split at hs
    next => cases hs
    next kind data rest hq =>
      cases hs
      have hmem : ∀ e ∈ rest, e ∈ s.queue := fun e he => by
        rw [hq]
        exact List.mem_cons_of_mem _ he
      have hlen := h.queue kind data (by rw [hq]; exact List.mem_cons_self)
      refine ⟨⟨kind, data, hlen, rfl, ?_, trivial⟩, ?_,
        fun k d hkd => h.queue k d (hmem _ hkd), h.copies⟩
      · show s.linuxBegun ++ [(kind, data)] = s.linuxLane.drain.got ++ [(kind, data)]
        rw [(h.linux.done hidle).2]
      · have hsame : Session.winLane { s with
            queue := rest
            linuxFrames := encodeTransfer kind data
            linuxSend := Linux.start
            linuxBegun := s.linuxBegun ++ [(kind, data)] } = s.winLane := by
          simp only [Session.winLane, hq]
          rfl
        rw [hsame]
        exact h.windows
    next f rest hq =>
      cases hs
      refine ⟨?_, ?_, fun k d hkd => h.queue k d (by rw [hq]; exact List.mem_cons_of_mem _ hkd),
        h.copies⟩
      · have hsame : Session.linuxLane { s with
            queue := rest
            linuxRecv := (s.linuxRecv.feed f).1
            linuxGot := s.linuxGot ++ completions [(s.linuxRecv.feed f).2]
            toWindows := s.toWindows ++ acksFor (s.linuxRecv.feed f).2 } = s.linuxLane := by
          simp only [Session.linuxLane, List.filter_append, filter_acksFor, List.append_nil]
        rw [hsame]
        exact h.linux
      · have hpend : s.winLane.pending = f :: (queued rest ++ s.toLinux.filter notAck) := by
          simp only [Session.winLane, hq]
          rfl
        have hlane : Session.winLane { s with
            queue := rest
            linuxRecv := (s.linuxRecv.feed f).1
            linuxGot := s.linuxGot ++ completions [(s.linuxRecv.feed f).2]
            toWindows := s.toWindows ++ acksFor (s.linuxRecv.feed f).2 }
            = s.winLane.receive f (queued rest ++ s.toLinux.filter notAck) := by
          simp only [Session.winLane, Lane.receive, List.filterMap_append, filterMap_acksFor]
        rw [hlane, drain_receive hpend]
        exact h.windows
  next => cases hs

theorem ok_winBegin (hs : winBegin s = some s') : s'.Ok := by
  unfold winBegin at hs
  split at hs
  next hidle =>
    split at hs
    next => cases hs
    next kind data rest hcopies =>
      cases hs
      have hmem : ∀ x ∈ rest, x ∈ s.copies := fun x hx => by
        rw [hcopies]
        exact List.mem_cons_of_mem _ hx
      have hlen := h.copies (kind, data) (by rw [hcopies]; exact List.mem_cons_self)
      obtain ⟨p, hp, hlane⟩ := h.windows
      rw [hp, idle_toWindows] at hidle
      refine ⟨h.linux, ⟨Linux.start, rfl, kind, data, hlen, rfl, ?_, trivial⟩, h.queue,
        fun x hx => h.copies x (hmem x hx)⟩
      show s.winBegun ++ [(kind, data)] = s.winLane.drain.got ++ [(kind, data)]
      rw [(hlane.done hidle).2]
  next => cases hs

theorem ok_linuxSend {a : SendAct} (hs : linuxSend s a = some s') : s'.Ok := by
  cases a with
  | store =>
      obtain ⟨p, hp, rfl⟩ := Option.map_eq_some_iff.mp hs
      exact ⟨laneOk_store h.linux hp _, h.windows, h.queue, h.copies⟩
  | load v =>
      simp only [linuxSend] at hs
      split at hs
      next =>
        obtain ⟨p, hp, rfl⟩ := Option.map_eq_some_iff.mp hs
        exact ⟨laneOk_load h.linux hp, h.windows, h.queue, h.copies⟩
      next => cases hs
  | expired b =>
      simp only [linuxSend] at hs
      split at hs
      next => cases hs
      next =>
        obtain ⟨p, hp, rfl⟩ := Option.map_eq_some_iff.mp hs
        exact ⟨laneOk_expired h.linux hp, h.windows, h.queue, h.copies⟩
  | write f ok =>
      simp only [linuxSend] at hs
      split at hs
      next =>
        obtain ⟨p, hp, rfl⟩ := Option.map_eq_some_iff.mp hs
        have hf := write_mem h.linux hp
        refine ⟨?_, ?_, h.queue, h.copies⟩
        · have hlane : Session.linuxLane { s with linuxSend := p, toWindows := s.toWindows ++ [f] }
              = s.linuxLane.write f := by
            simp [Session.linuxLane, Lane.write, notAck, hf]
          rw [hlane, drain_write]
          exact laneOk_write h.linux hp
        · have hsame : Session.winLane { s with linuxSend := p, toWindows := s.toWindows ++ [f] }
              = s.winLane := by
            simp [Session.winLane, hf]
          rw [hsame]
          exact h.windows
      next => cases hs

/-- The Windows sender moves as the Linux sender does in the same place. -/
theorem ok_winSend {a : SendAct} (hs : winSend s a = some s') : s'.Ok := by
  obtain ⟨q, hq, hlane⟩ := h.windows
  cases a with
  | store =>
      obtain ⟨w, hw, rfl⟩ := Option.map_eq_some_iff.mp hs
      obtain ⟨p, hp, rfl⟩ := step_of_windows (hq ▸ hw)
      exact ⟨h.linux, ⟨p, rfl, laneOk_store hlane hp _⟩, h.queue, h.copies⟩
  | load v =>
      simp only [winSend] at hs
      split at hs
      next =>
        obtain ⟨w, hw, rfl⟩ := Option.map_eq_some_iff.mp hs
        obtain ⟨p, hp, rfl⟩ := step_of_windows (hq ▸ hw)
        exact ⟨h.linux, ⟨p, rfl, laneOk_load hlane hp⟩, h.queue, h.copies⟩
      next => cases hs
  | expired b =>
      simp only [winSend] at hs
      split at hs
      next => cases hs
      next =>
        obtain ⟨w, hw, rfl⟩ := Option.map_eq_some_iff.mp hs
        obtain ⟨p, hp, rfl⟩ := step_of_windows (hq ▸ hw)
        exact ⟨h.linux, ⟨p, rfl, laneOk_expired hlane hp⟩, h.queue, h.copies⟩
  | write f ok =>
      simp only [winSend] at hs
      split at hs
      next =>
        obtain ⟨w, hw, rfl⟩ := Option.map_eq_some_iff.mp hs
        obtain ⟨p, hp, rfl⟩ := step_of_windows (hq ▸ hw)
        have hf := write_mem hlane hp
        refine ⟨?_, ⟨p, rfl, ?_⟩, h.queue, h.copies⟩
        · have hsame : Session.linuxLane
              { s with winSend := toWindows p, toLinux := s.toLinux ++ [f] } = s.linuxLane := by
            simp [Session.linuxLane, hf]
          rw [hsame]
          exact h.linux
        · have hwrite : Session.winLane
              { s with winSend := toWindows p, toLinux := s.toLinux ++ [f] }
              = s.winLane.write f := by
            simp [Session.winLane, Lane.write, notAck, hf]
          rw [hwrite, drain_write]
          exact laneOk_write hlane hp
      next => cases hs

end Steps

theorem session_ok_step (s : Session) (a : SessionAct) (s' : Session) (h : s.Ok)
    (hs : session.step s a = some s') : s'.Ok := by
  cases a with
  | linuxCopy kind data =>
      simp only [session] at hs
      split at hs
      next hlen =>
        cases hs
        refine ⟨h.linux, ?_, ?_, h.copies⟩
        · have hsame : Session.winLane { s with queue := s.queue ++ [.copy kind data] }
              = s.winLane := by
            simp [Session.winLane, queued]
          rw [hsame]
          exact h.windows
        · intro k d hmem
          rcases List.mem_append.mp hmem with hmem | hmem
          · exact h.queue k d hmem
          · cases List.mem_singleton.mp hmem
            exact hlen
      next => cases hs
  | winCopy kind data =>
      simp only [session] at hs
      split at hs
      next hlen =>
        cases hs
        refine ⟨h.linux, h.windows, h.queue, ?_⟩
        intro x hx
        rcases List.mem_append.mp hx with hx | hx
        · exact h.copies x hx
        · cases List.mem_singleton.mp hx
          exact hlen
      next => cases hs
  | linuxMain => exact ok_linuxMain h hs
  | linuxSend a => exact ok_linuxSend h hs
  | linuxReader => exact ok_linuxReader h hs
  | winBegin => exact ok_winBegin h hs
  | winSend a => exact ok_winSend h hs
  | winReader => exact ok_winReader h hs

/-! ## No deadlock -/

def Windows.blocked (cell : UInt32) : Windows.Sending → Bool
  | .window _ _ sent | .stall _ _ sent => windowClosed sent cell
  | _ => false

theorem blocked_toWindows (cell : UInt32) (p : Linux.Retry) :
    Windows.blocked cell (toWindows p) = Linux.blocked cell p := by
  match p with
  | .running _ .entry => rfl
  | .running _ (.window ..) => rfl
  | .running _ (.stall ..) => rfl
  | .running _ (.write ..) => rfl
  | .running _ .abort => rfl
  | .running _ (.ret _) => rfl
  | .done (.ok ()) => rfl
  | .done (.error _) => rfl

namespace Session

def linuxBlocked (s : Session) : Bool := Linux.blocked s.linuxAcked s.linuxSend

def winBlocked (s : Session) : Bool := Windows.blocked s.winAcked s.winSend

/-- A step of a thread that is not a poll of a closed window. -/
def Moves (s : Session) : SessionAct → Prop
  | .linuxCopy _ _ | .winCopy _ _ => False
  | .linuxSend _ => s.linuxBlocked = false
  | .winSend _ => s.winBlocked = false
  | .linuxMain | .linuxReader | .winBegin | .winReader => True

/-- Every copy was sent, received and completed on the other side. -/
structure Complete (s : Session) : Prop where
  linuxSend : s.linuxSend = .done (.ok ())
  winSend : s.winSend = .done true
  queue : s.queue = []
  copies : s.copies = []
  toWindows : s.toWindows = []
  toLinux : s.toLinux = []
  linux : s.winGot = s.linuxBegun
  windows : s.linuxGot = s.winBegun

end Session

section Blocked
variable {s : Session} (h : s.Ok)
include h

/-- A blocked Linux sender waits for the Windows reader or for its own. -/
theorem linux_not_blocked (hw : s.toWindows = []) (hl : s.toLinux = []) : s.linuxBlocked = false := by
  have hcell : s.linuxLane.drain.cell = s.linuxAcked := by
    simp [Lane.drain, Session.linuxLane, hw, hl, lastCount, counts]
  have := not_blocked h.linux
  rwa [hcell] at this

/-- A blocked Windows sender waits for what the Linux main loop has queued, or
for something in a channel. -/
theorem win_not_blocked (hq : queued s.queue = []) (hw : s.toWindows = []) (hl : s.toLinux = []) :
    s.winBlocked = false := by
  have hcell : s.winLane.drain.cell = s.winAcked := by
    simp [Lane.drain, Session.winLane, hq, hw, hl, lastCount, counts]
  obtain ⟨p, hp, hlane⟩ := h.windows
  have := not_blocked hlane
  rw [hcell, ← blocked_toWindows, ← hp] at this
  exact this

theorem linux_moves (hb : s.linuxBlocked = false) :
    s.linuxSend = .done (.ok ()) ∨ ∃ a s', s.Moves a ∧ session.step s a = some s' := by
  rcases sender_moves h.linux s.linuxAcked with hdone | ⟨a, p, hstep, hun⟩
  · exact Or.inl hdone
  refine Or.inr ⟨.linuxSend a, ?_⟩
  have hs : ∃ s', linuxSend s a = some s' := by
    cases a with
    | store => exact ⟨_, by simp only [linuxSend, hstep]; rfl⟩
    | load v =>
        cases hun
        exact ⟨_, by simp only [linuxSend, if_true, hstep]; rfl⟩
    | expired b =>
        cases hun
        exact ⟨_, by simp only [linuxSend, hstep]; rfl⟩
    | write f ok =>
        cases hun
        exact ⟨_, by simp only [linuxSend, if_true, hstep]; rfl⟩
  obtain ⟨s', hs⟩ := hs
  exact ⟨s', hb, hs⟩

theorem win_moves (hb : s.winBlocked = false) :
    s.winSend = .done true ∨ ∃ a s', s.Moves a ∧ session.step s a = some s' := by
  obtain ⟨q, hq, hlane⟩ := h.windows
  rcases sender_moves hlane s.winAcked with rfl | ⟨a, p, hp, hun⟩
  · exact Or.inl hq
  have hstep : (Windows.sendFrames s.winFrames).step s.winSend a = some (toWindows p) := by
    rw [hq, sendFrames_toWindows, hp]
    rfl
  refine Or.inr ⟨.winSend a, ?_⟩
  have hs : ∃ s', winSend s a = some s' := by
    cases a with
    | store => exact ⟨_, by simp only [winSend, hstep]; rfl⟩
    | load v =>
        cases hun
        exact ⟨_, by simp only [winSend, if_true, hstep]; rfl⟩
    | expired b =>
        cases hun
        exact ⟨_, by simp only [winSend, hstep]; rfl⟩
    | write f ok =>
        cases hun
        exact ⟨_, by simp only [winSend, if_true, hstep]; rfl⟩
  obtain ⟨s', hs⟩ := hs
  exact ⟨s', hb, hs⟩

/-- Unless all is complete, a thread can move. -/
theorem complete_or_moves : s.Complete ∨ ∃ a s', s.Moves a ∧ session.step s a = some s' := by
  -- something in a channel: its reader takes it
  cases hw : s.toWindows with
  | cons f rest =>
      refine Or.inr ⟨.winReader, ?_⟩
      cases hack : parseAck f with
      | some n => exact ⟨_, trivial, by simp only [session, winReader, hw, hack]; rfl⟩
      | none => exact ⟨_, trivial, by simp only [session, winReader, hw, hack]; rfl⟩
  | nil =>
  cases hl : s.toLinux with
  | cons f rest =>
      refine Or.inr ⟨.linuxReader, ?_⟩
      cases hack : parseAck f with
      | some n => exact ⟨_, trivial, by simp only [session, linuxReader, hl, hack]; rfl⟩
      | none => exact ⟨_, trivial, by simp only [session, linuxReader, hl, hack]; rfl⟩
  | nil =>
  -- nothing in a channel: the Linux sender is not blocked
  rcases linux_moves h (linux_not_blocked h hw hl) with hlinux | hmove
  · cases hq : s.queue with
    | cons e rest =>
        refine Or.inr ⟨.linuxMain, ?_⟩
        cases e with
        | copy kind data =>
            exact ⟨_, trivial, by simp only [session, linuxMain, hlinux, hq, Linux.idle, if_true]; rfl⟩
        | frame f =>
            exact ⟨_, trivial, by simp only [session, linuxMain, hlinux, hq, Linux.idle, if_true]; rfl⟩
    | nil =>
    -- nothing queued either: nor is the Windows sender
    rcases win_moves h (win_not_blocked h (by rw [hq]; rfl) hw hl) with hwin | hmove
    · cases hc : s.copies with
      | cons x rest =>
          refine Or.inr ⟨.winBegin, ?_⟩
          obtain ⟨kind, data⟩ := x
          exact ⟨_, trivial, by simp only [session, winBegin, hwin, hc, Windows.idle, if_true]; rfl⟩
      | nil =>
          refine Or.inl ⟨hlinux, hwin, hq, hc, hw, hl, ?_, ?_⟩
          · have hgot := (h.linux.done (by rw [hlinux]; rfl)).2
            simpa [Lane.drain, Session.linuxLane, hw, completions] using hgot.symm
          · obtain ⟨p, hp, hlane⟩ := h.windows
            have hidle : Linux.idle p = true := by
              rw [← idle_toWindows, ← hp, hwin]
              rfl
            have hgot := (hlane.done hidle).2
            simpa [Lane.drain, Session.winLane, hq, hl, queued, completions] using hgot.symm
    · exact Or.inr hmove
  · exact Or.inr hmove

end Blocked

/-- **No deadlock.** In every reachable state either every copy was sent and
completed on the other side, or some thread can move; and where nothing is
in flight or queued no sender is blocked. -/
theorem no_deadlock {acts : List SessionAct} {s : Session}
    (h : session.exec .init acts = some s) :
    (s.Complete ∨ ∃ a s', s.Moves a ∧ session.step s a = some s') ∧
      (s.toWindows = [] → s.toLinux = [] → queued s.queue = [] →
        s.linuxBlocked = false ∧ s.winBlocked = false) := by
  have hok : s.Ok := session.exec_invariant session_init_ok session_ok_step h
  exact ⟨complete_or_moves hok,
    fun hw hl hq => ⟨linux_not_blocked hok hw hl, win_not_blocked hok hq hw hl⟩⟩

/-- Both users copy, and both agents start to send. -/
def bothCopy : List SessionAct :=
  [.linuxCopy kindText [7], .winCopy kindText [8], .linuxMain, .winBegin, .linuxSend .store,
    .winSend .store]

theorem no_deadlock_bothCopy : ∃ s, session.exec .init bothCopy = some s ∧
    (s.Complete ∨ ∃ a s', s.Moves a ∧ session.step s a = some s') ∧
      (s.toWindows = [] → s.toLinux = [] → queued s.queue = [] →
        s.linuxBlocked = false ∧ s.winBlocked = false) := by
  have hexec : session.exec .init bothCopy = some { Session.init with
      linuxFrames := encodeTransfer kindText [7]
      linuxSend := .running 0 (.write 0 0)
      linuxBegun := [(kindText, [7])]
      winFrames := encodeTransfer kindText [8]
      winSend := .write 0 0 0
      winBegun := [(kindText, [8])] } := rfl
  exact ⟨_, hexec, no_deadlock hexec⟩

end Beaglewing.Agents
