/-
# `Agents.Threads` — the Linux agent, its threads and its sessions

`run` of `clipboard.rs` with the threads it starts.  All of them send to one
channel, which the main loop empties in order:

    watch     the watcher reads the clipboard, queues a change it has not seen
    control   the control listener queues a message
    timer     the heartbeat timer queues a `Tick`
    connect   between sessions, the main loop opens a connection and starts a
              reader on it; the session gets a fresh `Reassembler`
    read      a reader queues the frame it read; an ACK goes to the sender
    hangUp    a reader finds its connection ended, queues `Disconnected` and
              returns
    main      the session handles the next event

and the user copies, or changes files.  An event of the channel does not say
who sent it; the model does (`Source`).  A connection is open as long as its
reader runs or its session has not ended: each holds a clone of the socket.
A failed attempt to connect changes nothing.
-/
import Beaglewing.Agents.Handle

namespace Beaglewing.Agents.Linux

open Base Clipframe Files

/-- The thread an event comes from; of the watcher, which content it read; of a
reader, on which connection. -/
inductive Source where
  | watcher (n : Nat)
  | listener
  | timer
  | reader (i : Nat)
deriving DecidableEq

structure Item where
  ev : Ev
  source : Source
deriving DecidableEq

/-- Clipboard contents and connections are numbered in their order.  `copied`,
what the user has copied, `handled`, the events handled and in which session,
and `effects`, what the handlers did, are not in the program, nor are the
numbers. -/
structure System where
  agent : Agent
  queue : List Item
  session : Option Nat
  recv : Reassembler
  opened : Nat
  readers : List Nat
  prev : UInt64
  fs : Fs
  clip : Selection
  number : Nat
  copied : List (UInt8 × List UInt8)
  handled : List (Nat × Item)
  effects : List Effect

inductive Act where
  | copy (sel : Selection)
  | files (fs : Fs)
  | watch
  | control (msg : String)
  | timer
  | connect
  | read (i : Nat) (f : Frame)
  | hangUp (i : Nat)
  | main (ans : Answers)

def System.init (a : Agent) (fs : Fs) (clip : Selection) : System where
  agent := a
  queue := []
  session := none
  recv := .default
  opened := 0
  readers := []
  prev := 0
  fs
  clip
  number := 0
  copied := (payload clip).toList
  handled := []
  effects := []

namespace System

def push (s : System) (ev : Ev) (source : Source) : System :=
  { s with queue := s.queue ++ [⟨ev, source⟩] }

/-- `spawn_watcher`, one poll. -/
def watch (s : System) : System :=
  match readLocalClipboard s.fs s.clip with
  | none => s
  | some (kind, content, h) =>
      if h = s.prev then s
      else { s with prev := h }.push (.local kind content h) (.watcher s.number)

/-- `spawn_reader`, a frame read. -/
def read (s : System) (i : Nat) (f : Frame) : System :=
  match parseAck f with
  | some _ => s
  | none => s.push (.frame f) (.reader i)

/-- After an event of session `i` was handled. -/
def after (s : System) (i : Nat) (item : Item) (rest : List Item) (o : Outcome) : System :=
  { s with
    agent := o.agent
    queue := rest
    session := if o.ended = none then some i else none
    recv := o.recv
    fs := o.fs
    clip := ((clipSet o.effects).map fun x => served x.1 x.2).getD s.clip
    number := if (clipSet o.effects).isSome then s.number + 1 else s.number
    handled := s.handled ++ [(i, item)]
    effects := s.effects ++ o.effects }

end System

def threads (tar : TarCrate) (stageRoot : Path) : Lts System Act where
  step s
    | .copy sel =>
        some { s with
          clip := sel
          number := s.number + 1
          copied := s.copied ++ (payload sel).toList }
    | .files fs => some { s with fs }
    | .watch => some s.watch
    | .control msg => some (s.push (.control msg) .listener)
    | .timer => some (s.push .tick .timer)
    | .connect =>
        if s.session = none then
          some { s with
            session := some s.opened
            recv := .default
            opened := s.opened + 1
            readers := s.opened :: s.readers }
        else none
    | .read i f => if i ∈ s.readers then some (s.read i f) else none
    | .hangUp i =>
        if i ∈ s.readers then
          some ({ s with readers := s.readers.erase i }.push .disconnected (.reader i))
        else none
    | .main ans =>
        match s.session, s.queue with
        | some i, item :: rest =>
            (handle tar stageRoot s.agent s.recv s.fs item.ev ans).map (s.after i item rest)
        | _, _ => none

/-! ## Reading the steps -/

section Steps
variable {tar : TarCrate} {stageRoot : Path} {s s' : System}

theorem main_eq_some {ans : Answers} (h : (threads tar stageRoot).step s (.main ans) = some s') :
    ∃ i item rest o, s.session = some i ∧ s.queue = item :: rest ∧
      handle tar stageRoot s.agent s.recv s.fs item.ev ans = some o ∧
      s' = s.after i item rest o := by
  simp only [threads] at h
  split at h
  next i item rest hsession hqueue =>
    obtain ⟨o, ho, rfl⟩ := Option.map_eq_some_iff.mp h
    exact ⟨i, item, rest, o, hsession, hqueue, ho, rfl⟩
  next => cases h

/-- A poll changes nothing, or queues what is on the clipboard. -/
theorem watch_cases (s : System) :
    s.watch = s ∨ ∃ kind content h, readLocalClipboard s.fs s.clip = some (kind, content, h) ∧
      h ≠ s.prev ∧
      s.watch = { s with prev := h }.push (.local kind content h) (.watcher s.number) := by
  unfold System.watch
  split
  · exact Or.inl rfl
  next kind content h hread =>
    split
    · exact Or.inl rfl
    next hne => exact Or.inr ⟨kind, content, h, hread, hne, rfl⟩

theorem connect_eq_some (h : (threads tar stageRoot).step s .connect = some s') :
    s.session = none ∧ s' = { s with
      session := some s.opened
      recv := .default
      opened := s.opened + 1
      readers := s.opened :: s.readers } := by
  simp only [threads] at h
  split at h
  next hnone =>
    cases h
    exact ⟨hnone, rfl⟩
  next => cases h

/-- A reader that runs keeps an ACK to itself, and queues any other frame. -/
theorem read_eq_some {i : Nat} {f : Frame}
    (h : (threads tar stageRoot).step s (.read i f) = some s') :
    i ∈ s.readers ∧ (s' = s ∨ s' = s.push (.frame f) (.reader i)) := by
  simp only [threads] at h
  split at h
  next hi =>
    cases h
    refine ⟨hi, ?_⟩
    unfold System.read
    split
    · exact Or.inl rfl
    · exact Or.inr rfl
  next => cases h

theorem hangUp_eq_some {i : Nat} (h : (threads tar stageRoot).step s (.hangUp i) = some s') :
    i ∈ s.readers ∧
      s' = { s with readers := s.readers.erase i }.push .disconnected (.reader i) := by
  simp only [threads] at h
  split at h
  next hi =>
    cases h
    exact ⟨hi, rfl⟩
  next => cases h

end Steps

end Beaglewing.Agents.Linux
