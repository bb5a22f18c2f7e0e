/-
# `Bridge.Feed` — a session that nothing but its client ends

The loop of `handle_client` over turns that read bytes or find none yet: no
shutdown, no timeout, no end of the stream.  `feed` runs the turns with an
observer, which sees the variables and the message before each message; it
is the same loop whoever looks on (`feed_state`).

A session that goes on has been sent what its turns have read, and one that
has stopped was halted by a part of it (`tracks_feed`, `ends_feed`).
-/
import Beaglewing.Base.Receiver
import Beaglewing.Bridge.Session

namespace Beaglewing.Bridge

open Base

/-- The turn reads bytes, or finds none yet. -/
def Turn.Undisturbed (t : Turn) : Prop :=
  t.shutdown = false ∧ t.stale = false ∧
    match t.read with
    | .bytes _ => True
    | .wouldBlock => True
    | .eof => False
    | .error => False

/-- A turn that reads the chunk. -/
def Turn.reads (chunk : Chunk) : Turn where
  shutdown := false
  stale := false
  read := .bytes chunk

theorem undisturbed_reads (chunk : Chunk) : (Turn.reads chunk).Undisturbed :=
  ⟨rfl, rfl, trivial⟩

theorem undisturbed_one (bytes : List UInt8) : ∀ t ∈ bytes.map Turn.one, t.Undisturbed := by
  intro t ht
  obtain ⟨b, -, rfl⟩ := List.mem_map.mp ht
  exact ⟨rfl, rfl, trivial⟩

theorem received_one (bytes : List UInt8) :
    (bytes.map Turn.one).flatMap Turn.received = bytes := by
  induction bytes with
  | nil => rfl
  | cons b bytes ih => exact congrArg (b :: ·) ih

namespace Session
variable {ω : Type} (obs : Client → Item → List ω)

/-- What an observer of the messages sees in a turn. -/
def seen (s : Session) (t : Turn) : List ω :=
  match t.read with
  | .bytes chunk =>
      if t.shutdown ∨ t.stale then []
      else framing.log obs Client.act s.client (s.buf ++ chunk.bytes)
  | .eof => []
  | .wouldBlock => []
  | .error => []

/-- The turns one after the other, until one ends the loop, and what the
observer has seen. -/
def feed (s : Session) (turns : List Turn) : Flow (Session × List ω) :=
  acts (logged (seen obs) turn) (s, []) turns

end Session

section Feed
variable {ω : Type} {obs : Client → Item → List ω}

/-- The session is what it is without the observer. -/
theorem feed_state (obs : Client → Item → List ω) (s : Session) (turns : List Turn) :
    acts Session.turn s turns = (s.feed obs turns).map Prod.fst :=
  acts_logged_fst (Session.seen obs) Session.turn (s, []) turns

/-- The client's variables and the observer's log, at the end of a batch. -/
abbrev flushLogged : Client × List ω → Client × List ω :=
  Prod.map Client.flushAbs id

/-- The session and the observer have been sent the stream. -/
def TracksLogged (obs : Client → Item → List ω) (c₀ : Client) (stream : List UInt8)
    (p : Session × List ω) : Prop :=
  framing.Tracks (logged obs Client.act) flushLogged (c₀, []) stream (p.1.client, p.2) p.1.buf

/-- A part of the stream has stopped the session. -/
def EndsLogged (obs : Client → Item → List ω) (c₀ : Client) (stream : List UInt8)
    (p : Session × List ω) : Prop :=
  framing.Ends (logged obs Client.act) flushLogged (c₀, []) stream (p.1.client, p.2)

theorem tracksLogged_new (obs : Client → Item → List ω) (hid : Hid) (room : Option Nat) :
    TracksLogged obs (Session.new hid room).client [] (.new hid room, []) :=
  framing.tracks_start _ _ _

theorem turn_reads (s : Session) (chunk : Chunk) :
    s.turn (.reads chunk) =
      match framing.drain Client.act s.client (s.buf ++ chunk.bytes) with
      | .go (c, rest) => .go { client := c.flushAbs, buf := rest }
      | .stop (c, rest) => .stop { client := c, buf := rest } :=
  rfl

theorem turn_wouldBlock (s : Session) :
    s.turn { shutdown := false, stale := false, read := .wouldBlock } = .go s :=
  rfl

/-- An undisturbed turn reads a chunk, or finds nothing. -/
theorem Turn.Undisturbed.cases {t : Turn} (h : t.Undisturbed) :
    (∃ chunk, t = .reads chunk) ∨ t = { shutdown := false, stale := false, read := .wouldBlock } := by
  obtain ⟨shutdown, stale, read⟩ := t
  obtain ⟨rfl, rfl, hread⟩ := h
  cases read with
  | bytes chunk => exact .inl ⟨chunk, rfl⟩
  | wouldBlock => exact .inr rfl
  | eof => exact hread.elim
  | error => exact hread.elim

/-- A turn that reads is one run of the logged parser. -/
theorem logged_turn_reads (p : Session × List ω) (chunk : Chunk) :
    logged (Session.seen obs) Session.turn p (.reads chunk) =
      match framing.drain (logged obs Client.act) (p.1.client, p.2) (p.1.buf ++ chunk.bytes) with
      | .go (q, rest) => .go ({ client := q.1.flushAbs, buf := rest }, q.2)
      | .stop (q, rest) => .stop ({ client := q.1, buf := rest }, q.2) := by
  rw [logged, turn_reads, framing.drain_logged]
  cases framing.drain Client.act p.1.client (p.1.buf ++ chunk.bytes) with
  | go r => rfl
  | stop r => rfl

theorem logged_turn_wouldBlock (p : Session × List ω) :
    logged (Session.seen obs) Session.turn p
      { shutdown := false, stale := false, read := .wouldBlock } = .go p := by
  rw [logged, turn_wouldBlock]
  simp only [Flow.map, Session.seen, List.append_nil]

theorem tracksLogged_turn {c₀ : Client} {stream : List UInt8} {p q : Session × List ω} {t : Turn}
    (hund : t.Undisturbed) (h : TracksLogged obs c₀ stream p)
    (ht : logged (Session.seen obs) Session.turn p t = .go q) :
    TracksLogged obs c₀ (stream ++ t.received) q := by
  rcases hund.cases with ⟨chunk, rfl⟩ | rfl
  · rw [logged_turn_reads] at ht
    split at ht
    · next hdrain =>
        cases ht
        exact framing.tracks_read h hdrain
    · cases ht
  · rw [logged_turn_wouldBlock] at ht
    cases ht
    simp only [Turn.received, List.append_nil]
    exact h

theorem endsLogged_turn {c₀ : Client} {stream : List UInt8} {p q : Session × List ω} {t : Turn}
    (hund : t.Undisturbed) (h : TracksLogged obs c₀ stream p)
    (ht : logged (Session.seen obs) Session.turn p t = .stop q) :
    EndsLogged obs c₀ (stream ++ t.received) q := by
  rcases hund.cases with ⟨chunk, rfl⟩ | rfl
  · rw [logged_turn_reads] at ht
    split at ht
    · cases ht
    · next hdrain =>
        cases ht
        exact framing.ends_read h hdrain
  · rw [logged_turn_wouldBlock] at ht
    cases ht

theorem tracksLogged_acts {c₀ : Client} {stream : List UInt8} {p q : Session × List ω}
    {turns : List Turn} (hund : ∀ t ∈ turns, t.Undisturbed) (h : TracksLogged obs c₀ stream p)
    (hrun : acts (logged (Session.seen obs) Session.turn) p turns = .go q) :
    TracksLogged obs c₀ (stream ++ turns.flatMap Turn.received) q := by
  induction turns generalizing stream p with
  | nil =>
      cases hrun
      rw [List.flatMap_nil, List.append_nil]
      exact h
  | cons t turns ih =>
      obtain ⟨ht, hts⟩ := List.forall_mem_cons.mp hund
      rw [acts] at hrun
      cases hst : logged (Session.seen obs) Session.turn p t with
      | go p' =>
          rw [hst] at hrun
          rw [List.flatMap_cons, ← List.append_assoc]
          exact ih hts (tracksLogged_turn ht h hst) hrun
      | stop p' =>
          rw [hst] at hrun
          cases hrun

theorem endsLogged_acts {c₀ : Client} {stream : List UInt8} {p q : Session × List ω}
    {turns : List Turn} (hund : ∀ t ∈ turns, t.Undisturbed) (h : TracksLogged obs c₀ stream p)
    (hrun : acts (logged (Session.seen obs) Session.turn) p turns = .stop q) :
    EndsLogged obs c₀ (stream ++ turns.flatMap Turn.received) q := by
  induction turns generalizing stream p with
  | nil => cases hrun
  | cons t turns ih =>
      obtain ⟨ht, hts⟩ := List.forall_mem_cons.mp hund
      rw [acts] at hrun
      rw [List.flatMap_cons, ← List.append_assoc]
      cases hst : logged (Session.seen obs) Session.turn p t with
      | go p' =>
          rw [hst] at hrun
          exact ih hts (tracksLogged_turn ht h hst) hrun
      | stop p' =>
          rw [hst] at hrun
          cases hrun
          -- The turns after this one are not taken.
          exact framing.ends_append (endsLogged_turn ht h hst) _

/-- A session that goes on has been sent what was read. -/
theorem tracks_feed {hid : Hid} {room : Option Nat} {turns : List Turn} {p : Session × List ω}
    (hund : ∀ t ∈ turns, t.Undisturbed) (hrun : (Session.new hid room).feed obs turns = .go p) :
    TracksLogged obs (Session.new hid room).client (turns.flatMap Turn.received) p :=
  tracksLogged_acts hund (tracksLogged_new obs hid room) hrun

/-- A session that has stopped was halted by a part of what was read. -/
theorem ends_feed {hid : Hid} {room : Option Nat} {turns : List Turn} {p : Session × List ω}
    (hund : ∀ t ∈ turns, t.Undisturbed) (hrun : (Session.new hid room).feed obs turns = .stop p) :
    EndsLogged obs (Session.new hid room).client (turns.flatMap Turn.received) p :=
  endsLogged_acts hund (tracksLogged_new obs hid room) hrun

/-! ## Bytes behind the end -/

/-- A read that ends the session ends it in the same way with more bytes. -/
theorem feed_append {s : Session} {before : List Turn} {chunk chunk' : Chunk}
    {p : Session × List ω} (hchunk : chunk.bytes <+: chunk'.bytes)
    (h : s.feed obs (before ++ [.reads chunk]) = .stop p) (more : List Turn) :
    ∃ p', s.feed obs (before ++ .reads chunk' :: more) = .stop p' ∧ p'.1.client = p.1.client ∧
      p'.2 = p.2 := by
  rw [Session.feed, acts_append] at h ⊢
  cases hbefore : acts (logged (Session.seen obs) Session.turn) (s, []) before with
  | stop q =>
      rw [hbefore] at h
      cases h
      exact ⟨p, rfl, rfl, rfl⟩
  | go q =>
      rw [hbefore] at h
      obtain ⟨cs, hcs⟩ := hchunk
      simp only [acts, logged_turn_reads] at h ⊢
      cases hdrain : framing.drain (logged obs Client.act) (q.1.client, q.2)
          (q.1.buf ++ chunk.bytes) with
      | go r =>
          rw [hdrain] at h
          cases h
      | stop r =>
          rw [hdrain] at h
          cases h
          have hdrain' := framing.drain_stop_append hdrain cs
          rw [List.append_assoc, hcs] at hdrain'
          rw [hdrain']
          exact ⟨_, rfl, rfl, rfl⟩

end Feed
end Beaglewing.Bridge
