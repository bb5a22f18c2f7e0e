/-
# `Agents.Window` — the flow-control window over one session

One endpoint sends transfers back to back, the other feeds what arrives to
its `Reassembler` and writes an ACK every `ackEvery` DATA frames; both
channels are FIFO and lose nothing.  A step is one of

    begin k d   the sender takes up the next transfer
    send a      a step of the sender (`Agents.Send`); a write enters the wire
    recv        the receiver takes the next frame from the wire
    ack         the sender's reader takes the next ACK and stores its count

The cell `acked` is shared by all transfers and an ACK carries a count only,
so the count of an earlier transfer can be taken for one of the current.
Each frame in flight carries here the number of its transfer and of its
attempt; the program has neither.  `ExactAck` says that the window test sees
no more than what the receiver has consumed of the current attempt, with
nothing of an earlier attempt still in flight.

    every window test is exact   at most `ackWindow` DATA frames outstanding   (`outstanding_le_window`)
    in general                   an ACK of the last transfer opens the next    (`window_exceeded`)

## What it is not

The channels lose nothing, so a count says what was consumed; over one that
drops frames it says less (`Agents.Delivery`).  The receiver's own writes are
not under a window: an ACK is written whenever it is due.
-/
import Mathlib
import Beaglewing.Agents.Send
import Beaglewing.Clipframe.RoundTrip

namespace Beaglewing.Agents

open Base Clipframe

/-- A frame in flight, with the transfer and the attempt that wrote it. -/
structure Sent where
  transfer : Nat
  attempt : Nat
  frame : Frame

/-- One direction of a session.  `transfer`, `attempt` and `consumed` are not
in the program: the number of the current transfer and attempt, and the DATA
frames of this attempt that the receiver has taken. -/
structure Link (σ : Type) where
  frames : List Frame
  sender : σ
  acked : UInt32
  wire : List Sent
  receiver : Reassembler
  acks : List Frame
  transfer : Nat
  attempt : Nat
  consumed : Nat

inductive LinkAct where
  | begin (kind : UInt8) (data : List UInt8)
  | send (a : SendAct)
  | recv
  | ack

def isData (f : Frame) : Bool := f.byte 0 = tData

namespace Link
variable {σ : Type}

/-- A DATA frame of the current transfer. -/
def ofTransfer (s : Link σ) (x : Sent) : Bool := x.transfer = s.transfer && isData x.frame

/-- A DATA frame of the current attempt. -/
def ofAttempt (s : Link σ) (x : Sent) : Bool := s.ofTransfer x && x.attempt = s.attempt

/-- A DATA frame of an earlier attempt at the current transfer. -/
def ofEarlier (s : Link σ) (x : Sent) : Bool := s.ofTransfer x && !(x.attempt = s.attempt)

/-- DATA frames of the current transfer, written and not yet consumed. -/
def outstanding (s : Link σ) : Nat := s.wire.countP s.ofTransfer

def current (s : Link σ) : Nat := s.wire.countP s.ofAttempt

def earlier (s : Link σ) : Nat := s.wire.countP s.ofEarlier

theorem outstanding_eq (s : Link σ) : s.outstanding = s.current + s.earlier :=
  countP_split s.ofTransfer (fun x => decide (x.attempt = s.attempt)) s.wire

/-- The count in the cell is covered by what was consumed. -/
def ExactAck (s : Link σ) : LinkAct → Prop
  | .send (.load _) => s.acked.toNat + s.earlier ≤ s.consumed
  | _ => True

end Link

/-- What the receiving side writes for an answer of the `Reassembler`. -/
def acksFor : FeedResult → List Frame
  | .progress n => if n % ackEvery = 0 then [ackFrame n] else []
  | _ => []

section System
variable {σ : Type} (sender : List Frame → Lts σ SendAct) (start : σ) (idle : σ → Bool)

/-- A step of the sender, and what it does to the cell and the wire. -/
def sendStep (s : Link σ) : SendAct → Option (Link σ)
  | .store => ((sender s.frames).step s.sender .store).map fun p =>
      { s with sender := p, acked := 0, attempt := s.attempt + 1, consumed := 0 }
  | .load v =>
      if v = s.acked then
        ((sender s.frames).step s.sender (.load v)).map fun p => { s with sender := p }
      else none
  | .expired b => ((sender s.frames).step s.sender (.expired b)).map fun p => { s with sender := p }
  | .write f ok =>
      if ok then
        ((sender s.frames).step s.sender (.write f true)).map fun p =>
          { s with sender := p, wire := s.wire ++ [⟨s.transfer, s.attempt, f⟩] }
      else none

def recvStep (s : Link σ) : Option (Link σ) :=
  match s.wire with
  | [] => none
  | x :: rest =>
      some { s with
        wire := rest
        receiver := (s.receiver.feed x.frame).1
        acks := s.acks ++ acksFor (s.receiver.feed x.frame).2
        consumed := if s.ofAttempt x then s.consumed + 1 else s.consumed }

def ackStep (s : Link σ) : Option (Link σ) :=
  match s.acks with
  | [] => none
  | f :: rest => some { s with acks := rest, acked := (parseAck f).getD s.acked }

def link : Lts (Link σ) LinkAct where
  step s
    | .begin kind data =>
        if idle s.sender then
          some { s with
            frames := encodeTransfer kind data
            sender := start
            transfer := s.transfer + 1 }
        else none
    | .send a => sendStep sender s a
    | .recv => recvStep s
    | .ack => ackStep s

/-- A session before its first transfer. -/
def Link.init (p : σ) : Link σ where
  frames := []
  sender := p
  acked := 0
  wire := []
  receiver := .default
  acks := []
  transfer := 0
  attempt := 0
  consumed := 0

end System

/-- The sender is between two transfers.  `ret` is not a place where it stays. -/
def Linux.idle : Linux.Retry → Bool
  | .done _ => true
  | .running _ (.ret _) => true
  | _ => false

def Windows.idle : Windows.Sending → Bool
  | .done _ => true
  | _ => false

def Linux.link : Lts (Link Linux.Retry) LinkAct := Agents.link sendWithRetry start idle

def Windows.link : Lts (Link Windows.Sending) LinkAct := Agents.link sendFrames start idle

/-! ## The receiver's count

The count of DATA frames is bounded by the bytes collected, so it stays in
`u32` however many frames are sent. -/

/-- Each frame counted brought at least one byte. -/
def CountOk (r : Reassembler) : Prop :=
  ∀ a, r.active = some a → r.dataFrames.toNat ≤ a.data.length ∧
    a.data.length ≤ a.total.toNat ∧ a.total.toNat ≤ maxTransfer.toNat

/-- The frame carries a byte if it is DATA. -/
def Carries (f : Frame) : Prop := ∀ p, parse f = some p → p.t = tData → p.payload.val ≠ []

theorem countOk_default : CountOk .default := fun _ h => nomatch h

theorem countOk_of_none {r : Reassembler} (h : r.active = none) : CountOk r := by
  intro a ha
  rw [h] at ha
  cases ha

theorem countOk_feedData {r : Reassembler} (h : CountOk r) {seq : UInt16} {p : Payload}
    (hp : p.val ≠ []) :
    CountOk (r.feedData seq p).1 ∧
      ∀ n, (r.feedData seq p).2 = .progress n → n.toNat ≤ maxTransfer.toNat := by
  unfold Reassembler.feedData
  cases hr : r.active with
  | none => exact ⟨countOk_of_none hr, fun n hn => by cases hn⟩
  | some a =>
      obtain ⟨hcount, hlen, htot⟩ := h a hr
      simp only
      split
      next => exact ⟨countOk_of_none rfl, fun n hn => by cases hn⟩
      next =>
        split
        next => exact ⟨countOk_of_none rfl, fun n hn => by cases hn⟩
        next hfit =>
          have hpos := List.length_pos_iff.mpr hp
          have hmax : maxTransfer.toNat = 67108864 := rfl
          have hcast : (UInt32.ofNat (a.data ++ p.val).length).toNat = (a.data ++ p.val).length :=
            toNat_ofNat_length (by rw [List.length_append]; have := p.property; omega)
          rw [gt_iff_lt, UInt32.not_lt, UInt32.le_iff_toNat_le, hcast] at hfit
          have hnext : (r.dataFrames + 1).toNat = r.dataFrames.toNat + 1 := by
            rw [UInt32.toNat_add]
            show (r.dataFrames.toNat + 1) % 2 ^ 32 = _
            omega
          rw [List.length_append] at hfit
          constructor
          · intro a' ha'
            cases ha'
            refine ⟨?_, ?_, htot⟩
            · simp only [hnext, List.length_append]
              omega
            · simpa only [List.length_append] using hfit
          · intro n hn
            cases hn
            omega

/-- One frame keeps the bound, and a count that is answered is within the cap. -/
theorem countOk_feed {r : Reassembler} (h : CountOk r) {f : Frame} (hf : Carries f) :
    CountOk (r.feed f).1 ∧ ∀ n, (r.feed f).2 = .progress n → n.toNat ≤ maxTransfer.toNat := by
  cases hp : parse f with
  | none =>
      rw [Reassembler.feed, hp]
      exact ⟨h, fun n hn => by cases hn⟩
  | some p =>
      rw [r.feed_of_parse hp]
      by_cases hd : p.t = tData
      · rw [Reassembler.feedParsed_data hd]
        exact countOk_feedData h (hf p hp hd)
      by_cases hs : p.t = tStart
      · rw [Reassembler.feedParsed_start hs]
        unfold Reassembler.feedStart
        split
        next k b₁ b₂ b₃ b₄ _ =>
          simp only
          split
          next => exact ⟨countOk_of_none rfl, fun n hn => by cases hn⟩
          next hcap =>
            refine ⟨?_, fun n hn => by cases hn⟩
            intro a ha
            cases ha
            exact ⟨Nat.zero_le _, Nat.zero_le _,
              UInt32.le_iff_toNat_le.mp (UInt32.not_lt.mp hcap)⟩
        next => exact ⟨h, fun n hn => by cases hn⟩
      by_cases he : p.t = tEnd
      · rw [Reassembler.feedParsed_end he]
        refine ⟨countOk_of_none (r.feedEnd_active _ _), ?_⟩
        intro n hn
        unfold Reassembler.feedEnd at hn
        repeat' split at hn
        all_goals cases hn
      by_cases ha : p.t = tAbort
      · rw [Reassembler.feedParsed_abort ha]
        exact ⟨countOk_of_none rfl, fun n hn => by cases hn⟩
      · obtain ⟨hr, -, hn⟩ := r.feedParsed_of_other hs hd he ha
        rw [hr]
        exact ⟨h, fun n h => absurd h (hn n)⟩

/-! ## The frames of a transfer -/

/-- What a link sends: the frames of a transfer, or nothing yet. -/
def Transferred (frames : List Frame) : Prop :=
  frames = [] ∨ ∃ kind data, frames = encodeTransfer kind data

theorem isData_frame (t : UInt8) (seq : UInt16) (p : Payload) :
    isData (frame t seq p) = decide (t = tData) := rfl

/-- The frames under the window are the DATA frames. -/
theorem Transferred.isData_eq {frames : List Frame} (h : Transferred frames) {i : Nat} {f : Frame}
    (hf : frames[i]? = some f) : isData f = windowed frames i := by
  rcases h with rfl | ⟨kind, data, rfl⟩
  · cases hf
  rw [encodeTransfer_eq] at hf ⊢
  cases i with
  | zero =>
      cases hf
      rfl
  | succ j =>
      rw [List.getElem?_cons_succ] at hf
      rcases Nat.lt_or_ge j (dataPart data).length with hj | hj
      · rw [List.getElem?_append_left hj] at hf
        obtain ⟨s, c, rfl⟩ := dataPart_frames data f (List.mem_of_getElem? hf)
        simp [isData_frame, windowed, hj]
      · rw [List.getElem?_append_right hj] at hf
        obtain ⟨hlt, hf⟩ := List.getElem?_eq_some_iff.mp hf
        rw [List.length_singleton] at hlt
        have hf' : f = endFrame data := by
          rw [← hf]
          exact List.getElem_singleton hlt
        rw [hf', endFrame, isData_frame]
        simp only [windowed, List.length_cons, List.length_append, List.length_nil]
        have : ¬ j + 1 < (dataPart data).length + (0 + 1) + 1 - 1 := by omega
        simp only [this, decide_false, Bool.and_false]
        rfl

theorem carries_of_ne_data {t : UInt8} (h : t ≠ tData) (seq : UInt16) (p : Payload) :
    Carries (frame t seq p) := by
  intro q hq ht
  cases (parse_frame _ _ _).symm.trans hq
  exact absurd ht h

theorem Transferred.carries {frames : List Frame} (h : Transferred frames) {f : Frame}
    (hf : f ∈ frames) : Carries f := by
  rcases h with rfl | ⟨kind, data, rfl⟩
  · cases hf
  rw [encodeTransfer_eq] at hf
  rcases List.mem_cons.mp hf with rfl | hf
  · exact carries_of_ne_data (by decide) _ _
  rcases List.mem_append.mp hf with hf | hf
  · obtain ⟨s, c, hc, rfl⟩ := exists_of_mem_encodeData hf
    intro q hq _
    cases (parse_frame _ _ _).symm.trans hq
    exact ne_nil_of_mem_chunks (by decide) c hc
  · cases List.mem_singleton.mp hf
    exact carries_of_ne_data (by decide) _ _

/-! ## The invariant -/

/-- What the place of the sender says about the frames in flight: `cur` of this
attempt, `earlier` of the attempts before it, and `consumed`. -/
def PlaceOk (frames : List Frame) (cur earlier consumed : Nat) : Linux.Retry → Prop
  | .running _ (.window i sent) | .running _ (.stall i sent) =>
      windowed frames i = true ∧ sent.toNat + 1 = i ∧ cur + consumed + 1 = i
  | .running _ (.write i sent) =>
      (windowed frames i = true →
        sent.toNat = i ∧ cur + consumed + 1 = i ∧ i + earlier ≤ consumed + ackWindow.toNat) ∧
      (i = 0 → sent.toNat = 0 ∧ cur + consumed = 0)
  | _ => True

structure Link.Ok (s : Link Linux.Retry) : Prop where
  frames : Transferred s.frames
  tags : ∀ x ∈ s.wire, x.transfer ≤ s.transfer ∧ x.attempt ≤ s.attempt
  carries : ∀ x ∈ s.wire, Carries x.frame
  count : CountOk s.receiver
  acks : ∀ f ∈ s.acks, ∃ n, f = ackFrame n ∧ n.toNat ≤ maxTransfer.toNat
  acked : s.acked.toNat ≤ maxTransfer.toNat
  place : PlaceOk s.frames s.current s.earlier s.consumed s.sender
  bound : s.outstanding ≤ ackWindow.toNat

theorem link_init_ok : (Link.init (.done (.ok ()))).Ok where
  frames := Or.inl rfl
  tags := fun _ h => nomatch h
  carries := fun _ h => nomatch h
  count := countOk_default
  acks := fun _ h => nomatch h
  acked := Nat.zero_le _
  place := trivial
  bound := Nat.zero_le _

theorem placeOk_atFrame {frames : List Frame} {cur earlier consumed k i : Nat} {sent : UInt32}
    (h : i < frames.length →
      (i = 0 → sent.toNat = 0 ∧ cur + consumed = 0) ∧
      (0 < i → sent.toNat + 1 = i ∧ cur + consumed + 1 = i)) :
    PlaceOk frames cur earlier consumed (Linux.afterAttempt k (Linux.atFrame frames i sent)) := by
  unfold Linux.atFrame
  split
  next hi =>
    obtain ⟨h₀, h₁⟩ := h hi
    split
    next hw =>
      have hpos : 0 < i := by
        simp only [windowed, Bool.and_eq_true, decide_eq_true_eq] at hw
        exact hw.1
      exact ⟨hw, h₁ hpos⟩
    next hw => exact ⟨fun h => absurd h hw, h₀⟩
  next => trivial

/-- The end of an attempt leaves nothing to say about the window. -/
theorem placeOk_error {frames : List Frame} {cur earlier consumed k : Nat} {e : String} :
    PlaceOk frames cur earlier consumed (Linux.afterAttempt k (.ret (.error e))) := by
  simp only [Linux.afterAttempt]
  repeat' split
  all_goals trivial

/-- Consuming a frame moves it from one count to the other. -/
theorem PlaceOk.consume {frames : List Frame} {cur cur' earlier earlier' consumed consumed' : Nat}
    {p : Linux.Retry} (h : PlaceOk frames cur earlier consumed p)
    (hsum : cur' + consumed' = cur + consumed) (hearlier : earlier' ≤ earlier)
    (hconsumed : consumed ≤ consumed') : PlaceOk frames cur' earlier' consumed' p := by
  match p, h with
  | .running _ (.window i sent), ⟨hw, hsent, hcur⟩ => exact ⟨hw, hsent, by omega⟩
  | .running _ (.stall i sent), ⟨hw, hsent, hcur⟩ => exact ⟨hw, hsent, by omega⟩
  | .running _ (.write i sent), ⟨hwin, hzero⟩ =>
      constructor
      · intro hw
        obtain ⟨hsent, hcur, hle⟩ := hwin hw
        exact ⟨hsent, by omega, by omega⟩
      · intro hi
        obtain ⟨hsent, hcur⟩ := hzero hi
        exact ⟨hsent, by omega⟩
  | .running _ .entry, _ => trivial
  | .running _ .abort, _ => trivial
  | .running _ (.ret _), _ => trivial
  | .done _, _ => trivial

/-! ## One step -/

section Steps
variable {s s' : Link Linux.Retry} (h : s.Ok)
include h

/-- Nothing of a transfer that has not begun is in flight. -/
theorem ok_begin (kind : UInt8) (data : List UInt8) :
    Link.Ok { s with
      frames := encodeTransfer kind data
      sender := Linux.start
      transfer := s.transfer + 1 } where
  frames := Or.inr ⟨kind, data, rfl⟩
  tags := fun x hx => ⟨Nat.le_succ_of_le (h.tags x hx).1, (h.tags x hx).2⟩
  carries := h.carries
  count := h.count
  acks := h.acks
  acked := h.acked
  place := trivial
  bound := by
    have : Link.outstanding { s with
        frames := encodeTransfer kind data
        sender := Linux.start
        transfer := s.transfer + 1 } = 0 := by
      refine List.countP_eq_zero.mpr ?_
      intro x hx
      have := (h.tags x hx).1
      simp only [Link.ofTransfer, Bool.and_eq_true, decide_eq_true_eq, not_and]
      omega
    rw [this]
    exact Nat.zero_le _

/-- A step of the sender that does not write keeps what is in flight. -/
theorem ok_sender {p : Linux.Retry} (hp : PlaceOk s.frames s.current s.earlier s.consumed p) :
    Link.Ok { s with sender := p } :=
  ⟨h.frames, h.tags, h.carries, h.count, h.acks, h.acked, hp, h.bound⟩

/-- A new attempt has nothing in flight yet. -/
theorem ok_store {p : Linux.Retry}
    (hp : ∀ earlier, PlaceOk s.frames 0 earlier 0 p) :
    Link.Ok { s with sender := p, acked := 0, attempt := s.attempt + 1, consumed := 0 } where
  frames := h.frames
  tags := fun x hx => ⟨(h.tags x hx).1, Nat.le_succ_of_le (h.tags x hx).2⟩
  carries := h.carries
  count := h.count
  acks := h.acks
  acked := Nat.zero_le _
  place := by
    have hcur : Link.current
        { s with sender := p, acked := 0, attempt := s.attempt + 1, consumed := 0 } = 0 := by
      refine List.countP_eq_zero.mpr ?_
      intro x hx
      have := (h.tags x hx).2
      simp only [Link.ofAttempt, Bool.and_eq_true, decide_eq_true_eq, not_and]
      omega
    rw [hcur]
    exact hp _
  bound := h.bound

/-- A write puts one frame in flight, which counts when it is DATA. -/
theorem ok_write {p : Linux.Retry} {f : Frame} (hf : Carries f)
    (hbound : s.outstanding + (isData f).toNat ≤ ackWindow.toNat)
    (hp : PlaceOk s.frames (s.current + (isData f).toNat) s.earlier s.consumed p) :
    Link.Ok { s with sender := p, wire := s.wire ++ [⟨s.transfer, s.attempt, f⟩] } where
  frames := h.frames
  tags := by
    intro x hx
    rcases List.mem_append.mp hx with hx | hx
    · exact h.tags x hx
    · cases List.mem_singleton.mp hx
      exact ⟨Nat.le_refl _, Nat.le_refl _⟩
  carries := by
    intro x hx
    rcases List.mem_append.mp hx with hx | hx
    · exact h.carries x hx
    · cases List.mem_singleton.mp hx
      exact hf
  count := h.count
  acks := h.acks
  acked := h.acked
  place := by
    have hcur : Link.current { s with sender := p, wire := s.wire ++ [⟨s.transfer, s.attempt, f⟩] }
        = s.current + (isData f).toNat := by
      simp only [Link.current, List.countP_append, List.countP_singleton]
      congr 1
      cases hd : isData f <;> simp [Link.ofAttempt, Link.ofTransfer, hd]
    have hearlier : Link.earlier
        { s with sender := p, wire := s.wire ++ [⟨s.transfer, s.attempt, f⟩] } = s.earlier := by
      simp only [Link.earlier, List.countP_append, List.countP_singleton]
      simp [Link.ofEarlier]
      rfl
    rw [hcur, hearlier]
    exact hp
  bound := by
    have : Link.outstanding { s with sender := p, wire := s.wire ++ [⟨s.transfer, s.attempt, f⟩] }
        = s.outstanding + (isData f).toNat := by
      simp only [Link.outstanding, List.countP_append, List.countP_singleton]
      congr 1
      cases hd : isData f <;> simp [Link.ofTransfer, hd]
    rw [this]
    exact hbound

theorem ok_sendStore (hs : sendStep Linux.sendWithRetry s .store = some s') : s'.Ok := by
  obtain ⟨p, hp, rfl⟩ := Option.map_eq_some_iff.mp hs
  obtain ⟨k, -, rfl⟩ := Linux.step_store hp
  refine ok_store h fun earlier => placeOk_atFrame fun _ => ⟨fun _ => ⟨rfl, rfl⟩, ?_⟩
  exact fun h => absurd h (Nat.lt_irrefl 0)

/-- A window test lets a frame through when the counter is that far behind. -/
theorem ok_sendLoad {v : UInt32} (hC : s.ExactAck (.send (.load v)))
    (hs : sendStep Linux.sendWithRetry s (.load v) = some s') : s'.Ok := by
  have hplace := h.place
  simp only [sendStep] at hs
  split at hs
  next hv =>
    obtain ⟨p, hp, rfl⟩ := Option.map_eq_some_iff.mp hs
    obtain ⟨k, i, sent, hsend, rfl⟩ := Linux.step_load hp
    refine ok_sender h ?_
    rw [hsend] at hplace
    obtain ⟨hw, hsent, hcur⟩ := hplace
    cases hclosed : windowClosed sent v with
    | true => exact ⟨hw, hsent, hcur⟩
    | false =>
        have hopen := windowClosed_eq_false.mp hclosed
        have hexact : s.acked.toNat + s.earlier ≤ s.consumed := hC
        have hacked := h.acked
        have hmax : maxTransfer.toNat = 67108864 := rfl
        have hwin : ackWindow.toNat = 256 := rfl
        have hnext : (sent + 1).toNat = sent.toNat + 1 := by
          rw [UInt32.toNat_add]
          show (sent.toNat + 1) % 2 ^ 32 = _
          rw [hv] at hopen
          omega
        subst hv
        exact ⟨fun _ => ⟨by omega, hcur, by omega⟩, fun h₀ => by omega⟩
  next => cases hs

theorem ok_sendExpired {b : Bool} (hs : sendStep Linux.sendWithRetry s (.expired b) = some s') :
    s'.Ok := by
  have hplace := h.place
  obtain ⟨p, hp, rfl⟩ := Option.map_eq_some_iff.mp hs
  obtain ⟨k, i, sent, hsend, rfl⟩ := Linux.step_expired hp
  refine ok_sender h ?_
  rw [hsend] at hplace
  cases b with
  | false => exact hplace
  | true => trivial

/-- A frame of the transfer: DATA was let through by the window test, and any
other frame does not count. -/
theorem ok_sendFrame {k i : Nat} {sent : UInt32} {f : Frame}
    (hsend : s.sender = .running k (.write i sent)) (hf : s.frames[i]? = some f) :
    Link.Ok { s with
      sender := Linux.afterAttempt k (Linux.atFrame s.frames (i + 1) sent)
      wire := s.wire ++ [⟨s.transfer, s.attempt, f⟩] } := by
  have hplace := h.place
  rw [hsend] at hplace
  obtain ⟨hwin, hzero⟩ := hplace
  have hbound := h.bound
  have hsplit := s.outstanding_eq
  have hdata := h.frames.isData_eq hf
  refine ok_write h (h.frames.carries (List.mem_of_getElem? hf)) ?_
    (placeOk_atFrame fun hlt => ⟨fun h => absurd h (Nat.succ_ne_zero i), fun _ => ?_⟩)
  all_goals rw [hdata]
  · cases hw : windowed s.frames i with
    | false => exact hbound
    | true =>
        obtain ⟨-, hcur, hle⟩ := hwin hw
        simp only [Bool.toNat_true]
        omega
  · cases hw : windowed s.frames i with
    | true =>
        obtain ⟨hsent, hcur, -⟩ := hwin hw
        simp only [Bool.toNat_true]
        omega
    | false =>
        -- a frame outside the window with another after it is START
        have hi : i = 0 := by
          simp only [windowed, Bool.and_eq_false_iff, decide_eq_false_iff_not] at hw
          omega
        obtain ⟨hsent, hcur⟩ := hzero hi
        simp only [Bool.toNat_false]
        omega

theorem ok_sendWrite {f : Frame} {ok : Bool}
    (hs : sendStep Linux.sendWithRetry s (.write f ok) = some s') : s'.Ok := by
  simp only [sendStep] at hs
  split at hs
  next hok =>
    obtain ⟨p, hp, rfl⟩ := Option.map_eq_some_iff.mp hs
    subst hok
    rcases Linux.step_write hp with ⟨k, i, sent, hsend, hf, rfl⟩ | ⟨k, -, rfl, rfl⟩
    · exact ok_sendFrame h hsend hf
    · exact ok_write h (carries_of_ne_data (by decide) _ _) h.bound placeOk_error
  next => cases hs

theorem ok_send {a : SendAct} (hC : s.ExactAck (.send a))
    (hs : sendStep Linux.sendWithRetry s a = some s') : s'.Ok := by
  cases a with
  | store => exact ok_sendStore h hs
  | load v => exact ok_sendLoad h hC hs
  | expired b => exact ok_sendExpired h hs
  | write f ok => exact ok_sendWrite h hs

theorem ok_recv (hs : recvStep s = some s') : s'.Ok := by
  unfold recvStep at hs
  split at hs
  next => cases hs
  next x rest hwire =>
    cases hs
    have hx := h.carries x (by rw [hwire]; exact List.mem_cons_self)
    obtain ⟨hcount, hprog⟩ := countOk_feed h.count hx
    have hrest : ∀ y ∈ rest, y ∈ s.wire := fun y hy => by
      rw [hwire]
      exact List.mem_cons_of_mem _ hy
    have hcur : s.current = rest.countP s.ofAttempt + (s.ofAttempt x).toNat := by
      rw [Link.current, hwire, List.countP_cons]
      cases s.ofAttempt x <;> rfl
    have hearlier : s.earlier = rest.countP s.ofEarlier + (s.ofEarlier x).toNat := by
      rw [Link.earlier, hwire, List.countP_cons]
      cases s.ofEarlier x <;> rfl
    have hout : s.outstanding = rest.countP s.ofTransfer + (s.ofTransfer x).toNat := by
      rw [Link.outstanding, hwire, List.countP_cons]
      cases s.ofTransfer x <;> rfl
    refine ⟨h.frames, fun y hy => h.tags y (hrest y hy), fun y hy => h.carries y (hrest y hy), hcount,
      ?_, h.acked, ?_, ?_⟩
    · intro f hf
      rcases List.mem_append.mp hf with hf | hf
      · exact h.acks f hf
      · cases ho : (s.receiver.feed x.frame).2 with
        | progress n =>
            rw [ho] at hf
            simp only [acksFor] at hf
            split at hf
            · exact ⟨n, List.mem_singleton.mp hf, hprog n ho⟩
            · cases hf
        | _ => rw [ho] at hf; cases hf
    · refine h.place.consume ?_ ?_ ?_
      · show rest.countP s.ofAttempt + (if s.ofAttempt x then s.consumed + 1 else s.consumed) = _
        cases hx : s.ofAttempt x <;> simp only [hx, Bool.toNat_true, Bool.toNat_false] at hcur ⊢
        · simp only [Bool.false_eq_true, if_false]
          omega
        · simp only [if_true]
          omega
      · show rest.countP s.ofEarlier ≤ _
        omega
      · show _ ≤ if s.ofAttempt x then s.consumed + 1 else s.consumed
        split <;> omega
    · have hb := h.bound
      show rest.countP s.ofTransfer ≤ _
      omega

theorem ok_ack (hs : ackStep s = some s') : s'.Ok := by
  unfold ackStep at hs
  split at hs
  next => cases hs
  next f rest hacks =>
    cases hs
    obtain ⟨n, rfl, hn⟩ := h.acks f (by rw [hacks]; exact List.mem_cons_self)
    refine ⟨h.frames, h.tags, h.carries, h.count, fun g hg => h.acks g ?_, ?_, h.place, h.bound⟩
    · rw [hacks]
      exact List.mem_cons_of_mem _ hg
    · simpa using hn

end Steps

theorem ok_step (s : Link Linux.Retry) (a : LinkAct) (s' : Link Linux.Retry) (h : s.Ok)
    (hC : s.ExactAck a) (hs : Linux.link.step s a = some s') : s'.Ok := by
  cases a with
  | begin kind data =>
      simp only [Linux.link, link] at hs
      split at hs
      · cases hs
        exact ok_begin h kind data
      · cases hs
  | send a => exact ok_send h hC hs
  | recv => exact ok_recv h hs
  | ack => exact ok_ack h hs

/-! ## Both senders -/

/-- A Linux link as a link with the Windows sender. -/
def Link.toWindows (s : Link Linux.Retry) : Link Windows.Sending where
  frames := s.frames
  sender := Agents.toWindows s.sender
  acked := s.acked
  wire := s.wire
  receiver := s.receiver
  acks := s.acks
  transfer := s.transfer
  attempt := s.attempt
  consumed := s.consumed

theorem idle_toWindows (s : Linux.Retry) : Windows.idle (toWindows s) = Linux.idle s := by
  match s with
  | .running _ .entry => rfl
  | .running _ (.window ..) => rfl
  | .running _ (.stall ..) => rfl
  | .running _ (.write ..) => rfl
  | .running _ .abort => rfl
  | .running _ (.ret _) => rfl
  | .done (.ok ()) => rfl
  | .done (.error _) => rfl

theorem link_toWindows (s : Link Linux.Retry) (a : LinkAct) :
    Windows.link.step s.toWindows a = (Linux.link.step s a).map Link.toWindows := by
  cases a with
  | begin kind data =>
      simp only [Windows.link, Linux.link, link, Link.toWindows, idle_toWindows]
      split <;> rfl
  | send a =>
      simp only [Windows.link, Linux.link, link]
      cases a with
      | load v =>
          simp only [sendStep, Link.toWindows, sendFrames_toWindows]
          split
          · simp only [Option.map_map]
            rfl
          · rfl
      | write f ok =>
          simp only [sendStep, Link.toWindows, sendFrames_toWindows]
          split
          · simp only [Option.map_map]
            rfl
          · rfl
      | store =>
          simp only [sendStep, Link.toWindows, sendFrames_toWindows, Option.map_map]
          rfl
      | expired b =>
          simp only [sendStep, Link.toWindows, sendFrames_toWindows, Option.map_map]
          rfl
  | recv =>
      simp only [Windows.link, Linux.link, link, recvStep, Link.toWindows]
      cases s.wire <;> rfl
  | ack =>
      simp only [Windows.link, Linux.link, link, ackStep, Link.toWindows]
      cases s.acks <;> rfl

/-- **The window.** Over one session, whatever the interleaving of the sender,
the receiver and the ACKs: while every window test sees an exact count, at
most `ackWindow` DATA frames of the current transfer are in flight. -/
theorem outstanding_le_window (acts : List LinkAct) :
    (∀ s, Linux.link.exec (Link.init (.done (.ok ()))) acts = some s →
      Linux.link.Meets Link.ExactAck (Link.init (.done (.ok ()))) acts →
      s.outstanding ≤ ackWindow.toNat) ∧
    (∀ s, Windows.link.exec (Link.init (.done true)) acts = some s →
      Windows.link.Meets Link.ExactAck (Link.init (.done true)) acts →
      s.outstanding ≤ ackWindow.toNat) := by
  have hlinux : ∀ s, Linux.link.exec (Link.init (.done (.ok ()))) acts = some s →
      Linux.link.Meets Link.ExactAck (Link.init (.done (.ok ()))) acts →
      s.outstanding ≤ ackWindow.toNat := fun s h hC =>
    (Linux.link.exec_meets (P := Link.Ok) link_init_ok ok_step h hC).bound
  refine ⟨hlinux, ?_⟩
  intro s h hC
  have hexec := Linux.link.exec_map link_toWindows (Link.init (.done (.ok ()))) acts
  obtain ⟨s', hs', rfl⟩ := Option.map_eq_some_iff.mp (hexec.symm.trans h)
  refine hlinux s' hs' ?_
  exact (Linux.link.meets_map (C := Link.ExactAck) (D := Link.ExactAck) link_toWindows
    (fun _ _ => Iff.rfl) (Link.init (.done (.ok ()))) acts).mp hC

/-! ## A run that leaves the window

A transfer of 128 DATA frames is sent and received; its one ACK is still in
flight when the next transfer begins, and is stored after the cell was set
to zero.  The window then admits 384 DATA frames, none of them consumed. -/

section Exceed
variable {s : Link Linux.Retry} (kind : UInt8) (data : List UInt8)

/-- The labels up to the first window test. -/
def opening (kind : UInt8) (data : List UInt8) : List LinkAct :=
  [.begin kind data, .send .store, .send (.write (startFrame kind data) true)]

/-- The labels that pass some frames through the window, with the cell at `v`. -/
def passing (v : UInt32) : List Frame → List LinkAct
  | [] => []
  | f :: fs => .send (.load v) :: .send (.write f true) :: passing v fs

/-- The state after `opening`. -/
def opened (s : Link Linux.Retry) (kind : UInt8) (data : List UInt8) : Link Linux.Retry where
  frames := encodeTransfer kind data
  sender := .running 0 (Linux.atFrame (encodeTransfer kind data) 1 0)
  acked := 0
  wire := s.wire ++ [⟨s.transfer + 1, s.attempt + 1, startFrame kind data⟩]
  receiver := s.receiver
  acks := s.acks
  transfer := s.transfer + 1
  attempt := s.attempt + 1
  consumed := 0

theorem exec_opening (hidle : Linux.idle s.sender = true) :
    Linux.link.exec s (opening kind data) = some (opened s kind data) := by
  have hbegin := Linux.exec_begin kind data 0
  rw [Lts.exec_cons, Option.bind_eq_some_iff] at hbegin
  obtain ⟨p, hstore, hwrite⟩ := hbegin
  simp only [Lts.exec_cons, Lts.exec_nil, Option.bind_fun_some] at hwrite
  simp only [opening, Lts.exec_cons, Lts.exec_nil, Linux.link, link, hidle, if_true,
    Option.bind_some, sendStep, Linux.start, hstore, hwrite, Option.map_some]
  rfl

/-- Frames that the sender passes get on the wire. -/
theorem exec_passing {p : Linux.Retry} (fs : List Frame) (s : Link Linux.Retry)
    (h : (Linux.sendWithRetry s.frames).exec s.sender (Linux.passes s.acked fs) = some p) :
    Linux.link.exec s (passing s.acked fs) = some { s with
      sender := p
      wire := s.wire ++ fs.map fun f => ⟨s.transfer, s.attempt, f⟩ } := by
  induction fs generalizing s with
  | nil =>
      cases h
      simp [passing]
  | cons f fs ih =>
      rw [Linux.passes, Lts.exec_cons, Option.bind_eq_some_iff] at h
      obtain ⟨p₁, h₁, h⟩ := h
      rw [Lts.exec_cons, Option.bind_eq_some_iff] at h
      obtain ⟨p₂, h₂, h⟩ := h
      have hstep : Linux.link.exec s [.send (.load s.acked), .send (.write f true)] = some { s with
          sender := p₂
          wire := s.wire ++ [⟨s.transfer, s.attempt, f⟩] } := by
        simp [Linux.link, link, sendStep, h₁, h₂]
      have hrest := ih { s with sender := p₂, wire := s.wire ++ [⟨s.transfer, s.attempt, f⟩] } h
      simpa [passing] using Linux.link.exec_trans hstep hrest

/-- The rest of a transfer after `opening`, under an open window. -/
theorem exec_passing_dataPart (h : s.frames = encodeTransfer kind data)
    (hsend : s.sender = .running 0 (Linux.atFrame s.frames 1 0))
    (hopen : (dataPart data).length ≤ s.acked.toNat + 256)
    (hsmall : (dataPart data).length < 2 ^ 16) :
    ∃ p, Linux.link.exec s (passing s.acked (dataPart data)) = some { s with
      sender := p
      wire := s.wire ++ (dataPart data).map fun f => ⟨s.transfer, s.attempt, f⟩ } ∧
      ∃ sent', p = .running 0 (Linux.atFrame s.frames ((dataPart data).length + 1) sent') := by
  have hsplit : dataPart data = [] ++ (dataPart data ++ []) := by simp
  obtain ⟨sent', -, hexec⟩ := Linux.exec_data kind data 0 (v := s.acked) hsplit
    (rfl : (0 : UInt32).toNat = _) (by simpa using hopen) hsmall
  rw [List.length_nil, Nat.zero_add, Nat.zero_add, ← h, ← hsend] at hexec
  exact ⟨_, exec_passing (dataPart data) s hexec, sent', rfl⟩

/-- The END of a transfer, and the return. -/
theorem exec_end (h : s.frames = encodeTransfer kind data) {sent : UInt32}
    (hsend : s.sender = .running 0 (Linux.atFrame s.frames ((dataPart data).length + 1) sent)) :
    Linux.link.exec s [.send (.write (endFrame data) true)] = some { s with
      sender := .done (.ok ())
      wire := s.wire ++ [⟨s.transfer, s.attempt, endFrame data⟩] } := by
  have hfinish := Linux.exec_finish kind data 0 sent
  rw [← h, ← hsend] at hfinish
  simp only [Lts.exec_cons, Lts.exec_nil, Option.bind_fun_some] at hfinish
  simp only [Lts.exec_cons, Lts.exec_nil, Linux.link, link, sendStep, hfinish, if_true,
    Option.map_some, Option.bind_some]

/-- The receiver takes everything in flight. -/
theorem exec_recv : ∀ (wire : List Sent) (s : Link Linux.Retry), s.wire = wire →
    ∃ consumed, Linux.link.exec s (List.replicate wire.length .recv) = some { s with
      wire := []
      receiver := receiver.run s.receiver (wire.map Sent.frame)
      acks := s.acks ++ (receiver.outputs s.receiver (wire.map Sent.frame)).flatMap acksFor
      consumed := consumed }
  | [], s, h => by
      refine ⟨s.consumed, ?_⟩
      obtain ⟨frames, sender, acked, wire, r, acks, transfer, attempt, consumed⟩ := s
      cases h
      simp
  | x :: wire, s, h => by
      have hstep : Linux.link.step s .recv = some { s with
          wire := wire
          receiver := (s.receiver.feed x.frame).1
          acks := s.acks ++ acksFor (s.receiver.feed x.frame).2
          consumed := if s.ofAttempt x then s.consumed + 1 else s.consumed } := by
        simp only [Linux.link, link, recvStep, h]
      obtain ⟨consumed, hexec⟩ := exec_recv wire { s with
          wire := wire
          receiver := (s.receiver.feed x.frame).1
          acks := s.acks ++ acksFor (s.receiver.feed x.frame).2
          consumed := if s.ofAttempt x then s.consumed + 1 else s.consumed } rfl
      refine ⟨consumed, ?_⟩
      rw [List.length_cons, List.replicate_succ, Lts.exec_cons, hstep, Option.bind_some, hexec]
      simp [receiver]

/-- While frames pass, the window tests see what the first of them saw. -/
theorem meets_passing (fs : List Frame) : ∀ (s : Link Linux.Retry) (v : UInt32),
    s.acked.toNat + s.earlier ≤ s.consumed → Linux.link.Meets Link.ExactAck s (passing v fs) := by
  induction fs with
  | nil => exact fun _ _ _ => trivial
  | cons f fs ih =>
      intro s v hexact
      refine ⟨hexact, ?_⟩
      intro s₁ h₁
      refine ⟨trivial, ?_⟩
      intro s₂ h₂
      have hkeep₁ : ∃ p, s₁ = { s with sender := p } := by
        simp only [Linux.link, link, sendStep] at h₁
        split at h₁
        · obtain ⟨p, -, rfl⟩ := Option.map_eq_some_iff.mp h₁
          exact ⟨p, rfl⟩
        · cases h₁
      obtain ⟨p, rfl⟩ := hkeep₁
      have hkeep₂ : ∃ p, s₂ = { s with
          sender := p
          wire := s.wire ++ [⟨s.transfer, s.attempt, f⟩] } := by
        simp only [Linux.link, link, sendStep, if_true] at h₂
        obtain ⟨p, -, rfl⟩ := Option.map_eq_some_iff.mp h₂
        exact ⟨p, rfl⟩
      obtain ⟨p, rfl⟩ := hkeep₂
      refine ih _ v ?_
      -- a frame of this attempt is none of an earlier one
      have hearlier : s.ofEarlier (Sent.mk s.transfer s.attempt f) = false := by
        simp [Link.ofEarlier]
      show s.acked.toNat + (s.wire ++ [Sent.mk s.transfer s.attempt f]).countP s.ofEarlier ≤ s.consumed
      rw [List.countP_append, List.countP_singleton, hearlier]
      exact hexact

/-- So they do over a whole transfer that starts with nothing stored, and with
nothing of an earlier attempt at it in flight. -/
theorem meets_transfer (hidle : Linux.idle s.sender = true)
    (hwire : s.wire = []) (fs : List Frame) :
    Linux.link.Meets Link.ExactAck s (opening kind data ++ passing 0 fs) := by
  refine Linux.link.meets_append ?_ (exec_opening kind data hidle) (meets_passing fs _ 0 ?_)
  · refine Linux.link.meets_of_labels ?_ s
    intro a ha t
    rcases List.mem_cons.mp ha with rfl | ha
    · trivial
    · rcases List.mem_cons.mp ha with rfl | ha
      · trivial
      · rw [List.mem_singleton.mp ha]
        trivial
  · have hearlier : (opened s kind data).earlier = 0 := by
      simp [Link.earlier, Link.ofEarlier, opened, hwire]
    rw [hearlier]
    exact Nat.le_refl 0

/-- After a transfer of 128 DATA frames, all of it consumed: its ACK is still in
flight. -/
theorem exec_first (kind : UInt8) (hlen : data.length ≤ maxTransfer.toNat)
    (hcount : (dataPart data).length = 128) :
    ∃ acts s, Linux.link.exec (Link.init (.done (.ok ()))) acts = some s ∧
      Linux.link.Meets Link.ExactAck (Link.init (.done (.ok ()))) acts ∧
      Linux.idle s.sender = true ∧ s.wire = [] ∧ s.acks = [ackFrame 128] ∧ s.transfer = 1 := by
  have h₁ := exec_opening (s := Link.init (.done (.ok ()))) kind data rfl
  obtain ⟨p, h₂, sent, hp⟩ := exec_passing_dataPart
    (s := opened (Link.init (.done (.ok ()))) kind data) kind data rfl rfl
    (by rw [hcount]; omega) (by rw [hcount]; omega)
  have h₃ := Linux.link.exec_trans (Linux.link.exec_trans h₁ h₂) (exec_end kind data rfl hp)
  obtain ⟨consumed, h₄⟩ := exec_recv _ _ rfl
  have hend : ∀ t, Linux.link.Meets Link.ExactAck t [.send (.write (endFrame data) true)] :=
    fun t => ⟨trivial, fun _ _ => trivial⟩
  have hmeets := Linux.link.meets_append (meets_transfer kind data rfl rfl (dataPart data))
    (Linux.link.exec_trans h₁ h₂) (hend _)
  refine ⟨_, _, Linux.link.exec_trans h₃ h₄, Linux.link.meets_append hmeets h₃
    (Linux.link.meets_of_labels (fun a ha s => by rw [List.eq_of_mem_replicate ha]; trivial) _),
    rfl, rfl, ?_, rfl⟩
  have hout : (receiver.outputs .default (encodeTransfer kind data)).flatMap acksFor
      = [ackFrame 128] := by
    have hchunks : (chunks maxPayload data).length = 128 := by
      rw [← hcount, dataPart, length_encodeData]
    have hacks : (progressFrom 0 128).flatMap acksFor = [ackFrame 128] := by decide +kernel
    rw [outputs_encodeTransfer hlen, hchunks, List.flatMap_cons, List.flatMap_append, hacks]
    rfl
  have hwire : (((opened (Link.init (.done (.ok ()))) kind data).wire
      ++ (dataPart data).map fun f => Sent.mk 1 1 f) ++ [Sent.mk 1 1 (endFrame data)]).map
        Sent.frame = encodeTransfer kind data := by
    clear h₃ h₄ hp
    rw [encodeTransfer_eq]
    simp [opened, Link.init, Function.comp_def]
  rw [← hwire] at hout
  exact hout

/-- All of a transfer but its END is in flight. -/
theorem outstanding_of_wire {t : Link Linux.Retry} (kind : UInt8) (data : List UInt8)
    (hwire : t.wire = ⟨t.transfer, t.attempt, startFrame kind data⟩ ::
      (dataPart data).map fun f => ⟨t.transfer, t.attempt, f⟩) :
    t.outstanding = (dataPart data).length := by
  have hdata : ∀ f ∈ dataPart data, isData f = true := by
    intro f hf
    obtain ⟨q, c, rfl⟩ := dataPart_frames data f hf
    rfl
  have hstart : isData (startFrame kind data) = false := rfl
  rw [Link.outstanding, hwire, List.countP_cons, List.countP_map]
  simp only [Link.ofTransfer, hstart, decide_true, Bool.and_false, Function.comp_def,
    Bool.true_and, Bool.false_eq_true, if_false, Nat.add_zero]
  exact List.countP_eq_length.mpr hdata

/-- A transfer of 257 DATA frames after it goes out whole. -/
theorem exec_second (kind : UInt8) {acts : List LinkAct} (hcount : (dataPart data).length = 257)
    (hexec : Linux.link.exec (Link.init (.done (.ok ()))) acts = some s)
    (hidle : Linux.idle s.sender = true) (hwire : s.wire = []) (hacks : s.acks = [ackFrame 128]) :
    ∃ acts' s', Linux.link.exec (Link.init (.done (.ok ()))) acts' = some s' ∧
      s'.outstanding = 257 := by
  have h₁ := exec_opening kind data hidle
  have h₂ : Linux.link.exec (opened s kind data) [.ack]
      = some { opened s kind data with acks := [], acked := 128 } := by
    simp [Linux.link, link, ackStep, opened, hacks]
  obtain ⟨p, h₃, -⟩ := exec_passing_dataPart
    (s := { opened s kind data with acks := [], acked := 128 }) kind data rfl rfl
    (by rw [hcount]; exact (by decide : 257 ≤ (128 : UInt32).toNat + 256)) (by rw [hcount]; omega)
  refine ⟨_, _, Linux.link.exec_trans hexec (Linux.link.exec_trans h₁ (Linux.link.exec_trans h₂ h₃)),
    ?_⟩
  rw [outstanding_of_wire kind data (by rw [opened, hwire]; rfl), hcount]

end Exceed

/-- A text of 130304 bytes is sent, and its ACK stored; of the one after it the
frames up to the END are in flight. -/
theorem outstanding_le_window_twoTexts : ∃ acts s,
    Linux.link.exec (Link.init (.done (.ok ()))) acts = some s ∧ LinkAct.ack ∈ acts ∧
      s.transfer = 2 ∧ s.outstanding = 3 ∧ s.outstanding ≤ ackWindow.toNat := by
  obtain ⟨data, hthree⟩ : ∃ data : List UInt8, (dataPart data).length = 3 :=
    ⟨List.replicate 3000 0, by rw [length_dataPart, List.length_replicate]; rfl⟩
  obtain ⟨acts, s, hexec, hmeets, hidle, hwire, hacks, hone⟩ :=
    exec_first (List.replicate 130304 0) kindText
      (by rw [List.length_replicate]; decide) (by rw [length_dataPart, List.length_replicate]; rfl)
  have hack : Linux.link.exec s [.ack] = some { s with acks := [], acked := 128 } := by
    simp [Linux.link, link, ackStep, hacks]
  have hquiet : Linux.link.Meets Link.ExactAck s [.ack] := ⟨trivial, fun _ _ => trivial⟩
  have h₁ := exec_opening (s := { s with acks := [], acked := 128 }) kindText data hidle
  obtain ⟨p, h₂, -⟩ := exec_passing_dataPart
    (s := opened { s with acks := [], acked := 128 } kindText data) kindText data rfl rfl
    (by rw [hthree]; omega) (by rw [hthree]; omega)
  have hrun := Linux.link.exec_trans (Linux.link.exec_trans hexec hack)
    (Linux.link.exec_trans h₁ h₂)
  have hexact := Linux.link.meets_append (Linux.link.meets_append hmeets hexec hquiet)
    (Linux.link.exec_trans hexec hack)
    (meets_transfer (s := { s with acks := [], acked := 128 }) kindText data hidle hwire
      (dataPart data))
  refine ⟨_, _, hrun, by simp, ?_, ?_, (outstanding_le_window _).1 _ hrun hexact⟩
  · rw [opened, hone]
  · rw [outstanding_of_wire kindText data (by rw [opened, hwire]; rfl), hthree]

/-- **The window is exceeded.** A text of 130304 bytes, then one of 261626: the
ACK of the first is stored after the second began. -/
theorem window_exceeded :
    ¬ ∀ (acts : List LinkAct) (s : Link Linux.Retry),
      Linux.link.exec (Link.init (.done (.ok ()))) acts = some s →
      s.outstanding ≤ ackWindow.toNat := by
  intro h
  obtain ⟨acts, s, hexec, -, hidle, hwire, hacks, -⟩ := exec_first (List.replicate 130304 0) kindText
    (by rw [List.length_replicate]; decide) (by rw [length_dataPart, List.length_replicate]; rfl)
  obtain ⟨acts', s', hexec', hout⟩ := exec_second (List.replicate 261626 0) kindText
    (by rw [length_dataPart, List.length_replicate]; rfl) hexec hidle hwire hacks
  have := h acts' s' hexec'
  rw [hout] at this
  exact absurd this (by decide)

end Beaglewing.Agents
