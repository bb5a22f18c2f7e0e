/-
# `Clipframe.Reassembler` — transfers out of frames, frames into transfers

`encode_transfer` and the receiving state machine `Reassembler` of
`protocol/clipframe/src/lib.rs`.  A transfer is START (kind and total
length), DATA frames numbered from START's sequence, and END, which echoes
the total.  The receiver keeps one transfer at a time.

`feed` reads a frame through `parse` only, so it is the machine
`feedParsed` on the parsed frames, with an error for the others; the lemmas
of the last two sections say what one frame of each type does.  A transfer
in progress is a record here (`Active`), a tuple in the source.
-/
import Beaglewing.Base.Mealy
import Beaglewing.Clipframe.Frame

namespace Beaglewing.Clipframe

open Base

/-! ## Sending -/

/-- `p[0..5]` of a START: the kind and the total length. -/
def startPayload (kind : UInt8) (total : UInt32) : Payload :=
  ⟨kind :: toLe32 total, by simp [maxPayload, frameLen]⟩

/-- The DATA loop: the sequence steps before each frame.  Returns the frames
and the sequence reached. -/
def encodeData (seq : UInt16) : List Payload → List Frame × UInt16
  | [] => ([], seq)
  | chunk :: rest =>
      let (out, last) := encodeData (seq + 1) rest
      (frame tData (seq + 1) chunk :: out, last)

/-- One complete transfer as a frame sequence. -/
def encodeTransfer (kind : UInt8) (data : List UInt8) : List Frame :=
  let total := UInt32.ofNat data.length
  let (out, seq) := encodeData 0 (chunks maxPayload data)
  frame tStart 0 (startPayload kind total) :: out ++ [frame tEnd (seq + 1) (wordPayload total)]

/-! ## Receiving -/

/-- The transfer in progress: kind, total, last_seq, data. -/
structure Active where
  kind : UInt8
  total : UInt32
  lastSeq : UInt16
  data : List UInt8
deriving DecidableEq

structure Reassembler where
  active : Option Active
  dataFrames : UInt32
deriving DecidableEq

/-- `Reassembler::default()`. -/
def Reassembler.default : Reassembler := ⟨none, 0⟩

inductive FeedResult where
  | none
  | ping
  | progress (n : UInt32)
  | complete (kind : UInt8) (data : List UInt8)
  | offer (o : Offer)
  | pull (id : UInt32)
  | error (msg : String)
deriving DecidableEq

/-- (bytes received, total bytes) of the transfer in progress. -/
def Reassembler.status (r : Reassembler) : Option (Nat × UInt32) :=
  r.active.map fun a => (a.data.length, a.total)

namespace Reassembler

/-- `T_OFFER`: eleven bytes, or an error. -/
def feedOffer (r : Reassembler) (p : Payload) : Reassembler × FeedResult :=
  match p.val with
  | [b₀, b₁, b₂, b₃, b₄, b₅, b₆, b₇, b₈, b₉, b₁₀] =>
      (r, .offer {
        kind := b₀
        total := fromLe32 b₁ b₂ b₃ b₄
        items := fromLe16 b₅ b₆
        id := fromLe32 b₇ b₈ b₉ b₁₀ })
  | _ => (r, .error "bad OFFER payload")

/-- `T_PULL`: four bytes, or an error. -/
def feedPull (r : Reassembler) (p : Payload) : Reassembler × FeedResult :=
  match readWord p with
  | some id => (r, .pull id)
  | none => (r, .error "bad PULL payload")

/-- `T_START`: five bytes, or an error that keeps the transfer in progress.
A total over the cap drops it; any other START replaces it. -/
def feedStart (r : Reassembler) (seq : UInt16) (p : Payload) : Reassembler × FeedResult :=
  match p.val with
  | [kind, b₁, b₂, b₃, b₄] =>
      let total := fromLe32 b₁ b₂ b₃ b₄
      if total > maxTransfer then ({ r with active := none }, .error "transfer too large")
      else (⟨some ⟨kind, total, seq, []⟩, 0⟩, .none)
  | _ => (r, .error "bad START payload")

/-- `T_DATA`: the bytes are appended before the overrun check. -/
def feedData (r : Reassembler) (seq : UInt16) (p : Payload) : Reassembler × FeedResult :=
  match r.active with
  | none => (r, .error "DATA without START")
  | some a =>
      if seq ≠ a.lastSeq + 1 then ({ r with active := none }, .error "sequence gap")
      else
        let data := a.data ++ p.val
        if UInt32.ofNat data.length > a.total then
          ({ r with active := none }, .error "overrun")
        else
          (⟨some { a with lastSeq := seq, data }, r.dataFrames + 1⟩,
            .progress (r.dataFrames + 1))

/-- `T_END`: takes the transfer in progress, whatever the outcome. -/
def feedEnd (r : Reassembler) (seq : UInt16) (p : Payload) : Reassembler × FeedResult :=
  match r.active with
  | none => (r, .error "END without START")
  | some a =>
      let r' := { r with active := none }
      if seq ≠ a.lastSeq + 1 then (r', .error "sequence gap at END")
      else if readWord p ≠ some a.total ∨ UInt32.ofNat a.data.length ≠ a.total then
        (r', .error "length mismatch at END")
      else (r', .complete a.kind a.data)

/-- `feed` on a frame that parses. -/
def feedParsed (r : Reassembler) (p : Parsed) : Reassembler × FeedResult :=
  if p.t = tPing then (r, .ping)
  else if p.t = tPong then (r, .none)
  else if p.t = tAbort then ({ r with active := none }, .none)
  else if p.t = tAck then (r, .none)
  else if p.t = tOffer then r.feedOffer p.payload
  else if p.t = tPull then r.feedPull p.payload
  else if p.t = tStart then r.feedStart p.seq p.payload
  else if p.t = tData then r.feedData p.seq p.payload
  else if p.t = tEnd then r.feedEnd p.seq p.payload
  else (r, .error "unknown frame type")

def feed (r : Reassembler) (raw : Frame) : Reassembler × FeedResult :=
  match parse raw with
  | none => (r, .error "unparseable frame")
  | some p => r.feedParsed p

end Reassembler

/-- The receiver as a machine on frames. -/
def receiver : Mealy Reassembler Frame FeedResult := ⟨Reassembler.feed⟩

/-- The states a receiver can be in: those reached from the default state by
some frames. -/
def Reassembler.Reachable (r : Reassembler) : Prop :=
  ∃ fs, r = receiver.run .default fs

/-! ## What `encodeTransfer` writes -/

@[simp] theorem length_encodeData (seq : UInt16) (cs : List Payload) :
    (encodeData seq cs).1.length = cs.length := by
  induction cs generalizing seq with
  | nil => rfl
  | cons c cs ih => simp only [encodeData, List.length_cons, ih]

/-- The START frame of a transfer. -/
def startFrame (kind : UInt8) (data : List UInt8) : Frame :=
  frame tStart 0 (startPayload kind (UInt32.ofNat data.length))

/-- The DATA frames of a transfer. -/
def dataPart (data : List UInt8) : List Frame := (encodeData 0 (chunks maxPayload data)).1

/-- The END frame of a transfer. -/
def endFrame (data : List UInt8) : Frame :=
  frame tEnd ((encodeData 0 (chunks maxPayload data)).2 + 1)
    (wordPayload (UInt32.ofNat data.length))

theorem encodeTransfer_eq (kind : UInt8) (data : List UInt8) :
    encodeTransfer kind data = startFrame kind data :: (dataPart data ++ [endFrame data]) := rfl

/-- Every frame of the DATA loop is a DATA frame that carries one of the
blocks. -/
theorem exists_of_mem_encodeData {seq : UInt16} {cs : List Payload} {f : Frame}
    (h : f ∈ (encodeData seq cs).1) : ∃ s, ∃ c ∈ cs, f = frame tData s c := by
  induction cs generalizing seq with
  | nil => cases h
  | cons c cs ih =>
      rcases List.mem_cons.mp h with h | h
      · exact ⟨seq + 1, c, List.mem_cons_self, h⟩
      · obtain ⟨s, c', hc', hf⟩ := ih h
        exact ⟨s, c', List.mem_cons_of_mem _ hc', hf⟩

/-! ## Frames by type

`feedParsed` picks its branch by the type; these are its branches, one
lemma a type, so that no later proof opens the chain of tests. -/

namespace Reassembler
variable (r : Reassembler) (seq : UInt16) (p : Payload)

theorem feed_of_parse {raw : Frame} {q : Parsed} (h : parse raw = some q) :
    r.feed raw = r.feedParsed q := by
  simp only [feed, h]

@[simp] theorem feed_frame (t : UInt8) :
    r.feed (frame t seq p) = r.feedParsed ⟨t, seq, p⟩ := by
  simp only [feed, parse_frame]

variable {r} {q : Parsed}

theorem feedParsed_start (h : q.t = tStart) : r.feedParsed q = r.feedStart q.seq q.payload := by
  unfold feedParsed
  rw [h]
  rfl

theorem feedParsed_data (h : q.t = tData) : r.feedParsed q = r.feedData q.seq q.payload := by
  unfold feedParsed
  rw [h]
  rfl

theorem feedParsed_end (h : q.t = tEnd) : r.feedParsed q = r.feedEnd q.seq q.payload := by
  unfold feedParsed
  rw [h]
  rfl

theorem feedParsed_abort (h : q.t = tAbort) :
    r.feedParsed q = ({ r with active := none }, .none) := by
  unfold feedParsed
  rw [h]
  rfl

theorem feedParsed_offer (h : q.t = tOffer) : r.feedParsed q = r.feedOffer q.payload := by
  unfold feedParsed
  rw [h]
  rfl

theorem feedParsed_pull (h : q.t = tPull) : r.feedParsed q = r.feedPull q.payload := by
  unfold feedParsed
  rw [h]
  rfl

end Reassembler

/-- A frame that is none of START, DATA, END, ABORT: a control frame, an
unknown type, or one that does not parse. -/
def NonTransfer (f : Frame) : Prop :=
  ∀ p, parse f = some p → p.t ≠ tStart ∧ p.t ≠ tData ∧ p.t ≠ tEnd ∧ p.t ≠ tAbort

/-- The parsed frames that move no transfer: a type outside the transfer
ones. -/
theorem Reassembler.feedParsed_of_other (r : Reassembler) {p : Parsed}
    (hs : p.t ≠ tStart) (hd : p.t ≠ tData) (he : p.t ≠ tEnd) (ha : p.t ≠ tAbort) :
    (r.feedParsed p).1 = r ∧ (∀ k d, (r.feedParsed p).2 ≠ .complete k d) ∧
      ∀ n, (r.feedParsed p).2 ≠ .progress n := by
  unfold feedParsed
  rw [if_neg ha, if_neg hs, if_neg hd, if_neg he]
  repeat' split
  all_goals try exact ⟨rfl, (fun _ _ h => nomatch h), (fun _ h => nomatch h)⟩
  · unfold feedOffer
    split <;> exact ⟨rfl, (fun _ _ h => nomatch h), (fun _ h => nomatch h)⟩
  · unfold feedPull
    split <;> exact ⟨rfl, (fun _ _ h => nomatch h), (fun _ h => nomatch h)⟩

/-- A non-transfer frame leaves the receiver as it is and completes nothing. -/
theorem NonTransfer.feed_eq {f : Frame} (h : NonTransfer f) (r : Reassembler) :
    (r.feed f).1 = r ∧ ∀ k d, (r.feed f).2 ≠ .complete k d := by
  cases hp : parse f with
  | none => simp [Reassembler.feed, hp]
  | some p =>
      obtain ⟨hs, hd, he, ha⟩ := h p hp
      rw [r.feed_of_parse hp]
      have := r.feedParsed_of_other hs hd he ha
      exact ⟨this.1, this.2.1⟩

theorem NonTransfer.silent {f : Frame} (h : NonTransfer f) : receiver.Silent f :=
  fun r => (h.feed_eq r).1

theorem nonTransfer_frame {t : UInt8} (seq : UInt16) (p : Payload)
    (h : t ≠ tStart ∧ t ≠ tData ∧ t ≠ tEnd ∧ t ≠ tAbort) : NonTransfer (frame t seq p) := by
  intro q hq
  rw [parse_frame] at hq
  cases hq
  exact h

theorem nonTransfer_offerFrame (o : Offer) : NonTransfer (offerFrame o) :=
  nonTransfer_frame _ _ (by decide)

/-- An OFFER frame is read back as the offer it was built from. -/
theorem feed_offerFrame (r : Reassembler) (o : Offer) :
    r.feed (offerFrame o) = (r, .offer o) := by
  rw [offerFrame, Reassembler.feed_frame, Reassembler.feedParsed_offer rfl]
  show (r, FeedResult.offer ⟨o.kind, fromLe32 _ _ _ _, fromLe16 _ _, fromLe32 _ _ _ _⟩) = _
  rw [fromLe32_toLe32, fromLe16_toLe16, fromLe32_toLe32]

theorem feed_pullFrame (r : Reassembler) (id : UInt32) :
    r.feed (pullFrame id) = (r, .pull id) := by
  rw [pullFrame, Reassembler.feed_frame, Reassembler.feedParsed_pull rfl, Reassembler.feedPull,
    readWord_wordPayload]

/-! ## What START, DATA and END do -/

namespace Reassembler

/-- A START of this format always has five bytes. -/
theorem feedStart_startPayload (r : Reassembler) (seq : UInt16) (kind : UInt8) (total : UInt32) :
    r.feedStart seq (startPayload kind total) =
      if total > maxTransfer then ({ r with active := none }, .error "transfer too large")
      else (⟨some ⟨kind, total, seq, []⟩, 0⟩, .none) := by
  simp only [feedStart, startPayload, toLe32, fromLe32_toLe32]

/-- A START of another length is refused, and what is in progress stays. -/
theorem feedStart_of_length_ne {p : Payload} (h : p.val.length ≠ 5) (r : Reassembler)
    (seq : UInt16) : r.feedStart seq p = (r, .error "bad START payload") := by
  unfold feedStart
  split
  next heq => exact absurd (by rw [heq]; rfl) h
  next => rfl

/-- DATA that leaves a transfer in progress was the next of it and fits. -/
theorem feedData_active {r : Reassembler} {seq : UInt16} {p : Payload} {a' : Active} :
    (r.feedData seq p).1.active = some a' ↔
      ∃ a, r.active = some a ∧ seq = a.lastSeq + 1 ∧
        ¬ UInt32.ofNat (a.data ++ p.val).length > a.total ∧
        a' = { a with lastSeq := seq, data := a.data ++ p.val } := by
  unfold feedData
  cases hr : r.active with
  | none => simp [hr]
  | some a =>
      simp only [Option.some.injEq, exists_eq_left']
      split
      next hseq => simp [hseq]
      next hseq =>
        rw [not_not] at hseq
        split
        next hover =>
          exact ⟨(fun h => nomatch h), fun h => absurd hover h.2.1⟩
        next hover =>
          rw [Option.some.injEq]
          exact ⟨fun h => ⟨hseq, hover, h.symm⟩, fun h => h.2.2.symm⟩

theorem feedData_ne_complete (r : Reassembler) (seq : UInt16) (p : Payload) (k : UInt8)
    (d : List UInt8) : (r.feedData seq p).2 ≠ .complete k d := by
  unfold feedData
  cases r.active with
  | none => exact fun h => nomatch h
  | some a =>
      simp only
      split
      next => exact fun h => nomatch h
      next => split <;> exact fun h => nomatch h

@[simp] theorem feedEnd_active (r : Reassembler) (seq : UInt16) (p : Payload) :
    (r.feedEnd seq p).1.active = none := by
  unfold feedEnd
  cases hr : r.active with
  | none => exact hr
  | some a =>
      simp only
      repeat' split
      all_goals rfl

/-- END completes exactly the transfer in progress that it numbers and whose
length it echoes. -/
theorem feedEnd_complete {r : Reassembler} {seq : UInt16} {p : Payload} {k : UInt8}
    {d : List UInt8} :
    (r.feedEnd seq p).2 = .complete k d ↔
      ∃ a, r.active = some a ∧ seq = a.lastSeq + 1 ∧ p = wordPayload a.total ∧
        UInt32.ofNat a.data.length = a.total ∧ a.kind = k ∧ a.data = d := by
  unfold feedEnd
  cases hr : r.active with
  | none => simp
  | some a =>
      simp only [Option.some.injEq, exists_eq_left']
      split
      next hseq => simp [hseq]
      next hseq =>
        rw [not_not] at hseq
        split
        next hlen =>
          simp only [reduceCtorEq, false_iff, not_and, hseq, true_and]
          intro hp htot
          rw [← readWord_eq_some] at hp
          rcases hlen with h | h
          · exact absurd hp h
          · exact absurd htot h
        next hlen =>
          rw [not_or, not_not, not_not, readWord_eq_some] at hlen
          simp [hseq, hlen]

end Reassembler
end Beaglewing.Clipframe
