/-
# `Agents.Lane` — one direction of traffic, drained

Everything that travels because of one sender: its frames on their way to
the receiver, and the ACKs on their way back to the cell it reads.  A lane
is asynchronous, but what a delivery or a reception leaves to come is fixed:
`drain` is the state the lane settles in when everything in flight has been
delivered, and only the sender changes it (`drain_deliver`,
`drain_receive`).  A write changes it as if the receiver answered at once
(`drain_write`).

So the invariant of a sender, `LaneOk`, speaks of the drained lane: after
`m` DATA frames the receiver has counted `m`, and when `m` is 128 or more
the cell shows the last multiple of `ackEvery` (`Caught`), whatever an
earlier transfer left in flight.  A sender that is still blocked in a
drained lane would have counted `ackWindow` past that (`not_blocked`).
-/
import Beaglewing.Agents.Window

namespace Beaglewing.Agents

open Base Clipframe

/-- The counts the receiving side acknowledges for some answers. -/
def counts (os : List FeedResult) : List UInt32 := (os.flatMap acksFor).filterMap parseAck

/-- The transfers completed. -/
def completions (os : List FeedResult) : List (UInt8 × List UInt8) :=
  os.filterMap fun
    | .complete k d => some (k, d)
    | _ => none

theorem counts_append (os os' : List FeedResult) : counts (os ++ os') = counts os ++ counts os' := by
  simp [counts]

theorem completions_append (os os' : List FeedResult) :
    completions (os ++ os') = completions os ++ completions os' :=
  List.filterMap_append

/-- One transfer sent is one transfer completed. -/
theorem completions_encodeTransfer {kind : UInt8} {data : List UInt8}
    (hlen : data.length ≤ maxTransfer.toNat) (r : Reassembler) :
    completions (receiver.outputs r (encodeTransfer kind data)) = [(kind, data)] := by
  have hprog : ∀ n, completions (progressFrom 0 n) = [] := fun n => by
    simp [completions, progressFrom]
  rw [outputs_encodeTransfer hlen]
  show completions ([.none] ++ (progressFrom 0 _ ++ [.complete kind data])) = _
  rw [completions_append, completions_append, hprog]
  rfl

/-- The last of some counts, or what the cell had. -/
def lastCount (cell : UInt32) (ns : List UInt32) : UInt32 := ns.getLast?.getD cell

theorem lastCount_cons (cell n : UInt32) (ns : List UInt32) :
    lastCount cell (n :: ns) = lastCount n ns := by
  cases ns with
  | nil => rfl
  | cons k ns =>
      simp only [lastCount, List.getLast?_cons_cons]
      rw [List.getLast?_eq_some_getLast (List.cons_ne_nil k ns)]
      rfl

theorem lastCount_append (cell : UInt32) (ns ks : List UInt32) :
    lastCount cell (ns ++ ks) = lastCount (lastCount cell ns) ks := by
  induction ns generalizing cell with
  | nil => rfl
  | cons n ns ih => rw [List.cons_append, lastCount_cons, ih, lastCount_cons]

/-- The cell, the ACKs in flight, the frames in flight, the receiver, and the
transfers it has completed. -/
structure Lane where
  cell : UInt32
  acks : List UInt32
  pending : List Frame
  recv : Reassembler
  got : List (UInt8 × List UInt8)

/-- A lane with nothing in flight. -/
structure Drained where
  cell : UInt32
  recv : Reassembler
  got : List (UInt8 × List UInt8)

namespace Lane

/-- The next ACK is stored. -/
def deliver (l : Lane) (n : UInt32) (rest : List UInt32) : Lane := { l with cell := n, acks := rest }

/-- The next frame is received and answered. -/
def receive (l : Lane) (f : Frame) (rest : List Frame) : Lane where
  cell := l.cell
  acks := l.acks ++ counts [(l.recv.feed f).2]
  pending := rest
  recv := (l.recv.feed f).1
  got := l.got ++ completions [(l.recv.feed f).2]

def write (l : Lane) (f : Frame) : Lane := { l with pending := l.pending ++ [f] }

/-- What the lane settles in. -/
def drain (l : Lane) : Drained where
  cell := lastCount l.cell (l.acks ++ counts (receiver.outputs l.recv l.pending))
  recv := receiver.run l.recv l.pending
  got := l.got ++ completions (receiver.outputs l.recv l.pending)

end Lane

/-- A write with an answer at once. -/
def Drained.write (d : Drained) (f : Frame) : Drained where
  cell := lastCount d.cell (counts [(d.recv.feed f).2])
  recv := (d.recv.feed f).1
  got := d.got ++ completions [(d.recv.feed f).2]

theorem drain_deliver {l : Lane} {n : UInt32} {rest : List UInt32} (h : l.acks = n :: rest) :
    (l.deliver n rest).drain = l.drain := by
  simp only [Lane.drain, Lane.deliver, h, List.cons_append, lastCount_cons]

theorem drain_receive {l : Lane} {f : Frame} {rest : List Frame} (h : l.pending = f :: rest) :
    (l.receive f rest).drain = l.drain := by
  have hout : receiver.outputs l.recv (f :: rest)
      = [(l.recv.feed f).2] ++ receiver.outputs (l.recv.feed f).1 rest := rfl
  simp only [Lane.drain, Lane.receive, h, hout, counts_append, completions_append,
    List.append_assoc]
  rfl

theorem drain_write (l : Lane) (f : Frame) : (l.write f).drain = l.drain.write f := by
  have hout : receiver.outputs l.recv (l.pending ++ [f]) = receiver.outputs l.recv l.pending ++
      [((receiver.run l.recv l.pending).feed f).2] := Mealy.outputs_append _ _ _ _
  have hrun : receiver.run l.recv (l.pending ++ [f]) = ((receiver.run l.recv l.pending).feed f).1 :=
    Mealy.run_append _ _ _ _
  simp only [Lane.drain, Lane.write, Drained.write, hout, hrun, counts_append, completions_append,
    ← List.append_assoc]
  rw [lastCount_append]

/-! ## The sender's invariant -/

/-- The cell is at the last multiple of `ackEvery` not above `m`, once there
is one. -/
def Caught (m : Nat) (cell : UInt32) : Prop := m < 128 ∨ cell.toNat = 128 * (m / 128)

/-- The receiver has been fed the first `i` frames, from whatever state. -/
def Fed (frames : List Frame) (i : Nat) (r : Reassembler) : Prop :=
  ∃ r₀, r = receiver.run r₀ (frames.take i)

/-- The place of a sender in its current transfer, against the drained lane. -/
def SendingOk (frames : List Frame) (d : Drained) : Linux.Transfer → Prop
  | .entry => True
  | .window i sent | .stall i sent =>
      windowed frames i = true ∧ sent.toNat + 1 = i ∧ Fed frames i d.recv ∧ Caught (i - 1) d.cell
  | .write i sent => i < frames.length ∧ (i = 0 → sent = 0) ∧ (0 < i → Fed frames i d.recv) ∧
      (windowed frames i = true → sent.toNat = i ∧ Caught (i - 1) d.cell)
  | .abort | .ret _ => False

/-- A sender without timeouts, on its first attempt: what it has begun is what
the lane will have completed, and the transfer in progress. -/
def LaneOk (frames : List Frame) (begun : List (UInt8 × List UInt8)) (d : Drained) :
    Linux.Retry → Prop
  | .running _ p => ∃ kind data, data.length ≤ maxTransfer.toNat ∧
      frames = encodeTransfer kind data ∧ begun = d.got ++ [(kind, data)] ∧ SendingOk frames d p
  | .done (.ok ()) => begun = d.got
  | .done (.error _) => False

section Answers
variable {kind : UInt8} {data : List UInt8} (hlen : data.length ≤ maxTransfer.toNat)

theorem length_encodeTransfer (kind : UInt8) (data : List UInt8) :
    (encodeTransfer kind data).length = (chunks maxPayload data).length + 2 := by
  rw [encodeTransfer_eq]
  simp [dataPart]

theorem length_chunks_le (hlen : data.length ≤ maxTransfer.toNat) :
    (chunks maxPayload data).length ≤ maxTransfer.toNat := by
  rw [length_chunks (by decide)]
  have hmax : maxTransfer.toNat = 67108864 := rfl
  have hpay : maxPayload = 1018 := rfl
  rw [hmax] at hlen ⊢
  rw [hpay]
  omega

theorem counts_progress (n : UInt32) :
    counts [.progress n] = if n % ackEvery = 0 then [n] else [] := by
  simp only [counts, List.flatMap_cons, List.flatMap_nil, List.append_nil, acksFor]
  split <;> simp

include hlen

/-- What the receiver answers to frame `i` of a transfer. -/
theorem answer_eq {i : Nat} {f : Frame} (hf : (encodeTransfer kind data)[i]? = some f)
    {r : Reassembler} (hr : Fed (encodeTransfer kind data) i r ∨ i = 0) :
    (r.feed f).2 = if i = 0 then .none
      else if windowed (encodeTransfer kind data) i then .progress (UInt32.ofNat i)
      else .complete kind data := by
  obtain ⟨r₀, rfl⟩ : Fed (encodeTransfer kind data) i r := by
    rcases hr with h | rfl
    · exact h
    · exact ⟨r, rfl⟩
  have hi := (List.getElem?_eq_some_iff.mp hf).1
  rw [length_encodeTransfer] at hi
  have hout := receiver.getElem?_outputs r₀ (encodeTransfer kind data) i
  rw [hf, outputs_encodeTransfer hlen, Option.map_some] at hout
  have hfeed : (Reassembler.feed (receiver.run r₀ ((encodeTransfer kind data).take i)) f).2
      = (receiver.step (receiver.run r₀ ((encodeTransfer kind data).take i)) f).2 := rfl
  rw [hfeed, ← Option.some.injEq, ← hout]
  have hprog : (progressFrom 0 (chunks maxPayload data).length).length
      = (chunks maxPayload data).length := by
    simp [progressFrom]
  cases i with
  | zero => rfl
  | succ j =>
      rw [List.getElem?_cons_succ, if_neg (Nat.succ_ne_zero j)]
      have hw : windowed (encodeTransfer kind data) (j + 1)
          = decide (j < (chunks maxPayload data).length) := by
        simp [windowed, length_encodeTransfer]
      rw [hw]
      by_cases hj : j < (chunks maxPayload data).length
      · rw [List.getElem?_append_left (by omega)]
        simp [progressFrom, hj]
      · rw [List.getElem?_append_right (by omega)]
        have : j - (progressFrom 0 (chunks maxPayload data).length).length = 0 := by omega
        rw [this]
        simp [hj]

end Answers

/-- One more DATA frame, received and perhaps acknowledged. -/
theorem caught_write {i : Nat} (hi : i ≤ maxTransfer.toNat) {cell : UInt32}
    (h : Caught (i - 1) cell) : Caught i (lastCount cell (counts [.progress (UInt32.ofNat i)])) := by
  have hmax : maxTransfer.toNat = 67108864 := rfl
  have hnat : (UInt32.ofNat i).toNat = i := by
    simp only [UInt32.toNat_ofNat']
    omega
  rw [counts_progress]
  split
  next hmod =>
    have hmod' := congrArg UInt32.toNat hmod
    rw [UInt32.toNat_mod, hnat] at hmod'
    have hevery : ackEvery.toNat = 128 := rfl
    rw [hevery] at hmod'
    refine Or.inr ?_
    show (UInt32.ofNat i).toNat = _
    simp only [UInt32.toNat_zero] at hmod'
    omega
  next hmod =>
    have hmod' : i % 128 ≠ 0 := by
      intro h0
      apply hmod
      apply UInt32.toNat_inj.mp
      rw [UInt32.toNat_mod, hnat]
      exact h0
    rcases h with h | h
    · left
      omega
    · right
      show cell.toNat = _
      rw [h]
      omega

/-! ## One step of the sender -/

section Steps
variable {frames : List Frame} {begun : List (UInt8 × List UInt8)} {d : Drained}
  {p p' : Linux.Retry}

theorem laneOk_store (h : LaneOk frames begun d p)
    (hs : (Linux.sendWithRetry frames).step p .store = some p') (cell : UInt32) :
    LaneOk frames begun { d with cell := cell } p' := by
  obtain ⟨k, rfl, rfl⟩ := Linux.step_store hs
  obtain ⟨kind, data, hlen, rfl, hbegun, -⟩ := h
  have hpos : 0 < (encodeTransfer kind data).length := by
    rw [length_encodeTransfer]
    omega
  rw [Linux.afterAttempt_atFrame hpos, Linux.atFrame, if_pos hpos]
  exact ⟨kind, data, hlen, rfl, hbegun, hpos, fun _ => rfl,
    (fun h => absurd h (Nat.lt_irrefl 0)), (fun h => by cases h)⟩

theorem laneOk_load (h : LaneOk frames begun d p) {v : UInt32}
    (hs : (Linux.sendWithRetry frames).step p (.load v) = some p') : LaneOk frames begun d p' := by
  obtain ⟨k, i, sent, rfl, rfl⟩ := Linux.step_load hs
  obtain ⟨kind, data, hlen, rfl, hbegun, hw, hsent, hfed, hcaught⟩ := h
  have hi : 0 < i ∧ i < (encodeTransfer kind data).length - 1 := by
    simpa [windowed] using hw
  split
  · exact ⟨kind, data, hlen, rfl, hbegun, hw, hsent, hfed, hcaught⟩
  · have hle := length_chunks_le hlen
    have hmax : maxTransfer.toNat = 67108864 := rfl
    have hsent' : (sent + 1).toNat = i := by
      rw [length_encodeTransfer] at hi
      rw [UInt32.toNat_add]
      show (sent.toNat + 1) % 2 ^ 32 = i
      omega
    exact ⟨kind, data, hlen, rfl, hbegun, by omega, fun h₀ => absurd h₀ (by omega),
      fun _ => hfed, fun _ => ⟨hsent', hcaught⟩⟩

theorem laneOk_expired (h : LaneOk frames begun d p)
    (hs : (Linux.sendWithRetry frames).step p (.expired false) = some p') :
    LaneOk frames begun d p' := by
  obtain ⟨k, i, sent, rfl, rfl⟩ := Linux.step_expired hs
  exact h

theorem fed_succ {i : Nat} {f : Frame} {r : Reassembler} (hf : frames[i]? = some f)
    (hr : Fed frames i r ∨ i = 0) : Fed frames (i + 1) (r.feed f).1 := by
  obtain ⟨r₀, rfl⟩ : Fed frames i r := by
    rcases hr with h | rfl
    · exact h
    · exact ⟨r, rfl⟩
  refine ⟨r₀, ?_⟩
  rw [List.take_add_one, hf, Mealy.run_append]
  rfl

/-- The last frame is END, and the transfer is completed. -/
theorem laneOk_writeEnd {k i : Nat} {sent : UInt32} {f : Frame}
    (h : LaneOk frames begun d (.running k (.write i sent))) (hf : frames[i]? = some f)
    (hend : ¬ i + 1 < frames.length) : begun = (d.write f).got := by
  obtain ⟨kind, data, hlen, rfl, hbegun, hi, hzero, hfed, -⟩ := h
  have hans := answer_eq hlen hf ((Nat.eq_zero_or_pos i).symm.imp_left hfed)
  have hsize := length_encodeTransfer kind data
  have h₀ : i ≠ 0 := by omega
  have hw : ¬ windowed (encodeTransfer kind data) i = true := by
    simp only [windowed, Bool.and_eq_true, decide_eq_true_eq]
    omega
  rw [if_neg h₀, if_neg hw] at hans
  rw [hbegun]
  simp only [Drained.write, hans]
  rfl

/-- What is received before the last frame completes nothing. -/
theorem laneOk_writeFrame {k i : Nat} {sent : UInt32} {f : Frame}
    (h : LaneOk frames begun d (.running k (.write i sent))) (hf : frames[i]? = some f)
    (hend : i + 1 < frames.length) :
    LaneOk frames begun (d.write f)
      (.running k (if windowed frames (i + 1) then .window (i + 1) sent
        else .write (i + 1) sent)) := by
  obtain ⟨kind, data, hlen, rfl, hbegun, hi, hzero, hfed, hwin⟩ := h
  have hfed' : Fed (encodeTransfer kind data) i d.recv ∨ i = 0 :=
    (Nat.eq_zero_or_pos i).symm.imp_left hfed
  have hnext := fed_succ hf hfed'
  have hans := answer_eq hlen hf hfed'
  have hsize := length_encodeTransfer kind data
  have hle := length_chunks_le hlen
  have hstep : begun = (d.write f).got ++ [(kind, data)] ∧
      sent.toNat = i ∧ Caught i (d.write f).cell := by
    by_cases h₀ : i = 0
    · subst h₀
      rw [if_pos rfl] at hans
      simp only [Drained.write, hans]
      exact ⟨by simpa [completions] using hbegun, by rw [hzero rfl]; rfl, Or.inl (by decide)⟩
    · have hw : windowed (encodeTransfer kind data) i = true := by
        simp only [windowed, Bool.and_eq_true, decide_eq_true_eq]
        omega
      obtain ⟨hsent, hcaught⟩ := hwin hw
      rw [if_neg h₀, if_pos hw] at hans
      simp only [Drained.write, hans]
      exact ⟨by simpa [completions] using hbegun, hsent, caught_write (by omega) hcaught⟩
  obtain ⟨hbegun', hsent, hcaught⟩ := hstep
  refine ⟨kind, data, hlen, rfl, hbegun', ?_⟩
  split
  next hw => exact ⟨hw, by omega, hnext, hcaught⟩
  next hw =>
    exact ⟨hend, fun h₀ => absurd h₀ (Nat.succ_ne_zero i), fun _ => hnext,
      fun hw' => absurd hw' hw⟩

theorem laneOk_write (h : LaneOk frames begun d p) {f : Frame}
    (hs : (Linux.sendWithRetry frames).step p (.write f true) = some p') :
    LaneOk frames begun (d.write f) p' := by
  rcases Linux.step_write hs with ⟨k, i, sent, rfl, hf, rfl⟩ | ⟨k, rfl, -, -⟩
  · by_cases hend : i + 1 < frames.length
    · rw [if_pos rfl, Linux.afterAttempt_atFrame hend, Linux.atFrame, if_pos hend]
      exact laneOk_writeFrame h hf hend
    · rw [if_pos rfl, Linux.atFrame, if_neg hend]
      exact laneOk_writeEnd h hf hend
  · obtain ⟨kind, data, -, -, -, hq⟩ := h
    exact absurd hq (fun h => h)

end Steps

/-! ## Blocked senders -/

/-- The sender waits at a closed window. -/
def Linux.blocked (cell : UInt32) : Linux.Retry → Bool
  | .running _ (.window _ sent) | .running _ (.stall _ sent) => windowClosed sent cell
  | _ => false

/-- No sender is blocked by a drained lane. -/
theorem not_blocked {frames : List Frame} {begun : List (UInt8 × List UInt8)} {d : Drained}
    {p : Linux.Retry} (h : LaneOk frames begun d p) : Linux.blocked d.cell p = false := by
  have hopen : ∀ {i : Nat} {sent : UInt32}, sent.toNat + 1 = i → Caught (i - 1) d.cell →
      windowClosed sent d.cell = false := by
    intro i sent hsent hcaught
    have hwin : ackWindow.toNat = 256 := rfl
    refine windowClosed_eq_false.mpr ?_
    rcases hcaught with h | h <;> omega
  match p, h with
  | .running _ (.window i sent), ⟨_, _, _, _, _, _, hsent, _, hcaught⟩ => exact hopen hsent hcaught
  | .running _ (.stall i sent), ⟨_, _, _, _, _, _, hsent, _, hcaught⟩ => exact hopen hsent hcaught
  | .running _ .entry, _ => rfl
  | .running _ (.write ..), _ => rfl
  | .running _ .abort, _ => rfl
  | .running _ (.ret _), _ => rfl
  | .done _, _ => rfl

/-- A sender between two transfers has returned success. -/
theorem LaneOk.done {frames : List Frame} {begun : List (UInt8 × List UInt8)} {d : Drained}
    {p : Linux.Retry} (h : LaneOk frames begun d p) (hidle : Linux.idle p = true) :
    p = .done (.ok ()) ∧ begun = d.got := by
  match p, h, hidle with
  | .done (.ok ()), h, _ => exact ⟨rfl, h⟩
  | .running _ (.ret _), ⟨_, _, _, _, _, h⟩, _ => exact absurd h (fun h => h)

/-- What the surroundings answer when nothing times out and nothing fails. -/
def SendAct.Untimed (cell : UInt32) : SendAct → Prop
  | .store => True
  | .load v => v = cell
  | .expired b => b = false
  | .write _ ok => ok = true

/-- A sender that is neither blocked nor done can move. -/
theorem sender_moves {frames : List Frame} {begun : List (UInt8 × List UInt8)} {d : Drained}
    {p : Linux.Retry} (h : LaneOk frames begun d p) (cell : UInt32) :
    p = .done (.ok ()) ∨
      ∃ a p', (Linux.sendWithRetry frames).step p a = some p' ∧ a.Untimed cell := by
  match p, h with
  | .running _ .entry, _ => exact Or.inr ⟨.store, _, rfl, trivial⟩
  | .running _ (.window i sent), _ => exact Or.inr ⟨.load cell, _, rfl, rfl⟩
  | .running _ (.stall i sent), _ => exact Or.inr ⟨.expired false, _, rfl, rfl⟩
  | .running k (.write i sent), ⟨_, _, _, _, _, hi, _⟩ =>
      have hf : frames[i]? = some frames[i] := List.getElem?_eq_getElem hi
      refine Or.inr ⟨.write frames[i] true,
        Linux.afterAttempt k (Linux.atFrame frames (i + 1) sent), ?_, rfl⟩
      simp only [Linux.sendWithRetry, Linux.sendTransfer, hf, if_true, Option.map_some]
  | .running _ .abort, ⟨_, _, _, _, _, h⟩ => exact absurd h (fun h => h)
  | .running _ (.ret _), ⟨_, _, _, _, _, h⟩ => exact absurd h (fun h => h)
  | .done (.ok ()), _ => exact Or.inl rfl
  | .done (.error _), h => exact absurd h (fun h => h)

end Beaglewing.Agents
