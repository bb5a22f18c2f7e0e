/-
# `Agents.Send` — the two windowed senders

`send_transfer` and `send_with_retry` of the Linux agent
(`linux/input-router/src/clipboard.rs`), and `send_frames` of the Windows
helper (`windows/clipboard-agent/src/main.rs`), as transition systems.  A
state is a place in the code with its local variables; a label is one
thing the code asks of its surroundings and the answer:

    store        `acked.store(0)`
    load v       `acked.load()` gave v
    expired b    whether the stall clock is past 5 s
    write f ok   `write_all` / `hid_send` of frame f, and whether it worked

Sleeps and log lines have no label.  The window counts in `u32`.

The two differ in their control flow only: `toWindows` sends a place of the
Linux code to the place of the Windows code where the same label comes
next, and commutes with every step (`sendFrames_toWindows`).  So what is
proved of the Linux sender is proved of both (`exec_windows`).
-/
import Beaglewing.Base.Lts
import Beaglewing.Clipframe.Reassembler

namespace Beaglewing.Agents

open Base Clipframe

inductive SendAct where
  | store
  | load (v : UInt32)
  | expired (b : Bool)
  | write (f : Frame) (ok : Bool)
deriving DecidableEq

/-- `frame(T_ABORT, 0, &[])`. -/
def abortFrame : Frame := frame tAbort 0 ⟨[], Nat.zero_le _⟩

/-- `u32::saturating_sub`. -/
def satSub (a b : UInt32) : UInt32 := if a ≤ b then 0 else a - b

/-- `sent_data.saturating_sub(acked) >= ACK_WINDOW`. -/
def windowClosed (sent acked : UInt32) : Bool := satSub sent acked ≥ ackWindow

/-- The window is open below `ackWindow`. -/
theorem windowClosed_eq_false {sent v : UInt32} :
    windowClosed sent v = false ↔ sent.toNat < v.toNat + ackWindow.toNat := by
  have hwin : ackWindow.toNat = 256 := rfl
  simp only [windowClosed, satSub, ge_iff_le, decide_eq_false_iff_not, UInt32.not_le]
  split
  next hle =>
    have := UInt32.le_iff_toNat_le.mp hle
    exact ⟨fun _ => by omega, fun _ => by decide⟩
  next hlt =>
    have hle := UInt32.le_of_lt (UInt32.not_le.mp hlt)
    have := UInt32.le_iff_toNat_le.mp hle
    rw [UInt32.lt_iff_toNat_lt, UInt32.toNat_sub_of_le _ _ hle]
    omega

/-- A frame under the window: neither the first nor the last. -/
def windowed (frames : List Frame) (i : Nat) : Bool := 0 < i && i < frames.length - 1

/-- A call in which the window is open throughout. -/
def unstalled (frames : List Frame) : List SendAct :=
  .store :: frames.zipIdx.flatMap fun x =>
    if windowed frames x.2 then [.load 0, .write x.1 true] else [.write x.1 true]

/-! ## Linux -/

namespace Linux

/-- Places in `send_transfer`. -/
inductive Transfer where
  | entry
  | window (i : Nat) (sent : UInt32)
  | stall (i : Nat) (sent : UInt32)
  | write (i : Nat) (sent : UInt32)
  | abort
  | ret (r : Except String Unit)
deriving DecidableEq

/-- The head of `for (i, f) in frames.iter().enumerate()`. -/
def atFrame (frames : List Frame) (i : Nat) (sent : UInt32) : Transfer :=
  if i < frames.length then
    if windowed frames i then .window i sent else .write i sent
  else .ret (.ok ())

def sendTransfer (frames : List Frame) : Transfer → SendAct → Option Transfer
  | .entry, .store => some (atFrame frames 0 0)
  | .window i sent, .load v =>
      some (if windowClosed sent v then .stall i sent else .write i (sent + 1))
  | .stall i sent, .expired b => some (if b then .abort else .window i sent)
  | .write i sent, .write f ok =>
      if frames[i]? = some f then
        some (if ok then atFrame frames (i + 1) sent else .ret (.error "relay connection lost"))
      else none
  -- the result of writing ABORT is ignored
  | .abort, .write f _ =>
      if f = abortFrame then
        some (.ret (.error "receiver stopped acking (helper not running?)"))
      else none
  | _, _ => none

/-- Places in `send_with_retry`. -/
inductive Retry where
  | running (attempt : Nat) (at_ : Transfer)
  | done (r : Except Bool Unit)
deriving DecidableEq

/-- The `match` on what an attempt returned; `done (error true)` means the
relay connection is gone. -/
def afterAttempt (attempt : Nat) : Transfer → Retry
  | .ret (.ok ()) => .done (.ok ())
  | .ret (.error e) =>
      if e = "relay connection lost" then .done (.error true)
      else if attempt + 1 < 2 then .running (attempt + 1) .entry
      else .done (.error false)
  | p => .running attempt p

def sendWithRetry (frames : List Frame) : Lts Retry SendAct where
  step
    | .running attempt p, a => (sendTransfer frames p a).map (afterAttempt attempt)
    | .done _, _ => none

def start : Retry := .running 0 .entry

/-! Each label is answered in one place of the code, `write` in two. -/

section Steps
variable {frames : List Frame} {p p' : Retry}

theorem step_store (hs : (sendWithRetry frames).step p .store = some p') :
    ∃ k, p = .running k .entry ∧ p' = afterAttempt k (atFrame frames 0 0) := by
  cases p with
  | done r => cases hs
  | running k q =>
      cases q with
      | entry =>
          cases hs
          exact ⟨k, rfl, rfl⟩
      | _ => cases hs

theorem step_load {v : UInt32} (hs : (sendWithRetry frames).step p (.load v) = some p') :
    ∃ k i sent, p = .running k (.window i sent) ∧
      p' = .running k (if windowClosed sent v then .stall i sent else .write i (sent + 1)) := by
  cases p with
  | done r => cases hs
  | running k q =>
      cases q with
      | window i sent =>
          cases hs
          refine ⟨k, i, sent, rfl, ?_⟩
          split <;> rfl
      | _ => cases hs

theorem step_expired {b : Bool} (hs : (sendWithRetry frames).step p (.expired b) = some p') :
    ∃ k i sent, p = .running k (.stall i sent) ∧
      p' = .running k (if b then .abort else .window i sent) := by
  cases p with
  | done r => cases hs
  | running k q =>
      cases q with
      | stall i sent =>
          cases hs
          refine ⟨k, i, sent, rfl, ?_⟩
          cases b <;> rfl
      | _ => cases hs

theorem step_write {f : Frame} {ok : Bool}
    (hs : (sendWithRetry frames).step p (.write f ok) = some p') :
    (∃ k i sent, p = .running k (.write i sent) ∧ frames[i]? = some f ∧
      p' = afterAttempt k
        (if ok then atFrame frames (i + 1) sent else .ret (.error "relay connection lost"))) ∨
    (∃ k, p = .running k .abort ∧ f = abortFrame ∧
      p' = afterAttempt k (.ret (.error "receiver stopped acking (helper not running?)"))) := by
  cases p with
  | done r => cases hs
  | running k q =>
      obtain ⟨q', hq', rfl⟩ := Option.map_eq_some_iff.mp hs
      cases q with
      | write i sent =>
          simp only [sendTransfer] at hq'
          split at hq'
          next hf =>
            cases hq'
            exact Or.inl ⟨k, i, sent, rfl, hf, rfl⟩
          next => cases hq'
      | abort =>
          simp only [sendTransfer] at hq'
          split at hq'
          next hf =>
            cases hq'
            exact Or.inr ⟨k, rfl, hf, rfl⟩
          next => cases hq'
      | _ => cases hq'

end Steps

/-! Under an open window the frames go out one after another. -/

theorem afterAttempt_atFrame {frames : List Frame} {k i : Nat} {sent : UInt32}
    (hi : i < frames.length) :
    afterAttempt k (atFrame frames i sent) = .running k (atFrame frames i sent) := by
  unfold atFrame
  rw [if_pos hi]
  split <;> rfl

/-- The labels that pass some frames through the window, with the counter at
`v`. -/
def passes (v : UInt32) : List Frame → List SendAct
  | [] => []
  | f :: fs => .load v :: .write f true :: passes v fs

theorem exec_passes (frames : List Frame) {k : Nat} {v : UInt32} :
    ∀ (fs pre post : List Frame) (sent : UInt32),
      frames = pre ++ (fs ++ post) → 0 < pre.length → post ≠ [] → sent.toNat + 1 = pre.length →
      pre.length + fs.length ≤ v.toNat + 257 → pre.length + fs.length < 2 ^ 32 →
      ∃ sent' : UInt32, sent'.toNat = sent.toNat + fs.length ∧
        (sendWithRetry frames).exec (.running k (atFrame frames pre.length sent)) (passes v fs) =
          some (.running k (atFrame frames (pre.length + fs.length) sent'))
  | [], pre, post, sent, _, _, _, _, _, _ => ⟨sent, rfl, rfl⟩
  | f :: fs, pre, post, sent, hframes, hpre, hpost, hsent, hopen, hsmall => by
      rw [List.length_cons] at hopen hsmall
      have hpos := List.length_pos_iff.mpr hpost
      have hlen : frames.length = pre.length + (fs.length + 1 + post.length) := by
        rw [hframes]
        simp
        omega
      have hw : windowed frames pre.length = true := by
        simp only [windowed, Bool.and_eq_true, decide_eq_true_eq]
        omega
      have hat : atFrame frames pre.length sent = .window pre.length sent := by
        rw [atFrame, if_pos (by omega), if_pos hw]
      have hclosed : windowClosed sent v = false := by
        have hwin : ackWindow.toNat = 256 := rfl
        exact windowClosed_eq_false.mpr (by omega)
      have hf : frames[pre.length]? = some f := by
        rw [hframes]
        simp
      have hnext : (sent + 1).toNat = sent.toNat + 1 := by
        rw [UInt32.toNat_add]
        show (sent.toNat + 1) % 2 ^ 32 = _
        omega
      have hstep : (sendWithRetry frames).exec (.running k (.window pre.length sent))
          [.load v, .write f true] =
            some (.running k (atFrame frames (pre.length + 1) (sent + 1))) := by
        simp only [Lts.exec_cons, Lts.exec_nil, sendWithRetry, sendTransfer, hclosed,
          Bool.false_eq_true, if_false, if_true, Option.map_some, Option.bind_some, afterAttempt, hf]
        rw [← afterAttempt.eq_def, afterAttempt_atFrame (by omega)]
      obtain ⟨sent', hsent', hexec⟩ := exec_passes frames (k := k) (v := v) fs (pre ++ [f]) post
        (sent + 1)
        (by rw [hframes]; simp) (by simp) hpost (by simp; omega) (by simp; omega) (by simp; omega)
      have hsum : sent'.toNat = sent.toNat + (f :: fs).length := by
        rw [hsent', hnext, List.length_cons]
        omega
      have hidx : (pre ++ [f]).length + fs.length = pre.length + (f :: fs).length := by
        simp
        omega
      have hnew : (pre ++ [f]).length = pre.length + 1 := by simp
      rw [hidx, hnew] at hexec
      refine ⟨sent', hsum, ?_⟩
      rw [hat]
      exact (sendWithRetry frames).exec_trans hstep hexec

section Transfer
variable (kind : UInt8) (data : List UInt8) (k : Nat)

theorem length_frames : (encodeTransfer kind data).length = (dataPart data).length + 2 := by
  rw [encodeTransfer_eq]
  simp

/-- The START is under no window. -/
theorem exec_begin : (sendWithRetry (encodeTransfer kind data)).exec (.running k .entry)
    [.store, .write (startFrame kind data) true] =
      some (.running k (atFrame (encodeTransfer kind data) 1 0)) := by
  have hlen := length_frames kind data
  have h₀ : afterAttempt k (atFrame (encodeTransfer kind data) 0 0) = .running k (.write 0 0) := by
    rw [afterAttempt_atFrame (by omega), atFrame, if_pos (by omega)]
    rfl
  have hf : (encodeTransfer kind data)[0]? = some (startFrame kind data) := rfl
  simp only [Lts.exec_cons, Lts.exec_nil, sendWithRetry, sendTransfer, Option.map_some,
    Option.bind_some, h₀, hf, if_true, Nat.zero_add]
  rw [afterAttempt_atFrame (by omega)]

/-- The DATA frames from one on, as many as the window takes. -/
theorem exec_data {v sent : UInt32} {before fs after : List Frame}
    (h : dataPart data = before ++ (fs ++ after)) (hsent : sent.toNat = before.length)
    (hopen : before.length + fs.length ≤ v.toNat + 256)
    (hsmall : (dataPart data).length < 2 ^ 16) :
    ∃ sent' : UInt32, sent'.toNat = before.length + fs.length ∧
      (sendWithRetry (encodeTransfer kind data)).exec
        (.running k (atFrame (encodeTransfer kind data) (before.length + 1) sent)) (passes v fs) =
          some (.running k
            (atFrame (encodeTransfer kind data) (before.length + fs.length + 1) sent')) := by
  have hsplit : encodeTransfer kind data =
      (startFrame kind data :: before) ++ (fs ++ (after ++ [endFrame data])) := by
    rw [encodeTransfer_eq, h]
    simp
  have hpre : (startFrame kind data :: before).length = before.length + 1 := List.length_cons
  have hall : before.length + fs.length ≤ (dataPart data).length := by
    rw [h]
    simp
  obtain ⟨sent', hsent', hexec⟩ := exec_passes (encodeTransfer kind data) (k := k) (v := v) fs
    (startFrame kind data :: before) (after ++ [endFrame data]) sent hsplit (by omega) (by simp)
    (by omega) (by omega) (by omega)
  rw [hpre, Nat.add_right_comm] at hexec
  exact ⟨sent', by omega, hexec⟩

/-- The END, and the return. -/
theorem exec_finish (sent : UInt32) : (sendWithRetry (encodeTransfer kind data)).exec
    (.running k (atFrame (encodeTransfer kind data) ((dataPart data).length + 1) sent))
    [.write (endFrame data) true] = some (.done (.ok ())) := by
  have hlen := length_frames kind data
  have hw : windowed (encodeTransfer kind data) ((dataPart data).length + 1) = false := by
    simp [windowed, hlen]
  have hat : atFrame (encodeTransfer kind data) ((dataPart data).length + 1) sent =
      .write ((dataPart data).length + 1) sent := by
    rw [atFrame, if_pos (by omega), if_neg (by simp [hw])]
  have hf : (encodeTransfer kind data)[(dataPart data).length + 1]? = some (endFrame data) := by
    rw [encodeTransfer_eq]
    simp
  have hret : atFrame (encodeTransfer kind data) ((dataPart data).length + 1 + 1) sent =
      .ret (.ok ()) := by
    rw [atFrame, if_neg (by omega)]
  simp only [Lts.exec_cons, Lts.exec_nil, sendWithRetry, sendTransfer, hat, hf, if_true,
    Option.map_some, Option.bind_some, hret, afterAttempt]

end Transfer

end Linux

/-! ## Windows -/

namespace Windows

/-- Places in `send_frames`. -/
inductive Sending where
  | entry (attempt : Nat)
  | window (attempt i : Nat) (sent : UInt32)
  | stall (attempt i : Nat) (sent : UInt32)
  | write (attempt i : Nat) (sent : UInt32)
  | abort (attempt : Nat)
  | done (r : Bool)
deriving DecidableEq

/-- The tests on `ok` and `stalled` after the loop over the frames. -/
def afterLoop (attempt : Nat) (ok stalled : Bool) : Sending :=
  if ok && !stalled then .done true
  else if stalled && attempt == 0 then .entry (attempt + 1)
  else .done false

/-- The head of `'send: for (i, f) in frames.iter().enumerate()`. -/
def atFrame (frames : List Frame) (attempt i : Nat) (sent : UInt32) : Sending :=
  if i < frames.length then
    if windowed frames i then .window attempt i sent else .write attempt i sent
  else afterLoop attempt true false

def sendFrames (frames : List Frame) : Lts Sending SendAct where
  step
    | .entry attempt, .store => some (atFrame frames attempt 0 0)
    | .window attempt i sent, .load v =>
        some (if windowClosed sent v then .stall attempt i sent
          else .write attempt i (sent + 1))
    | .stall attempt i sent, .expired b =>
        some (if b then .abort attempt else .window attempt i sent)
    | .write attempt i sent, .write f ok =>
        if frames[i]? = some f then
          some (if ok then atFrame frames attempt (i + 1) sent else afterLoop attempt false false)
        else none
    | .abort attempt, .write f _ =>
        if f = abortFrame then some (afterLoop attempt true true) else none
    | _, _ => none

def start : Sending := .entry 0

end Windows

/-! ## One protocol -/

/-- The place in the Windows code that asks the same next. -/
def toWindows : Linux.Retry → Windows.Sending
  | .running k .entry => .entry k
  | .running k (.window i sent) => .window k i sent
  | .running k (.stall i sent) => .stall k i sent
  | .running k (.write i sent) => .write k i sent
  | .running k .abort => .abort k
  | .running _ (.ret _) => .done false
  | .done (.ok ()) => .done true
  | .done (.error _) => .done false

theorem toWindows_atFrame (frames : List Frame) (k i : Nat) (sent : UInt32) :
    toWindows (Linux.afterAttempt k (Linux.atFrame frames i sent))
      = Windows.atFrame frames k i sent := by
  unfold Linux.atFrame Windows.atFrame
  split
  · split <;> rfl
  · rfl

theorem toWindows_lost (k : Nat) :
    toWindows (Linux.afterAttempt k (.ret (.error "relay connection lost")))
      = Windows.afterLoop k false false := by
  simp [Linux.afterAttempt, Windows.afterLoop, toWindows]

theorem toWindows_stalled (k : Nat) :
    toWindows (Linux.afterAttempt k
        (.ret (.error "receiver stopped acking (helper not running?)")))
      = Windows.afterLoop k true true := by
  have hne : "receiver stopped acking (helper not running?)" ≠ "relay connection lost" := by
    decide
  by_cases hk : k = 0
  · subst hk
    simp only [Linux.afterAttempt, if_neg hne]
    rfl
  · have hlt : ¬ k + 1 < 2 := by omega
    simp only [Linux.afterAttempt, if_neg hne, if_neg hlt, toWindows]
    simp [Windows.afterLoop, hk]

/-- Every label takes both codes to corresponding places, or neither. -/
theorem sendFrames_toWindows (frames : List Frame) (s : Linux.Retry) (a : SendAct) :
    (Windows.sendFrames frames).step (toWindows s) a
      = ((Linux.sendWithRetry frames).step s a).map toWindows := by
  cases s with
  | done r =>
      match r with
      | .ok () => rfl
      | .error _ => rfl
  | running k p =>
      cases p with
      | entry =>
          cases a <;> try rfl
          exact congrArg some (toWindows_atFrame frames k 0 0).symm
      | window i sent =>
          cases a with
          | load v =>
              simp only [toWindows, Windows.sendFrames, Linux.sendWithRetry, Linux.sendTransfer,
                Option.map_some]
              split <;> rfl
          | _ => rfl
      | stall i sent =>
          cases a with
          | expired b => cases b <;> rfl
          | _ => rfl
      | write i sent =>
          cases a with
          | write f ok =>
              simp only [toWindows, Windows.sendFrames, Linux.sendWithRetry, Linux.sendTransfer]
              split
              · cases ok
                · exact congrArg some (toWindows_lost k).symm
                · exact congrArg some (toWindows_atFrame frames k (i + 1) sent).symm
              · rfl
          | _ => rfl
      | abort =>
          cases a with
          | write f ok =>
              simp only [toWindows, Windows.sendFrames, Linux.sendWithRetry, Linux.sendTransfer]
              split
              · exact congrArg some (toWindows_stalled k).symm
              · rfl
          | _ => rfl
      | ret r => cases a <;> rfl

/-- So a step of the Windows code is one of the Linux code. -/
theorem step_of_windows {frames : List Frame} {p : Linux.Retry} {a : SendAct}
    {w : Windows.Sending} (h : (Windows.sendFrames frames).step (toWindows p) a = some w) :
    ∃ p', (Linux.sendWithRetry frames).step p a = some p' ∧ w = toWindows p' := by
  rw [sendFrames_toWindows] at h
  obtain ⟨p', hp', rfl⟩ := Option.map_eq_some_iff.mp h
  exact ⟨p', hp', rfl⟩

/-- The Windows sender runs the labels the Linux sender runs. -/
theorem exec_windows (frames : List Frame) (acts : List SendAct) :
    (Windows.sendFrames frames).exec Windows.start acts
      = ((Linux.sendWithRetry frames).exec Linux.start acts).map toWindows :=
  (Linux.sendWithRetry frames).exec_map (sendFrames_toWindows frames) Linux.start acts

theorem toWindows_done_true {s : Linux.Retry} : toWindows s = .done true ↔ s = .done (.ok ()) := by
  match s with
  | .running _ .entry => simp [toWindows]
  | .running _ (.window ..) => simp [toWindows]
  | .running _ (.stall ..) => simp [toWindows]
  | .running _ (.write ..) => simp [toWindows]
  | .running _ .abort => simp [toWindows]
  | .running _ (.ret _) => simp [toWindows]
  | .done (.ok ()) => simp [toWindows]
  | .done (.error _) => simp [toWindows]

end Beaglewing.Agents
