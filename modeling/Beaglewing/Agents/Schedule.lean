/-
# `Agents.Schedule` — the two senders under the same answers

Every place of a sender asks one thing of its surroundings: the ACK counter,
the clock, whether a frame could be written.  With the same answers
(`Surroundings`) the code of either side is determined, step by step, and
the two attempt the same frames and return together (`senders_agree`): the
map of `Agents.Send` keeps what is asked (`awaits_toWindows`).
-/
import Beaglewing.Agents.Send

namespace Beaglewing.Agents

open Base Clipframe

/-- What a place of the code asks. -/
inductive Question where
  | store
  | load
  | expired
  | write (f : Frame)
  deriving DecidableEq

namespace Linux

def Transfer.awaits (frames : List Frame) : Transfer → Option Question
  | .entry => some .store
  | .window _ _ => some .load
  | .stall _ _ => some .expired
  | .write i _ => frames[i]?.map .write
  | .abort => some (.write abortFrame)
  | .ret _ => none

def awaits (frames : List Frame) : Retry → Option Question
  | .running _ p => p.awaits frames
  | .done _ => none

end Linux

namespace Windows

def awaits (frames : List Frame) : Sending → Option Question
  | .entry _ => some .store
  | .window _ _ _ => some .load
  | .stall _ _ _ => some .expired
  | .write _ i _ => frames[i]?.map .write
  | .abort _ => some (.write abortFrame)
  | .done _ => none

end Windows

/-- The answers, given everything so far: the value of the ACK counter, whether
the stall clock is past 5 s, and whether the frame can be written.  A sequence
of answers is one that counts the questions of its kind. -/
structure Surroundings where
  load : List SendAct → UInt32
  expired : List SendAct → Bool
  wrote : List SendAct → Frame → Bool

def Surroundings.answer (env : Surroundings) (before : List SendAct) : Question → SendAct
  | .store => .store
  | .load => .load (env.load before)
  | .expired => .expired (env.expired before)
  | .write f => .write f (env.wrote before f)

/-- The frames that were attempted, written or not. -/
def attempted (done : List SendAct) : List Frame :=
  done.filterMap fun
    | .write f _ => some f
    | _ => none

/-- The Linux sender after `n` answers. -/
def linuxRun (frames : List Frame) (env : Surroundings) (n : Nat) : Linux.Retry × List SendAct :=
  (Linux.sendWithRetry frames).drive (Linux.awaits frames) env.answer n Linux.start []

/-- The Windows sender after `n` answers. -/
def windowsRun (frames : List Frame) (env : Surroundings) (n : Nat) :
    Windows.Sending × List SendAct :=
  (Windows.sendFrames frames).drive (Windows.awaits frames) env.answer n Windows.start []

/-! ## What is asked -/

theorem awaits_toWindows (frames : List Frame) (s : Linux.Retry) :
    Windows.awaits frames (toWindows s) = Linux.awaits frames s := by
  cases s with
  | running k p => cases p <;> rfl
  | done r =>
      match r with
      | .ok () => rfl
      | .error _ => rfl

/-- A place that the code gets to: its frame exists, and it has not returned
from an attempt. -/
def Placed (frames : List Frame) : Linux.Retry → Prop
  | .running _ (.window i _) => i < frames.length
  | .running _ (.stall i _) => i < frames.length
  | .running _ (.write i _) => i < frames.length
  | .running _ (.ret _) => False
  | .running _ .entry => True
  | .running _ .abort => True
  | .done _ => True

section Placed
variable {frames : List Frame}

theorem placed_atFrame (k i : Nat) (sent : UInt32) :
    Placed frames (Linux.afterAttempt k (Linux.atFrame frames i sent)) := by
  unfold Linux.atFrame
  split
  · next hi => split <;> exact hi
  · trivial

theorem placed_error (k : Nat) (e : String) :
    Placed frames (Linux.afterAttempt k (.ret (.error e))) := by
  change Placed frames (if e = "relay connection lost" then .done (.error true)
    else if k + 1 < 2 then .running (k + 1) .entry else .done (.error false))
  split_ifs <;> trivial

/-- The answer fits the place that asked, and leads to another place. -/
theorem placed_step (env : Surroundings) (s : Linux.Retry) (q : Question)
    (hs : Placed frames s) (hask : Linux.awaits frames s = some q) (before : List SendAct) :
    ∃ s', (Linux.sendWithRetry frames).step s (env.answer before q) = some s' ∧
      Placed frames s' := by
  cases s with
  | done r => cases hask
  | running k p =>
      cases p with
      | entry =>
          cases hask
          exact ⟨_, rfl, placed_atFrame k 0 0⟩
      | window i sent =>
          cases hask
          refine ⟨_, rfl, ?_⟩
          split <;> exact hs
      | stall i sent =>
          cases hask
          refine ⟨_, rfl, ?_⟩
          split
          · trivial
          · exact hs
      | write i sent =>
          obtain ⟨f, hf, rfl⟩ := Option.map_eq_some_iff.mp hask
          refine ⟨_, congrArg (Option.map (Linux.afterAttempt k)) (if_pos hf), ?_⟩
          split
          · exact placed_atFrame k (i + 1) sent
          · exact placed_error k _
      | abort =>
          cases hask
          have habort (ok : Bool) : Linux.sendTransfer frames .abort (.write abortFrame ok) =
              some (.ret (.error "receiver stopped acking (helper not running?)")) := by
            simp only [Linux.sendTransfer, if_true]
          refine ⟨_, ?_, placed_error k "receiver stopped acking (helper not running?)"⟩
          simp only [Linux.sendWithRetry, Surroundings.answer, habort, Option.map_some]
      | ret r => exact hs.elim

/-- The code asks until it returns. -/
theorem awaits_none_iff {s : Linux.Retry} (hs : Placed frames s) :
    Linux.awaits frames s = none ↔ ∃ r, s = .done r := by
  cases s with
  | done r => exact ⟨fun _ => ⟨r, rfl⟩, fun _ => rfl⟩
  | running k p =>
      cases p with
      | write i sent =>
          have hi : frames[i]? = some frames[i] := List.getElem?_eq_getElem hs
          simp [Linux.awaits, Linux.Transfer.awaits, hi]
      | ret r => exact hs.elim
      | _ => simp [Linux.awaits, Linux.Transfer.awaits]

end Placed

/-! ## The same answers -/

theorem windowsRun_eq (frames : List Frame) (env : Surroundings) (n : Nat) :
    windowsRun frames env n = Prod.map toWindows id (linuxRun frames env n) :=
  (Linux.sendWithRetry frames).drive_map (sendFrames_toWindows frames) (awaits_toWindows frames) n
    Linux.start []

theorem linuxRun_progress (frames : List Frame) (env : Surroundings) (n : Nat) :
    (∃ r, (linuxRun frames env n).1 = .done r) ∨ (linuxRun frames env n).2.length = n := by
  have hstart : Placed frames Linux.start := trivial
  obtain ⟨hplaced, hend⟩ :=
    (Linux.sendWithRetry frames).drive_progress (placed_step env) n hstart []
  rw [awaits_none_iff hplaced] at hend
  exact hend.imp_right fun hlen => hlen.trans (Nat.zero_add n)

theorem done_toWindows_iff {s : Linux.Retry} (hs : ∀ k r, s ≠ .running k (.ret r)) :
    (∃ b, toWindows s = .done b) ↔ ∃ r, s = .done r := by
  match s with
  | .done (.ok ()) => simp [toWindows]
  | .done (.error _) => simp [toWindows]
  | .running k .entry => simp [toWindows]
  | .running k (.window ..) => simp [toWindows]
  | .running k (.stall ..) => simp [toWindows]
  | .running k (.write ..) => simp [toWindows]
  | .running k .abort => simp [toWindows]
  | .running k (.ret r) => exact absurd rfl (hs k r)

/-- Whatever the ACK counter, the clock and the writes answer, after any number
of answers the two senders have attempted the same frames, one has returned
if the other has, and it is `Ok(())` where the other is `true`; and until
they return, every answer takes them one step on. -/
theorem senders_agree (kind : UInt8) (data : List UInt8) (env : Surroundings) (n : Nat) :
    attempted (linuxRun (encodeTransfer kind data) env n).2 =
        attempted (windowsRun (encodeTransfer kind data) env n).2 ∧
      ((∃ r, (linuxRun (encodeTransfer kind data) env n).1 = .done r) ↔
        ∃ b, (windowsRun (encodeTransfer kind data) env n).1 = .done b) ∧
      ((linuxRun (encodeTransfer kind data) env n).1 = .done (.ok ()) ↔
        (windowsRun (encodeTransfer kind data) env n).1 = .done true) ∧
      ((∃ r, (linuxRun (encodeTransfer kind data) env n).1 = .done r) ∨
        (linuxRun (encodeTransfer kind data) env n).2.length = n) := by
  have hplaced := ((Linux.sendWithRetry (encodeTransfer kind data)).drive_progress
    (placed_step env) n (s := Linux.start) trivial []).1
  have hret : ∀ k r, (linuxRun (encodeTransfer kind data) env n).1 ≠ .running k (.ret r) := by
    intro k r heq
    rw [← linuxRun, heq] at hplaced
    exact hplaced
  rw [windowsRun_eq]
  exact ⟨rfl, (done_toWindows_iff hret).symm, toWindows_done_true.symm,
    linuxRun_progress (encodeTransfer kind data) env n⟩

end Beaglewing.Agents
