/-
# `Agents.Crossing` — both agents, and when files cross

The Linux agent with its threads (`Agents.Threads`) and the Windows helper
with its applier and send loop (`Agents.Helper`), and between them the frames
on their way.  What one side writes in a step is put on the way to the other;
PINGs are answered by the relay; any frame may be lost, none is reordered.
The helper's reader (`hears`) completes the picture.

The router tells the Linux agent when the pointer has crossed, and the user
can ask for the files of either side with "pull".

| result | what it says |
|---|---|
| `files_on_request` | in each direction no more batches cross than the user has crossed or asked |
| `offered_once` | of the batches that a side offers, each is sent at most once |

The Linux agent alone asks for files.  So what bounds the batches of the
helper is a chain of four places where a request can be: a crossing in the
Linux queue, a PULL on its way, `pull_request`, and the batch sent (`Asked`).

## What it is not

Counted is what each side does; whether a batch arrives is a matter of what the
channels lose (`Agents.Delivery`).  The relay is such a channel from the agent
to the host (`Relay.Forward`).
-/
import Beaglewing.Agents.Helper
import Beaglewing.Agents.Offers
import Beaglewing.Agents.Once
import Beaglewing.Agents.Threads
import Beaglewing.Relay.Data

namespace Beaglewing.Agents

open Base Clipframe Files

/-! ## The helper's reader -/

namespace Windows

/-- What the reader does with a frame: its answers, a transfer for the applier,
a PULL for the send loop. -/
structure Heard where
  recv : Reassembler
  answers : List Frame
  transfer : Option (UInt8 × List UInt8)
  pull : Option UInt32

/-- The body of the reader's loop, once a frame is read. -/
def hears (recv : Reassembler) (f : Frame) : Heard :=
  match parseAck f with
  | some _ => ⟨recv, [], none, none⟩
  | none =>
      let recv' := (recv.feed f).1
      match (recv.feed f).2 with
      | .ping => ⟨recv', [frame tPong 0 ⟨[], Nat.zero_le _⟩], none, none⟩
      | .progress n => ⟨recv', acksFor (.progress n), none, none⟩
      | .complete kind data => ⟨recv', [], some (kind, data), none⟩
      | .pull id => ⟨recv', [], none, some id⟩
      | _ => ⟨recv', [], none, none⟩

end Windows

/-! ## Both sides -/

structure Pair where
  linux : Linux.System
  toWindows : List Frame
  toLinux : List Frame
  recv : Reassembler
  received : List (UInt8 × List UInt8)
  windows : Windows.Helper

def Pair.init (host : Windows.Host) (fs : Fs) (clip : Selection) (winFs : Fs)
    (winClip : Windows.Formats) (seqNum : Nat) : Pair where
  linux := .init .init fs clip
  toWindows := []
  toLinux := []
  recv := .default
  received := []
  windows := .init host winFs winClip seqNum

inductive PairAct where
  -- a step of the Linux agent that reads no frame
  | linux (a : Linux.Act)
  | linuxReads (i : Nat)
  -- a step of the helper that takes nothing from the reader
  | windows (a : Windows.Act)
  | windowsReads (wrote : Bool)
  | windowsTakes (ts : Nat)
  -- the frame at some place on the way is lost
  | loseToWindows (n : Nat)
  | loseToLinux (n : Nat)

/-- The frames that an effect has written, given the labels of the step's
transfer. -/
def Linux.Effect.frames (sends : List SendAct) : Linux.Effect → List Frame
  | .write f ok => if ok then [f] else []
  | .offer _ o ok => if ok then [offerFrame o] else []
  | .send .. | .push .. => written sends
  | .set .. => []

def Windows.Sent.frames (sends : List SendAct) : Windows.Sent → List Frame
  | .offer _ o ok => if ok then [offerFrame o] else []
  | .send .. | .push .. => written sends

def Linux.Act.sends : Linux.Act → List SendAct
  | .main ans => ans.sends
  | _ => []

def Windows.Act.sends : Windows.Act → List SendAct
  | .pull sends | .send _ sends => sends
  | _ => []

/-- What the Linux agent wrote in a step. -/
def wroteLinux (a : Linux.Act) (s s' : Linux.System) : List Frame :=
  (s'.effects.drop s.effects.length).flatMap (Linux.Effect.frames a.sends)

def wroteWindows (a : Windows.Act) (s s' : Windows.Helper) : List Frame :=
  (s'.sents.drop s.sents.length).flatMap (Windows.Sent.frames a.sends)

def isPing (f : Frame) : Bool := f.byte 0 = 0x01

section Pair
variable (host : Windows.Host) (tar : TarCrate) (stageRoot : Path)

/-- The reader's part of the helper. -/
def Pair.heard (s : Pair) (rest : List Frame) (wrote : Bool) (x : Windows.Heard) : Option Pair :=
  let s' := { s with
    toWindows := rest
    recv := x.recv
    received := s.received ++ x.transfer.toList
    toLinux := s.toLinux ++ if wrote then x.answers else [] }
  match x.pull with
  | none => some s'
  | some id => ((Windows.helper host).step s.windows (.pulled id)).map fun w => { s' with windows := w }

/-- A step of the Linux agent, and what it writes. -/
def Pair.linuxStep (s : Pair) (a : Linux.Act) : Option Pair :=
  ((Linux.threads tar stageRoot).step s.linux a).map fun l =>
    let fs := wroteLinux a s.linux l
    { s with
      linux := l
      toWindows := s.toWindows ++ fs.filter fun f => !isPing f
      toLinux := s.toLinux ++ (fs.filter isPing).map fun _ => Relay.pong }

def Pair.windowsStep (s : Pair) (a : Windows.Act) : Option Pair :=
  ((Windows.helper host).step s.windows a).map fun w =>
    { s with windows := w, toLinux := s.toLinux ++ wroteWindows a s.windows w }

def pair : Lts Pair PairAct where
  step s
    | .linux a =>
        match a with
        | .read _ _ => none
        | a => s.linuxStep tar stageRoot a
    | .linuxReads i =>
        match s.toLinux with
        | [] => none
        | f :: rest =>
            ((Linux.threads tar stageRoot).step s.linux (.read i f)).map fun l =>
              { s with linux := l, toLinux := rest }
    | .windows a =>
        match a with
        | .pulled _ | .take _ _ _ => none
        | a => s.windowsStep host a
    | .windowsReads wrote =>
        match s.toWindows with
        | [] => none
        | f :: rest => s.heard host rest wrote (Windows.hears s.recv f)
    | .windowsTakes ts =>
        match s.received with
        | [] => none
        | (kind, data) :: rest =>
            ((Windows.helper host).step s.windows (.take kind data ts)).map fun w =>
              { s with windows := w, received := rest }
    | .loseToWindows n => some { s with toWindows := s.toWindows.eraseIdx n }
    | .loseToLinux n => some { s with toLinux := s.toLinux.eraseIdx n }

end Pair

/-! ## Frames that ask for files -/

/-- The frame is a PULL, and is read as one. -/
def isPull (f : Frame) : Bool :=
  match parse f with
  | none => false
  | some p => p.t = tPull && (readWord p.payload).isSome

theorem isPull_frame {t : UInt8} (ht : t ≠ tPull) (seq : UInt16) (p : Payload) :
    isPull (frame t seq p) = false := by
  simp [isPull, ht]

theorem feedOffer_ne_pull (r : Reassembler) (p : Payload) (id : UInt32) :
    (r.feedOffer p).2 ≠ .pull id := by
  unfold Reassembler.feedOffer
  split <;> exact nofun

theorem feedStart_ne_pull (r : Reassembler) (seq : UInt16) (p : Payload) (id : UInt32) :
    (r.feedStart seq p).2 ≠ .pull id := by
  unfold Reassembler.feedStart
  split
  · dsimp only
    split <;> exact nofun
  · exact nofun

theorem feedData_ne_pull (r : Reassembler) (seq : UInt16) (p : Payload) (id : UInt32) :
    (r.feedData seq p).2 ≠ .pull id := by
  unfold Reassembler.feedData
  split
  · exact nofun
  · dsimp only
    split
    · exact nofun
    · split <;> exact nofun

theorem feedEnd_ne_pull (r : Reassembler) (seq : UInt16) (p : Payload) (id : UInt32) :
    (r.feedEnd seq p).2 ≠ .pull id := by
  unfold Reassembler.feedEnd
  split
  · exact nofun
  · dsimp only
    split
    · exact nofun
    · split <;> exact nofun

/-- No other frame is read as a PULL. -/
theorem isPull_of_pull {r : Reassembler} {f : Frame} {id : UInt32} (h : (r.feed f).2 = .pull id) :
    isPull f = true := by
  cases hp : parse f with
  | none =>
      rw [Reassembler.feed, hp] at h
      cases h
  | some p =>
      rw [r.feed_of_parse hp] at h
      have ht : p.t = tPull := by
        by_contra hne
        unfold Reassembler.feedParsed at h
        rw [if_neg hne] at h
        repeat' split at h
        · cases h
        · cases h
        · cases h
        · cases h
        · exact feedOffer_ne_pull r p.payload id h
        · exact feedStart_ne_pull r p.seq p.payload id h
        · exact feedData_ne_pull r p.seq p.payload id h
        · exact feedEnd_ne_pull r p.seq p.payload id h
        · cases h
      rw [Reassembler.feedParsed_pull ht, Reassembler.feedPull] at h
      cases hword : readWord p.payload with
      | none =>
          rw [hword] at h
          cases h
      | some w => simp [isPull, hp, ht, hword]

/-- The frames of a transfer ask for nothing, nor does an ABORT. -/
theorem not_isPull_transfer {kind : UInt8} {data : List UInt8} {f : Frame}
    (h : f ∈ encodeTransfer kind data) : isPull f = false := by
  rw [encodeTransfer_eq] at h
  rcases List.mem_cons.mp h with rfl | h
  · exact isPull_frame (by decide) _ _
  · rcases List.mem_append.mp h with h | h
    · obtain ⟨seq, c, rfl⟩ := dataPart_frames data f h
      exact isPull_frame (by decide) _ _
    · rw [List.mem_singleton.mp h]
      exact isPull_frame (by decide) _ _

/-- What a call of the sender has tried to write are frames of the transfer, or
an ABORT. -/
theorem tried_mem {frames : List Frame} {acts : List SendAct} {p : Linux.Retry}
    (h : (Linux.sendWithRetry frames).exec Linux.start acts = some p) :
    ∀ f ∈ tried acts, f ∈ frames ∨ f = abortFrame := by
  refine (Linux.sendWithRetry frames).exec_induction
    (P := fun acts _ => ∀ f ∈ tried acts, f ∈ frames ∨ f = abortFrame) (fun f hf => by cases hf) ?_ h
  intro as a s s' ih hst f hf
  rw [tried_append] at hf
  rcases List.mem_append.mp hf with hf | hf
  · exact ih f hf
  · cases a with
    | write g ok =>
        rw [List.mem_singleton.mp hf]
        rcases Linux.step_write hst with ⟨k, i, sent, -, hg, -⟩ | ⟨k, -, hg, -⟩
        · exact .inl (List.mem_of_getElem? hg)
        · exact .inr hg
    | _ => cases hf

/-- So no transfer asks for files. -/
theorem not_isPull_written {kind : UInt8} {data : List UInt8} {acts : List SendAct} {p : Linux.Retry}
    (h : (Linux.sendWithRetry (encodeTransfer kind data)).exec Linux.start acts = some p) :
    ∀ f ∈ written acts, isPull f = false := by
  intro f hf
  rcases tried_mem h f ((written_sublist acts).subset hf) with hf | rfl
  · exact not_isPull_transfer hf
  · exact isPull_frame (by decide) _ _

theorem not_isPull_sendResult {kind : UInt8} {data : List UInt8} {sends : List SendAct}
    {r : Except Bool Unit} (h : Linux.sendResult kind data sends = some r) :
    ∀ f ∈ written sends, isPull f = false := by
  rw [Linux.sendResult] at h
  split at h
  next r hexec => exact not_isPull_written hexec
  next => cases h

theorem not_isPull_sendFrames {kind : UInt8} {data : List UInt8} {sends : List SendAct}
    {ok : Bool} (h : Windows.sendResult kind data sends = some ok) :
    ∀ f ∈ written sends, isPull f = false := by
  rw [Windows.sendResult, exec_windows] at h
  split at h
  next r hexec =>
    obtain ⟨p, hp, -⟩ := Option.map_eq_some_iff.mp hexec
    exact not_isPull_written hp
  next => cases h

theorem not_isPull_acksFor (o : FeedResult) : ∀ f ∈ acksFor o, isPull f = false := by
  intro f hf
  cases o with
  | progress n =>
      rw [acksFor] at hf
      split at hf
      · rw [List.mem_singleton.mp hf]
        exact isPull_frame (by decide) _ _
      · cases hf
  | _ => cases hf

/-! ## One event of the Linux agent -/

namespace Linux

/-- The event is a crossing to that side, or a "pull". -/
def Ev.crosses (side : String) : Ev → Bool
  | .control msg => msg = side || msg = "pull"
  | _ => false

def Effect.isPush : Effect → Bool
  | .push .. => true
  | _ => false

/-- No files are sent or asked for. -/
def Mild (sends : List SendAct) (es : List Effect) : Prop :=
  ∀ e ∈ es, e.isPush = false ∧ ∀ f ∈ e.frames sends, isPull f = false

/-- The frames that the effects have written. -/
def frames (sends : List SendAct) (es : List Effect) : List Frame :=
  es.flatMap (Effect.frames sends)

section Events
variable {tar : TarCrate} {stageRoot : Path} {a : Agent} {recv : Reassembler} {fs : Fs}
  {ans : Answers} {o : Outcome} {sends : List SendAct} {es : List Effect}

theorem mild_nil : Mild sends [] := fun _ h => by cases h

theorem mild_write {f : Frame} (hf : isPull f = false) (ok : Bool) : Mild sends [.write f ok] := by
  intro e he
  rw [List.mem_singleton.mp he]
  refine ⟨rfl, ?_⟩
  intro g hg
  simp only [Effect.frames] at hg
  split at hg
  · rw [List.mem_singleton.mp hg]
    exact hf
  · cases hg

theorem Mild.pushes (h : Mild sends es) : es.countP Effect.isPush = 0 := by
  rw [List.countP_eq_zero]
  intro e he
  rw [(h e he).1]
  exact Bool.false_ne_true

theorem Mild.isPull (h : Mild sends es) : (frames sends es).countP isPull = 0 := by
  rw [List.countP_eq_zero]
  intro f hf
  obtain ⟨e, he, hf⟩ := List.mem_flatMap.mp hf
  rw [(h e he).2 f hf]
  exact Bool.false_ne_true

theorem mild_onTick : Mild sends (onTick a recv fs ans).effects := by
  rw [onTick]
  split
  · exact mild_nil
  · exact mild_write (isPull_frame (by decide) _ _) _

theorem mild_onLocal {kind : UInt8} {content : List UInt8} {h : UInt64}
    (ho : onLocal a recv fs kind content h ans = some o) : Mild ans.sends o.effects := by
  rcases onLocal_cases ho with ⟨-, rfl⟩ | ⟨-, rfl, offer, -, rfl⟩ | ⟨-, -, r, hr, rfl⟩
  · exact mild_nil
  · intro e he
    rw [List.mem_singleton.mp he]
    refine ⟨rfl, fun f hf => ?_⟩
    simp only [Effect.frames] at hf
    split at hf
    · rw [List.mem_singleton.mp hf]
      exact isPull_frame (by decide) _ _
    · cases hf
  · intro e he
    rw [List.mem_singleton.mp he]
    exact ⟨rfl, not_isPull_sendResult hr⟩

/-- A frame that is no PULL is answered at most. -/
theorem mild_onFrame {f : Frame} (hf : isPull f = false)
    (ho : onFrame tar stageRoot a recv fs f ans = some o) : Mild ans.sends o.effects := by
  cases hfeed : (recv.feed f).2 with
  | pull id =>
      rw [isPull_of_pull hfeed] at hf
      cases hf
  | complete kind data =>
      cases hr : receive tar stageRoot fs ans.ts kind data with
      | none =>
          simp only [onFrame, handleFrame, hfeed, hr] at ho
          cases ho
          exact mild_nil
      | some r =>
          cases hset : ans.set with
          | true =>
              simp only [onFrame, handleFrame, hfeed, hr, hset, if_true] at ho
              cases ho
              intro e he
              rw [List.mem_singleton.mp he]
              exact ⟨rfl, fun f hf => by cases hf⟩
          | false =>
              simp only [onFrame, handleFrame, hfeed, hr, hset, Bool.false_eq_true, if_false] at ho
              cases ho
              exact mild_nil
  | progress n =>
      simp only [onFrame, handleFrame, hfeed] at ho
      cases ho
      intro e he
      obtain ⟨ack, hack, rfl⟩ := List.mem_map.mp he
      exact mild_write (not_isPull_acksFor _ ack hack) ans.wrote _ List.mem_cons_self
  | ping =>
      simp only [onFrame, handleFrame, hfeed] at ho
      cases ho
      exact mild_write (isPull_frame (by decide) _ _) _
  | _ =>
      simp only [onFrame, handleFrame, hfeed] at ho
      cases ho
      exact mild_nil

/-- A push is one batch, and asks for nothing. -/
theorem pushLocalOffer_one {lo : LocalOffer} {r : Except Bool Unit}
    (h : pushLocalOffer tar fs lo sends = some (es, r)) :
    es.countP Effect.isPush ≤ 1 ∧ (frames sends es).countP isPull = 0 := by
  rw [pushLocalOffer] at h
  split at h
  next archive hpack =>
    obtain ⟨r', hr, heq⟩ := Option.map_eq_some_iff.mp h
    cases heq
    refine ⟨List.countP_le_length, List.countP_eq_zero.mpr fun f hf => ?_⟩
    rw [frames, List.flatMap_cons, List.flatMap_nil, List.append_nil] at hf
    rw [not_isPull_sendResult hr f hf]
    exact Bool.false_ne_true
  next =>
    cases h
    exact ⟨Nat.zero_le _, rfl⟩

/-- What one event can do: it sends files on a crossing to the other side only,
and asks for some on a crossing to this one. -/
theorem handle_crossing {ev : Ev} (h : handle tar stageRoot a recv fs ev ans = some o)
    (hev : ∀ f, ev = .frame f → isPull f = false) :
    o.effects.countP Effect.isPush ≤ (ev.crosses "remote").toNat ∧
      (frames ans.sends o.effects).countP isPull ≤ (ev.crosses "local").toNat := by
  have hmild : Mild ans.sends o.effects → o.effects.countP Effect.isPush ≤ (ev.crosses "remote").toNat ∧
      (frames ans.sends o.effects).countP isPull ≤ (ev.crosses "local").toNat := by
    intro hm
    rw [hm.pushes, hm.isPull]
    exact ⟨Nat.zero_le _, Nat.zero_le _⟩
  cases ev with
  | tick =>
      cases h
      exact hmild mild_onTick
  | «local» kind content hash => exact hmild (mild_onLocal h)
  | frame f => exact hmild (mild_onFrame (hev f rfl) h)
  | disconnected =>
      cases h
      exact hmild mild_nil
  | control msg =>
      obtain ⟨a₁, es₁, end₁, hpush, ho⟩ := onControl_cases h
      have hes₁ : es₁.countP Effect.isPush ≤ (Ev.crosses "remote" (.control msg)).toNat ∧
          (frames ans.sends es₁).countP isPull = 0 := by
        split at hpush
        next hmsg =>
          have hcross : Ev.crosses "remote" (.control msg) = true := by
            simpa [Ev.crosses] using hmsg
          rw [hcross]
          rcases controlPush_cases hpush with ⟨-, -, rfl, -⟩ | ⟨lo, r, -, hlo, -, -⟩
          · exact ⟨Nat.zero_le _, rfl⟩
          · exact pushLocalOffer_one hlo
        next =>
          rw [hpush.2.1]
          exact ⟨Nat.zero_le _, rfl⟩
      split at ho
      next hpull =>
        have hcross : Ev.crosses "local" (.control msg) = true := by
          simpa [Ev.crosses] using hpull.2
        have hes₂ : (controlPull a₁ msg ans).2.1.countP Effect.isPush = 0 ∧
            (frames ans.sends (controlPull a₁ msg ans).2.1).countP isPull ≤ 1 := by
          rcases controlPull_cases a₁ msg ans with ⟨hnone, -⟩ | ⟨ro, -, -, hsome⟩
          · rw [hnone]
            exact ⟨rfl, Nat.zero_le _⟩
          · rw [hsome]
            refine ⟨rfl, ?_⟩
            simp only [frames, List.flatMap_cons, List.flatMap_nil, List.append_nil, Effect.frames]
            split
            · exact List.countP_le_length
            · exact Nat.zero_le _
        rw [ho, hcross]
        simp only [frames, List.flatMap_append, List.countP_append]
        simp only [frames] at hes₁ hes₂
        rw [hes₂.1, hes₁.2, Nat.add_zero, Nat.zero_add]
        exact ⟨hes₁.1, hes₂.2⟩
      next =>
        rw [ho]
        refine ⟨hes₁.1, ?_⟩
        show (frames ans.sends es₁).countP isPull ≤ _
        rw [hes₁.2]
        exact Nat.zero_le _

/-! One step of the agent's threads. -/

def Act.crosses (side : String) : Act → Bool
  | .control msg => Ev.crosses side (.control msg)
  | _ => false

/-- The crossings that wait to be handled. -/
def System.crossings (s : System) (side : String) : Nat :=
  s.queue.countP fun item => item.ev.crosses side

/-- No frame that waits asks for files. -/
def System.Unasked (s : System) : Prop := ∀ item ∈ s.queue, ∀ f, item.ev = .frame f → isPull f = false

theorem Unasked.push {s : System} (h : s.Unasked) {ev : Ev} (hev : ∀ f, ev = .frame f → isPull f = false)
    (source : Source) : (s.push ev source).Unasked := by
  intro item hitem f hf
  rcases List.mem_append.mp hitem with hitem | hitem
  · exact h item hitem f hf
  · rw [List.mem_singleton.mp hitem] at hf
    exact hev f hf

theorem crossings_push (s : System) (ev : Ev) (source : Source) (side : String) :
    (s.push ev source).crossings side = s.crossings side + (ev.crosses side).toNat := by
  rw [System.crossings, System.push, List.countP_append, List.countP_singleton]
  cases ev.crosses side <;> rfl

/-- What a step adds to the effects, paid for by a crossing: one that comes, or
one that waited. -/
structure Paid (a : Act) (s s' : System) (es : List Effect) : Prop where
  unasked : s'.Unasked
  effects : s'.effects = s.effects ++ es
  remote : s'.crossings "remote" + es.countP Effect.isPush ≤
    s.crossings "remote" + (a.crosses "remote").toNat
  «local» : s'.crossings "local" + (frames a.sends es).countP isPull ≤
    s.crossings "local" + (a.crosses "local").toNat

/-- A step without effects that changes the queue by one event at most. -/
theorem paid_quiet {a : Act} {s s' : System} (hs : s'.Unasked) (heffects : s'.effects = s.effects)
    (hcross : ∀ side, s'.crossings side ≤ s.crossings side + (a.crosses side).toNat) :
    Paid a s s' [] where
  unasked := hs
  effects := by rw [heffects, List.append_nil]
  remote := hcross _
  «local» := hcross _

theorem paid_step {a : Act} {s s' : System} (hs : s.Unasked)
    (hst : (threads tar stageRoot).step s a = some s') (ha : ∀ i f, a ≠ .read i f) :
    ∃ es, Paid a s s' es := by
  cases a with
  | read i f => exact absurd rfl (ha i f)
  | copy sel =>
      cases hst
      exact ⟨[], paid_quiet hs rfl fun _ => Nat.le_add_right _ _⟩
  | files fs =>
      cases hst
      exact ⟨[], paid_quiet hs rfl fun _ => Nat.le_add_right _ _⟩
  | watch =>
      cases hst
      rcases watch_cases s with heq | ⟨kind, content, h, -, -, heq⟩
      · rw [heq]
        exact ⟨[], paid_quiet hs rfl fun _ => Nat.le_add_right _ _⟩
      · rw [heq]
        refine ⟨[], paid_quiet (Unasked.push hs (fun f hf => by cases hf) _) rfl fun side => ?_⟩
        rw [crossings_push]
        exact Nat.le_refl _
  | control msg =>
      cases hst
      refine ⟨[], paid_quiet (Unasked.push hs (fun f hf => by cases hf) _) rfl fun side => ?_⟩
      rw [crossings_push]
      exact Nat.le_refl _
  | timer =>
      cases hst
      refine ⟨[], paid_quiet (Unasked.push hs (fun f hf => by cases hf) _) rfl fun side => ?_⟩
      rw [crossings_push]
      exact Nat.le_refl _
  | connect =>
      obtain ⟨-, rfl⟩ := connect_eq_some hst
      exact ⟨[], paid_quiet hs rfl fun _ => Nat.le_add_right _ _⟩
  | hangUp i =>
      obtain ⟨-, rfl⟩ := hangUp_eq_some hst
      refine ⟨[], paid_quiet (Unasked.push hs (fun f hf => by cases hf) _) rfl fun side => ?_⟩
      rw [crossings_push]
      exact Nat.le_refl _
  | main ans =>
      obtain ⟨i, item, rest, o, -, hqueue, ho, rfl⟩ := main_eq_some hst
      have hitem : item ∈ s.queue := hqueue ▸ List.mem_cons_self
      obtain ⟨hpush, hask⟩ := handle_crossing ho (hs item hitem)
      have hcross : ∀ side, s.crossings side =
          (s.after i item rest o).crossings side + (item.ev.crosses side).toNat := by
        intro side
        rw [System.crossings, hqueue, List.countP_cons]
        cases item.ev.crosses side <;> rfl
      refine ⟨o.effects, ?_, rfl, ?_, ?_⟩
      · intro item' hitem'
        exact hs item' (hqueue ▸ List.mem_cons_of_mem _ hitem')
      · rw [hcross "remote"]
        exact Nat.add_le_add_left hpush _
      · rw [hcross "local"]
        exact Nat.add_le_add_left hask _

end Events
end Linux

/-! ## One step of the helper -/

namespace Windows

def Sent.isPush : Sent → Bool
  | .push .. => true
  | _ => false

/-- A request that waits for the send loop. -/
def Helper.request (s : Helper) : Nat := s.pullRequest.isSome.toNat

/-- What a step adds to what was sent, paid for by a request. -/
structure Paid (a : Act) (s s' : Helper) (ss : List Sent) : Prop where
  sents : s'.sents = s.sents ++ ss
  request : s'.request + ss.countP Sent.isPush ≤ s.request
  unasked : ∀ f ∈ ss.flatMap (Sent.frames a.sends), isPull f = false

section Steps
variable {host : Host} {s s' : Helper}

theorem paid_quiet {a : Act} (hsents : s'.sents = s.sents) (hpull : s'.pullRequest = s.pullRequest) :
    Paid a s s' [] where
  sents := by rw [hsents, List.append_nil]
  request := by rw [Helper.request, Helper.request, hpull]; exact Nat.le_refl _
  unasked f hf := by cases hf

/-- A PULL is served with one batch at most. -/
theorem paid_pull {sends : List SendAct} (h : s.pull host sends = some s') :
    ∃ ss, Paid (.pull sends) s s' ss := by
  rcases pull_cases h with rfl | ⟨lo, archive, ok, hserves, rfl⟩
  · exact ⟨[], (List.append_nil _).symm, Nat.zero_le _, fun f hf => by cases hf⟩
  · refine ⟨[.push lo.paths archive ok], rfl, ?_, ?_⟩
    · rw [Helper.request, Helper.request, hserves.request]
      exact Nat.le_refl _
    · intro f hf
      rw [List.flatMap_cons, List.flatMap_nil, List.append_nil] at hf
      exact not_isPull_sendFrames hserves.result f hf

theorem paid_send {kind : UInt8} {content : List UInt8} {h : UInt64} {wrote : Bool}
    {sends : List SendAct} (hs : s.send host kind content h wrote sends = some s') :
    ∃ ss, Paid (.send wrote sends) s s' ss := by
  rcases send_cases hs with rfl | ⟨-, sig, total, -, rfl⟩ | ⟨-, ok, hok, rfl⟩
  · exact ⟨[], paid_quiet rfl rfl⟩
  · refine ⟨_, rfl, Nat.le_refl _, ?_⟩
    intro f hf
    rw [List.flatMap_cons, List.flatMap_nil, List.append_nil] at hf
    simp only [Sent.frames] at hf
    split at hf
    · rw [List.mem_singleton.mp hf]
      exact isPull_frame (by decide) _ _
    · cases hf
  · refine ⟨[.send kind content ok], rfl, Nat.le_refl _, ?_⟩
    intro f hf
    rw [List.flatMap_cons, List.flatMap_nil, List.append_nil] at hf
    exact not_isPull_sendFrames hok f hf

theorem paid_step {a : Act} (hst : (helper host).step s a = some s') (ha : ∀ id, a ≠ .pulled id) :
    ∃ ss, Paid a s s' ss := by
  cases a with
  | pulled id => exact absurd rfl (ha id)
  | copy c =>
      cases hst
      exact ⟨[], paid_quiet rfl rfl⟩
  | files fs =>
      cases hst
      exact ⟨[], paid_quiet rfl rfl⟩
  | take kind data ts =>
      rcases take_eq_some hst with rfl | ⟨p, fs, rfl⟩
      · exact ⟨[], paid_quiet rfl rfl⟩
      · exact ⟨[], paid_quiet rfl rfl⟩
  | publish set =>
      obtain ⟨p, clip, seqNum, -, rfl⟩ := publish_eq_some hst
      exact ⟨[], paid_quiet rfl rfl⟩
  | walk =>
      obtain ⟨staged, rfl⟩ := walk_eq_some hst
      exact ⟨[], paid_quiet rfl rfl⟩
  | store =>
      obtain ⟨kind, content, y, -, rfl⟩ := store_eq_some hst
      exact ⟨[], paid_quiet rfl rfl⟩
  | pull sends =>
      simp only [helper] at hst
      split at hst
      · exact paid_pull hst
      · cases hst
  | see =>
      rcases see_eq_some hst with rfl | rfl
      · exact ⟨[], paid_quiet rfl rfl⟩
      · exact ⟨[], paid_quiet rfl rfl⟩
  | read =>
      rcases read_eq_some hst with rfl | ⟨kind, content, y, -, rfl⟩
      · exact ⟨[], paid_quiet rfl rfl⟩
      · exact ⟨[], paid_quiet rfl rfl⟩
  | compare =>
      simp only [helper] at hst
      split at hst
      · cases hst
        exact ⟨[], paid_quiet rfl rfl⟩
      · cases hst
  | send wrote sends =>
      simp only [helper] at hst
      split at hst
      · exact paid_send hst
      · cases hst

end Steps
end Windows

/-! ## Both sides, step by step -/

section Runs
variable {host : Windows.Host} {tar : TarCrate} {stageRoot : Path} {s s' : Pair}

theorem linux_eq_some {a : Linux.Act} (h : (pair host tar stageRoot).step s (.linux a) = some s') :
    (∀ i f, a ≠ .read i f) ∧ ∃ l, (Linux.threads tar stageRoot).step s.linux a = some l ∧
      s' = { s with
        linux := l
        toWindows := s.toWindows ++ (wroteLinux a s.linux l).filter fun f => !isPing f
        toLinux := s.toLinux ++ ((wroteLinux a s.linux l).filter isPing).map fun _ => Relay.pong } := by
  simp only [pair] at h
  split at h
  next => cases h
  next hread =>
    obtain ⟨l, hl, rfl⟩ := Option.map_eq_some_iff.mp h
    exact ⟨hread, l, hl, rfl⟩

theorem linuxReads_eq_some {i : Nat} (h : (pair host tar stageRoot).step s (.linuxReads i) = some s') :
    ∃ f rest l, s.toLinux = f :: rest ∧
      (Linux.threads tar stageRoot).step s.linux (.read i f) = some l ∧
      s' = { s with linux := l, toLinux := rest } := by
  simp only [pair] at h
  split at h
  next => cases h
  next f rest hto =>
    obtain ⟨l, hl, rfl⟩ := Option.map_eq_some_iff.mp h
    exact ⟨f, rest, l, hto, hl, rfl⟩

theorem windows_eq_some {a : Windows.Act} (h : (pair host tar stageRoot).step s (.windows a) = some s') :
    (∀ id, a ≠ .pulled id) ∧ ∃ w, (Windows.helper host).step s.windows a = some w ∧
      s' = { s with windows := w, toLinux := s.toLinux ++ wroteWindows a s.windows w } := by
  simp only [pair] at h
  split at h
  next => cases h
  next => cases h
  next hpulled _ =>
    obtain ⟨w, hw, rfl⟩ := Option.map_eq_some_iff.mp h
    exact ⟨hpulled, w, hw, rfl⟩

theorem windowsReads_eq_some {wrote : Bool}
    (h : (pair host tar stageRoot).step s (.windowsReads wrote) = some s') :
    ∃ f rest, s.toWindows = f :: rest ∧ ∃ w,
      s' = { s with
        windows := w
        toWindows := rest
        recv := (Windows.hears s.recv f).recv
        received := s.received ++ (Windows.hears s.recv f).transfer.toList
        toLinux := s.toLinux ++ if wrote then (Windows.hears s.recv f).answers else [] } ∧
      ((Windows.hears s.recv f).pull = none ∧ w = s.windows ∨
        ∃ id, (Windows.hears s.recv f).pull = some id ∧
          (Windows.helper host).step s.windows (.pulled id) = some w) := by
  simp only [pair] at h
  split at h
  next => cases h
  next f rest hto =>
    refine ⟨f, rest, hto, ?_⟩
    unfold Pair.heard at h
    dsimp only at h
    split at h
    next hnone =>
      cases h
      exact ⟨s.windows, rfl, .inl ⟨hnone, rfl⟩⟩
    next id hid =>
      obtain ⟨w, hw, rfl⟩ := Option.map_eq_some_iff.mp h
      exact ⟨w, rfl, .inr ⟨id, hid, hw⟩⟩

theorem windowsTakes_eq_some {ts : Nat}
    (h : (pair host tar stageRoot).step s (.windowsTakes ts) = some s') :
    ∃ kind data rest w, (Windows.helper host).step s.windows (.take kind data ts) = some w ∧
      s' = { s with windows := w, received := rest } := by
  simp only [pair] at h
  split at h
  next => cases h
  next kind data rest hto =>
    obtain ⟨w, hw, rfl⟩ := Option.map_eq_some_iff.mp h
    exact ⟨kind, data, rest, w, hw, rfl⟩

/-- What the steps of the Linux agent keep, both sides together keep. -/
theorem linux_keeps {P : Linux.System → Prop}
    (hkeep : ∀ l a l', P l → (Linux.threads tar stageRoot).step l a = some l' → P l') {a : PairAct}
    (hs : P s.linux) (hst : (pair host tar stageRoot).step s a = some s') : P s'.linux := by
  cases a with
  | linux b =>
      obtain ⟨-, l, hl, rfl⟩ := linux_eq_some hst
      exact hkeep _ _ _ hs hl
  | linuxReads i =>
      obtain ⟨f, rest, l, -, hl, rfl⟩ := linuxReads_eq_some hst
      exact hkeep _ _ _ hs hl
  | windows b =>
      obtain ⟨-, w, -, rfl⟩ := windows_eq_some hst
      exact hs
  | windowsReads wrote =>
      obtain ⟨f, rest, -, w, rfl, -⟩ := windowsReads_eq_some hst
      exact hs
  | windowsTakes ts =>
      obtain ⟨kind, data, rest, w, -, rfl⟩ := windowsTakes_eq_some hst
      exact hs
  | loseToWindows n | loseToLinux n =>
      cases hst
      exact hs

/-- And so for the helper. -/
theorem windows_keeps {P : Windows.Helper → Prop}
    (hkeep : ∀ w a w', P w → (Windows.helper host).step w a = some w' → P w') {a : PairAct}
    (hs : P s.windows) (hst : (pair host tar stageRoot).step s a = some s') : P s'.windows := by
  cases a with
  | linux b =>
      obtain ⟨-, l, -, rfl⟩ := linux_eq_some hst
      exact hs
  | linuxReads i =>
      obtain ⟨f, rest, l, -, -, rfl⟩ := linuxReads_eq_some hst
      exact hs
  | windows b =>
      obtain ⟨-, w, hw, rfl⟩ := windows_eq_some hst
      exact hkeep _ _ _ hs hw
  | windowsReads wrote =>
      obtain ⟨f, rest, -, w, rfl, ⟨-, rfl⟩ | ⟨id, -, hw⟩⟩ := windowsReads_eq_some hst
      · exact hs
      · exact hkeep _ _ _ hs hw
  | windowsTakes ts =>
      obtain ⟨kind, data, rest, w, hw, rfl⟩ := windowsTakes_eq_some hst
      exact hkeep _ _ _ hs hw
  | loseToWindows n | loseToLinux n =>
      cases hst
      exact hs

/-! ## Files cross on request -/

def PairAct.crosses (side : String) : PairAct → Bool
  | .linux a => a.crosses side
  | _ => false

/-- The user's crossings to a side, and requests. -/
def crossings (side : String) (as : List PairAct) : Nat := as.countP (PairAct.crosses side)

/-- Where the crossings so far can be. -/
structure Asked (as : List PairAct) (s : Pair) : Prop where
  toLinux : ∀ f ∈ s.toLinux, isPull f = false
  unasked : s.linux.Unasked
  remote : s.linux.crossings "remote" + s.linux.effects.countP Linux.Effect.isPush ≤
    crossings "remote" as
  «local» : s.linux.crossings "local" + s.toWindows.countP isPull + s.windows.request +
    s.windows.sents.countP Windows.Sent.isPush ≤ crossings "local" as

theorem asked_init {fs winFs : Fs} {clip : Selection} {winClip : Windows.Formats} {seqNum : Nat} :
    Asked [] (.init host fs clip winFs winClip seqNum) where
  toLinux f hf := by cases hf
  unasked item hitem := by cases hitem
  remote := Nat.le_refl _
  «local» := Nat.le_refl _

theorem crossings_snoc (side : String) (as : List PairAct) (a : PairAct) :
    crossings side (as ++ [a]) = crossings side as + (a.crosses side).toNat := by
  rw [crossings, List.countP_append, List.countP_singleton]
  cases a.crosses side <;> rfl

theorem not_isPull_pong : isPull Relay.pong = false := by
  have hparse : parse Relay.pong = some ⟨0x02, 0, ⟨[], Nat.zero_le _⟩⟩ := by decide +kernel
  rw [isPull, hparse]
  rfl

theorem asked_linux {as : List PairAct} {a : Linux.Act} (h : Asked as s)
    (hst : (pair host tar stageRoot).step s (.linux a) = some s') :
    Asked (as ++ [.linux a]) s' := by
  obtain ⟨hread, l, hl, rfl⟩ := linux_eq_some hst
  obtain ⟨es, hpaid⟩ := Linux.paid_step h.unasked hl hread
  have hwrote : wroteLinux a s.linux l = Linux.frames a.sends es := by
    rw [wroteLinux, hpaid.effects, List.drop_left]
    rfl
  refine ⟨?_, hpaid.unasked, ?_, ?_⟩
  · intro f hf
    rcases List.mem_append.mp hf with hf | hf
    · exact h.toLinux f hf
    · obtain ⟨g, -, rfl⟩ := List.mem_map.mp hf
      exact not_isPull_pong
  · rw [crossings_snoc]
    have hremote := hpaid.remote
    have hbefore := h.remote
    show l.crossings "remote" + l.effects.countP Linux.Effect.isPush ≤
      crossings "remote" as + (a.crosses "remote").toNat
    rw [hpaid.effects, List.countP_append]
    omega
  · rw [crossings_snoc]
    have hlocal := hpaid.local
    have hbefore := h.local
    have hsent : ((wroteLinux a s.linux l).filter fun f => !isPing f).countP isPull ≤
        (Linux.frames a.sends es).countP isPull := by
      rw [hwrote]
      exact List.filter_sublist.countP_le
    show l.crossings "local" + (s.toWindows ++ (wroteLinux a s.linux l).filter
      fun f => !isPing f).countP isPull + s.windows.request +
        s.windows.sents.countP Windows.Sent.isPush ≤
      crossings "local" as + (a.crosses "local").toNat
    rw [List.countP_append]
    omega

theorem asked_linuxReads {as : List PairAct} {i : Nat} (h : Asked as s)
    (hst : (pair host tar stageRoot).step s (.linuxReads i) = some s') :
    Asked (as ++ [.linuxReads i]) s' := by
  obtain ⟨f, rest, l, hto, hl, rfl⟩ := linuxReads_eq_some hst
  have hf : isPull f = false := h.toLinux f (hto ▸ List.mem_cons_self)
  have hrest : ∀ g ∈ rest, isPull g = false :=
    fun g hg => h.toLinux g (hto ▸ List.mem_cons_of_mem _ hg)
  obtain ⟨-, rfl | rfl⟩ := Linux.read_eq_some hl
  · refine ⟨hrest, h.unasked, ?_, ?_⟩
    · rw [crossings_snoc]
      exact h.remote
    · rw [crossings_snoc]
      exact h.local
  · refine ⟨hrest, ?_, ?_, ?_⟩
    · refine Linux.Unasked.push h.unasked ?_ _
      intro g hg
      cases hg
      exact hf
    · rw [crossings_snoc, Linux.crossings_push]
      exact h.remote
    · rw [crossings_snoc, Linux.crossings_push]
      exact h.local

theorem asked_windows {as : List PairAct} {a : Windows.Act} (h : Asked as s)
    (hst : (pair host tar stageRoot).step s (.windows a) = some s') :
    Asked (as ++ [.windows a]) s' := by
  obtain ⟨hpulled, w, hw, rfl⟩ := windows_eq_some hst
  obtain ⟨ss, hpaid⟩ := Windows.paid_step hw hpulled
  have hwrote : wroteWindows a s.windows w = ss.flatMap (Windows.Sent.frames a.sends) := by
    rw [wroteWindows, hpaid.sents, List.drop_left]
  refine ⟨?_, h.unasked, ?_, ?_⟩
  · intro f hf
    rcases List.mem_append.mp hf with hf | hf
    · exact h.toLinux f hf
    · rw [hwrote] at hf
      exact hpaid.unasked f hf
  · rw [crossings_snoc]
    exact h.remote
  · rw [crossings_snoc]
    have hrequest := hpaid.request
    have hbefore := h.local
    show s.linux.crossings "local" + s.toWindows.countP isPull + w.request +
      w.sents.countP Windows.Sent.isPush ≤ crossings "local" as + _
    rw [hpaid.sents, List.countP_append]
    omega

/-- The reader answers with no PULL, and makes a request of a PULL only. -/
theorem hears_isPull (recv : Reassembler) (f : Frame) :
    (∀ g ∈ (Windows.hears recv f).answers, isPull g = false) ∧
      (isPull f = false → (Windows.hears recv f).pull = none) := by
  unfold Windows.hears
  split
  · exact ⟨nofun, fun _ => rfl⟩
  · dsimp only
    split
    · refine ⟨fun g hg => ?_, fun _ => rfl⟩
      rw [List.mem_singleton.mp hg]
      exact isPull_frame (by decide) _ _
    next n _ => exact ⟨fun g hg => not_isPull_acksFor (.progress n) g hg, fun _ => rfl⟩
    · exact ⟨nofun, fun _ => rfl⟩
    · rename_i hfeed
      refine ⟨nofun, fun hno => ?_⟩
      rw [isPull_of_pull hfeed] at hno
      cases hno
    · exact ⟨nofun, fun _ => rfl⟩

theorem asked_windowsReads {as : List PairAct} {wrote : Bool} (h : Asked as s)
    (hst : (pair host tar stageRoot).step s (.windowsReads wrote) = some s') :
    Asked (as ++ [.windowsReads wrote]) s' := by
  obtain ⟨f, rest, hto, w, rfl, hw⟩ := windowsReads_eq_some hst
  obtain ⟨hanswers, hpull⟩ := hears_isPull s.recv f
  have hrequest : w.request + rest.countP isPull ≤ s.windows.request + s.toWindows.countP isPull ∧
      w.sents = s.windows.sents := by
    rw [hto, List.countP_cons]
    rcases hw with ⟨-, rfl⟩ | ⟨id, hid, hstep⟩
    · exact ⟨by omega, rfl⟩
    · have hasks : isPull f = true := by
        by_contra hno
        rw [hpull (Bool.eq_false_iff.mpr hno)] at hid
        cases hid
      cases hstep
      refine ⟨?_, rfl⟩
      rw [hasks, if_pos rfl]
      show 1 + rest.countP isPull ≤ _
      omega
  refine ⟨?_, h.unasked, ?_, ?_⟩
  · intro g hg
    rcases List.mem_append.mp hg with hg | hg
    · exact h.toLinux g hg
    · split at hg
      · exact hanswers g hg
      · cases hg
  · rw [crossings_snoc]
    exact h.remote
  · rw [crossings_snoc]
    have hbefore := h.local
    show s.linux.crossings "local" + rest.countP isPull + w.request +
      w.sents.countP Windows.Sent.isPush ≤ crossings "local" as + _
    rw [hrequest.2]
    omega

theorem asked_windowsTakes {as : List PairAct} {ts : Nat} (h : Asked as s)
    (hst : (pair host tar stageRoot).step s (.windowsTakes ts) = some s') :
    Asked (as ++ [.windowsTakes ts]) s' := by
  obtain ⟨kind, data, rest, w, hw, rfl⟩ := windowsTakes_eq_some hst
  have hsame : w.request = s.windows.request ∧ w.sents = s.windows.sents := by
    rcases Windows.take_eq_some hw with rfl | ⟨p, fs, rfl⟩
    · exact ⟨rfl, rfl⟩
    · exact ⟨rfl, rfl⟩
  refine ⟨h.toLinux, h.unasked, ?_, ?_⟩
  · rw [crossings_snoc]
    exact h.remote
  · rw [crossings_snoc]
    show s.linux.crossings "local" + s.toWindows.countP isPull + w.request +
      w.sents.countP Windows.Sent.isPush ≤ _
    rw [hsame.1, hsame.2]
    exact h.local

theorem asked_step {as : List PairAct} {a : PairAct} (h : Asked as s)
    (hst : (pair host tar stageRoot).step s a = some s') : Asked (as ++ [a]) s' := by
  cases a with
  | linux b => exact asked_linux h hst
  | linuxReads i => exact asked_linuxReads h hst
  | windows b => exact asked_windows h hst
  | windowsReads wrote => exact asked_windowsReads h hst
  | windowsTakes ts => exact asked_windowsTakes h hst
  | loseToWindows n =>
      cases hst
      refine ⟨h.toLinux, h.unasked, ?_, ?_⟩
      · rw [crossings_snoc]
        exact h.remote
      · rw [crossings_snoc]
        have hlost : (s.toWindows.eraseIdx n).countP isPull ≤ s.toWindows.countP isPull :=
          (List.eraseIdx_sublist s.toWindows n).countP_le
        have hbefore := h.local
        show s.linux.crossings "local" + (s.toWindows.eraseIdx n).countP isPull + s.windows.request +
          s.windows.sents.countP Windows.Sent.isPush ≤ _
        omega
  | loseToLinux n =>
      cases hst
      refine ⟨?_, h.unasked, ?_, ?_⟩
      · intro f hf
        exact h.toLinux f ((List.eraseIdx_sublist _ _).subset hf)
      · rw [crossings_snoc]
        exact h.remote
      · rw [crossings_snoc]
        exact h.local

/-- **Files cross on request.** However the two agents and the frames between
them interleave, and whatever is lost: the Linux agent has sent no more batches
than there were crossings to the other side, the helper no more than crossings
to this one, each with the user's own requests. -/
theorem files_on_request {fs winFs : Fs} {clip : Selection} {winClip : Windows.Formats}
    {seqNum : Nat} {as : List PairAct}
    (h : (pair host tar stageRoot).exec (.init host fs clip winFs winClip seqNum) as = some s) :
    s.linux.effects.countP Linux.Effect.isPush ≤ crossings "remote" as ∧
      s.windows.sents.countP Windows.Sent.isPush ≤ crossings "local" as := by
  have hasked : Asked as s := (pair host tar stageRoot).exec_induction (P := Asked) asked_init
    (fun _ _ _ _ hs hst => asked_step hs hst) h
  exact ⟨Nat.le_trans (Nat.le_add_left _ _) hasked.remote,
    Nat.le_trans (Nat.le_add_left _ _) hasked.local⟩

end Runs

/-! ## Each offer is sent once -/

namespace Linux

def Effect.isSent : Effect → Bool
  | .push _ _ (.ok _) => true
  | _ => false

def Effect.isOffered : Effect → Bool
  | .offer _ _ ok => ok
  | _ => false

section Events
variable {tar : TarCrate} {stageRoot : Path} {a : Agent} {recv : Reassembler} {fs : Fs}
  {ans : Answers} {o : Outcome}

theorem sent_onlyWrites {es : List Effect} (h : OnlyWrites es) : es.countP Effect.isSent = 0 := by
  rw [List.countP_eq_zero]
  intro e he
  obtain ⟨f, ok, rfl⟩ := h e he
  exact Bool.false_ne_true

/-- A push that is sent is one. -/
theorem pushLocalOffer_sent {lo : LocalOffer} {sends : List SendAct} {es : List Effect}
    {r : Except Bool Unit} (h : pushLocalOffer tar fs lo sends = some (es, r)) :
    es.countP Effect.isSent ≤ 1 ∧ (r ≠ .ok () → es.countP Effect.isSent = 0) := by
  rw [pushLocalOffer] at h
  split at h
  next archive hpack =>
    obtain ⟨r', hr, heq⟩ := Option.map_eq_some_iff.mp h
    cases heq
    refine ⟨List.countP_le_length, fun hne => ?_⟩
    match r with
    | .ok () => exact absurd rfl hne
    | .error lost => rfl
  next =>
    cases h
    exact ⟨Nat.zero_le _, fun _ => rfl⟩

theorem controlPush_once {a' : Agent} {es : List Effect} {ended : Option End}
    (h : controlPush tar a fs ans = some (a', es, ended)) :
    es.countP Effect.isSent + a'.localOffer.isSome.toNat ≤ a.localOffer.isSome.toNat := by
  rcases controlPush_cases h with ⟨-, rfl, rfl, -⟩ | ⟨lo, r, hlo, hpush, rfl, -⟩
  · exact Nat.le_of_eq (Nat.zero_add _)
  · obtain ⟨hone, hzero⟩ := pushLocalOffer_sent hpush
    rw [hlo]
    split
    next hr =>
      rw [hzero (by rw [hr]; exact nofun), hlo]
      exact Nat.le_refl _
    next => exact hone

theorem onPull_once {id : UInt32} {a' : Agent} {es : List Effect} {ended : Option End}
    (h : onPull tar a fs id ans = some (a', es, ended)) :
    es.countP Effect.isSent + a'.localOffer.isSome.toNat ≤ a.localOffer.isSome.toNat := by
  rcases onPull_cases h with ⟨rfl, rfl, -⟩ | ⟨lo, r, hlo, -, hpush, rfl, -⟩
  · exact Nat.le_of_eq (Nat.zero_add _)
  · obtain ⟨hone, hzero⟩ := pushLocalOffer_sent hpush
    split
    next =>
      rw [hlo]
      exact hone
    next hr =>
      rw [hzero hr]
      exact Nat.le_of_eq (Nat.zero_add _)

/-- A batch is sent from the offer that is held, and an offer is held once it is
made. -/
theorem handle_once {ev : Ev} (h : handle tar stageRoot a recv fs ev ans = some o) :
    o.effects.countP Effect.isSent + o.agent.localOffer.isSome.toNat ≤
      a.localOffer.isSome.toNat + o.effects.countP Effect.isOffered := by
  have hwrites : OnlyWrites o.effects → o.agent.localOffer = a.localOffer →
      o.effects.countP Effect.isSent + o.agent.localOffer.isSome.toNat ≤
        a.localOffer.isSome.toNat + o.effects.countP Effect.isOffered := by
    intro hes ha
    rw [sent_onlyWrites hes, ha, Nat.zero_add]
    exact Nat.le_add_right _ _
  cases ev with
  | tick =>
      cases h
      unfold onTick
      split
      · exact Nat.le_of_eq (Nat.zero_add _)
      · exact Nat.le_of_eq (Nat.zero_add _)
  | disconnected =>
      cases h
      exact Nat.le_of_eq (Nat.zero_add _)
  | «local» kind content hash =>
      rcases onLocal_cases h with ⟨-, rfl⟩ | ⟨-, rfl, offer, -, rfl⟩ | ⟨-, -, r, -, rfl⟩
      · exact Nat.le_of_eq (Nat.zero_add _)
      · cases ans.wrote with
        | true => exact Nat.le_add_left 1 _
        | false => exact Nat.le_of_eq (Nat.zero_add _)
      · exact Nat.zero_le _
  | frame f =>
      rcases onFrame_cases h with ⟨kind, r, -, rfl⟩ | ⟨-, es, hes, ⟨hes', -, ha⟩ | hpull⟩
      · exact Nat.le_of_eq (Nat.zero_add _)
      · refine hwrites (hes' ▸ hes) ?_
        rcases ha with ha | ⟨offer, ha⟩
        · rw [ha]
        · rw [ha]
      · obtain ⟨fs', id, a', es', ended, hpull, ha, heff, -⟩ := hpull
        rw [heff, ha, List.countP_append, sent_onlyWrites hes, Nat.zero_add]
        exact Nat.le_trans (onPull_once hpull) (Nat.le_add_right _ _)
  | control msg =>
      obtain ⟨a₁, es₁, end₁, hpush, ho⟩ := onControl_cases h
      have honce : es₁.countP Effect.isSent + a₁.localOffer.isSome.toNat ≤
          a.localOffer.isSome.toNat := by
        split at hpush
        next => exact controlPush_once hpush
        next =>
          obtain ⟨rfl, rfl, -⟩ := hpush
          exact Nat.le_of_eq (Nat.zero_add _)
      refine Nat.le_trans ?_ (Nat.le_add_right _ _)
      split at ho
      next =>
        rw [ho]
        rcases controlPull_cases a₁ msg ans with ⟨hnone, -⟩ | ⟨ro, -, -, hsome⟩
        · rw [hnone]
          simpa using honce
        · rw [hsome]
          simpa [Effect.isSent] using honce
      next =>
        rw [ho]
        exact honce

end Events

/-- The offers made pay for the batches sent and the offer held. -/
def System.Once (s : System) : Prop :=
  s.effects.countP Effect.isSent + s.agent.localOffer.isSome.toNat ≤
    s.effects.countP Effect.isOffered

theorem once_step {tar : TarCrate} {stageRoot : Path} (s : System) (a : Act) (s' : System)
    (hs : s.Once) (hst : (threads tar stageRoot).step s a = some s') : s'.Once := by
  cases a with
  | main ans =>
      obtain ⟨i, item, rest, o, -, -, ho, rfl⟩ := main_eq_some hst
      have honce := handle_once ho
      rw [System.Once] at hs
      show (s.effects ++ o.effects).countP Effect.isSent + o.agent.localOffer.isSome.toNat ≤
        (s.effects ++ o.effects).countP Effect.isOffered
      rw [List.countP_append, List.countP_append]
      omega
  | copy | files | control | timer =>
      cases hst
      exact hs
  | watch =>
      cases hst
      rcases watch_cases s with heq | ⟨kind, content, h, -, -, heq⟩
      · rw [heq]
        exact hs
      · rw [heq]
        exact hs
  | connect =>
      obtain ⟨-, rfl⟩ := connect_eq_some hst
      exact hs
  | read i f =>
      obtain ⟨-, rfl | rfl⟩ := read_eq_some hst
      · exact hs
      · exact hs
  | hangUp i =>
      obtain ⟨-, rfl⟩ := hangUp_eq_some hst
      exact hs

end Linux

namespace Windows

def Sent.isSent : Sent → Bool
  | .push _ _ ok => ok
  | _ => false

def Sent.isOffered : Sent → Bool
  | .offer _ _ ok => ok
  | _ => false

def Helper.Once (s : Helper) : Prop :=
  s.sents.countP Sent.isSent + s.localOffer.isSome.toNat ≤ s.sents.countP Sent.isOffered

variable {host : Host}

theorem once_pull {s s' : Helper} (hs : s.Once) {sends : List SendAct}
    (h : s.pull host sends = some s') : s'.Once := by
  rcases pull_cases h with rfl | ⟨lo, archive, ok, hserves, rfl⟩
  · exact hs
  · rw [Helper.Once, hserves.offer] at hs
    rw [Helper.Once]
    simp only [List.countP_append, List.countP_singleton]
    cases ok with
    | true => exact Nat.le_trans hs (Nat.le_add_right _ _)
    | false => exact Nat.le_trans hs (Nat.le_add_right _ _)

theorem once_send {s s' : Helper} (hs : s.Once) {kind : UInt8} {content : List UInt8}
    {h : UInt64} {wrote : Bool} {sends : List SendAct}
    (hst : s.send host kind content h wrote sends = some s') : s'.Once := by
  rw [Helper.Once] at hs
  rcases send_cases hst with rfl | ⟨-, sig, total, -, rfl⟩ | ⟨-, ok, -, rfl⟩
  · exact hs
  · rw [Helper.Once]
    simp only [List.countP_append, List.countP_singleton]
    cases wrote with
    | true =>
        have hsent : s.sents.countP Sent.isSent ≤ s.sents.countP Sent.isOffered :=
          Nat.le_trans (Nat.le_add_right _ _) hs
        exact Nat.add_le_add_right hsent 1
    | false => exact hs
  · rw [Helper.Once]
    simp only [List.countP_append, List.countP_singleton]
    exact Nat.le_trans (Nat.le_trans (Nat.le_add_right _ _) hs) (Nat.le_add_right _ _)

theorem once_step (s : Helper) (a : Act) (s' : Helper) (hs : s.Once)
    (hst : (helper host).step s a = some s') : s'.Once := by
  cases a with
  | copy | files | pulled =>
      cases hst
      exact hs
  | take kind data ts =>
      rcases take_eq_some hst with rfl | ⟨p, fs, rfl⟩
      · exact hs
      · exact hs
  | publish set =>
      obtain ⟨p, clip, seqNum, -, rfl⟩ := publish_eq_some hst
      exact hs
  | walk =>
      obtain ⟨staged, rfl⟩ := walk_eq_some hst
      exact hs
  | store =>
      obtain ⟨kind, content, y, -, rfl⟩ := store_eq_some hst
      exact hs
  | pull sends =>
      simp only [helper] at hst
      split at hst
      · exact once_pull hs hst
      · cases hst
  | see =>
      rcases see_eq_some hst with rfl | rfl
      · exact hs
      · exact hs
  | read =>
      rcases read_eq_some hst with rfl | ⟨kind, content, y, -, rfl⟩
      · exact hs
      · exact hs
  | compare =>
      simp only [helper] at hst
      split at hst
      · cases hst
        exact hs
      · cases hst
  | send wrote sends =>
      simp only [helper] at hst
      split at hst
      · exact once_send hs hst
      · cases hst

end Windows

/-- **Each offer is sent once.** Neither side has sent more batches, as far as it
knows, than it has offered. -/
theorem offered_once {host : Windows.Host} {tar : TarCrate} {stageRoot : Path} {fs winFs : Fs}
    {clip : Selection} {winClip : Windows.Formats} {seqNum : Nat} {as : List PairAct} {s : Pair}
    (h : (pair host tar stageRoot).exec (.init host fs clip winFs winClip seqNum) as = some s) :
    s.linux.effects.countP Linux.Effect.isSent ≤ s.linux.effects.countP Linux.Effect.isOffered ∧
      s.windows.sents.countP Windows.Sent.isSent ≤ s.windows.sents.countP Windows.Sent.isOffered := by
  have honce : s.linux.Once ∧ s.windows.Once := by
    refine (pair host tar stageRoot).exec_invariant
      (P := fun s => s.linux.Once ∧ s.windows.Once) ⟨Nat.le_refl _, Nat.le_refl _⟩ ?_ h
    intro s a s' hs hst
    exact ⟨linux_keeps Linux.once_step hs.1 hst, windows_keeps Windows.once_step hs.2 hst⟩
  exact ⟨Nat.le_trans (Nat.le_add_right _ _) honce.1, Nat.le_trans (Nat.le_add_right _ _) honce.2⟩

/-! ## A file pulled over -/

def oneFileSends : List SendAct :=
  unstalled (encodeTransfer kindTar (ustar.build [⟨[['x']], some [7]⟩]))

def answering : Linux.Answers := ⟨false, true, [], true, 0⟩

/-- A file is copied on Windows, and the pointer crosses to Ubuntu. -/
def pulledOver : List PairAct :=
  [.windows (.copy ⟨[['/', 'a', '/', 'x']], [], [], none⟩), .windows (.pull []), .windows .see,
    .windows .read, .windows .compare, .windows (.send true []), .linux .connect, .linuxReads 0,
    .linux (.main answering), .linux (.control "local"), .linux (.main answering),
    .windowsReads true, .windows (.pull oneFileSends)]

def pulledOverStart : Pair :=
  .init Windows.plain Linux.oneByte [] Linux.oneByte ⟨[], [], [], none⟩ 0

theorem exec_pulledOver : ∃ s, (pair Windows.plain ustar []).exec pulledOverStart pulledOver = some s ∧
    s.windows.sents.countP Windows.Sent.isSent = 1 := by
  have h : ((pair Windows.plain ustar []).exec pulledOverStart pulledOver).map
      (fun s => s.windows.sents.countP Windows.Sent.isSent) = some 1 := by
    decide +kernel
  exact Option.map_eq_some_iff.mp h

theorem files_on_request_pulledOver :
    ∃ s, (pair Windows.plain ustar []).exec pulledOverStart pulledOver = some s ∧
      s.linux.effects.countP Linux.Effect.isPush ≤ crossings "remote" pulledOver ∧
      s.windows.sents.countP Windows.Sent.isPush ≤ crossings "local" pulledOver := by
  obtain ⟨s, hs, -⟩ := exec_pulledOver
  exact ⟨s, hs, files_on_request hs⟩

theorem offered_once_pulledOver :
    ∃ s, (pair Windows.plain ustar []).exec pulledOverStart pulledOver = some s ∧
      1 ≤ s.windows.sents.countP Windows.Sent.isOffered := by
  obtain ⟨s, hs, hsent⟩ := exec_pulledOver
  exact ⟨s, hs, hsent ▸ (offered_once hs).2⟩

end Beaglewing.Agents
