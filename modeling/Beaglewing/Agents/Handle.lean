/-
# `Agents.Handle` — the session loop of the Linux agent, one event

The body of `'session: loop` in `run` of `clipboard.rs`, with `handle_frame`,
`send_with_retry` and `push_local_offer` under it.  One event is handled to
its end before the next is taken; what the clock, the connection, the peer
and the clipboard answer meanwhile is in `Answers`, and what the handler does
to them, in order, in the `effects` of the `Outcome`.

    Tick          a relay silent for 30 s ends the session; a PING
    Local         not what was last sent or set: an OFFER for files, a transfer
                  for the rest
    Frame         a PONG, an ACK, a completed transfer to the clipboard; an
                  offer of the peer is noted, a PULL of ours is served
    Control       the files offered are pushed, those of the peer are pulled
    Disconnected  ends the session

`ended` says what ended the session, `none` if it goes on.
-/
import Beaglewing.Agents.Clipboard
import Beaglewing.Agents.Window
import Beaglewing.Files.Batch

namespace Beaglewing.Agents

open Base Clipframe Files

/-- `offer_id`. -/
def offerId (hash : UInt64) : UInt32 := hash.toUInt32 ^^^ (hash >>> 32).toUInt32

/-- The OFFER of a batch: `total` and `items` saturate. -/
def offerOf (h : UInt64) (paths : List Path) (total : Nat) : Offer where
  kind := kindTar
  total := UInt32.ofNat (min total (2 ^ 32 - 1))
  items := UInt16.ofNat (min paths.length (2 ^ 16 - 1))
  id := offerId h

/-- What the local side currently offers to the other machine. -/
structure LocalOffer where
  id : UInt32
  paths : List Path
deriving DecidableEq

/-- What the other machine currently offers to us. -/
structure RemoteOffer where
  offer : Offer
  requested : Bool
deriving DecidableEq

namespace Linux

inductive Ev where
  -- kind, content, change hash
  | local (kind : UInt8) (content : List UInt8) (h : UInt64)
  | frame (f : Frame)
  -- "remote" or "local" from the router, "pull" from the CLI
  | control (msg : String)
  | tick
  | disconnected
deriving DecidableEq

/-- The variables of `run` that outlive a session. -/
structure Agent where
  lastSent : UInt64
  lastSet : UInt64
  localOffer : Option LocalOffer
  remoteOffer : Option RemoteOffer
deriving DecidableEq

def Agent.init : Agent := ⟨0, 0, none, none⟩

/-- What is answered while one event is handled: whether the relay was silent
for 30 s, whether the single write of the branch worked, the labels of
`send_with_retry`, whether the clipboard was set, and the milliseconds that
name a staged batch. -/
structure Answers where
  silent : Bool
  wrote : Bool
  sends : List SendAct
  set : Bool
  ts : Nat

inductive Effect where
  | write (f : Frame) (ok : Bool)
  | offer (content : List UInt8) (o : Offer) (ok : Bool)
  | send (kind : UInt8) (content : List UInt8) (r : Except Bool Unit)
  | push (paths : List Path) (archive : List UInt8) (r : Except Bool Unit)
  | set (kind : UInt8) (content : List UInt8)
deriving DecidableEq

/-- Why a session ended: no frame for 30 s, a failed write, `Ev::Disconnected`. -/
inductive End where
  | silent
  | lost
  | disconnected
deriving DecidableEq

structure Outcome where
  agent : Agent
  recv : Reassembler
  fs : Fs
  effects : List Effect
  ended : Option End

/-! ## Sending -/

/-- What `send_with_retry` returns, if these are the labels of the call. -/
def sendResult (kind : UInt8) (data : List UInt8) (sends : List SendAct) :
    Option (Except Bool Unit) :=
  match (sendWithRetry (encodeTransfer kind data)).exec start sends with
  | some (.done r) => some r
  | _ => none

/-- `Err(true)` ends the session. -/
def gone : Except Bool Unit → Option End
  | .error true => some .lost
  | _ => none

/-- `push_local_offer`. -/
def pushLocalOffer (tar : TarCrate) (fs : Fs) (lo : LocalOffer) (sends : List SendAct) :
    Option (List Effect × Except Bool Unit) :=
  match pack tar fs lo.paths maxTransfer.toNat with
  | .ok archive => (sendResult kindTar archive sends).map fun r => ([.push lo.paths archive r], r)
  | .error _ => some ([], .error false)

/-! ## Receiving -/

/-- What a completed transfer is on this machine: the content for the clipboard,
the hash recorded if it is set, and the file system with what is staged. -/
structure Received where
  content : List UInt8
  hash : Option UInt64
  fs : Fs

/-- The three branches of `FeedResult::Complete`, up to `set_local_clipboard`. -/
def receive (tar : TarCrate) (stageRoot : Path) (fs : Fs) (ts : Nat) (kind : UInt8)
    (data : List UInt8) : Option Received :=
  if kind = kindText then
    let text := utf8 (lf (fromUtf8Lossy data))
    some ⟨text, some (contentHash kindText text), fs⟩
  else if kind = kindPng then some ⟨data, some (contentHash kindPng data), fs⟩
  else if kind = kindTar then
    match unpackToStage tar stageRoot ts data with
    | .error _ => none
    | .ok (batch, staged) =>
        let fs := mount fs (batchDir stageRoot ts) batch
        some ⟨copyList staged, (batchSignature fs staged).map fun x => x.1 ^^^ kindTar.toUInt64, fs⟩
  else none

inductive Incoming where
  | offer (o : Offer)
  | pull (id : UInt32)
  | done (kind : UInt8)

structure Handled where
  recv : Reassembler
  lastSet : UInt64
  fs : Fs
  effects : List Effect
  incoming : Option Incoming

/-- `handle_frame`; what fails when a PONG or an ACK is written is ignored. -/
def handleFrame (tar : TarCrate) (stageRoot : Path) (recv : Reassembler) (f : Frame)
    (lastSet : UInt64) (fs : Fs) (ans : Answers) : Handled :=
  let recv' := (recv.feed f).1
  match (recv.feed f).2 with
  | .ping => ⟨recv', lastSet, fs, [.write (frame tPong 0 ⟨[], Nat.zero_le _⟩) ans.wrote], none⟩
  | .progress n =>
      ⟨recv', lastSet, fs, (acksFor (.progress n)).map fun ack => .write ack ans.wrote, none⟩
  | .offer o => ⟨recv', lastSet, fs, [], some (.offer o)⟩
  | .pull id => ⟨recv', lastSet, fs, [], some (.pull id)⟩
  | .complete kind data =>
      match receive tar stageRoot fs ans.ts kind data with
      | none => ⟨recv', lastSet, fs, [], none⟩
      | some r =>
          if ans.set then
            ⟨recv', r.hash.getD lastSet, r.fs, [.set kind r.content], some (.done kind)⟩
          else ⟨recv', lastSet, r.fs, [], none⟩
  | .error _ => ⟨recv', lastSet, fs, [], none⟩
  | .none => ⟨recv', lastSet, fs, [], none⟩

/-! ## The branches of the loop -/

def onTick (a : Agent) (recv : Reassembler) (fs : Fs) (ans : Answers) : Outcome :=
  if ans.silent then ⟨a, recv, fs, [], some .silent⟩
  else
    let ping := frame tPing 0 ⟨[], Nat.zero_le _⟩
    ⟨a, recv, fs, [.write ping ans.wrote], if ans.wrote then none else some .lost⟩

/-- What was last sent or last set is not sent again. -/
def Agent.Suppresses (a : Agent) (h : UInt64) : Prop := h = a.lastSent ∨ h = a.lastSet

instance (a : Agent) (h : UInt64) : Decidable (a.Suppresses h) :=
  inferInstanceAs (Decidable (h = a.lastSent ∨ h = a.lastSet))

def onLocal (a : Agent) (recv : Reassembler) (fs : Fs) (kind : UInt8) (content : List UInt8)
    (h : UInt64) (ans : Answers) : Option Outcome :=
  if a.Suppresses h then some ⟨a, recv, fs, [], none⟩
  else if kind = kindTar then
    let paths := parseFileList content
    match batchSignature fs paths with
    | none => some ⟨a, recv, fs, [], none⟩
    | some (_, total) =>
        let offer := offerOf h paths total
        if ans.wrote then
          some ⟨{ a with localOffer := some ⟨offer.id, paths⟩, lastSent := h }, recv, fs,
            [.offer content offer true], none⟩
        else some ⟨a, recv, fs, [.offer content offer false], some .lost⟩
  else
    -- a new local copy supersedes any file offer
    let a := { a with localOffer := none }
    (sendResult kind content ans.sends).map fun r =>
      ⟨if r = .error true then a else { a with lastSent := h }, recv, fs, [.send kind content r],
        gone r⟩

/-- `Incoming::Pull`: the offer is kept if the push fails. -/
def onPull (tar : TarCrate) (a : Agent) (fs : Fs) (id : UInt32) (ans : Answers) :
    Option (Agent × List Effect × Option End) :=
  match a.localOffer with
  | some lo =>
      if lo.id = id then
        (pushLocalOffer tar fs lo ans.sends).map fun x =>
          (if x.2 = .ok () then { a with localOffer := none } else a, x.1, gone x.2)
      else some (a, [], none)
  | none => some (a, [], none)

def onFrame (tar : TarCrate) (stageRoot : Path) (a : Agent) (recv : Reassembler) (fs : Fs)
    (f : Frame) (ans : Answers) : Option Outcome :=
  let x := handleFrame tar stageRoot recv f a.lastSet fs ans
  let a := { a with lastSet := x.lastSet }
  match x.incoming with
  | some (.offer o) =>
      some ⟨{ a with remoteOffer := some ⟨o, false⟩ }, x.recv, x.fs, x.effects, none⟩
  | some (.pull id) =>
      (onPull tar a x.fs id ans).map fun y => ⟨y.1, x.recv, x.fs, x.effects ++ y.2.1, y.2.2⟩
  | some (.done kind) =>
      some ⟨if kind = kindTar then { a with remoteOffer := none } else a, x.recv, x.fs, x.effects,
        none⟩
  | none => some ⟨a, x.recv, x.fs, x.effects, none⟩

/-- `if push`: the offer is taken, and put back if it was not sent. -/
def controlPush (tar : TarCrate) (a : Agent) (fs : Fs) (ans : Answers) :
    Option (Agent × List Effect × Option End) :=
  match a.localOffer with
  | none => some (a, [], none)
  | some lo =>
      (pushLocalOffer tar fs lo ans.sends).map fun x =>
        (if x.2 = .error false then a else { a with localOffer := none }, x.1, gone x.2)

/-- `if pull`: the offer of the peer is requested, once unless asked for. -/
def controlPull (a : Agent) (msg : String) (ans : Answers) : Agent × List Effect × Option End :=
  match a.remoteOffer with
  | none => (a, [], none)
  | some ro =>
      if ro.requested = false ∨ msg = "pull" then
        ({ a with remoteOffer := some { ro with requested := true } },
          [.write (pullFrame ro.offer.id) ans.wrote], if ans.wrote then none else some .lost)
      else (a, [], none)

def onControl (tar : TarCrate) (a : Agent) (recv : Reassembler) (fs : Fs) (msg : String)
    (ans : Answers) : Option Outcome :=
  let pushed :=
    if msg = "remote" ∨ msg = "pull" then controlPush tar a fs ans else some (a, [], none)
  pushed.map fun x =>
    if x.2.2 = none ∧ (msg = "local" ∨ msg = "pull") then
      let y := controlPull x.1 msg ans
      ⟨y.1, recv, fs, x.2.1 ++ y.2.1, y.2.2⟩
    else ⟨x.1, recv, fs, x.2.1, x.2.2⟩

/-- `match rx.recv()`. -/
def handle (tar : TarCrate) (stageRoot : Path) (a : Agent) (recv : Reassembler) (fs : Fs)
    (ev : Ev) (ans : Answers) : Option Outcome :=
  match ev with
  | .tick => some (onTick a recv fs ans)
  | .local kind content h => onLocal a recv fs kind content h ans
  | .frame f => onFrame tar stageRoot a recv fs f ans
  | .control msg => onControl tar a recv fs msg ans
  | .disconnected => some ⟨a, recv, fs, [], some .disconnected⟩

/-! ## What one event can do -/

/-- What the event puts on the clipboard. -/
def published (tar : TarCrate) (stageRoot : Path) (recv : Reassembler) (fs : Fs) (ans : Answers) :
    Ev → Option (UInt8 × Received)
  | .frame f =>
      match (recv.feed f).2 with
      | .complete kind data =>
          if ans.set then (receive tar stageRoot fs ans.ts kind data).map fun r => (kind, r)
          else none
      | _ => none
  | _ => none

/-- Nothing but frames is written. -/
def OnlyWrites (es : List Effect) : Prop := ∀ e ∈ es, ∃ f ok, e = .write f ok

theorem onlyWrites_nil : OnlyWrites [] := fun _ h => by cases h

theorem onlyWrites_singleton (f : Frame) (ok : Bool) : OnlyWrites [.write f ok] := by
  intro e he
  exact ⟨f, ok, List.mem_singleton.mp he⟩

section Cases
variable {tar : TarCrate} {stageRoot : Path} {a : Agent} {recv : Reassembler} {fs : Fs}
  {ans : Answers} {o : Outcome}

theorem handleFrame_none {f : Frame} (lastSet : UInt64)
    (h : published tar stageRoot recv fs ans (.frame f) = none) :
    let x := handleFrame tar stageRoot recv f lastSet fs ans
    OnlyWrites x.effects ∧ x.lastSet = lastSet ∧ ∀ kind, x.incoming ≠ some (.done kind) := by
  intro x
  cases hfeed : (recv.feed f).2 with
  | complete kind data =>
      simp only [published, hfeed] at h
      simp only [x, handleFrame, hfeed]
      cases hr : receive tar stageRoot fs ans.ts kind data with
      | none => exact ⟨onlyWrites_nil, rfl, (fun _ h => by cases h)⟩
      | some r =>
          split at h
          · rw [hr] at h
            cases h
          next hset =>
            simp only [if_neg hset]
            exact ⟨onlyWrites_nil, trivial, (fun _ h => by cases h)⟩
  | ping =>
      simp only [x, handleFrame, hfeed]
      exact ⟨onlyWrites_singleton _ _, trivial, (fun _ h => by cases h)⟩
  | progress n =>
      simp only [x, handleFrame, hfeed]
      refine ⟨?_, trivial, (fun _ h => by cases h)⟩
      intro e he
      obtain ⟨ack, -, rfl⟩ := List.mem_map.mp he
      exact ⟨ack, ans.wrote, rfl⟩
  | _ =>
      simp only [x, handleFrame, hfeed]
      exact ⟨onlyWrites_nil, trivial, (fun _ h => by cases h)⟩

theorem handleFrame_some {f : Frame} (lastSet : UInt64) {kind : UInt8} {r : Received}
    (h : published tar stageRoot recv fs ans (.frame f) = some (kind, r)) :
    handleFrame tar stageRoot recv f lastSet fs ans
      = ⟨(recv.feed f).1, r.hash.getD lastSet, r.fs, [.set kind r.content], some (.done kind)⟩ := by
  simp only [published] at h
  split at h
  next kind' data hfeed =>
    split at h
    next hset =>
      obtain ⟨r', hr, heq⟩ := Option.map_eq_some_iff.mp h
      cases heq
      simp only [handleFrame, hfeed, hr, hset, if_true]
    next => cases h
  next => cases h

/-- A PULL leaves the file system as it is. -/
theorem handleFrame_pull {f : Frame} {id : UInt32} {lastSet : UInt64}
    (h : (handleFrame tar stageRoot recv f lastSet fs ans).incoming = some (.pull id)) :
    (recv.feed f).2 = .pull id ∧ (handleFrame tar stageRoot recv f lastSet fs ans).fs = fs := by
  cases hfeed : (recv.feed f).2 with
  | complete kind data =>
      simp only [handleFrame, hfeed] at h
      split at h
      · cases h
      · split at h <;> cases h
  | pull id' =>
      simp only [handleFrame, hfeed] at h
      cases h
      exact ⟨rfl, by simp only [handleFrame, hfeed]⟩
  | _ =>
      simp only [handleFrame, hfeed] at h
      cases h

/-- A change that does not get past the comparisons, or whose files are gone. -/
def Agent.Ignores (a : Agent) (fs : Fs) (kind : UInt8) (content : List UInt8) (h : UInt64) : Prop :=
  a.Suppresses h ∨ kind = kindTar ∧ batchSignature fs (parseFileList content) = none

instance (a : Agent) (fs : Fs) (kind : UInt8) (content : List UInt8) (h : UInt64) :
    Decidable (a.Ignores fs kind content h) := inferInstanceAs (Decidable (_ ∨ _))

/-- A local change is ignored, offered or sent. -/
theorem onLocal_cases {kind : UInt8} {content : List UInt8} {h : UInt64}
    (ho : onLocal a recv fs kind content h ans = some o) :
    (a.Ignores fs kind content h ∧ o = ⟨a, recv, fs, [], none⟩) ∨
    (¬ a.Ignores fs kind content h ∧ kind = kindTar ∧ ∃ offer : Offer, offer.id = offerId h ∧
      o = ⟨if ans.wrote then
          { a with localOffer := some ⟨offerId h, parseFileList content⟩, lastSent := h } else a,
        recv, fs, [.offer content offer ans.wrote], if ans.wrote then none else some .lost⟩) ∨
    (¬ a.Ignores fs kind content h ∧ kind ≠ kindTar ∧
      ∃ r, sendResult kind content ans.sends = some r ∧
        o = ⟨{ a with localOffer := none, lastSent := if r = .error true then a.lastSent else h },
          recv, fs, [.send kind content r], gone r⟩) := by
  unfold onLocal at ho
  split at ho
  next hs =>
    cases ho
    exact Or.inl ⟨Or.inl hs, rfl⟩
  next hs =>
    split at ho
    next hkind =>
      simp only at ho
      split at ho
      next hsig =>
        cases ho
        exact Or.inl ⟨Or.inr ⟨hkind, hsig⟩, rfl⟩
      next sig total hsig =>
        have hgo : ¬ a.Ignores fs kind content h := by
          rintro (h | ⟨-, h⟩)
          · exact hs h
          · rw [hsig] at h
            cases h
        refine Or.inr (Or.inl ⟨hgo, hkind, offerOf h (parseFileList content) total, rfl, ?_⟩)
        split at ho
        next hw =>
          cases ho
          simp only [hw, if_true]
          rfl
        next hw =>
          cases ho
          rw [Bool.not_eq_true] at hw
          simp only [hw, Bool.false_eq_true, if_false]
    next hkind =>
      have hgo : ¬ a.Ignores fs kind content h := by
        rintro (h | ⟨h, -⟩)
        · exact hs h
        · exact hkind h
      obtain ⟨r, hr, rfl⟩ := Option.map_eq_some_iff.mp ho
      refine Or.inr (Or.inr ⟨hgo, hkind, r, hr, ?_⟩)
      split
      · rfl
      · rfl

theorem pushLocalOffer_effects {lo : LocalOffer} {sends : List SendAct} {es : List Effect}
    {r : Except Bool Unit} (h : pushLocalOffer tar fs lo sends = some (es, r)) :
    ∀ e ∈ es, ∃ archive r, e = .push lo.paths archive r := by
  unfold pushLocalOffer at h
  split at h
  next archive hpack =>
    obtain ⟨r', -, heq⟩ := Option.map_eq_some_iff.mp h
    cases heq
    intro e he
    exact ⟨archive, r, List.mem_singleton.mp he⟩
  next =>
    cases h
    exact fun e he => by cases he

/-- A PULL is for another offer, or what is offered is pushed and kept unless
it was sent. -/
theorem onPull_cases {id : UInt32} {a' : Agent} {es : List Effect} {ended : Option End}
    (h : onPull tar a fs id ans = some (a', es, ended)) :
    (a' = a ∧ es = [] ∧ ended = none) ∨
    ∃ lo r, a.localOffer = some lo ∧ lo.id = id ∧
      pushLocalOffer tar fs lo ans.sends = some (es, r) ∧
      a' = (if r = .ok () then { a with localOffer := none } else a) ∧ ended = gone r := by
  unfold onPull at h
  split at h
  next lo hlo =>
    split at h
    next hid =>
      obtain ⟨⟨es', r⟩, hpush, heq⟩ := Option.map_eq_some_iff.mp h
      cases heq
      exact Or.inr ⟨lo, r, hlo, hid, hpush, rfl, rfl⟩
    next =>
      cases h
      exact Or.inl ⟨rfl, rfl, rfl⟩
  next =>
    cases h
    exact Or.inl ⟨rfl, rfl, rfl⟩

theorem controlPush_cases {a' : Agent} {es : List Effect} {ended : Option End}
    (h : controlPush tar a fs ans = some (a', es, ended)) :
    (a.localOffer = none ∧ a' = a ∧ es = [] ∧ ended = none) ∨
    ∃ lo r, a.localOffer = some lo ∧ pushLocalOffer tar fs lo ans.sends = some (es, r) ∧
      a' = (if r = .error false then a else { a with localOffer := none }) ∧ ended = gone r := by
  unfold controlPush at h
  split at h
  next hlo =>
    cases h
    exact Or.inl ⟨hlo, rfl, rfl, rfl⟩
  next lo hlo =>
    obtain ⟨⟨es', r⟩, hpush, heq⟩ := Option.map_eq_some_iff.mp h
    cases heq
    exact Or.inr ⟨lo, r, hlo, hpush, rfl, rfl⟩

theorem controlPull_cases (a : Agent) (msg : String) (ans : Answers) :
    (controlPull a msg ans = (a, [], none) ∧
      ∀ ro, a.remoteOffer = some ro → ro.requested = true ∧ msg ≠ "pull") ∨
    ∃ ro, a.remoteOffer = some ro ∧ (ro.requested = false ∨ msg = "pull") ∧
      controlPull a msg ans = ({ a with remoteOffer := some { ro with requested := true } },
        [.write (pullFrame ro.offer.id) ans.wrote], if ans.wrote then none else some .lost) := by
  unfold controlPull
  cases hro : a.remoteOffer with
  | none => exact Or.inl ⟨rfl, fun ro h => by cases h⟩
  | some ro =>
      simp only
      split
      next h => exact Or.inr ⟨ro, rfl, h, rfl⟩
      next h =>
        rw [not_or, Bool.not_eq_false] at h
        refine Or.inl ⟨rfl, ?_⟩
        intro ro' hro'
        cases hro'
        exact h

/-- A message pushes, or does not; then it pulls, unless the session has ended,
or does not. -/
theorem onControl_cases {msg : String} (h : onControl tar a recv fs msg ans = some o) :
    ∃ a₁ es₁ end₁,
      (if msg = "remote" ∨ msg = "pull" then controlPush tar a fs ans = some (a₁, es₁, end₁)
        else a₁ = a ∧ es₁ = [] ∧ end₁ = none) ∧
      if end₁ = none ∧ (msg = "local" ∨ msg = "pull") then
        o = ⟨(controlPull a₁ msg ans).1, recv, fs, es₁ ++ (controlPull a₁ msg ans).2.1,
          (controlPull a₁ msg ans).2.2⟩
      else o = ⟨a₁, recv, fs, es₁, end₁⟩ := by
  unfold onControl at h
  obtain ⟨⟨a₁, es₁, end₁⟩, hpush, rfl⟩ := Option.map_eq_some_iff.mp h
  refine ⟨a₁, es₁, end₁, ?_, ?_⟩
  · split
    next hp =>
      rw [if_pos hp] at hpush
      exact hpush
    next hp =>
      rw [if_neg hp] at hpush
      cases hpush
      exact ⟨rfl, rfl, rfl⟩
  · simp only
    split
    · rfl
    · rfl

/-- A frame completes a transfer that is set, or notes an offer, or serves a PULL,
or is answered at most. -/
theorem onFrame_cases {f : Frame} (h : onFrame tar stageRoot a recv fs f ans = some o) :
    (∃ kind r, published tar stageRoot recv fs ans (.frame f) = some (kind, r) ∧
      o = ⟨{ a with
          lastSet := r.hash.getD a.lastSet
          remoteOffer := if kind = kindTar then none else a.remoteOffer },
        (recv.feed f).1, r.fs, [.set kind r.content], none⟩) ∨
    published tar stageRoot recv fs ans (.frame f) = none ∧ ∃ es, OnlyWrites es ∧
      ((o.effects = es ∧ o.ended = none ∧
          (o.agent = a ∨ ∃ offer, o.agent = { a with remoteOffer := some ⟨offer, false⟩ })) ∨
        ∃ fs' id a' es' ended, onPull tar a fs' id ans = some (a', es', ended) ∧
          o.agent = a' ∧ o.effects = es ++ es' ∧ o.ended = ended) := by
  cases hp : published tar stageRoot recv fs ans (.frame f) with
  | some x =>
      obtain ⟨kind, r⟩ := x
      refine Or.inl ⟨kind, r, rfl, ?_⟩
      simp only [onFrame, handleFrame_some a.lastSet hp] at h
      cases h
      split
      · rfl
      · rfl
  | none =>
      obtain ⟨hes, hset, hdone⟩ := handleFrame_none a.lastSet hp
      have ha : { a with lastSet := (handleFrame tar stageRoot recv f a.lastSet fs ans).lastSet }
          = a := by
        rw [hset]
      unfold onFrame at h
      simp only [ha] at h
      refine Or.inr ⟨rfl, _, hes, ?_⟩
      split at h
      next offer _ =>
        cases h
        exact Or.inl ⟨rfl, rfl, Or.inr ⟨offer, by rw [hset]⟩⟩
      next id _ =>
        obtain ⟨⟨a', es', ended⟩, hpull, rfl⟩ := Option.map_eq_some_iff.mp h
        exact Or.inr ⟨_, id, a', es', ended, hpull, rfl, rfl, rfl⟩
      next kind hk => exact absurd hk (hdone kind)
      next =>
        cases h
        exact Or.inl ⟨rfl, rfl, Or.inl rfl⟩

/-! Read across the branches: what is sent, what is offered, what is set. -/

/-- Where an effect comes from; `pub` is what the event puts on the clipboard. -/
def Effect.From (a : Agent) (fs : Fs) (ev : Ev) (pub : Option (UInt8 × Received)) : Effect → Prop
  | .write _ _ => True
  | .offer content _ _ =>
      ∃ h, ev = .local kindTar content h ∧ ¬ a.Ignores fs kindTar content h
  | .send kind content _ => ∃ h, ev = .local kind content h ∧ ¬ a.Ignores fs kind content h
  | .push paths _ _ =>
      (∀ kind content h, ev ≠ .local kind content h) ∧
        ∃ lo, a.localOffer = some lo ∧ paths = lo.paths
  | .set kind content => ∃ r, pub = some (kind, r) ∧ content = r.content

theorem from_of_onlyWrites {ev : Ev} {pub : Option (UInt8 × Received)} {es : List Effect}
    (h : OnlyWrites es) : ∀ e ∈ es, e.From a fs ev pub := by
  intro e he
  obtain ⟨f, ok, rfl⟩ := h e he
  trivial

theorem from_of_push {ev : Ev} {pub : Option (UInt8 × Received)}
    (hev : ∀ kind content h, ev ≠ .local kind content h) {lo : LocalOffer}
    (hlo : a.localOffer = some lo) {sends : List SendAct} {fs' : Fs} {es : List Effect}
    {r : Except Bool Unit} (h : pushLocalOffer tar fs' lo sends = some (es, r)) :
    ∀ e ∈ es, e.From a fs ev pub := by
  intro e he
  obtain ⟨archive, r, rfl⟩ := pushLocalOffer_effects h e he
  exact ⟨hev, lo, hlo, rfl⟩

theorem from_controlPull (a₁ : Agent) (msg : String) (ev : Ev)
    (pub : Option (UInt8 × Received)) :
    ∀ e ∈ (controlPull a₁ msg ans).2.1, e.From a fs ev pub := by
  rcases controlPull_cases a₁ msg ans with ⟨h, -⟩ | ⟨ro, -, -, h⟩
  · rw [h]
    exact from_of_onlyWrites onlyWrites_nil
  · rw [h]
    exact from_of_onlyWrites (onlyWrites_singleton _ _)

theorem handle_effects {ev : Ev} (h : handle tar stageRoot a recv fs ev ans = some o) :
    ∀ e ∈ o.effects, e.From a fs ev (published tar stageRoot recv fs ans ev) := by
  cases ev with
  | tick =>
      cases h
      unfold onTick
      split
      · exact from_of_onlyWrites onlyWrites_nil
      · exact from_of_onlyWrites (onlyWrites_singleton _ _)
  | «local» kind content hash =>
      rcases onLocal_cases h with ⟨-, rfl⟩ | ⟨hgo, rfl, offer, -, rfl⟩ | ⟨hgo, -, r, -, rfl⟩
      · exact from_of_onlyWrites onlyWrites_nil
      · intro e he
        rw [List.mem_singleton.mp he]
        exact ⟨hash, rfl, hgo⟩
      · intro e he
        rw [List.mem_singleton.mp he]
        exact ⟨hash, rfl, hgo⟩
  | frame f =>
      rcases onFrame_cases h with ⟨kind, r, hp, rfl⟩ | ⟨-, es, hes, ⟨hes', -⟩ | hpull⟩
      · intro e he
        rw [List.mem_singleton.mp he]
        exact ⟨r, hp, rfl⟩
      · rw [hes']
        exact from_of_onlyWrites hes
      · obtain ⟨fs', id, a', es', ended, hpull, -, heff, -⟩ := hpull
        rw [heff]
        intro e he
        rcases List.mem_append.mp he with he | he
        · exact from_of_onlyWrites hes e he
        · rcases onPull_cases hpull with ⟨-, rfl, -⟩ | ⟨lo, r, hlo, -, hpush, -, -⟩
          · cases he
          · exact from_of_push (fun _ _ _ h => by cases h) hlo hpush e he
  | control msg =>
      obtain ⟨a₁, es₁, end₁, hpush, ho⟩ := onControl_cases h
      have hes₁ : ∀ e ∈ es₁, e.From a fs (.control msg) none := by
        split at hpush
        · rcases controlPush_cases hpush with ⟨-, -, rfl, -⟩ | ⟨lo, r, hlo, hpush, -, -⟩
          · exact from_of_onlyWrites onlyWrites_nil
          · exact from_of_push (fun _ _ _ h => by cases h) hlo hpush
        · rw [hpush.2.1]
          exact from_of_onlyWrites onlyWrites_nil
      split at ho
      · rw [ho]
        intro e he
        rcases List.mem_append.mp he with he | he
        · exact hes₁ e he
        · exact from_controlPull a₁ msg _ _ e he
      · rw [ho]
        exact hes₁
  | disconnected =>
      cases h
      exact from_of_onlyWrites onlyWrites_nil

/-- The hashes stay, and no new offer is made. -/
structure Agent.Keeps (a a' : Agent) : Prop where
  lastSent : a'.lastSent = a.lastSent
  lastSet : a'.lastSet = a.lastSet
  localOffer : a'.localOffer = none ∨ a'.localOffer = a.localOffer

theorem keeps_dropped (a : Agent) : a.Keeps { a with localOffer := none } :=
  ⟨rfl, rfl, Or.inl rfl⟩

theorem Agent.Keeps.refl (a : Agent) : a.Keeps a := ⟨rfl, rfl, Or.inr rfl⟩

theorem keeps_controlPush {a' : Agent} {es : List Effect} {ended : Option End}
    (h : controlPush tar a fs ans = some (a', es, ended)) : a.Keeps a' := by
  rcases controlPush_cases h with ⟨-, rfl, -⟩ | ⟨lo, r, -, -, rfl, -⟩
  · exact .refl _
  · split
    · exact .refl a
    · exact keeps_dropped a

theorem keeps_onPull {fs' : Fs} {id : UInt32} {a' : Agent} {es : List Effect} {ended : Option End}
    (h : onPull tar a fs' id ans = some (a', es, ended)) : a.Keeps a' := by
  rcases onPull_cases h with ⟨rfl, -⟩ | ⟨lo, r, -, -, -, rfl, -⟩
  · exact .refl _
  · split
    · exact keeps_dropped a
    · exact .refl a

theorem keeps_onControl {msg : String} (h : onControl tar a recv fs msg ans = some o) :
    a.Keeps o.agent := by
  obtain ⟨a₁, es₁, end₁, hpush, ho⟩ := onControl_cases h
  have hkeeps : a.Keeps a₁ := by
    split at hpush
    · exact keeps_controlPush hpush
    · rw [hpush.1]
      exact .refl a
  split at ho
  · rw [ho]
    rcases controlPull_cases a₁ msg ans with ⟨hpull, -⟩ | ⟨ro, -, -, hpull⟩
    · rw [hpull]
      exact hkeeps
    · rw [hpull]
      exact ⟨hkeeps.lastSent, hkeeps.lastSet, hkeeps.localOffer⟩
  · rw [ho]
    exact hkeeps

/-- An event that is no local change and sets nothing. -/
theorem handle_keeps {ev : Ev} (h : handle tar stageRoot a recv fs ev ans = some o)
    (hev : ∀ kind content hash, ev ≠ .local kind content hash)
    (hp : published tar stageRoot recv fs ans ev = none) : a.Keeps o.agent := by
  cases ev with
  | tick =>
      cases h
      unfold onTick
      split <;> exact .refl a
  | «local» kind content hash => exact absurd rfl (hev kind content hash)
  | frame f =>
      rcases onFrame_cases h with ⟨kind, r, hp', -⟩ | ⟨-, es, -, ⟨-, -, ha⟩ | hpull⟩
      · rw [hp] at hp'
        cases hp'
      · rcases ha with ha | ⟨offer, ha⟩
        · rw [ha]
          exact .refl a
        · rw [ha]
          exact ⟨rfl, rfl, Or.inr rfl⟩
      · obtain ⟨fs', id, a', es', ended, hpull, ha, -⟩ := hpull
        rw [ha]
        exact keeps_onPull hpull
  | control msg => exact keeps_onControl h
  | disconnected =>
      cases h
      exact .refl a

theorem handle_published {ev : Ev} (h : handle tar stageRoot a recv fs ev ans = some o)
    {kind : UInt8} {r : Received} (hp : published tar stageRoot recv fs ans ev = some (kind, r)) :
    o = ⟨{ a with
        lastSet := r.hash.getD a.lastSet
        remoteOffer := if kind = kindTar then none else a.remoteOffer },
      o.recv, r.fs, [.set kind r.content], none⟩ := by
  cases ev with
  | frame f =>
      rcases onFrame_cases h with ⟨kind', r', hp', rfl⟩ | ⟨hnone, -⟩
      · rw [hp] at hp'
        cases hp'
        rfl
      · rw [hp] at hnone
        cases hnone
  | _ => cases hp

/-- The offer held is kept, given up, or that of a new copy of files. -/
theorem handle_localOffer {ev : Ev} (h : handle tar stageRoot a recv fs ev ans = some o) :
    o.agent.localOffer = none ∨ o.agent.localOffer = a.localOffer ∨
      ∃ content hash, ev = .local kindTar content hash ∧ ¬ a.Ignores fs kindTar content hash ∧
        o.agent.localOffer = some ⟨offerId hash, parseFileList content⟩ := by
  by_cases hev : ∃ kind content hash, ev = .local kind content hash
  · obtain ⟨kind, content, hash, rfl⟩ := hev
    rcases onLocal_cases h with ⟨-, rfl⟩ | ⟨hgo, rfl, offer, -, rfl⟩ | ⟨-, -, r, -, rfl⟩
    · exact Or.inr (Or.inl rfl)
    · cases hw : ans.wrote with
      | true => exact Or.inr (Or.inr ⟨content, hash, rfl, hgo, rfl⟩)
      | false => exact Or.inr (Or.inl rfl)
    · exact Or.inl rfl
  · cases hp : published tar stageRoot recv fs ans ev with
    | some x =>
        rw [handle_published h hp]
        exact Or.inr (Or.inl rfl)
    | none =>
        have hkeeps := handle_keeps h (fun k c x hx => hev ⟨k, c, x, hx⟩) hp
        exact hkeeps.localOffer.imp_right Or.inl

/-- `last_set` is only recorded with what is set. -/
theorem handle_lastSet {ev : Ev} (h : handle tar stageRoot a recv fs ev ans = some o)
    (hp : published tar stageRoot recv fs ans ev = none) : o.agent.lastSet = a.lastSet := by
  by_cases hev : ∃ kind content hash, ev = .local kind content hash
  · obtain ⟨kind, content, hash, rfl⟩ := hev
    rcases onLocal_cases h with ⟨-, rfl⟩ | ⟨-, rfl, offer, -, rfl⟩ | ⟨-, -, r, -, rfl⟩
    · rfl
    · cases ans.wrote <;> rfl
    · rfl
  · exact (handle_keeps h (fun k c x hx => hev ⟨k, c, x, hx⟩) hp).lastSet

/-- What a handler has put on the clipboard. -/
def clipSet (es : List Effect) : Option (UInt8 × List UInt8) :=
  es.findSome? fun
    | .set kind content => some (kind, content)
    | _ => none

theorem clipSet_eq {ev : Ev} (h : handle tar stageRoot a recv fs ev ans = some o) :
    clipSet o.effects =
      (published tar stageRoot recv fs ans ev).map fun x => (x.1, x.2.content) := by
  cases hp : published tar stageRoot recv fs ans ev with
  | some x =>
      rw [handle_published h hp]
      rfl
  | none =>
      have hfrom := handle_effects h
      rw [hp] at hfrom
      refine List.findSome?_eq_none_iff.mpr fun e he => ?_
      have := hfrom e he
      cases e with
      | set kind content =>
          obtain ⟨r, hr, -⟩ := this
          cases hr
      | _ => rfl

end Cases

end Linux
end Beaglewing.Agents
