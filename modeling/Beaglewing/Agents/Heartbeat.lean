/-
# `Agents.Heartbeat` — the 30 seconds of the Linux agent

The threads of the agent with a clock, in milliseconds.  `last_rx` is the
time at which the main loop has taken the last frame from its channel, or
opened the connection; the reader has read that frame before, and may have
read others since.  A `Tick` that the main loop takes more than 30 s after
`last_rx` ends the session.

    what a reader reads          and what `last_rx` knows of it
    an ACK                       nothing: it goes to the sender at once
    another frame, taken         as much as of any
    another frame, in the queue  nothing yet

So a `Tick` that finds the relay silent is right unless an ACK was read
meanwhile, or a frame that waits behind the `Tick`, as it does when the main
loop has been in a send (`silence_iff`).

## What it is not

The clock is the agent's own, and how long a handler takes is not bounded: a
send may take as long as its ACKs do.  Nothing is said of how soon a relay that
is gone is noticed, only of whether one that is noticed was silent.
-/
import Beaglewing.Agents.Delivery
import Beaglewing.Agents.Threads

namespace Beaglewing.Agents.Linux

open Base Clipframe Files

/-- `Duration::from_secs(30)`. -/
def silence : Nat := 30000

/-- `Duration::from_secs(10)`. -/
def period : Nat := 10000

/-- A frame that a reader has read, and when. -/
structure Rx where
  reader : Nat
  time : Nat
  ack : Bool
deriving DecidableEq

/-- `busy` is when the main loop is back at `rx.recv`, `ticked` when the timer
has sent.  `sent`, when each event of the queue was sent, and `log`, what was
read, are not in the program. -/
structure Timed where
  sys : System
  now : Nat
  lastRx : Nat
  busy : Nat
  ticked : Nat
  sent : List Nat
  log : List Rx

inductive TimedAct where
  | wait (ms : Nat)
  -- a thread other than the main loop, or the main loop as it connects
  | act (a : Act)
  -- the next event, and how long its handler runs
  | main (ans : Answers) (took : Nat)

def Timed.init (a : Agent) (fs : Fs) (clip : Selection) : Timed where
  sys := .init a fs clip
  now := 0
  lastRx := 0
  busy := 0
  ticked := 0
  sent := []
  log := []

namespace Timed

/-- `last_rx.elapsed() > Duration::from_secs(30)`. -/
def Silent (s : Timed) : Prop := silence < s.now - s.lastRx

instance (s : Timed) : Decidable s.Silent := inferInstanceAs (Decidable (_ < _))

/-- Whether the thread can go on now. -/
def Ready (s : Timed) : Act → Prop
  | .timer => s.ticked + period ≤ s.now
  | .connect => s.busy ≤ s.now
  | .main _ => False
  | _ => True

instance (s : Timed) : DecidablePred s.Ready
  | .timer => inferInstanceAs (Decidable (_ ≤ _))
  | .connect => inferInstanceAs (Decidable (_ ≤ _))
  | .main _ => isFalse id
  | .copy _ | .files _ | .watch | .control _ | .read _ _ | .hangUp _ => isTrue trivial

/-- A thread has gone on: what it has sent was sent now. -/
def went (s : Timed) (a : Act) (sys : System) : Timed :=
  { s with
    sys
    lastRx := match a with
      | .connect => s.now
      | _ => s.lastRx
    ticked := match a with
      | .timer => s.now
      | _ => s.ticked
    sent := s.sent ++ List.replicate (sys.queue.length - s.sys.queue.length) s.now
    log := match a with
      | .read i f => s.log ++ [⟨i, s.now, (parseAck f).isSome⟩]
      | _ => s.log }

def isFrame : Ev → Bool
  | .frame _ => true
  | _ => false

/-- The answers agree with the clock. -/
def Agrees (s : Timed) (ans : Answers) : Prop :=
  s.busy ≤ s.now ∧ (s.sys.queue.head?.map Item.ev = some .tick → ans.silent = decide s.Silent)

instance (s : Timed) (ans : Answers) : Decidable (s.Agrees ans) :=
  inferInstanceAs (Decidable (_ ∧ _))

/-- The main loop has taken an event. -/
def took (s : Timed) (sys : System) (ms : Nat) : Timed :=
  { s with
    sys
    sent := s.sent.tail
    lastRx := if s.sys.queue.head?.any fun x => isFrame x.ev then s.now else s.lastRx
    busy := s.now + ms }

end Timed

def timed (tar : TarCrate) (stageRoot : Path) : Lts Timed TimedAct where
  step s
    | .wait ms => some { s with now := s.now + ms }
    | .act a =>
        if s.Ready a then ((threads tar stageRoot).step s.sys a).map (s.went a) else none
    | .main ans ms =>
        if s.Agrees ans then
          ((threads tar stageRoot).step s.sys (.main ans)).map fun sys => s.took sys ms
        else none

/-! ## What is known of what was read -/

/-- Sent at `t`, the frame of a reader waits in the queue. -/
def Timed.Waits (s : Timed) (i t : Nat) : Prop :=
  ∃ f, (⟨.frame f, .reader i⟩, t) ∈ s.sys.queue.zip s.sent

/-- Each frame that a reader has read and that is no ACK waits in the queue, or
`last_rx` knows of it as long as the session lasts. -/
structure Timed.Counted (s : Timed) : Prop where
  length : s.sent.length = s.sys.queue.length
  opened : ∀ x ∈ s.log, x.reader < s.sys.opened
  readers : ∀ i ∈ s.sys.readers, i < s.sys.opened
  clock : ∀ x ∈ s.log, x.time ≤ s.now
  waiting : ∀ i t, s.Waits i t → ⟨i, t, false⟩ ∈ s.log
  passed : ∀ i t, ⟨i, t, false⟩ ∈ s.log → s.Waits i t ∨ (s.sys.session = some i → t ≤ s.lastRx)

namespace Timed
variable {s s' : Timed}

theorem waits_push (h : s.Counted) {item : Item} {n : Nat}
    (hqueue : s'.sys.queue = s.sys.queue ++ [item]) (hsent : s'.sent = s.sent ++ [n]) (i t : Nat) :
    s'.Waits i t ↔ s.Waits i t ∨ (∃ f, item = ⟨.frame f, .reader i⟩) ∧ t = n := by
  have hzip : s'.sys.queue.zip s'.sent = s.sys.queue.zip s.sent ++ [(item, n)] := by
    rw [hqueue, hsent, List.zip_append h.length.symm]
    rfl
  simp only [Waits, hzip, List.mem_append, List.mem_singleton, Prod.mk.injEq]
  constructor
  · rintro ⟨f, hold | ⟨hitem, ht⟩⟩
    · exact .inl ⟨f, hold⟩
    · exact .inr ⟨⟨f, hitem.symm⟩, ht⟩
  · rintro (⟨f, hold⟩ | ⟨⟨f, hitem⟩, ht⟩)
    · exact ⟨f, .inl hold⟩
    · exact ⟨f, .inr ⟨hitem.symm, ht⟩⟩

/-- A step that neither queues nor takes an event. -/
theorem Counted.same (h : s.Counted) (hqueue : s'.sys.queue = s.sys.queue)
    (hsent : s'.sent = s.sent) (hlog : s'.log = s.log) (hopened : s'.sys.opened = s.sys.opened)
    (hreaders : s'.sys.readers = s.sys.readers) (hsession : s'.sys.session = s.sys.session)
    (hlast : s'.lastRx = s.lastRx) (hnow : s.now ≤ s'.now) : s'.Counted := by
  have hwaits : ∀ i t, s'.Waits i t ↔ s.Waits i t := by
    intro i t
    simp only [Waits, hqueue, hsent]
  constructor
  case length => rw [hqueue, hsent]; exact h.length
  case opened => rw [hlog, hopened]; exact h.opened
  case readers => rw [hreaders, hopened]; exact h.readers
  case clock => rw [hlog]; exact fun x hx => (h.clock x hx).trans hnow
  case waiting => rw [hlog]; exact fun i t hw => h.waiting i t ((hwaits i t).mp hw)
  case passed =>
    rw [hlog, hsession, hlast]
    exact fun i t hmem => (h.passed i t hmem).imp_left (hwaits i t).mpr

/-- An event that is no frame of a reader is queued. -/
theorem Counted.push (h : s.Counted) {item : Item} (hitem : isFrame item.ev = false)
    (hqueue : s'.sys.queue = s.sys.queue ++ [item]) (hsent : s'.sent = s.sent ++ [s.now])
    (hlog : s'.log = s.log) (hopened : s'.sys.opened = s.sys.opened)
    (hreaders : ∀ i ∈ s'.sys.readers, i ∈ s.sys.readers)
    (hsession : s'.sys.session = s.sys.session) (hlast : s'.lastRx = s.lastRx)
    (hnow : s'.now = s.now) : s'.Counted := by
  have hwaits : ∀ i t, s'.Waits i t ↔ s.Waits i t := by
    intro i t
    rw [waits_push h hqueue hsent]
    refine or_iff_left ?_
    rintro ⟨⟨f, rfl⟩, -⟩
    cases hitem
  constructor
  case length => rw [hqueue, hsent, List.length_append, List.length_append, h.length]; rfl
  case opened => rw [hlog, hopened]; exact h.opened
  case readers => rw [hopened]; exact fun i hi => h.readers i (hreaders i hi)
  case clock => rw [hlog, hnow]; exact h.clock
  case waiting => rw [hlog]; exact fun i t hw => h.waiting i t ((hwaits i t).mp hw)
  case passed =>
    rw [hlog, hsession, hlast]
    exact fun i t hmem => (h.passed i t hmem).imp_left (hwaits i t).mpr

theorem Counted.connect (h : s.Counted) : (s.went .connect { s.sys with
    session := some s.sys.opened
    recv := .default
    opened := s.sys.opened + 1
    readers := s.sys.opened :: s.sys.readers }).Counted := by
  have hsent : s.sent ++ List.replicate (s.sys.queue.length - s.sys.queue.length) s.now =
      s.sent := by simp
  constructor
  case length => exact (congrArg List.length hsent).trans h.length
  case opened => exact fun x hx => Nat.lt_succ_of_lt (h.opened x hx)
  case readers =>
    intro i hi
    rcases List.mem_cons.mp hi with rfl | hi
    · exact Nat.lt_succ_self _
    · exact Nat.lt_succ_of_lt (h.readers i hi)
  case clock => exact h.clock
  case waiting =>
    rintro i t ⟨f, hf⟩
    refine h.waiting i t ⟨f, ?_⟩
    rw [← hsent]
    exact hf
  case passed =>
    intro i t hmem
    refine .inr ?_
    intro hi
    have hlt := h.opened _ hmem
    have : s.sys.opened = i := Option.some.inj hi
    exact absurd hlt (by rw [this]; exact Nat.lt_irrefl _)

/-- An ACK is logged, and goes no further. -/
theorem Counted.acked (h : s.Counted) {i : Nat} (hi : i ∈ s.sys.readers) (hsys : s'.sys = s.sys)
    (hsent : s'.sent = s.sent) (hlog : s'.log = s.log ++ [⟨i, s.now, true⟩])
    (hlast : s'.lastRx = s.lastRx) (hnow : s'.now = s.now) : s'.Counted := by
  have hwaits : ∀ i t, s'.Waits i t ↔ s.Waits i t := by
    intro i t
    simp only [Waits, hsys, hsent]
  constructor
  case length => rw [hsys, hsent]; exact h.length
  case opened =>
    rw [hlog, hsys]
    exact List.forall_mem_append.mpr ⟨h.opened, List.forall_mem_singleton.mpr (h.readers i hi)⟩
  case readers => rw [hsys]; exact h.readers
  case clock =>
    rw [hlog, hnow]
    exact List.forall_mem_append.mpr ⟨h.clock, List.forall_mem_singleton.mpr Nat.le.refl⟩
  case waiting =>
    intro i t hw
    rw [hlog]
    exact List.mem_append_left _ (h.waiting i t ((hwaits i t).mp hw))
  case passed =>
    intro i t hmem
    rw [hlog] at hmem
    rw [hsys, hlast]
    rcases List.mem_append.mp hmem with hmem | hmem
    · exact (h.passed i t hmem).imp_left (hwaits i t).mpr
    · cases List.mem_singleton.mp hmem

/-- Any other frame is logged, and waits. -/
theorem Counted.queued (h : s.Counted) {i : Nat} {f : Frame} (hi : i ∈ s.sys.readers)
    (hsys : s'.sys = s.sys.push (.frame f) (.reader i)) (hsent : s'.sent = s.sent ++ [s.now])
    (hlog : s'.log = s.log ++ [⟨i, s.now, false⟩]) (hlast : s'.lastRx = s.lastRx)
    (hnow : s'.now = s.now) : s'.Counted := by
  have hqueue : s'.sys.queue = s.sys.queue ++ [⟨.frame f, .reader i⟩] := by rw [hsys]; rfl
  have hwaits := waits_push h hqueue hsent
  constructor
  case length => rw [hqueue, hsent, List.length_append, List.length_append, h.length]; rfl
  case opened =>
    rw [hlog, hsys]
    exact List.forall_mem_append.mpr ⟨h.opened, List.forall_mem_singleton.mpr (h.readers i hi)⟩
  case readers => rw [hsys]; exact h.readers
  case clock =>
    rw [hlog, hnow]
    exact List.forall_mem_append.mpr ⟨h.clock, List.forall_mem_singleton.mpr Nat.le.refl⟩
  case waiting =>
    intro j t hw
    rw [hlog]
    rcases (hwaits j t).mp hw with hw | ⟨⟨f', hitem⟩, rfl⟩
    · exact List.mem_append_left _ (h.waiting j t hw)
    · cases hitem
      exact List.mem_append_right _ List.mem_cons_self
  case passed =>
    intro j t hmem
    rw [hlog] at hmem
    rcases List.mem_append.mp hmem with hmem | hmem
    · rw [hsys, hlast]
      exact (h.passed j t hmem).imp_left fun hw => (hwaits j t).mpr (.inl hw)
    · cases List.mem_singleton.mp hmem
      exact .inl ((hwaits i s.now).mpr (.inr ⟨⟨f, rfl⟩, rfl⟩))

theorem Counted.read (h : s.Counted) {i : Nat} {f : Frame} (hi : i ∈ s.sys.readers) :
    (s.went (.read i f) (s.sys.read i f)).Counted := by
  cases hack : parseAck f with
  | some n =>
      have hsys : s.sys.read i f = s.sys := by rw [System.read, hack]
      rw [hsys]
      exact h.acked hi rfl (by simp [went]) (by simp [went, hack]) rfl rfl
  | none =>
      have hsys : s.sys.read i f = s.sys.push (.frame f) (.reader i) := by
        rw [System.read, hack]
      rw [hsys]
      exact h.queued hi rfl (by simp [went, System.push]) (by simp [went, hack]) rfl rfl

/-- An event is taken. -/
theorem Counted.took (h : s.Counted) {i ms : Nat} {item : Item} {rest : List Item} {o : Outcome}
    (hsession : s.sys.session = some i) (hqueue : s.sys.queue = item :: rest) :
    (s.took (s.sys.after i item rest o) ms).Counted := by
  have hlen := h.length
  rw [hqueue] at hlen
  obtain ⟨n, sent, hsent⟩ := List.exists_cons_of_length_eq_add_one hlen
  have hzip : s.sys.queue.zip s.sent = (item, n) :: rest.zip sent := by rw [hqueue, hsent]; rfl
  have htail : ∀ j t, (∃ f, (⟨.frame f, .reader j⟩, t) ∈ rest.zip sent) → s.Waits j t := by
    rintro j t ⟨f, hf⟩
    exact ⟨f, by rw [hzip]; exact List.mem_cons_of_mem _ hf⟩
  have hzip' : (s.took (s.sys.after i item rest o) ms).sys.queue.zip
      (s.took (s.sys.after i item rest o) ms).sent = rest.zip sent := by
    simp [Timed.took, System.after, hsent]
  constructor
  case length =>
    have hlen' : sent.length = rest.length := by
      rw [hsent] at hlen
      exact Nat.succ.inj hlen
    simpa [Timed.took, System.after, hsent] using hlen'
  case opened => exact h.opened
  case readers => exact h.readers
  case clock => exact h.clock
  case waiting =>
    intro j t hw
    simp only [Waits, hzip'] at hw
    exact h.waiting j t (htail j t hw)
  case passed =>
    intro j t hmem
    have hclock := h.clock _ hmem
    -- what `last_rx` knows is not forgotten
    have hlast : t ≤ s.lastRx → t ≤ (s.took (s.sys.after i item rest o) ms).lastRx := by
      intro hle
      simp only [Timed.took]
      split
      · exact hclock
      · exact hle
    rcases h.passed j t hmem with ⟨f, hf⟩ | hknown
    · rw [hzip] at hf
      rcases List.mem_cons.mp hf with heq | hf
      · cases heq
        refine .inr fun _ => ?_
        simpa [Timed.took, hqueue, isFrame] using hclock
      · exact .inl ⟨f, by rw [hzip']; exact hf⟩
    · refine .inr fun hj => hlast (hknown ?_)
      simp only [Timed.took, System.after] at hj
      split at hj
      · rw [hsession]
        exact hj
      · cases hj

end Timed

/-! ## Runs -/

section Run
variable {tar : TarCrate} {stageRoot : Path} {s s' : Timed}

theorem counted_init (a : Agent) (fs : Fs) (clip : Selection) :
    (Timed.init a fs clip).Counted where
  length := rfl
  opened := nofun
  readers := nofun
  clock := nofun
  waiting := by
    rintro i t ⟨f, hf⟩
    cases hf
  passed := nofun

theorem counted_act {a : Act} {sys : System} (h : s.Counted) (hready : s.Ready a)
    (hstep : (threads tar stageRoot).step s.sys a = some sys) : (s.went a sys).Counted := by
  cases a with
  | copy sel =>
      cases hstep
      exact h.same rfl (by simp [Timed.went]) rfl rfl rfl rfl rfl Nat.le.refl
  | files fs =>
      cases hstep
      exact h.same rfl (by simp [Timed.went]) rfl rfl rfl rfl rfl Nat.le.refl
  | watch =>
      cases hstep
      rcases watch_cases s.sys with heq | ⟨kind, content, hash, -, -, heq⟩
      · rw [heq]
        exact h.same rfl (by simp [Timed.went]) rfl rfl rfl rfl rfl Nat.le.refl
      · rw [heq]
        exact h.push rfl rfl (by simp [Timed.went, System.push]) rfl rfl (fun _ hi => hi) rfl rfl
          rfl
  | control msg =>
      cases hstep
      exact h.push rfl rfl (by simp [Timed.went, System.push]) rfl rfl (fun _ hi => hi) rfl rfl rfl
  | timer =>
      cases hstep
      exact h.push rfl rfl (by simp [Timed.went, System.push]) rfl rfl (fun _ hi => hi) rfl rfl rfl
  | connect =>
      obtain ⟨-, rfl⟩ := connect_eq_some hstep
      exact h.connect
  | read i f =>
      obtain ⟨hi, -⟩ := read_eq_some hstep
      have hsys : s.sys.read i f = sys := by
        simp only [threads, if_pos hi] at hstep
        exact Option.some.inj hstep
      rw [← hsys]
      exact h.read hi
  | hangUp i =>
      obtain ⟨-, rfl⟩ := hangUp_eq_some hstep
      exact h.push rfl rfl (by simp [Timed.went, System.push]) rfl rfl
        (fun _ hj => List.mem_of_mem_erase hj) rfl rfl rfl
  | main ans => exact hready.elim

theorem counted_step {a : TimedAct} (h : s.Counted)
    (hstep : (timed tar stageRoot).step s a = some s') : s'.Counted := by
  cases a with
  | wait ms =>
      cases hstep
      exact h.same rfl rfl rfl rfl rfl rfl rfl (Nat.le_add_right _ _)
  | act a =>
      simp only [timed] at hstep
      split at hstep
      next hready =>
        obtain ⟨sys, hsys, rfl⟩ := Option.map_eq_some_iff.mp hstep
        exact counted_act h hready hsys
      next => cases hstep
  | main ans ms =>
      simp only [timed] at hstep
      split at hstep
      next hagrees =>
        obtain ⟨sys, hsys, rfl⟩ := Option.map_eq_some_iff.mp hstep
        obtain ⟨i, item, rest, o, hsession, hqueue, -, rfl⟩ := main_eq_some hsys
        exact h.took hsession hqueue
      next => cases hstep

theorem counted_of_run {a : Agent} {fs : Fs} {clip : Selection} {acts : List TimedAct}
    (h : (timed tar stageRoot).exec (.init a fs clip) acts = some s) : s.Counted :=
  (timed tar stageRoot).exec_invariant (counted_init a fs clip)
    (fun _ _ _ hs hst => counted_step hs hst) h

/-- Within the last 30 s. -/
def Timed.Recent (s : Timed) (t : Nat) : Prop := s.now ≤ t + silence

instance (s : Timed) (t : Nat) : Decidable (s.Recent t) := inferInstanceAs (Decidable (_ ≤ _))

/-- A `Tick` ends the session because the relay is silent. -/
def EndsSilent (tar : TarCrate) (stageRoot : Path) (s : Timed) (ans : Answers) : Prop :=
  (handle tar stageRoot s.sys.agent s.sys.recv s.sys.fs .tick ans).bind Outcome.ended =
    some .silent

theorem silent_of_ends {ans : Answers} (h : EndsSilent tar stageRoot s ans) :
    ans.silent = true := by
  cases hsilent : ans.silent with
  | true => rfl
  | false =>
      simp only [EndsSilent, handle, onTick, hsilent, Bool.false_eq_true, if_false,
        Option.bind_some] at h
      split at h <;> cases h

/-- **The heartbeat.** In every run, when a `Tick` ends the session because
the relay is silent, the reader of the session has read no frame for 30 s
exactly if it has read no ACK for 30 s, and no frame that it has read in that
time waits in the channel. -/
theorem silence_iff (tar : TarCrate) (stageRoot : Path) (a : Agent) (fs : Fs) (clip : Selection)
    (acts : List TimedAct) (s s' : Timed) (i : Nat) (item : Item) (rest : List Item)
    (ans : Answers) (ms : Nat)
    (hrun : (timed tar stageRoot).exec (.init a fs clip) acts = some s)
    (hsession : s.sys.session = some i) (hqueue : s.sys.queue = item :: rest)
    (htick : item.ev = .tick) (hstep : (timed tar stageRoot).step s (.main ans ms) = some s')
    (hends : EndsSilent tar stageRoot s ans) :
    (∀ x ∈ s.log, x.reader = i → ¬ s.Recent x.time) ↔
      (∀ x ∈ s.log, x.reader = i → x.ack = true → ¬ s.Recent x.time) ∧
        ∀ t, s.Waits i t → ¬ s.Recent t := by
  have h := counted_of_run hrun
  have hsilent : s.Silent := by
    simp only [timed] at hstep
    split at hstep
    next hagrees =>
      have := hagrees.2 (by rw [hqueue, List.head?_cons, Option.map_some, htick])
      rw [silent_of_ends hends] at this
      exact of_decide_eq_true this.symm
    next => cases hstep
  constructor
  · intro hnone
    refine ⟨fun x hx hi _ => hnone x hx hi, ?_⟩
    intro t hw
    exact hnone _ (h.waiting i t hw) rfl
  · rintro ⟨hack, hwait⟩ ⟨j, t, ack⟩ hx rfl hrecent
    cases ack with
    | true => exact hack _ hx rfl rfl hrecent
    | false =>
        rcases h.passed j t hx with hw | hknown
        · exact hwait t hw hrecent
        · have hlast := hknown hsession
          simp only [Timed.Silent, Timed.Recent] at hsilent hrecent
          omega

end Run

/-! A relay that answers once, and is silent for 39 s. -/

def pong : Frame := frame tPong 0 ⟨[], Nat.zero_le _⟩

def wellAnswered (silent : Bool) (sends : List SendAct) : Answers := ⟨silent, true, sends, false, 0⟩

/-- Ten seconds, and a `Tick` that does not find the relay silent. -/
def ticked : List TimedAct := [.wait 10000, .act .timer, .main (wellAnswered false []) 0]

def quietRelay : List TimedAct :=
  [.act .connect, .wait 1000, .act (.read 0 pong), .main (wellAnswered false []) 0] ++ ticked ++
    ticked ++ ticked ++ [.wait 10000, .act .timer]

theorem silence_iff_quietRelay : ∃ s s',
    (timed ustar []).exec (.init .init (fun _ => .broken) []) quietRelay = some s ∧
      (timed ustar []).step s (.main (wellAnswered true []) 0) = some s' ∧
      EndsSilent ustar [] s (wellAnswered true []) ∧
      ∀ x ∈ s.log, x.reader = 0 → ¬ s.Recent x.time := by
  have hrun : ((timed ustar []).exec (.init .init (fun _ => .broken) []) quietRelay).map
      (fun s => (s.sys.session, s.sys.queue, decide (∀ x ∈ s.log, ¬ s.Recent x.time),
        ((timed ustar []).step s (.main (wellAnswered true []) 0)).isSome)) =
      some (some 0, [⟨.tick, .timer⟩], true, true) := by
    decide +kernel
  obtain ⟨s, hs, hstate⟩ := Option.map_eq_some_iff.mp hrun
  simp only [Prod.mk.injEq] at hstate
  obtain ⟨hsession, hqueue, hlog, hstep⟩ := hstate
  obtain ⟨s', hs'⟩ := Option.isSome_iff_exists.mp hstep
  have hold := of_decide_eq_true hlog
  have hends : EndsSilent ustar [] s (wellAnswered true []) := rfl
  refine ⟨s, s', hs, hs', hends, ?_⟩
  refine (silence_iff ustar [] .init (fun _ => .broken) [] quietRelay s s' 0 _ [] _ 0 hs hsession
    hqueue rfl hs' hends).mpr ⟨fun x hx _ _ => hold x hx, ?_⟩
  rintro t ⟨f, hf⟩
  rw [hqueue] at hf
  cases hsent : s.sent with
  | nil =>
      rw [hsent] at hf
      cases hf
  | cons n sent =>
      rw [hsent] at hf
      simp at hf

/-- A text is copied, and the send takes 35 s.  An ACK and another frame come
in after 34 s; three `Tick`s are in the queue by then. -/
def busySend : List TimedAct :=
  [.act .connect, .act (.copy [("UTF8_STRING", [7])]), .act .watch,
    .main (wellAnswered false sentText) 35000, .wait 10000, .act .timer, .wait 10000, .act .timer,
    .wait 10000, .act .timer, .wait 4000, .act (.read 0 (ackFrame 128)), .act (.read 0 pong),
    .wait 1000]

/-- The first of the `Tick`s ends the session. -/
theorem silence_heard : ∃ s s',
    (timed ustar []).exec (.init .init (fun _ => .broken) []) busySend = some s ∧
      s.sys.session = some 0 ∧ s.sys.queue.head?.map Item.ev = some .tick ∧
      (timed ustar []).step s (.main (wellAnswered true []) 0) = some s' ∧
      EndsSilent ustar [] s (wellAnswered true []) ∧ s'.sys.session = none ∧
      s.log = [⟨0, 34000, true⟩, ⟨0, 34000, false⟩] ∧ s.now = 35000 ∧ s.Waits 0 34000 := by
  have hrun : ((timed ustar []).exec (.init .init (fun _ => .broken) []) busySend).bind
      (fun s => ((timed ustar []).step s (.main (wellAnswered true []) 0)).map fun s' =>
        decide (s.sys.session = some 0 ∧ s.sys.queue.head?.map Item.ev = some .tick ∧
          s'.sys.session = none ∧ s.log = [⟨0, 34000, true⟩, ⟨0, 34000, false⟩] ∧
          s.now = 35000 ∧ (⟨.frame pong, .reader 0⟩, 34000) ∈ s.sys.queue.zip s.sent)) =
      some true := by
    decide +kernel
  obtain ⟨s, hs, hrun⟩ := Option.bind_eq_some_iff.mp hrun
  obtain ⟨s', hs', hstate⟩ := Option.map_eq_some_iff.mp hrun
  obtain ⟨hsession, htick, hended, hlog, hnow, hwaits⟩ := of_decide_eq_true hstate
  exact ⟨s, s', hs, hsession, htick, hs', rfl, hended, hlog, hnow, ⟨pong, hwaits⟩⟩

end Beaglewing.Agents.Linux
