/-
# `Agents.Isolation` — one session after the other

A session has its own connection, its own reader and its own `Reassembler`,
but the channel is shared, and a reader is not stopped: it ends when it finds
its connection ended.

A session that ends with `Disconnected` leaves nothing behind, since its
reader has returned and queued nothing after it (`Tidy`).  So sessions are
isolated as long as none ends otherwise (`isolated`).  A session that ends
with a failed write or by silence leaves its reader and with it an open
connection, and the `Disconnected` of that reader ends a later session
(`stale_disconnect`).

## What it is not

Only what a reader queues is looked at.  The watcher and the control listener
go on over sessions, and what they have queued is for the next session to
handle; so do the hashes and the offers (`Agents.Failure`).
-/
import Beaglewing.Agents.Threads

namespace Beaglewing.Agents.Linux

open Base Clipframe Files

/-- A connection of the agent is open. -/
def System.Open (s : System) (i : Nat) : Prop := i ∈ s.readers ∨ s.session = some i

/-- A frame, or the end of a connection. -/
def Ev.FromRelay : Ev → Prop
  | .frame _ | .disconnected => True
  | _ => False

/-- What a session has handled of a reader is of its own, and one connection is
open at most. -/
structure Isolated (s : System) : Prop where
  own : ∀ i item, (i, item) ∈ s.handled → item.ev.FromRelay → item.source = .reader i
  one : ∀ i j, s.Open i → s.Open j → i = j

/-- No write that ends the session fails, and the relay is not silent.  An ABORT,
a PONG or an ACK may fail. -/
def Answers.Healthy (ans : Answers) : Ev → Prop
  | .tick => ans.silent = false ∧ ans.wrote = true
  | .local _ _ _ | .control _ =>
      ans.wrote = true ∧ ∀ f, .write f false ∈ ans.sends → f = abortFrame
  | .frame _ => ∀ f, .write f false ∈ ans.sends → f = abortFrame
  | .disconnected => True

/-- The session goes on, unless it was disconnected. -/
def Unbroken (s : System) : Act → Prop
  | .main ans => ∀ item rest, s.queue = item :: rest → ans.Healthy item.ev
  | _ => True

/-! ## A session that goes on -/

theorem afterAttempt_lost {k : Nat} {p : Transfer}
    (h : afterAttempt k p = .done (.error true)) : p = .ret (.error "relay connection lost") := by
  unfold afterAttempt at h
  split at h
  · cases h
  next e =>
    split at h
    next he => rw [he]
    next =>
      split at h <;> cases h
  · cases h

theorem atFrame_ne_error (frames : List Frame) (i : Nat) (sent : UInt32) (e : String) :
    atFrame frames i sent ≠ .ret (.error e) := by
  unfold atFrame
  split
  · split <;> exact fun h => by cases h
  · exact fun h => by cases h

/-- `send_with_retry` loses the relay only when a frame of the transfer was not
written. -/
theorem not_lost_of_run {frames : List Frame} (habort : abortFrame ∉ frames)
    {acts : List SendAct} {p : Retry} (h : (sendWithRetry frames).exec start acts = some p)
    (hacts : ∀ f, .write f false ∈ acts → f = abortFrame) : p ≠ .done (.error true) := by
  refine (sendWithRetry frames).exec_induction
    (P := fun acts p => (∀ f, .write f false ∈ acts → f = abortFrame) → p ≠ .done (.error true))
    ?_ ?_ h hacts
  · exact fun _ h => by cases h
  · intro as a p p' _ hs hacts hp'
    cases a with
    | store =>
        obtain ⟨k, -, rfl⟩ := step_store hs
        exact atFrame_ne_error _ _ _ _ (afterAttempt_lost hp')
    | load v =>
        obtain ⟨k, i, sent, -, rfl⟩ := step_load hs
        cases hp'
    | expired b =>
        obtain ⟨k, i, sent, -, rfl⟩ := step_expired hs
        cases hp'
    | write f ok =>
        rcases step_write hs with ⟨k, i, sent, -, hf, rfl⟩ | ⟨k, -, -, rfl⟩
        · cases ok with
          | true => exact atFrame_ne_error _ _ _ _ (afterAttempt_lost hp')
          | false =>
              have hmem : f = abortFrame :=
                hacts f (List.mem_append_right _ List.mem_cons_self)
              exact habort (hmem ▸ List.mem_of_getElem? hf)
        · exact absurd (afterAttempt_lost hp') (by decide)

theorem abort_notMem (kind : UInt8) (data : List UInt8) :
    abortFrame ∉ encodeTransfer kind data := by
  intro h
  rw [encodeTransfer_eq] at h
  rcases List.mem_cons.mp h with h | h
  · exact absurd (congrArg (Frame.byte · 0) h) (by decide : tAbort ≠ tStart)
  rcases List.mem_append.mp h with h | h
  · obtain ⟨q, c, hf⟩ := exists_of_mem_encodeData h
    exact absurd (congrArg (Frame.byte · 0) hf.2) (by decide : tAbort ≠ tData)
  · exact absurd (congrArg (Frame.byte · 0) (List.mem_singleton.mp h))
      (by decide : tAbort ≠ tEnd)

theorem gone_sendResult {kind : UInt8} {data : List UInt8} {sends : List SendAct}
    {r : Except Bool Unit} (h : sendResult kind data sends = some r)
    (hsends : ∀ f, .write f false ∈ sends → f = abortFrame) : gone r = none := by
  unfold sendResult at h
  split at h
  next r' hrun =>
    cases h
    have := not_lost_of_run (abort_notMem kind data) hrun hsends
    match r with
    | .ok () => rfl
    | .error false => rfl
    | .error true => exact absurd rfl this
  next => cases h

section Events
variable {tar : TarCrate} {stageRoot : Path} {a : Agent} {recv : Reassembler} {fs : Fs}
  {ans : Answers} {o : Outcome}

theorem gone_pushLocalOffer {lo : LocalOffer} {es : List Effect} {r : Except Bool Unit}
    (h : pushLocalOffer tar fs lo ans.sends = some (es, r))
    (hsends : ∀ f, .write f false ∈ ans.sends → f = abortFrame) : gone r = none := by
  unfold pushLocalOffer at h
  split at h
  next archive hpack =>
    obtain ⟨r', hr, heq⟩ := Option.map_eq_some_iff.mp h
    cases heq
    exact gone_sendResult hr hsends
  next =>
    cases h
    rfl

theorem ended_of_healthy {ev : Ev} (h : handle tar stageRoot a recv fs ev ans = some o)
    (hans : ans.Healthy ev) (hev : ev ≠ .disconnected) : o.ended = none := by
  cases ev with
  | tick =>
      cases h
      simp [onTick, hans.1, hans.2]
  | «local» kind content hash =>
      rcases onLocal_cases h with ⟨-, rfl⟩ | ⟨-, -, offer, -, rfl⟩ | ⟨-, -, r, hr, rfl⟩
      · rfl
      · simp [hans.1]
      · exact gone_sendResult hr hans.2
  | frame f =>
      rcases onFrame_cases h with ⟨kind, r, -, rfl⟩ | ⟨-, es, -, ⟨-, hend, -⟩ | hpull⟩
      · rfl
      · exact hend
      · obtain ⟨fs', id, a', es', ended, hpull, -, -, hend⟩ := hpull
        rw [hend]
        rcases onPull_cases hpull with ⟨-, -, rfl⟩ | ⟨lo, r, -, -, hpush, -, rfl⟩
        · rfl
        · exact gone_pushLocalOffer hpush hans
  | control msg =>
      obtain ⟨a₁, es₁, end₁, hpush, ho⟩ := onControl_cases h
      have hend₁ : end₁ = none := by
        split at hpush
        · rcases controlPush_cases hpush with ⟨-, -, -, rfl⟩ | ⟨lo, r, -, hsent, -, rfl⟩
          · rfl
          · exact gone_pushLocalOffer hsent hans.2
        · exact hpush.2.2
      split at ho
      · rw [ho]
        rcases controlPull_cases a₁ msg ans with ⟨hpull, -⟩ | ⟨ro, -, -, hpull⟩
        · rw [hpull]
        · rw [hpull]
          simp [hans.1]
      · rw [ho]
        exact hend₁
  | disconnected => exact absurd rfl hev

end Events

/-! ## What a session leaves behind -/

/-- The event was sent by a reader. -/
def Item.OfReader (x : Item) : Prop := ∃ i, x.source = .reader i

/-- Nothing of a reader comes after its `Disconnected`. -/
def LastWords (queue : List Item) : Prop :=
  queue.Pairwise fun x y => x.ev = .disconnected → ¬ y.OfReader

/-- Between sessions no reader runs and nothing of one waits; in a session its own
is the only one, and has returned when its `Disconnected` waits. -/
structure Tidy (s : System) : Prop where
  sources : ∀ x ∈ s.queue, x.ev.FromRelay ↔ x.OfReader
  own : ∀ x ∈ s.queue, ∀ j, x.source = .reader j → s.session = some j
  readers : s.readers = [] ∨ ∃ i, s.readers = [i] ∧ s.session = some i
  gone : ∀ x ∈ s.queue, x.ev = .disconnected → s.readers = []
  last : LastWords s.queue
  handled : ∀ i item, (i, item) ∈ s.handled → item.ev.FromRelay → item.source = .reader i

theorem tidy_init (a : Agent) (fs : Fs) (clip : Selection) : Tidy (.init a fs clip) where
  sources x h := by cases h
  own x h := by cases h
  readers := Or.inl rfl
  gone x h := by cases h
  last := List.Pairwise.nil
  handled i item h := by cases h

section Tidy
variable {tar : TarCrate} {stageRoot : Path} {s s' : System}

theorem Tidy.session_of_mem (h : Tidy s) {i : Nat} (hi : i ∈ s.readers) :
    s.session = some i ∧ s.readers = [i] := by
  rcases h.readers with hr | ⟨j, hr, hsession⟩
  · rw [hr] at hi
    cases hi
  · rw [hr] at hi
    cases List.mem_singleton.mp hi
    exact ⟨hsession, hr⟩

/-- An event is queued, by a reader that runs if by a reader. -/
theorem Tidy.append (h : Tidy s) {item : Item} (hqueue : s'.queue = s.queue ++ [item])
    (hsession : s'.session = s.session) (hhandled : s'.handled = s.handled)
    (hreaders : s'.readers = s.readers ∨ s'.readers = [])
    (hsource : item.ev.FromRelay ↔ item.OfReader)
    (hown : ∀ j, item.source = .reader j → j ∈ s.readers)
    (hgone : item.ev = .disconnected → s'.readers = []) : Tidy s' where
  sources x hx := by
    rw [hqueue] at hx
    rcases List.mem_append.mp hx with hx | hx
    · exact h.sources x hx
    · rw [List.mem_singleton.mp hx]
      exact hsource
  own x hx j hj := by
    rw [hsession]
    rw [hqueue] at hx
    rcases List.mem_append.mp hx with hx | hx
    · exact h.own x hx j hj
    · rw [List.mem_singleton.mp hx] at hj
      exact (h.session_of_mem (hown j hj)).1
  readers := by
    rcases hreaders with hr | hr
    · rw [hr, hsession]
      exact h.readers
    · exact Or.inl hr
  gone x hx hev := by
    rw [hqueue] at hx
    rcases List.mem_append.mp hx with hx | hx
    · rcases hreaders with hr | hr
      · rw [hr]
        exact h.gone x hx hev
      · exact hr
    · rw [List.mem_singleton.mp hx] at hev
      exact hgone hev
  last := by
    rw [LastWords, hqueue]
    refine List.pairwise_append.mpr ⟨h.last, List.pairwise_singleton _ _, ?_⟩
    rintro x hx y hy hev ⟨j, hj⟩
    rw [List.mem_singleton.mp hy] at hj
    have hnone := h.gone x hx hev
    rw [(h.session_of_mem (hown j hj)).2] at hnone
    cases hnone
  handled i x hx := by
    rw [hhandled] at hx
    exact h.handled i x hx

/-- A thread that is no reader queues an event. -/
theorem Tidy.push_other (h : Tidy s) {ev : Ev} {source : Source} (hev : ¬ ev.FromRelay)
    (hsource : ∀ j, source ≠ .reader j) (hqueue : s'.queue = s.queue ++ [⟨ev, source⟩])
    (hsession : s'.session = s.session) (hhandled : s'.handled = s.handled)
    (hreaders : s'.readers = s.readers) : Tidy s' :=
  h.append hqueue hsession hhandled (Or.inl hreaders)
    ⟨fun h => absurd h hev, fun ⟨j, hj⟩ => absurd hj (hsource j)⟩
    (fun j hj => absurd hj (hsource j))
    (fun hd => absurd (by rw [show ev = .disconnected from hd]; trivial) hev)

/-- The next event is handled. -/
theorem Tidy.main {ans : Answers} (h : Tidy s) (hC : Unbroken s (.main ans))
    (hs : (threads tar stageRoot).step s (.main ans) = some s') : Tidy s' := by
  obtain ⟨i, item, rest, o, hsession, hqueue, ho, rfl⟩ := main_eq_some hs
  have hhead : item ∈ s.queue := hqueue ▸ List.mem_cons_self
  have hmem : ∀ x ∈ rest, x ∈ s.queue := fun x hx => hqueue ▸ List.mem_cons_of_mem _ hx
  have hlast : LastWords (item :: rest) := hqueue ▸ h.last
  -- a session goes on, or its reader is gone and nothing of it is left
  have hnext : (o.ended = none) ∨ item.ev = .disconnected := by
    by_cases hev : item.ev = .disconnected
    · exact Or.inr hev
    · exact Or.inl (ended_of_healthy ho (hC item rest hqueue) hev)
  have hhandled : ∀ j x, (j, x) ∈ s.handled ++ [(i, item)] → x.ev.FromRelay →
      x.source = .reader j := by
    intro j x hx hrelay
    rcases List.mem_append.mp hx with hx | hx
    · exact h.handled j x hx hrelay
    · cases List.mem_singleton.mp hx
      obtain ⟨k, hk⟩ := (h.sources item hhead).mp hrelay
      have := h.own item hhead k hk
      rw [hsession] at this
      cases this
      exact hk
  refine ⟨fun x hx => h.sources x (hmem x hx), ?_, ?_,
    fun x hx hev => h.gone x (hmem x hx) hev, (List.pairwise_cons.mp hlast).2, hhandled⟩
  · intro x hx j hj
    rcases hnext with hend | hev
    · show (if o.ended = none then some i else none) = some j
      rw [if_pos hend, ← hsession]
      exact h.own x (hmem x hx) j hj
    · exact absurd ⟨j, hj⟩ ((List.pairwise_cons.mp hlast).1 x hx hev)
  · rcases hnext with hend | hev
    · show s.readers = [] ∨
        ∃ j, s.readers = [j] ∧ (if o.ended = none then some i else none) = some j
      rw [if_pos hend, ← hsession]
      exact h.readers
    · exact Or.inl (h.gone item hhead hev)

theorem Tidy.step {act : Act} (h : Tidy s) (hC : Unbroken s act)
    (hs : (threads tar stageRoot).step s act = some s') : Tidy s' := by
  cases act with
  | copy sel =>
      cases hs
      exact ⟨h.sources, h.own, h.readers, h.gone, h.last, h.handled⟩
  | files fs =>
      cases hs
      exact ⟨h.sources, h.own, h.readers, h.gone, h.last, h.handled⟩
  | watch =>
      cases hs
      rcases watch_cases s with hw | ⟨kind, content, hash, -, -, hw⟩
      · rw [hw]
        exact h
      · rw [hw]
        have hev : ¬ Ev.FromRelay (.local kind content hash) := id
        exact h.push_other hev (fun _ h => by cases h) rfl rfl rfl rfl
  | control msg =>
      cases hs
      have hev : ¬ Ev.FromRelay (.control msg) := id
      exact h.push_other hev (fun _ h => by cases h) rfl rfl rfl rfl
  | timer =>
      cases hs
      have hev : ¬ Ev.FromRelay .tick := id
      exact h.push_other hev (fun _ h => by cases h) rfl rfl rfl rfl
  | connect =>
      obtain ⟨hnone, rfl⟩ := connect_eq_some hs
      have hreaders : s.readers = [] := by
        rcases h.readers with hr | ⟨i, -, hsession⟩
        · exact hr
        · rw [hnone] at hsession
          cases hsession
      have hno : ∀ x ∈ s.queue, ∀ j, x.source ≠ .reader j := by
        intro x hx j hj
        have := h.own x hx j hj
        rw [hnone] at this
        cases this
      refine ⟨h.sources, ?_, Or.inr ⟨s.opened, by rw [hreaders], rfl⟩, ?_, h.last, h.handled⟩
      · intro x hx j hj
        exact absurd hj (hno x hx j)
      · intro x hx hev
        obtain ⟨j, hj⟩ := (h.sources x hx).mp (hev ▸ trivial)
        exact absurd hj (hno x hx j)
  | read i f =>
      obtain ⟨hi, rfl | rfl⟩ := read_eq_some hs
      · exact h
      · exact h.append rfl rfl rfl (Or.inl rfl) ⟨fun _ => ⟨i, rfl⟩, fun _ => trivial⟩
          (fun j hj => by cases hj; exact hi) (fun hev => by cases hev)
  | hangUp i =>
      obtain ⟨hi, rfl⟩ := hangUp_eq_some hs
      have hnone : s.readers.erase i = [] := by
        rw [(h.session_of_mem hi).2]
        exact List.erase_cons_head ..
      exact h.append rfl rfl rfl (Or.inr hnone)
        ⟨fun _ => ⟨i, rfl⟩, fun _ => trivial⟩ (fun j hj => by cases hj; exact hi) (fun _ => hnone)
  | main ans => exact h.main hC hs

theorem Tidy.apart (h : Tidy s) : Isolated s where
  own := h.handled
  one i j hi hj := by
    have hopen : ∀ k, s.Open k → s.session = some k := fun k hk =>
      hk.elim (fun hk => (h.session_of_mem hk).1) id
    have := (hopen i hi).symm.trans (hopen j hj)
    cases this
    rfl

end Tidy

/-- **Sessions apart.** In every run in which each session is ended by
`Disconnected`, what a session handles of a reader is of its own, and one
connection is open at most. -/
theorem isolated {tar : TarCrate} {stageRoot : Path} {a : Agent} {fs : Fs} {clip : Selection}
    {acts : List Act} {s : System}
    (hrun : (threads tar stageRoot).exec (.init a fs clip) acts = some s)
    (hC : (threads tar stageRoot).Meets Unbroken (.init a fs clip) acts) : Isolated s :=
  ((threads tar stageRoot).exec_meets (tidy_init a fs clip) (fun _ _ _ h hC hs => h.step hC hs)
    hrun hC).apart

/-- Writes work or fail, and nothing else happens. -/
def quiet (wrote : Bool) : Answers := ⟨false, wrote, [], false, 0⟩

/-- A session that is disconnected, and the next one. -/
def reconnected : List Act :=
  [.connect, .timer, .main (quiet true), .hangUp 0, .main (quiet true), .connect]

/-- A session that ends with a failed PING; the next one is over when the reader
of the first finds its connection ended. -/
def leftOver : List Act :=
  [.connect, .timer, .main (quiet false), .connect, .hangUp 0, .main (quiet true)]

theorem reconnected_unbroken (tar : TarCrate) (stageRoot : Path) (fs : Fs) :
    (threads tar stageRoot).Meets Unbroken (.init .init fs []) reconnected := by
  refine ⟨trivial, fun s₁ h₁ => ⟨trivial, fun s₂ h₂ => ⟨?_, fun s₃ h₃ => ⟨trivial, fun s₄ h₄ =>
    ⟨?_, fun s₅ h₅ => ⟨trivial, fun s₆ h₆ => trivial⟩⟩⟩⟩⟩⟩
  · cases h₁
    cases h₂
    intro item rest hq
    cases hq
    exact ⟨rfl, rfl⟩
  · cases h₁
    cases h₂
    cases h₃
    cases h₄
    intro item rest hq
    cases hq
    trivial

theorem isolated_reconnected : ∃ s,
    (threads ustar []).exec (.init .init (fun _ => .broken) []) reconnected = some s ∧
      s.session = some 1 ∧ Isolated s := by
  have hsession : ((threads ustar []).exec (.init .init (fun _ => .broken) []) reconnected).map
      System.session = some (some 1) := rfl
  obtain ⟨s, hrun, hs⟩ := Option.map_eq_some_iff.mp hsession
  exact ⟨s, hrun, hs, isolated hrun (reconnected_unbroken _ _ _)⟩

/-- **A stale disconnect.** It is handled in a session whose connection is open;
while its reader ran, two were. -/
theorem stale_disconnect :
    ¬ ∀ (tar : TarCrate) (stageRoot : Path) (a : Agent) (fs : Fs) (clip : Selection)
      (acts : List Act) (s : System), (threads tar stageRoot).exec (.init a fs clip) acts = some s →
      Isolated s := by
  intro h
  have hlast : ((threads ustar []).exec (.init .init (fun _ => .broken) []) leftOver).map
      (fun s => s.handled.getLast?) = some (some (1, ⟨.disconnected, .reader 0⟩)) := rfl
  obtain ⟨s, hrun, hs⟩ := Option.map_eq_some_iff.mp hlast
  have hown := (h ustar [] .init _ [] leftOver s hrun).own 1 _ (List.mem_of_getLast? hs) trivial
  exact absurd hown (by decide)

end Beaglewing.Agents.Linux
