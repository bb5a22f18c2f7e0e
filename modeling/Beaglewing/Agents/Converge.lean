/-
# `Agents.Converge` — text copies on either machine

The two agents and the two clipboards, for text.  The user copies when all
is quiet; then any thread may move:

    watch         the Linux watcher reads the clipboard and queues a change
    linuxMain     the session loop: a local change is suppressed or sent, a
                  received text is set
    linuxReader   queues what arrives
    winReader     hands a received transfer to the applier
    applySet      the applier sets the clipboard
    applyStore    and then stores the hash; the send loop may look in between
    poll          the send loop: a change is suppressed or sent

A transfer moves as its frames and always succeeds (`transfer_roundtrip`,
`no_deadlock`).  Both agents suppress what they last sent and what they last
set, and forget neither when the clipboard changes under them.  So a text
copied again, after the other machine's copy replaced it, is not sent:

    a copy is sent, or is on the other clipboard   both clipboards hold it   (`converges`)
    in general                                     they can differ           (`not_convergent`)
-/
import Beaglewing.Agents.Text
import Beaglewing.Agents.Lane

namespace Beaglewing.Agents

open Base Clipframe

/-- What the Linux session loop receives: a change seen by the watcher with
its hash, or the frames of a transfer. -/
inductive Change where
  | local (t : Text) (h : UInt64)
  | incoming (fs : List Frame)
deriving DecidableEq

/-- `copied`, the text of the last copy, is not in the program. -/
structure Clips where
  linuxClip : Text
  prev : UInt64
  changes : List Change
  linuxSent : UInt64
  linuxSet : UInt64
  linuxRecv : Reassembler
  winClip : Text
  seqNum : Nat
  lastSeq : Nat
  apply : List (UInt8 × List UInt8)
  published : Option UInt64
  winSent : UInt64
  winSet : UInt64
  winRecv : Reassembler
  toWindows : List (List Frame)
  toLinux : List (List Frame)
  copied : Option Text

inductive ClipAct where
  | copyLinux (t : Text)
  | copyWindows (t : Text)
  | watch
  | linuxMain
  | linuxReader
  | winReader
  | applySet
  | applyStore
  | poll
deriving DecidableEq

/-- Both agents started, both clipboards empty. -/
def Clips.init : Clips where
  linuxClip := []
  prev := 0
  changes := []
  linuxSent := 0
  linuxSet := 0
  linuxRecv := .default
  winClip := []
  seqNum := 0
  lastSeq := 0
  apply := []
  published := none
  winSent := 0
  winSet := 0
  winRecv := .default
  toWindows := []
  toLinux := []
  copied := none

/-- All polls, frames and clipboard sets are drained.  An empty clipboard is
not read. -/
structure Clips.Quiet (s : Clips) : Prop where
  watched : s.linuxClip = [] ∨ textHash s.linuxClip = s.prev
  changes : s.changes = []
  polled : s.seqNum = s.lastSeq
  apply : s.apply = []
  published : s.published = none
  toWindows : s.toWindows = []
  toLinux : s.toLinux = []

instance (s : Clips) : Decidable s.Quiet :=
  decidable_of_iff ((s.linuxClip = [] ∨ textHash s.linuxClip = s.prev) ∧ s.changes = [] ∧
    s.seqNum = s.lastSeq ∧ s.apply = [] ∧ s.published = none ∧ s.toWindows = [] ∧ s.toLinux = [])
    ⟨fun ⟨h₁, h₂, h₃, h₄, h₅, h₆, h₇⟩ => ⟨h₁, h₂, h₃, h₄, h₅, h₆, h₇⟩,
      fun h => ⟨h.watched, h.changes, h.polled, h.apply, h.published, h.toWindows, h.toLinux⟩⟩

/-- The frames of a text transfer; a text over the cap has none. -/
def textFrames (t : Text) : Option (List Frame) :=
  if (utf8 t).length ≤ maxTransfer.toNat then some (encodeTransfer kindText (utf8 t)) else none

/-- `set_local_clipboard` for each text completed. -/
def setText (s : Clips) : List (UInt8 × List UInt8) → Clips
  | [] => s
  | (kind, data) :: rest =>
      if kind = kindText then
        setText { s with
          linuxClip := lf (fromUtf8Lossy data)
          linuxSet := textHash (lf (fromUtf8Lossy data)) } rest
      else setText s rest

namespace Clips

/-- `spawn_watcher`, one poll. -/
def watch (s : Clips) : Clips :=
  if s.linuxClip = [] ∨ textHash s.linuxClip = s.prev then s
  else { s with
    prev := textHash s.linuxClip
    changes := s.changes ++ [.local s.linuxClip (textHash s.linuxClip)] }

/-- `Ev::Local` for a text, and `Ev::Frame` for the frames of a transfer. -/
def linuxMain (s : Clips) : Option Clips :=
  match s.changes with
  | [] => none
  | .local t h :: rest =>
      if h = s.linuxSent ∨ h = s.linuxSet then some { s with changes := rest }
      else (textFrames t).map fun fs =>
        { s with changes := rest, toWindows := s.toWindows ++ [fs], linuxSent := h }
  | .incoming fs :: rest =>
      some (setText { s with changes := rest, linuxRecv := receiver.run s.linuxRecv fs }
        (completions (receiver.outputs s.linuxRecv fs)))

def linuxReader (s : Clips) : Option Clips :=
  match s.toLinux with
  | [] => none
  | fs :: rest => some { s with toLinux := rest, changes := s.changes ++ [.incoming fs] }

def winReader (s : Clips) : Option Clips :=
  match s.toWindows with
  | [] => none
  | fs :: rest =>
      some { s with
        toWindows := rest
        winRecv := receiver.run s.winRecv fs
        apply := s.apply ++ completions (receiver.outputs s.winRecv fs) }

/-- The applier takes a text and sets the clipboard. -/
def applySet (s : Clips) : Option Clips :=
  match s.published, s.apply with
  | none, (kind, data) :: rest =>
      if kind = kindText then
        some { s with
          apply := rest
          winClip := crlf (fromUtf8Lossy data)
          seqNum := s.seqNum + 1
          published := some (textHash (crlf (fromUtf8Lossy data))) }
      else some { s with apply := rest }
  | _, _ => none

/-- The applier stores the hash of what it set. -/
def applyStore (s : Clips) : Option Clips :=
  match s.published with
  | none => none
  | some h => some { s with winSet := h, published := none }

/-- One turn of the send loop. -/
def poll (s : Clips) : Option Clips :=
  if s.seqNum = s.lastSeq then some s
  else if s.winClip = [] then some { s with lastSeq := s.seqNum }
  else if textHash s.winClip = s.winSent ∨ textHash s.winClip = s.winSet then
    some { s with lastSeq := s.seqNum }
  else (textFrames s.winClip).map fun fs =>
    { s with
      lastSeq := s.seqNum
      toLinux := s.toLinux ++ [fs]
      winSent := textHash s.winClip }

end Clips

def clips : Lts Clips ClipAct where
  step s
    | .copyLinux t => if s.Quiet then some { s with linuxClip := t, copied := some t } else none
    | .copyWindows t =>
        if s.Quiet then
          some { s with winClip := t, seqNum := s.seqNum + 1, copied := some t }
        else none
    | .watch => some s.watch
    | .linuxMain => s.linuxMain
    | .linuxReader => s.linuxReader
    | .winReader => s.winReader
    | .applySet => s.applySet
    | .applyStore => s.applyStore
    | .poll => s.poll

/-! ## When both clipboards hold a text -/

/-- The clipboard holds the text, up to the line endings the agents set. -/
def Holds (clip t : Text) : Prop := clip = t ∨ clip = lf t ∨ clip = crlf t

instance (clip t : Text) : Decidable (Holds clip t) := inferInstanceAs (Decidable (_ ∨ _))

namespace Clips

/-- The Linux agent does not send the text. -/
def LinuxSuppresses (s : Clips) (t : Text) : Prop :=
  t = [] ∨ textHash t = s.prev ∨ textHash t = s.linuxSent ∨ textHash t = s.linuxSet

/-- The Windows helper does not send the text. -/
def WinSuppresses (s : Clips) (t : Text) : Prop :=
  t = [] ∨ textHash t = s.winSent ∨ textHash t = s.winSet

instance (s : Clips) (t : Text) : Decidable (s.LinuxSuppresses t) :=
  inferInstanceAs (Decidable (_ ∨ _))

instance (s : Clips) (t : Text) : Decidable (s.WinSuppresses t) :=
  inferInstanceAs (Decidable (_ ∨ _))

/-- A copy that is not sent is already on the other clipboard. -/
def Fresh (s : Clips) : ClipAct → Prop
  | .copyLinux t => s.LinuxSuppresses t → Holds s.winClip t
  | .copyWindows t => s.WinSuppresses t → Holds s.linuxClip t
  | _ => True

instance (s : Clips) : DecidablePred s.Fresh
  | .copyLinux t => inferInstanceAs (Decidable (s.LinuxSuppresses t → Holds s.winClip t))
  | .copyWindows t => inferInstanceAs (Decidable (s.WinSuppresses t → Holds s.linuxClip t))
  | .watch | .linuxMain | .linuxReader | .winReader | .applySet | .applyStore | .poll =>
      isTrue trivial

end Clips

/-! ## The invariant of one copy

From a copy of `t` on, until the next: everything that moves carries `t` or
what Windows makes of it, and a clipboard that does not hold `t` has it on
the way, or it is about to be sent (`DueLinux`, `DueWindows`). -/

/-- The frames of a transfer that Linux will set as it would set `t`. -/
def ForLinux (t : Text) (fs : List Frame) : Prop :=
  ∃ u, lf u = lf t ∧ (utf8 u).length ≤ maxTransfer.toNat ∧ fs = encodeTransfer kindText (utf8 u)

/-- Nothing moves but the copy itself, which the Linux agent will send. -/
def DueLinux (s : Clips) (t : Text) : Prop :=
  s.linuxClip = t ∧ t ≠ [] ∧ textHash t ≠ s.linuxSent ∧ textHash t ≠ s.linuxSet ∧
    (s.changes = [] ∧ textHash t ≠ s.prev ∨
      s.changes = [.local t (textHash t)] ∧ textHash t = s.prev) ∧
    s.seqNum = s.lastSeq ∧ s.apply = [] ∧ s.published = none ∧ s.toWindows = [] ∧ s.toLinux = []

/-- The same on Windows. -/
def DueWindows (s : Clips) (t : Text) : Prop :=
  s.winClip = t ∧ t ≠ [] ∧ textHash t ≠ s.winSent ∧ textHash t ≠ s.winSet ∧
    s.seqNum ≠ s.lastSeq ∧ (s.linuxClip = [] ∨ textHash s.linuxClip = s.prev) ∧ s.changes = [] ∧
    s.apply = [] ∧ s.published = none ∧ s.toWindows = [] ∧ s.toLinux = []

structure Settling (s : Clips) (t : Text) : Prop where
  changes : ∀ e ∈ s.changes, e = .local t (textHash t) ∨
    (e = .local (lf t) (textHash (lf t)) ∧ s.linuxSet = textHash (lf t)) ∨
    ∃ fs, e = .incoming fs ∧ ForLinux t fs
  watched : (s.linuxClip = [] ∨ textHash s.linuxClip = s.prev) ∨ s.linuxClip = t ∨
    (s.linuxClip = lf t ∧ s.linuxSet = textHash (lf t))
  polled : s.seqNum = s.lastSeq ∨ s.winClip = t ∨ s.winClip = crlf t
  toWindows : ∀ fs ∈ s.toWindows, (utf8 t).length ≤ maxTransfer.toNat ∧
    fs = encodeTransfer kindText (utf8 t)
  toLinux : ∀ fs ∈ s.toLinux, ForLinux t fs
  apply : ∀ x ∈ s.apply, x = (kindText, utf8 t)
  linux : Holds s.linuxClip t ∨ s.toLinux ≠ [] ∨ (∃ fs, .incoming fs ∈ s.changes) ∨ DueWindows s t
  windows : Holds s.winClip t ∨ s.toWindows ≠ [] ∨ s.apply ≠ [] ∨ DueLinux s t

/-! A copy that is due finds nothing on its way. -/

section Due
variable {s : Clips} {t : Text}

theorem DueWindows.polled (h : DueWindows s t) : s.seqNum ≠ s.lastSeq := by
  obtain ⟨-, -, -, -, hseq, -⟩ := h
  exact hseq

theorem DueWindows.watched (h : DueWindows s t) :
    s.linuxClip = [] ∨ textHash s.linuxClip = s.prev := by
  obtain ⟨-, -, -, -, -, hwatched, -⟩ := h
  exact hwatched

theorem DueWindows.quiet (h : DueWindows s t) :
    s.changes = [] ∧ s.apply = [] ∧ s.published = none ∧ s.toWindows = [] := by
  obtain ⟨-, -, -, -, -, -, hchanges, happly, hpublished, hto, -⟩ := h
  exact ⟨hchanges, happly, hpublished, hto⟩

theorem DueLinux.quiet (h : DueLinux s t) :
    s.seqNum = s.lastSeq ∧ s.published = none ∧ s.toLinux = [] := by
  obtain ⟨-, -, -, -, -, hseq, -, hpublished, -, hto⟩ := h
  exact ⟨hseq, hpublished, hto⟩

/-- What is due on Linux waits in the queue, if there is anything in it. -/
theorem DueLinux.head {e : Change} {rest : List Change} (h : DueLinux s t)
    (hch : s.changes = e :: rest) : e = .local t (textHash t) := by
  obtain ⟨-, -, -, -, ⟨hnil, -⟩ | ⟨hone, -⟩, -⟩ := h
  · rw [hch] at hnil
    cases hnil
  · rw [hch] at hone
    cases hone
    rfl

/-- The text is on the Linux clipboard or on its way there, unless the Windows
side has yet to send it. -/
theorem Settling.linux_of (h : Settling s t) (hdue : ¬ DueWindows s t) :
    Holds s.linuxClip t ∨ s.toLinux ≠ [] ∨ ∃ fs, .incoming fs ∈ s.changes := by
  rcases h.linux with hl | hl | hl | hl
  · exact Or.inl hl
  · exact Or.inr (Or.inl hl)
  · exact Or.inr (Or.inr hl)
  · exact absurd hl hdue

theorem Settling.windows_of (h : Settling s t) (hdue : ¬ DueLinux s t) :
    Holds s.winClip t ∨ s.toWindows ≠ [] ∨ s.apply ≠ [] := by
  rcases h.windows with hw | hw | hw | hw
  · exact Or.inl hw
  · exact Or.inr (Or.inl hw)
  · exact Or.inr (Or.inr hw)
  · exact absurd hw hdue

end Due

theorem textFrames_eq_some {t : Text} {fs : List Frame} (h : textFrames t = some fs) :
    (utf8 t).length ≤ maxTransfer.toNat ∧ fs = encodeTransfer kindText (utf8 t) := by
  unfold textFrames at h
  split at h
  next hlen =>
    cases h
    exact ⟨hlen, rfl⟩
  next => cases h

/-- After both a copy and a drain the text is on both clipboards. -/
theorem Settling.holds {s : Clips} {t : Text} (h : Settling s t) (hq : s.Quiet) :
    Holds s.linuxClip t ∧ Holds s.winClip t := by
  constructor
  · rcases h.linux_of (fun hdue => hdue.polled hq.polled) with hl | hl | ⟨fs, hl⟩
    · exact hl
    · exact absurd hq.toLinux hl
    · rw [hq.changes] at hl
      cases hl
  · rcases h.windows with hw | hw | hw | ⟨hclip, hne, -, -, hchanges, -⟩
    · exact hw
    · exact absurd hq.toWindows hw
    · exact absurd hq.apply hw
    · rcases hchanges with ⟨-, hprev⟩ | hchanges
      · rcases hq.watched with hwatched | hwatched
        · exact absurd (hclip.symm.trans hwatched) hne
        · exact absurd (hclip ▸ hwatched) hprev
      · rw [hq.changes] at hchanges
        cases hchanges.1

/-! ## One step -/

section Steps
variable {s s' : Clips} {t : Text}

theorem settling_copyLinux (hq : s.Quiet) (hfresh : s.LinuxSuppresses t → Holds s.winClip t) :
    Settling { s with linuxClip := t, copied := some t } t where
  changes := by
    show ∀ e ∈ s.changes, _
    rw [hq.changes]
    exact fun e he => nomatch he
  watched := Or.inr (Or.inl rfl)
  polled := Or.inl hq.polled
  toWindows := by
    show ∀ fs ∈ s.toWindows, _
    rw [hq.toWindows]
    exact fun fs hfs => nomatch hfs
  toLinux := by
    show ∀ fs ∈ s.toLinux, _
    rw [hq.toLinux]
    exact fun fs hfs => nomatch hfs
  apply := by
    show ∀ x ∈ s.apply, _
    rw [hq.apply]
    exact fun x hx => nomatch hx
  linux := Or.inl (Or.inl rfl)
  windows := by
    by_cases hs : s.LinuxSuppresses t
    · exact Or.inl (hfresh hs)
    · simp only [Clips.LinuxSuppresses, not_or] at hs
      obtain ⟨hne, hprev, hsent, hset⟩ := hs
      exact Or.inr (Or.inr (Or.inr ⟨rfl, hne, hsent, hset, Or.inl ⟨hq.changes, hprev⟩, hq.polled,
        hq.apply, hq.published, hq.toWindows, hq.toLinux⟩))

theorem settling_copyWindows (hq : s.Quiet) (hfresh : s.WinSuppresses t → Holds s.linuxClip t) :
    Settling { s with winClip := t, seqNum := s.seqNum + 1, copied := some t } t where
  changes := by
    show ∀ e ∈ s.changes, _
    rw [hq.changes]
    exact fun e he => nomatch he
  watched := Or.inl hq.watched
  polled := Or.inr (Or.inl rfl)
  toWindows := by
    show ∀ fs ∈ s.toWindows, _
    rw [hq.toWindows]
    exact fun fs hfs => nomatch hfs
  toLinux := by
    show ∀ fs ∈ s.toLinux, _
    rw [hq.toLinux]
    exact fun fs hfs => nomatch hfs
  apply := by
    show ∀ x ∈ s.apply, _
    rw [hq.apply]
    exact fun x hx => nomatch hx
  linux := by
    by_cases hs : s.WinSuppresses t
    · exact Or.inl (hfresh hs)
    · simp only [Clips.WinSuppresses, not_or] at hs
      obtain ⟨hne, hsent, hset⟩ := hs
      have hseq : s.seqNum + 1 ≠ s.lastSeq := by
        rw [hq.polled]
        exact Nat.succ_ne_self _
      exact Or.inr (Or.inr (Or.inr ⟨rfl, hne, hsent, hset, hseq, hq.watched, hq.changes, hq.apply,
        hq.published, hq.toWindows, hq.toLinux⟩))
  windows := Or.inl (Or.inl rfl)

variable (h : Settling s t)
include h

theorem settling_watch : Settling s.watch t := by
  unfold Clips.watch
  split
  next => exact h
  next hseen =>
    have hclip := h.watched.resolve_left hseen
    have hchange : Change.local s.linuxClip (textHash s.linuxClip) = .local t (textHash t) ∨
        (Change.local s.linuxClip (textHash s.linuxClip) = .local (lf t) (textHash (lf t)) ∧
          s.linuxSet = textHash (lf t)) := by
      rcases hclip with hclip | ⟨hclip, hset⟩
      · exact Or.inl (by rw [hclip])
      · exact Or.inr ⟨by rw [hclip], hset⟩
    refine ⟨?_, Or.inl (Or.inr rfl), h.polled, h.toWindows, h.toLinux, h.apply, ?_, ?_⟩
    · intro e he
      rcases List.mem_append.mp he with he | he
      · exact h.changes e he
      · rw [List.mem_singleton.mp he]
        exact hchange.imp_right Or.inl
    · rcases h.linux_of (fun hdue => hseen hdue.watched) with hl | hl | ⟨fs, hl⟩
      · exact Or.inl hl
      · exact Or.inr (Or.inl hl)
      · exact Or.inr (Or.inr (Or.inl ⟨fs, List.mem_append_left _ hl⟩))
    · rcases h.windows with hw | hw | hw | ⟨hc, hne, hsent, hset, hchanges, hrest⟩
      · exact Or.inl hw
      · exact Or.inr (Or.inl hw)
      · exact Or.inr (Or.inr (Or.inl hw))
      · rcases hchanges with ⟨hnil, -⟩ | ⟨-, hprev⟩
        · refine Or.inr (Or.inr (Or.inr ⟨hc, hne, hsent, hset, Or.inr ⟨?_, ?_⟩, hrest⟩))
          · rw [hnil, hc]
            rfl
          · rw [hc]
        · exact absurd (Or.inr (hc.symm ▸ hprev)) hseen

/-- A change of the user's that is not an echo is sent. -/
theorem settling_local {u : Text} {hash : UInt64} {rest : List Change} {fs : List Frame}
    (hch : s.changes = .local u hash :: rest) (hnew : ¬ (hash = s.linuxSent ∨ hash = s.linuxSet))
    (hfs : textFrames u = some fs)
    (hlinux : Holds s.linuxClip t ∨ s.toLinux ≠ [] ∨ ∃ fs, Change.incoming fs ∈ rest) :
    Settling { s with changes := rest, toWindows := s.toWindows ++ [fs], linuxSent := hash } t := by
  obtain ⟨hlen, rfl⟩ := textFrames_eq_some hfs
  have hu : u = t := by
    rcases h.changes (.local u hash) (by rw [hch]; exact List.mem_cons_self) with
      he | ⟨he, hset⟩ | ⟨fs, he, -⟩
    · cases he
      rfl
    · cases he
      exact absurd (Or.inr hset.symm) hnew
    · cases he
  subst hu
  refine ⟨fun e he => h.changes e (by rw [hch]; exact List.mem_cons_of_mem _ he), h.watched,
    h.polled, ?_, h.toLinux, h.apply, hlinux.imp_right (Or.imp_right Or.inl),
    Or.inr (Or.inl (by simp))⟩
  intro gs hgs
  rcases List.mem_append.mp hgs with hgs | hgs
  · exact h.toWindows gs hgs
  · exact ⟨hlen, List.mem_singleton.mp hgs⟩

/-- A text from Windows is set, in Linux line endings. -/
theorem settling_incoming {fs : List Frame} {rest : List Change}
    (hch : s.changes = .incoming fs :: rest) :
    Settling (setText { s with changes := rest, linuxRecv := receiver.run s.linuxRecv fs }
      (completions (receiver.outputs s.linuxRecv fs))) t := by
  obtain ⟨u, hu, hlen, rfl⟩ : ForLinux t fs := by
    rcases h.changes (.incoming fs) (by rw [hch]; exact List.mem_cons_self) with
      he | ⟨he, -⟩ | ⟨gs, he, hgs⟩
    · cases he
    · cases he
    · cases he
      exact hgs
  rw [completions_encodeTransfer hlen]
  simp only [setText, if_true, fromUtf8Lossy_utf8, hu]
  have hwindows := h.windows_of fun hdue => by cases hdue.head hch
  refine ⟨?_, Or.inr (Or.inr ⟨rfl, rfl⟩), h.polled, h.toWindows, h.toLinux, h.apply,
    Or.inl (Or.inr (Or.inl rfl)), hwindows.imp_right (Or.imp_right Or.inl)⟩
  intro e he
  rcases h.changes e (by rw [hch]; exact List.mem_cons_of_mem _ he) with he | ⟨he, -⟩ | he
  · exact Or.inl he
  · exact Or.inr (Or.inl ⟨he, rfl⟩)
  · exact Or.inr (Or.inr he)

theorem settling_linuxMain (hs : s.linuxMain = some s') : Settling s' t := by
  unfold Clips.linuxMain at hs
  split at hs
  next => cases hs
  next u hash rest hch =>
    have hlinux : Holds s.linuxClip t ∨ s.toLinux ≠ [] ∨ ∃ fs, Change.incoming fs ∈ rest := by
      have hdue : ¬ DueWindows s t := fun hdue => by
        rw [hdue.quiet.1] at hch
        cases hch
      rcases h.linux_of hdue with hl | hl | ⟨fs, hl⟩
      · exact Or.inl hl
      · exact Or.inr (Or.inl hl)
      · rw [hch] at hl
        exact Or.inr (Or.inr ⟨fs, (List.mem_cons.mp hl).resolve_left (fun h => nomatch h)⟩)
    split at hs
    next hsupp =>
      cases hs
      have hwindows := h.windows_of fun hdue => by
        cases hdue.head hch
        obtain ⟨-, -, hsent, hset, -⟩ := hdue
        exact hsupp.elim hsent hset
      exact ⟨fun e he => h.changes e (by rw [hch]; exact List.mem_cons_of_mem _ he), h.watched,
        h.polled, h.toWindows, h.toLinux, h.apply, hlinux.imp_right (Or.imp_right Or.inl),
        hwindows.imp_right (Or.imp_right Or.inl)⟩
    next hsupp =>
      obtain ⟨fs, hfs, rfl⟩ := Option.map_eq_some_iff.mp hs
      exact settling_local h hch hsupp hfs hlinux
  next fs rest hch =>
    cases hs
    exact settling_incoming h hch

theorem settling_linuxReader (hs : s.linuxReader = some s') : Settling s' t := by
  unfold Clips.linuxReader at hs
  split at hs
  next => cases hs
  next fs rest hto =>
    cases hs
    have hfs := h.toLinux fs (by rw [hto]; exact List.mem_cons_self)
    refine ⟨?_, h.watched, h.polled, h.toWindows, ?_, h.apply,
      Or.inr (Or.inr (Or.inl ⟨fs, List.mem_append_right _ List.mem_cons_self⟩)), ?_⟩
    · intro e he
      rcases List.mem_append.mp he with he | he
      · exact h.changes e he
      · exact Or.inr (Or.inr ⟨fs, List.mem_singleton.mp he, hfs⟩)
    · intro gs hgs
      exact h.toLinux gs (by rw [hto]; exact List.mem_cons_of_mem _ hgs)
    · have hwindows := h.windows_of fun hdue => by
        rw [hdue.quiet.2.2] at hto
        cases hto
      exact hwindows.imp_right (Or.imp_right Or.inl)

theorem settling_winReader (hs : s.winReader = some s') : Settling s' t := by
  unfold Clips.winReader at hs
  split at hs
  next => cases hs
  next fs rest hto =>
    cases hs
    obtain ⟨hlen, rfl⟩ := h.toWindows fs (by rw [hto]; exact List.mem_cons_self)
    rw [completions_encodeTransfer hlen]
    refine ⟨h.changes, h.watched, h.polled, ?_, h.toLinux, ?_, ?_,
      Or.inr (Or.inr (Or.inl (by simp)))⟩
    · intro gs hgs
      exact h.toWindows gs (by rw [hto]; exact List.mem_cons_of_mem _ hgs)
    · intro x hx
      rcases List.mem_append.mp hx with hx | hx
      · exact h.apply x hx
      · exact List.mem_singleton.mp hx
    · have hlinux := h.linux_of fun hdue => by
        rw [hdue.quiet.2.2.2] at hto
        cases hto
      exact hlinux.imp_right (Or.imp_right Or.inl)

theorem settling_applySet (hs : s.applySet = some s') : Settling s' t := by
  unfold Clips.applySet at hs
  split at hs
  next kind data rest hpub happly =>
    have hx := h.apply (kind, data) (by rw [happly]; exact List.mem_cons_self)
    cases hx
    rw [if_pos rfl] at hs
    cases hs
    rw [fromUtf8Lossy_utf8]
    refine ⟨h.changes, h.watched, Or.inr (Or.inr rfl), h.toWindows, h.toLinux, ?_, ?_,
      Or.inl (Or.inr (Or.inr rfl))⟩
    · intro x hx
      exact h.apply x (by rw [happly]; exact List.mem_cons_of_mem _ hx)
    · have hlinux := h.linux_of fun hdue => by
        rw [hdue.quiet.2.1] at happly
        cases happly
      exact hlinux.imp_right (Or.imp_right Or.inl)
  next => cases hs

theorem settling_applyStore (hs : s.applyStore = some s') : Settling s' t := by
  unfold Clips.applyStore at hs
  split at hs
  next => cases hs
  next hash hpub =>
    cases hs
    refine ⟨h.changes, h.watched, h.polled, h.toWindows, h.toLinux, h.apply, ?_, ?_⟩
    · have hlinux := h.linux_of fun hdue => by
        rw [hdue.quiet.2.2.1] at hpub
        cases hpub
      exact hlinux.imp_right (Or.imp_right Or.inl)
    · have hwindows := h.windows_of fun hdue => by
        rw [hdue.quiet.2.1] at hpub
        cases hpub
      exact hwindows.imp_right (Or.imp_right Or.inl)

theorem settling_poll (hs : s.poll = some s') : Settling s' t := by
  unfold Clips.poll at hs
  split at hs
  next =>
    cases hs
    exact h
  next hseq =>
    have hw := h.windows_of fun hdue => hseq hdue.quiet.1
    split at hs
    next hempty =>
      cases hs
      have hlinux := h.linux_of fun ⟨hclip, hne, _⟩ => hne (hclip.symm.trans hempty)
      exact ⟨h.changes, h.watched, Or.inl rfl, h.toWindows, h.toLinux, h.apply,
        hlinux.imp_right (Or.imp_right Or.inl), hw.imp_right (Or.imp_right Or.inl)⟩
    next =>
      split at hs
      next hsupp =>
        cases hs
        have hlinux := h.linux_of fun ⟨hclip, _, hsent, hset, _⟩ => by
          rw [hclip] at hsupp
          exact hsupp.elim hsent hset
        exact ⟨h.changes, h.watched, Or.inl rfl, h.toWindows, h.toLinux, h.apply,
          hlinux.imp_right (Or.imp_right Or.inl), hw.imp_right (Or.imp_right Or.inl)⟩
      next =>
        obtain ⟨fs, hfs, rfl⟩ := Option.map_eq_some_iff.mp hs
        obtain ⟨hlen, rfl⟩ := textFrames_eq_some hfs
        have hlf : lf s.winClip = lf t := by
          rcases h.polled.resolve_left hseq with hc | hc
          · rw [hc]
          · rw [hc, lf_crlf]
        refine ⟨h.changes, h.watched, Or.inl rfl, h.toWindows, ?_, h.apply,
          Or.inr (Or.inl (by simp)), hw.imp_right (Or.imp_right Or.inl)⟩
        intro gs hgs
        rcases List.mem_append.mp hgs with hgs | hgs
        · exact h.toLinux gs hgs
        · exact ⟨s.winClip, hlf, hlen, List.mem_singleton.mp hgs⟩

end Steps

/-- Setting the clipboard is no copy of the user. -/
theorem copied_setText (s : Clips) (xs : List (UInt8 × List UInt8)) :
    (setText s xs).copied = s.copied := by
  induction xs generalizing s with
  | nil => rfl
  | cons x xs ih =>
      obtain ⟨kind, data⟩ := x
      simp only [setText]
      split <;> exact ih _

/-- Only the user copies. -/
theorem copied_step {s s' : Clips} {a : ClipAct} (hs : clips.step s a = some s')
    (hl : ∀ t, a ≠ .copyLinux t) (hw : ∀ t, a ≠ .copyWindows t) : s'.copied = s.copied := by
  cases a with
  | copyLinux t => exact absurd rfl (hl t)
  | copyWindows t => exact absurd rfl (hw t)
  | watch =>
      cases hs
      unfold Clips.watch
      split <;> rfl
  | linuxMain =>
      simp only [clips, Clips.linuxMain] at hs
      split at hs
      next => cases hs
      next =>
        split at hs
        next => cases hs; rfl
        next => obtain ⟨fs, -, rfl⟩ := Option.map_eq_some_iff.mp hs; rfl
      next =>
        cases hs
        exact copied_setText _ _
  | linuxReader =>
      simp only [clips, Clips.linuxReader] at hs
      split at hs <;> cases hs
      rfl
  | winReader =>
      simp only [clips, Clips.winReader] at hs
      split at hs <;> cases hs
      rfl
  | applySet =>
      simp only [clips, Clips.applySet] at hs
      split at hs
      next => split at hs <;> cases hs <;> rfl
      next => cases hs
  | applyStore =>
      simp only [clips, Clips.applyStore] at hs
      split at hs <;> cases hs
      rfl
  | poll =>
      simp only [clips, Clips.poll] at hs
      split at hs
      next => cases hs; rfl
      next =>
        split at hs
        next => cases hs; rfl
        next =>
          split at hs
          next => cases hs; rfl
          next => obtain ⟨fs, -, rfl⟩ := Option.map_eq_some_iff.mp hs; rfl

theorem settling_step (s : Clips) (a : ClipAct) (s' : Clips)
    (h : ∀ t, s.copied = some t → Settling s t) (hC : s.Fresh a) (hs : clips.step s a = some s') :
    ∀ t, s'.copied = some t → Settling s' t := by
  intro t ht
  cases a with
  | copyLinux u =>
      simp only [clips] at hs
      split at hs
      next hq =>
        cases hs
        cases ht
        exact settling_copyLinux hq hC
      next => cases hs
  | copyWindows u =>
      simp only [clips] at hs
      split at hs
      next hq =>
        cases hs
        cases ht
        exact settling_copyWindows hq hC
      next => cases hs
  | watch =>
      rw [copied_step hs (fun _ h => nomatch h) (fun _ h => nomatch h)] at ht
      cases hs
      exact settling_watch (h t ht)
  | linuxMain =>
      rw [copied_step hs (fun _ h => nomatch h) (fun _ h => nomatch h)] at ht
      exact settling_linuxMain (h t ht) hs
  | linuxReader =>
      rw [copied_step hs (fun _ h => nomatch h) (fun _ h => nomatch h)] at ht
      exact settling_linuxReader (h t ht) hs
  | winReader =>
      rw [copied_step hs (fun _ h => nomatch h) (fun _ h => nomatch h)] at ht
      exact settling_winReader (h t ht) hs
  | applySet =>
      rw [copied_step hs (fun _ h => nomatch h) (fun _ h => nomatch h)] at ht
      exact settling_applySet (h t ht) hs
  | applyStore =>
      rw [copied_step hs (fun _ h => nomatch h) (fun _ h => nomatch h)] at ht
      exact settling_applyStore (h t ht) hs
  | poll =>
      rw [copied_step hs (fun _ h => nomatch h) (fun _ h => nomatch h)] at ht
      exact settling_poll (h t ht) hs

/-- **Convergence.** In every run, whatever the clipboards and the agents'
memory were before the first copy, in which each copy that is suppressed is
already on the other clipboard: once all is drained, both clipboards hold
the last copy. -/
theorem converges {s₀ s : Clips} (h₀ : s₀.copied = none) {acts : List ClipAct}
    (h : clips.exec s₀ acts = some s) (hC : clips.Meets Clips.Fresh s₀ acts) (hq : s.Quiet)
    {t : Text} (ht : s.copied = some t) : Holds s.linuxClip t ∧ Holds s.winClip t := by
  have hinit : ∀ t, s₀.copied = some t → Settling s₀ t := by
    intro t ht
    rw [h₀] at ht
    cases ht
  exact ((clips.exec_meets (P := fun s => ∀ t, s.copied = some t → Settling s t) hinit
    settling_step h hC) t ht).holds hq

/-- A copy on Linux, drained. -/
def drainLinux (t : Text) : List ClipAct :=
  [.copyLinux t, .watch, .linuxMain, .winReader, .applySet, .applyStore, .poll]

/-- A copy on Windows, drained. -/
def drainWindows (t : Text) : List ClipAct :=
  [.copyWindows t, .poll, .linuxReader, .linuxMain, .watch, .linuxMain]

/-- What a run leaves on the two clipboards, when all is drained. -/
def outcome (acts : List ClipAct) : Option (Text × Text × Option Text) :=
  (clips.exec .init acts).bind fun s =>
    if s.Quiet then some (s.linuxClip, s.winClip, s.copied) else none

theorem outcome_eq_some {acts : List ClipAct} {x : Text × Text × Option Text}
    (h : outcome acts = some x) :
    ∃ s, clips.exec .init acts = some s ∧ s.Quiet ∧ (s.linuxClip, s.winClip, s.copied) = x := by
  obtain ⟨s, hs, hx⟩ := Option.bind_eq_some_iff.mp h
  split at hx
  next hq => exact ⟨s, hs, hq, Option.some.inj hx⟩
  next => cases hx

/-- Copies on Linux and on Windows, drained. -/
def twoCopies : List ClipAct := drainLinux ['a'] ++ drainWindows ['b', '\r', '\n']

/-- What came from Windows is copied on Linux, which does not send it again, and
something else is. -/
def andBack : List ClipAct := twoCopies ++ [.copyLinux ['b', '\n'], .watch] ++ drainLinux ['c']

theorem converges_andBack :
    (∃ s₁, clips.exec .init twoCopies = some s₁ ∧ s₁.LinuxSuppresses ['b', '\n']) ∧
      ∃ s, clips.exec .init andBack = some s ∧ Holds s.linuxClip ['c'] ∧ Holds s.winClip ['c'] := by
  have hsuppresses : (clips.exec .init twoCopies).map
      (fun s => decide (s.LinuxSuppresses ['b', '\n'])) = some true := by
    decide +kernel
  obtain ⟨s₁, hs₁, hdecide⟩ := Option.map_eq_some_iff.mp hsuppresses
  have hout : outcome andBack = some (['c'], ['c'], some ['c']) := by decide +kernel
  obtain ⟨s, hs, hq, hx⟩ := outcome_eq_some hout
  have hfresh : clips.Meets Clips.Fresh .init andBack := by decide +kernel
  exact ⟨⟨s₁, hs₁, of_decide_eq_true hdecide⟩, s, hs,
    converges rfl hs hfresh hq (congrArg (fun x => x.2.2) hx)⟩

/-- The texts of the copies. -/
def copies (acts : List ClipAct) : List Text :=
  acts.filterMap fun
    | .copyLinux t | .copyWindows t => some t
    | _ => none

/-- **No convergence.** "a" on Linux, "b" on Windows, "a" on Linux again: the
second "a" is what Linux last sent, and Windows keeps "b". -/
theorem not_convergent :
    ¬ ∀ (acts : List ClipAct) (s : Clips),
      (∀ t ∈ copies acts, ∀ u ∈ copies acts, textHash t = textHash u → t = u) →
      clips.exec .init acts = some s → s.Quiet → ∀ t, s.copied = some t →
      Holds s.linuxClip t ∧ Holds s.winClip t := by
  intro h
  have hout : outcome (drainLinux ['a'] ++ drainWindows ['b'] ++
      [.copyLinux ['a'], .watch, .linuxMain]) = some (['a'], ['b'], some ['a']) := by
    decide +kernel
  obtain ⟨s, hs, hq, hx⟩ := outcome_eq_some hout
  obtain ⟨-, hwin, hcopied⟩ : s.linuxClip = ['a'] ∧ s.winClip = ['b'] ∧ s.copied = some ['a'] := by
    simpa using hx
  have := (h _ s (by decide +kernel) hs hq ['a'] hcopied).2
  rw [hwin] at this
  exact absurd this (by simp only [Holds]; decide +kernel)

end Beaglewing.Agents
