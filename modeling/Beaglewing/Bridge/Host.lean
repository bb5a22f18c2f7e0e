/-
# `Bridge.Host` — what the host was told last

The host acts on the last report that it has taken, from each device.  When
a session ends, `release_all` writes one report to each; if one of them is
not taken, nobody writes it again, although the daemon's own state is clean.
So the host is released exactly if the writes of `release_all` are taken, or
what it was told before was already clean (`hostReleased_releaseAll`).

| the daemon | the host |
|---|---|
| has just been started | was told nothing |
| ends a session, drops a connection or exits | is told to release everything |
| serves a client | whatever the client sends |

## What it is not

The report that is refused is lost, and so is what the host knows of it; whether
a device refuses one is not the bridge's choice, and nothing is assumed of it.
-/
import Beaglewing.Bridge.Daemon

namespace Beaglewing.Bridge

open Base

/-- The last report to the device that the host has taken. -/
def Hid.lastTaken (h : Hid) (which : Which) : Option (List UInt8) :=
  ((h.reports.filter fun r => r.which = which ∧ r.ok = true).map Report.bytes).getLast?

/-- A keyboard report without modifiers and keys, or a pointer report without
buttons. -/
def Clean (which : Which) (report : List UInt8) : Prop :=
  report.getD 0 0 = 0 ∧ (which = .kbd → ∀ key ∈ report.drop 2, key = 0)

instance (which : Which) (report : List UInt8) : Decidable (Clean which report) :=
  inferInstanceAs (Decidable (_ ∧ _))

/-- The host was told of nothing that is held. -/
def HostReleased (h : Hid) : Prop :=
  ∀ which, ∀ report ∈ h.lastTaken which, Clean which report

/-- The report of a device in `release_all` is taken, or the host was told
nothing else before. -/
def ReleaseTaken (h : Hid) : Prop :=
  (h.takes h.reports.length = true ∨ ∀ report ∈ h.lastTaken .kbd, Clean .kbd report) ∧
    (h.takes (h.reports.length + 1) = true ∨ ∀ report ∈ h.lastTaken .ptr, Clean .ptr report)

instance (h : Hid) : Decidable (ReleaseTaken h) := inferInstanceAs (Decidable (_ ∧ _))

/-- The devices when a step of the daemon calls `release_all`. -/
def releasing : Daemon → DaemonEvent → Option Hid
  | .listening hid, .shutdown => some hid
  | .listening hid, .accept ready _ => if ready then none else some hid
  | .serving s, .turn t =>
      match s.turn t with
      | .go _ => none
      | .stop s => some s.client.hid
  | _, _ => none

/-- The step's `release_all`, if it calls it, reaches the host. -/
def Reaches (d : Daemon) (e : DaemonEvent) : Prop := ∀ h ∈ releasing d e, ReleaseTaken h

instance (d : Daemon) (e : DaemonEvent) : Decidable (Reaches d e) :=
  inferInstanceAs (Decidable (∀ h ∈ releasing d e, ReleaseTaken h))

/-- No client session is active. -/
def Daemon.Idle : Daemon → Prop
  | .listening _ => True
  | .serving _ => False
  | .exited _ => True

/-! ## One release -/

theorem lastTaken_writeReport (h : Hid) (which which' : Which) (report : List UInt8) :
    (h.writeReport which report).lastTaken which' =
      if which = which' ∧ h.takes h.reports.length = true then some report
      else h.lastTaken which' := by
  simp only [Hid.lastTaken, Hid.writeReport, List.filter_append, List.map_append]
  split
  · next hw => simp [hw]
  · next hw =>
      have hnone : ([⟨which, report, h.takes h.reports.length⟩] : List Report).filter
          (fun r => r.which = which' ∧ r.ok = true) = [] := by
        simpa using hw
      rw [hnone, List.map_nil, List.append_nil]

/-- The pointer report of `release_all`. -/
def Hid.ptrRelease (h : Hid) : List UInt8 :=
  let x := h.x >>> 1
  let y := h.y >>> 1
  [0, (x &&& 0xff).toUInt8, (x >>> 8).toUInt8, (y &&& 0xff).toUInt8, (y >>> 8).toUInt8, 0]

theorem releaseAll_eq (h : Hid) :
    h.releaseAll =
      (Hid.writeReport { h with modifiers := 0, keys := fun _ => 0, buttons := 0 } .kbd
        (List.replicate 8 0)).writeReport .ptr h.ptrRelease :=
  rfl

theorem lastTaken_releaseAll_kbd (h : Hid) :
    h.releaseAll.lastTaken .kbd =
      if h.takes h.reports.length = true then some (List.replicate 8 0) else h.lastTaken .kbd := by
  rw [releaseAll_eq, lastTaken_writeReport, if_neg (by simp), lastTaken_writeReport]
  simp only [true_and]
  rfl

theorem lastTaken_releaseAll_ptr (h : Hid) :
    h.releaseAll.lastTaken .ptr =
      if h.takes (h.reports.length + 1) = true then some h.ptrRelease else h.lastTaken .ptr := by
  rw [releaseAll_eq, lastTaken_writeReport, lastTaken_writeReport]
  simp only [Hid.writeReport, List.length_append, List.length_singleton, true_and, reduceCtorEq,
    false_and, if_false]
  rfl

/-- After `release_all`, the host is released exactly if both reports were
taken, or were not needed. -/
theorem hostReleased_releaseAll {h : Hid} : HostReleased h.releaseAll ↔ ReleaseTaken h := by
  have hkbd : Clean .kbd (List.replicate 8 0) := by
    refine ⟨rfl, ?_⟩
    intro _ key hkey
    rw [List.drop_replicate] at hkey
    exact List.eq_of_mem_replicate hkey
  have hptr : Clean .ptr h.ptrRelease := ⟨rfl, by simp⟩
  have hk := lastTaken_releaseAll_kbd h
  have hp := lastTaken_releaseAll_ptr h
  constructor
  · intro hreleased
    constructor
    · by_cases ht : h.takes h.reports.length = true
      · exact .inl ht
      · rw [if_neg ht] at hk
        exact .inr (hk ▸ hreleased .kbd)
    · by_cases ht : h.takes (h.reports.length + 1) = true
      · exact .inl ht
      · rw [if_neg ht] at hp
        exact .inr (hp ▸ hreleased .ptr)
  · rintro ⟨htk, htp⟩ which
    cases which with
    | kbd =>
        rw [hk]
        split
        · simpa using hkbd
        · next ht => exact htk.resolve_left ht
    | ptr =>
        rw [hp]
        split
        · simpa using hptr
        · next ht => exact htp.resolve_left ht

/-! ## Runs of the daemon -/

theorem hostReleased_open (takes : Nat → Bool) : HostReleased (.open takes) := by
  intro which report h
  simp [Hid.lastTaken, Hid.open] at h

/-- A step that leaves the daemon without a client has released everything,
or nothing has happened. -/
theorem idle_step {d d' : Daemon} {e : DaemonEvent} (h : daemon.step d e = some d')
    (hidle : d'.Idle) :
    (∃ hid, releasing d e = some hid ∧ d'.hid = hid.releaseAll) ∨
      (releasing d e = none ∧ d.Idle ∧ d'.hid = d.hid) := by
  cases d with
  | listening hid =>
      cases e with
      | shutdown =>
          cases h
          exact .inl ⟨hid, rfl, rfl⟩
      | noClient =>
          cases h
          exact .inr ⟨rfl, trivial, rfl⟩
      | accept ready room =>
          cases h
          cases ready with
          | true => exact hidle.elim
          | false => exact .inl ⟨hid, rfl, rfl⟩
      | turn t => cases h
  | serving s =>
      cases e with
      | turn t =>
          simp only [daemon] at h
          cases ht : s.turn t with
          | go s' =>
              rw [ht] at h
              cases h
              exact hidle.elim
          | stop s' =>
              rw [ht] at h
              cases h
              exact .inl ⟨s'.client.hid, by simp only [releasing, ht], rfl⟩
      | shutdown => cases h
      | noClient => cases h
      | accept ready room => cases h
  | exited hid => cases h

/-- A step that calls `release_all` leaves the daemon without a client. -/
theorem releasing_step {d : Daemon} {e : DaemonEvent} {hid : Hid}
    (h : releasing d e = some hid) :
    ∃ d', daemon.step d e = some d' ∧ d'.Idle ∧ d'.hid = hid.releaseAll := by
  cases d with
  | listening hid' =>
      cases e with
      | shutdown =>
          cases h
          exact ⟨_, rfl, trivial, rfl⟩
      | noClient => cases h
      | accept ready room =>
          cases ready with
          | true => cases h
          | false =>
              cases h
              exact ⟨_, rfl, trivial, rfl⟩
      | turn t => cases h
  | serving s =>
      cases e with
      | turn t =>
          simp only [releasing] at h
          cases ht : s.turn t with
          | go s' =>
              rw [ht] at h
              cases h
          | stop s' =>
              rw [ht] at h
              cases h
              exact ⟨.listening s'.client.hid.releaseAll, by simp only [daemon, ht], trivial, rfl⟩
      | shutdown => cases h
      | noClient => cases h
      | accept ready room => cases h
  | exited hid' => cases h

/-- Over a whole run: whenever no client session is active the host is
released, exactly if every `release_all` of the run reaches the host. -/
theorem host_released_iff (takes : Nat → Bool) (events : List DaemonEvent) :
    (∀ before after d', events = before ++ after →
        daemon.exec (.listening (.open takes)) before = some d' → d'.Idle → HostReleased d'.hid) ↔
      daemon.Meets Reaches (.listening (.open takes)) events := by
  constructor
  · intro h
    rw [Lts.meets_iff]
    intro before e after d₁ heq hbefore hid hreleasing
    obtain ⟨d₂, hst, hidle, hhid⟩ := releasing_step hreleasing
    have hsnoc := daemon.exec_snoc.mpr ⟨d₁, hbefore, hst⟩
    have := h (before ++ [e]) after d₂ (by rw [heq, List.append_assoc]; rfl) hsnoc hidle
    rw [hhid] at this
    exact hostReleased_releaseAll.mp this
  · intro h before after d' heq hbefore
    have hmeets : daemon.Meets Reaches (.listening (.open takes)) before := by
      rw [Lts.meets_iff] at h ⊢
      intro bs e cs d₁ hbs hd₁
      exact h bs e (cs ++ after) d₁ (by rw [heq, hbs, List.append_assoc]; rfl) hd₁
    have hinit : Daemon.Idle (.listening (.open takes)) →
        HostReleased (Daemon.hid (.listening (.open takes))) := fun _ => hostReleased_open takes
    refine daemon.exec_meets (P := fun d => d.Idle → HostReleased d.hid) hinit ?_ hbefore hmeets
    intro d e d' hd hreaches hst hidle
    rcases idle_step hst hidle with ⟨hid, hreleasing, hhid⟩ | ⟨-, hidle', hhid⟩
    · rw [hhid]
      exact hostReleased_releaseAll.mpr (hreaches hid hreleasing)
    · rw [hhid]
      exact hd hidle'

/-- HELLO, and a key that goes down. -/
def pressed : List UInt8 := [0x01, 0x02, 0x01, 0x00, 0x10, 0x01, 0x04]

/-- A client that presses a key and leaves. -/
def pressAndLeave : List DaemonEvent :=
  .accept true none :: (pressed.map Turn.one).map .turn ++
    [.turn { shutdown := false, stale := false, read := .eof }]

/-- The key goes down, and the host does not take the report that releases
it: the daemon waits for the next client, and the key stays down. -/
theorem host_keeps_key :
    ¬ ∀ (takes : Nat → Bool) (events : List DaemonEvent) (hid : Hid),
      daemon.exec (.listening (.open takes)) events = some (.listening hid) → HostReleased hid := by
  intro h
  have hrun : ((daemon.exec (.listening (.open fun n => n = 0)) pressAndLeave).bind fun d =>
      match d with
      | .listening hid => some (hid.lastTaken .kbd)
      | _ => none) = some (some [0, 0, 4, 0, 0, 0, 0, 0]) := by decide +kernel
  obtain ⟨d, hd, hlast⟩ := Option.bind_eq_some_iff.mp hrun
  cases d with
  | listening hid =>
      have hclean := h _ _ hid hd .kbd _ (Option.some.inj hlast)
      revert hclean
      decide
  | serving s => cases hlast
  | exited hid => cases hlast

end Beaglewing.Bridge
