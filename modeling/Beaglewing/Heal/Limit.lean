/-
# `Heal.Limit` — how often the radio is bounced

A bounce is written down between the moment its run counts those of the last
hour and the moment the radio goes off, and no other run is in between.  So the
file, as far as it was written by these runs, is a log under a limit
(`Base.Window`), and the radio is bounced at most as often as the file says:
never more than `MAX_BOUNCES_PER_HOUR` in an hour, never more than `ATTEMPTS`
in a run.

## What it is not

The hour is one of the clock that `date` reads, and that clock is assumed never
to be set back; a reading from before a bounce does not count it.
-/
import Beaglewing.Base.Window
import Beaglewing.Heal.Script

namespace Beaglewing.Heal

open Base

section
variable {N : Type}

/-- The times that were written down. -/
def stamps (as : List (Act N)) : List Int :=
  as.filterMap fun
    | .stamped now => some now
    | _ => none

/-- The bounce that is written down, the radio not yet off. -/
def State.pending (s : State N) : List Int :=
  match s.run with
  | some (.bouncing _ t) => [t]
  | _ => []

/-- A run that has bounced the radio `k` times can be here. -/
def Point.Fits (c : Tunables N) (k : Nat) : Point N → Prop
  | .settling => k = 0
  | .connected r => k < r.attempt ∧ r.attempt ≤ c.attempts
  | .measuring r => k < r.attempt ∧ r.attempt ≤ c.attempts
  | .counting r => k < r.attempt ∧ r.attempt ≤ c.attempts
  | .stamping r => k < r.attempt ∧ r.attempt ≤ c.attempts
  | .bouncing r _ => k < r.attempt ∧ r.attempt ≤ c.attempts
  | .bounced r => k ≤ r.attempt ∧ r.attempt ≤ c.attempts

theorem Point.Fits.le {c : Tunables N} {k : Nat} {p : Point N} (h : p.Fits c k) :
    k ≤ c.attempts := by
  cases p with
  | settling => exact h ▸ Nat.zero_le _
  | bounced r => exact h.1.trans h.2
  | _ => exact Nat.le_of_lt (Nat.lt_of_lt_of_le h.1 h.2)

/-- Not in `bounce`. -/
def Point.Calm (p : Point N) : Prop := (∀ r, p ≠ .stamping r) ∧ ∀ r t, p ≠ .bouncing r t

theorem pending_of_calm {s : State N} (h : ∀ p ∈ s.run, p.Calm) : s.pending = [] := by
  unfold State.pending
  split
  · next r t heq => exact absurd rfl ((h _ heq).2 r t)
  · rfl

/-- The next round, if there is one. -/
theorem nextRound_fits {c : Tunables N} {k n : Nat} (hk : k ≤ n) {force : Bool} {base : Option N} :
    ∀ p ∈ nextRound c n force base, p.Calm ∧ p.Fits c k := by
  intro p hp
  unfold nextRound at hp
  split at hp
  · next hn =>
      cases hp
      exact ⟨⟨nofun, nofun⟩, Nat.lt_succ_of_le hk, hn⟩
  · cases hp

/-! ## What a step can do -/

section
variable {c : Tunables N} {s s' : State N} {a : Act N}

/-- A step that bounces nothing and writes no bounce down. -/
structure Quiet (c : Tunables N) (s : State N) (a : Act N) (s' : State N) : Prop where
  bounces : s'.bounces = s.bounces
  done : s'.done = s.done
  stamps : stamps [a] = []
  fits : ∀ k, (∀ p ∈ s.run, p.Fits c k) → ∀ p ∈ s'.run, p.Fits c k
  pending : s'.pending = []
  counted : ∀ r, s'.run = some (.stamping r) →
    ∃ now, a = .counted now ∧ bouncesLastHour now s.bounces < c.maxBouncesPerHour

/-- What a step does to the bounces, as far as the limit depends on it. -/
inductive Step (c : Tunables N) (s : State N) : Act N → State N → Prop
  | skip (force : Bool) : Step c s (.start force) s
  | start (force : Bool) {run : Option (Point N)} (free : s.run = none)
      (run_fits : ∀ p ∈ run, p.Calm ∧ p.Fits c 0) :
      Step c s (.start force) { s with run := run, done := [] :: s.done }
  | quiet {a : Act N} {s' : State N} : Quiet c s a s' → Step c s a s'
  | stamp (r : Round N) (now : Int) (here : s.run = some (.stamping r)) :
      Step c s (.stamped now)
        { s with bounces := some (s.bounces.getD [] ++ [now]), run := some (.bouncing r now) }
  | radio (r : Round N) (t : Int) (here : s.run = some (.bouncing r t)) :
      Step c s .radio { s with run := some (.bounced r), done := bounce t s.done }

theorem quiet_end (h : stamps [a] = []) (base : Option N) :
    Quiet c s a { s with baseline := base, run := none } where
  bounces := rfl
  done := rfl
  stamps := h
  fits _ _ p hp := by cases hp
  pending := rfl
  counted r hr := by cases hr

theorem quiet_move (h : stamps [a] = []) {run : Option (Point N)} (hcalm : ∀ p ∈ run, p.Calm)
    (hfits : ∀ k, (∀ p ∈ s.run, p.Fits c k) → ∀ p ∈ run, p.Fits c k) :
    Quiet c s a { s with run := run } where
  bounces := rfl
  done := rfl
  stamps := h
  fits := hfits
  pending := pending_of_calm hcalm
  counted r hr := absurd rfl ((hcalm _ hr).1 r)

theorem quiet_nextRound (h : stamps [a] = []) {n : Nat}
    (hfits : ∀ k, (∀ p ∈ s.run, p.Fits c k) → k ≤ n) (force : Bool) (base : Option N) :
    Quiet c s a { s with run := nextRound c n force base } :=
  quiet_move h (fun p hp => (nextRound_fits (Nat.le_refl n) p hp).1) fun k hk p hp =>
    (nextRound_fits (hfits k hk) p hp).2

variable [Awk N]

/-- The run that holds the lock goes on. -/
theorem step_of_advance {p : Point N} (hp : s.run = some p) (h : advance c s p a = some s') :
    Step c s a s' := by
  have hmove : ∀ {q : Point N}, (∀ k, p.Fits c k → q.Fits c k) → q.Calm → stamps [a] = [] →
      Quiet c s a { s with run := some q } := by
    intro q hfits hcalm ha
    refine quiet_move ha ?_ ?_
    · rintro _ ⟨⟩
      exact hcalm
    · rintro k hk _ ⟨⟩
      exact hfits k (hk p hp)
  have hnext : ∀ {n : Nat}, (∀ k, p.Fits c k → k ≤ n) → stamps [a] = [] →
      ∀ force base, Quiet c s a { s with run := nextRound c n force base } :=
    fun hfits ha => quiet_nextRound ha fun k hk => hfits k (hk p hp)
  cases p with
  | settling =>
      cases a with
      | settled =>
          cases h
          exact .quiet (hnext (fun k hk => Nat.le_of_eq hk) rfl _ _)
      | _ => cases h
  | connected r =>
      cases a with
      | link up =>
          cases h
          cases up with
          | true => exact .quiet (hmove (fun _ hk => hk) ⟨nofun, nofun⟩ rfl)
          | false => exact .quiet (quiet_end rfl _)
      | _ => cases h
  | measuring r =>
      cases a with
      | pinged pings =>
          simp only [advance] at h
          split at h
          · cases h
            exact .quiet (quiet_end rfl _)
          · split at h
            · cases h
              exact .quiet (quiet_end rfl _)
            · cases h
              exact .quiet (hmove (fun _ hk => hk) ⟨nofun, nofun⟩ rfl)
      | _ => cases h
  | counting r =>
      cases a with
      | counted now =>
          simp only [advance] at h
          split at h
          · cases h
            exact .quiet (quiet_end rfl _)
          · next hcount =>
              cases h
              refine .quiet ⟨rfl, rfl, rfl, ?_, rfl, fun _ _ => ⟨now, rfl, Nat.lt_of_not_le hcount⟩⟩
              rintro k hk _ ⟨⟩
              exact hk (.counting r) hp
      | _ => cases h
  | stamping r =>
      cases a with
      | stamped now =>
          cases h
          exact .stamp r now hp
      | _ => cases h
  | bouncing r t =>
      cases a with
      | radio =>
          cases h
          exact .radio r t hp
      | _ => cases h
  | bounced r =>
      have hround : ∀ k, (Point.bounced r).Fits c k → k ≤ r.attempt := fun _ hk => hk.1
      cases a with
      | pinged pings =>
          simp only [advance] at h
          split at h
          · cases h
            exact .quiet (hnext hround rfl _ _)
          · split at h
            · cases h
              exact .quiet (hnext hround rfl _ _)
            · cases h
              exact .quiet (quiet_end rfl _)
      | _ => cases h

theorem step_of_step (h : step c s a = some s') : Step c s a s' := by
  have hgo : (s.run.bind fun p => advance c s p a) = some s' → Step c s a s' := by
    intro h
    obtain ⟨p, hp, h⟩ := Option.bind_eq_some_iff.mp h
    exact step_of_advance hp h
  cases a with
  | start force =>
      cases hrun : s.run with
      | some p =>
          simp only [step, hrun] at h
          cases h
          exact .skip force
      | none =>
          simp only [step, hrun] at h
          cases h
          refine .start force hrun ?_
          split
          · exact nextRound_fits (Nat.le_refl 0)
          · rintro _ ⟨⟩
            exact ⟨⟨nofun, nofun⟩, rfl⟩
  | killed =>
      obtain ⟨p, hp, rfl⟩ := Option.map_eq_some_iff.mp h
      exact .quiet (quiet_end rfl _)
  | _ => exact hgo h

end

/-! ## What a run keeps -/

theorem stamps_snoc (as : List (Act N)) (a : Act N) : stamps (as ++ [a]) = stamps as ++ stamps [a] :=
  List.filterMap_append

theorem readings_snoc (as : List (Act N)) (a : Act N) :
    readings (as ++ [a]) = readings as ++ readings [a] := List.filterMap_append

theorem bouncesLastHour_eq (now : Int) (bounces : Option (List Int)) :
    bouncesLastHour now bounces = recent 3600 now (bounces.getD []) := by
  cases bounces with
  | none => rfl
  | some times => exact List.countP_eq_length_filter.symm

theorem flatten_bounce (t : Int) (runs : List (List Int)) :
    (bounce t runs).flatten = t :: runs.flatten := by
  cases runs with
  | nil => rfl
  | cons times runs => rfl

/-- The file is what was in it and what was written down; the latter is limited,
one more is allowed where one is to be written, and the radio was not bounced
more often. -/
structure Logged (c : Tunables N) (old : List Int) (as : List (Act N)) (s : State N) : Prop where
  file : s.bounces.getD [] = old ++ stamps as
  limited : Limited 3600 c.maxBouncesPerHour (stamps as)
  allowed : ∀ r, s.run = some (.stamping r) → ∃ now ∈ readings as,
    recent 3600 now (old ++ stamps as) < c.maxBouncesPerHour
  done : ∀ p : Int → Bool, (s.pending ++ s.done.flatten).countP p ≤ (stamps as).countP p

/-- No run has bounced the radio too often, and the one that goes on will not. -/
structure Rounds (c : Tunables N) (s : State N) : Prop where
  within : ∀ times ∈ s.done, times.length ≤ c.attempts
  fits : ∀ p ∈ s.run, ∃ times rest, s.done = times :: rest ∧ p.Fits c times.length

section
variable {c : Tunables N} {s s' : State N} {a : Act N} {old : List Int} {as : List (Act N)}

theorem logged_init (bounces : Option (List Int)) (baseline : Option N) :
    Logged c (bounces.getD []) [] (State.init bounces baseline) where
  file := (List.append_nil _).symm
  limited := limited_nil
  allowed r hr := by cases hr
  done p := Nat.le_refl 0

/-- A step that writes nothing down. -/
theorem Logged.keep (hs : Logged c old as s) (ha : stamps [a] = []) (hfile : s'.bounces = s.bounces)
    (hdone : ∀ p : Int → Bool, (s'.pending ++ s'.done.flatten).countP p
      ≤ (s.pending ++ s.done.flatten).countP p)
    (hallowed : ∀ r, s'.run = some (.stamping r) → ∃ now ∈ readings (as ++ [a]),
      recent 3600 now (s.bounces.getD []) < c.maxBouncesPerHour) :
    Logged c old (as ++ [a]) s' := by
  have hst : stamps (as ++ [a]) = stamps as := by rw [stamps_snoc, ha, List.append_nil]
  constructor
  · rw [hfile, hst, hs.file]
  · rw [hst]
    exact hs.limited
  · rw [hst, ← hs.file]
    exact hallowed
  · rw [hst]
    exact fun p => Nat.le_trans (hdone p) (hs.done p)

theorem Logged.step (hs : Logged c old as s) (h : Step c s a s')
    (hclock : (readings (as ++ [a])).Pairwise (· ≤ ·)) : Logged c old (as ++ [a]) s' := by
  cases h with
  | skip force =>
      refine hs.keep rfl rfl (fun p => Nat.le_refl _) ?_
      intro r hr
      obtain ⟨now, hnow, hcount⟩ := hs.allowed r hr
      rw [readings_snoc, hs.file]
      exact ⟨now, List.mem_append_left _ hnow, hcount⟩
  | start force free run_fits =>
      refine hs.keep rfl rfl ?_ fun r hr => absurd rfl ((run_fits _ hr).1.1 r)
      intro p
      rw [pending_of_calm fun q hq => (run_fits q hq).1, List.nil_append, List.countP_append]
      exact Nat.le_add_left _ _
  | quiet hq =>
      refine hs.keep hq.stamps hq.bounces ?_ ?_
      · intro p
        rw [hq.pending, hq.done, List.nil_append, List.countP_append]
        exact Nat.le_add_left _ _
      · intro r hr
        obtain ⟨now, rfl, hcount⟩ := hq.counted r hr
        rw [bouncesLastHour_eq] at hcount
        rw [readings_snoc]
        exact ⟨now, List.mem_append_right _ (List.mem_singleton_self now), hcount⟩
  | stamp r now here =>
      -- the last reading before this one is that of the count
      obtain ⟨counted, hmem, hcount⟩ := hs.allowed r here
      have hle : counted ≤ now := by
        rw [readings_snoc, List.pairwise_append] at hclock
        exact hclock.2.2 counted hmem now (List.mem_singleton_self now)
      have hst : stamps (as ++ [Act.stamped now]) = stamps as ++ [now] := stamps_snoc as _
      constructor
      · rw [hst, ← List.append_assoc, ← hs.file]
        rfl
      · rw [hst]
        exact limited_append hs.limited hcount hle
      · intro r hr
        cases hr
      · intro p
        have hbefore := hs.done p
        rw [State.pending, here, List.nil_append] at hbefore
        show (now :: s.done.flatten).countP p ≤ _
        rw [hst, List.countP_append, List.countP_singleton, List.countP_cons]
        exact Nat.add_le_add_right hbefore _
  | radio r t here =>
      refine hs.keep rfl rfl ?_ fun r hr => by cases hr
      intro p
      rw [State.pending, State.pending, here, flatten_bounce]
      exact Nat.le_refl _

theorem Rounds.step (hs : Rounds c s) (h : Step c s a s') : Rounds c s' := by
  cases h with
  | skip force => exact hs
  | start force free run_fits =>
      constructor
      · intro times ht
        rcases List.mem_cons.mp ht with rfl | ht
        · exact Nat.zero_le _
        · exact hs.within times ht
      · exact fun p hp => ⟨[], s.done, rfl, (run_fits p hp).2⟩
  | quiet hq =>
      constructor
      · rw [hq.done]
        exact hs.within
      · intro p hp
        rw [hq.done]
        cases hrun : s.run with
        | none =>
            -- no run goes on where there is none
            have hfits := hq.fits (c.attempts + 1) (by rw [hrun]; exact nofun) p hp
            exact absurd hfits.le (Nat.not_succ_le_self _)
        | some q =>
            obtain ⟨times, rest, hdone, hfits⟩ := hs.fits q hrun
            refine ⟨times, rest, hdone, hq.fits _ ?_ p hp⟩
            rintro _ hq'
            rw [hrun] at hq'
            cases hq'
            exact hfits
  | stamp r now here =>
      refine ⟨hs.within, ?_⟩
      rintro p ⟨⟩
      obtain ⟨times, rest, hdone, hfits⟩ := hs.fits _ here
      exact ⟨times, rest, hdone, hfits⟩
  | radio r t here =>
      obtain ⟨times, rest, hdone, hfits⟩ := hs.fits _ here
      have hlt : times.length < c.attempts := Nat.lt_of_lt_of_le hfits.1 hfits.2
      simp only [hdone, bounce]
      constructor
      · intro times' ht
        rcases List.mem_cons.mp ht with rfl | ht
        · exact hlt
        · exact hs.within times' (hdone ▸ List.mem_cons_of_mem _ ht)
      · rintro p ⟨⟩
        exact ⟨t :: times, rest, rfl, hfits.1, hfits.2⟩

variable [Awk N]

theorem logged_of_exec {bounces : Option (List Int)} {baseline : Option N}
    (h : (runs c).exec (.init bounces baseline) as = some s)
    (hclock : (readings as).Pairwise (· ≤ ·)) : Logged c (bounces.getD []) as s := by
  refine (runs c).exec_induction
    (P := fun as s => (readings as).Pairwise (· ≤ ·) → Logged c (bounces.getD []) as s)
    (fun _ => logged_init bounces baseline) ?_ h hclock
  intro as a s s' hs hst hclock
  have hbefore : (readings as).Pairwise (· ≤ ·) := by
    rw [readings_snoc, List.pairwise_append] at hclock
    exact hclock.1
  exact (hs hbefore).step (step_of_step hst) hclock

theorem rounds_of_exec {bounces : Option (List Int)} {baseline : Option N}
    (h : (runs c).exec (.init bounces baseline) as = some s) : Rounds c s :=
  (runs c).exec_invariant ⟨nofun, nofun⟩ (fun _ _ _ hs hst => hs.step (step_of_step hst)) h

/-- Whatever was in the files, and whenever a run is killed: no window of an hour
has more bounces than `MAX_BOUNCES_PER_HOUR`, and no run more than `ATTEMPTS`. -/
theorem bounces_limited {bounces : Option (List Int)} {baseline : Option N}
    (h : (runs c).exec (.init bounces baseline) as = some s)
    (hclock : (readings as).Pairwise (· ≤ ·)) :
    (∀ w, inWindow 3600 w s.done.flatten ≤ c.maxBouncesPerHour) ∧
      ∀ times ∈ s.done, times.length ≤ c.attempts := by
  refine ⟨?_, (rounds_of_exec h).within⟩
  have hlogged := logged_of_exec h hclock
  refine hlogged.limited.of_countP_le fun p => Nat.le_trans ?_ (hlogged.done p)
  rw [List.countP_append]
  exact Nat.le_add_left _ _

end

/-- Two runs, the second one a minute later and at the limit. -/
def twice : List (Act ℚ) :=
  [.start true, .link true, .pinged [none, some 40], .counted 100, .stamped 100, .radio,
    .pinged [some 5], .start false, .settled, .link true, .pinged [some 40], .counted 160]

theorem bounces_limited_twice :
    (∀ w, inWindow 3600 w ([[], [100]] : List (List Int)).flatten ≤ 1) ∧
      ∀ times ∈ ([[], [100]] : List (List Int)), times.length ≤ 4 := by
  have h : (runs (⟨15, 3, 4, 1⟩ : Tunables ℚ)).exec (.init none none) twice
      = some ⟨some [100], none, none, [[], [100]]⟩ := by
    decide +kernel
  exact bounces_limited h (by decide)

end

end Beaglewing.Heal
