/-
# `Heal.Learn` — why the radio is bounced

A run that is about to bounce the radio has measured a link that is degraded,
or was started with `--force` and has not bounced it yet (`bounce_justified`).
The baseline that it compares with is the one of the file: nobody writes there
while it runs.

The baseline is learned from samples below `DEGRADED_MS` only, so it never
grows past that, and a link worse than `FACTOR` times `DEGRADED_MS` is degraded
whatever was learned before (`never_masked`).

What it is not: `never_masked` is of exact numbers, with `printf "%.2f"`
rounding to the nearest and a half to the even digit, where `awk` has binary
fractions.  `DEGRADED_MS` has no more decimals than `printf` keeps, else the
baseline could be rounded past it; and a baseline that the file had before the
first run is not above it.
-/
import Beaglewing.Heal.Limit

namespace Beaglewing.Heal

open Base

section
variable {N : Type}

/-- The variables of the round that a run is in. -/
def Point.round : Point N → Option (Round N)
  | .settling => none
  | .connected r | .measuring r | .counting r | .stamping r | .bouncing r _ | .bounced r => some r

/-- Those of a round that has not bounced the radio. -/
def Point.unbounced : Point N → Option (Round N)
  | .connected r | .measuring r | .counting r | .stamping r => some r
  | .settling | .bouncing _ _ | .bounced _ => none

/-- The last measurement. -/
def Measured (as : List (Act N)) (avg : N) : Prop :=
  ∃ pre pings mid, as = pre ++ .pinged pings :: mid ∧ (∀ a ∈ mid, ∀ p, a ≠ .pinged p) ∧
    measure pings = some avg

theorem Measured.snoc {as : List (Act N)} {a : Act N} {avg : N} (h : Measured as avg)
    (ha : ∀ p, a ≠ .pinged p) : Measured (as ++ [a]) avg := by
  obtain ⟨pre, pings, mid, rfl, hmid, havg⟩ := h
  refine ⟨pre, pings, mid ++ [a], by simp, ?_, havg⟩
  intro b hb p
  rcases List.mem_append.mp hb with hb | hb
  · exact hmid b hb p
  · rw [List.mem_singleton.mp hb]
    exact ha p

variable [Awk N] (c : Tunables N)

/-- The run that holds the lock was started with `--force`, and has not bounced
the radio. -/
def Forced (s₀ : State N) (as : List (Act N)) (s : State N) : Prop :=
  s.done.head? = some [] ∧ ∃ pre rest s₁, as = pre ++ .start true :: rest ∧
    (runs c).exec s₀ pre = some s₁ ∧ s₁.run = none ∧ s.done.length = s₁.done.length + 1

/-- What a run knows where it is. -/
structure Known (s₀ : State N) (as : List (Act N)) (s : State N) : Prop where
  held : ∀ p ∈ s.run, ∀ r ∈ p.round, r.baseline = s.baseline
  forced : ∀ p ∈ s.run, ∀ r ∈ p.unbounced, r.force = true → Forced c s₀ as s
  measured : ∀ r, s.run = some (.counting r) ∨ s.run = some (.stamping r) →
    ∃ avg, Measured as avg ∧ (r.force = false → isDegraded c avg r.baseline = true)

variable {c} {s₀ s s' : State N} {as : List (Act N)} {a : Act N}

theorem Forced.snoc (h : Forced c s₀ as s) (a : Act N) (hdone : s'.done = s.done) :
    Forced c s₀ (as ++ [a]) s' := by
  obtain ⟨hhead, pre, rest, s₁, rfl, hexec, hfree, hlen⟩ := h
  refine ⟨hdone ▸ hhead, pre, rest ++ [a], s₁, by simp, hexec, hfree, hdone ▸ hlen⟩

/-- No run holds the lock. -/
theorem known_of_free (h : s.run = none) : Known c s₀ as s where
  held p hp := by rw [h] at hp; cases hp
  forced p hp := by rw [h] at hp; cases hp
  measured r hr := by rw [h] at hr; rcases hr with hr | hr <;> cases hr

/-- A run is in a round, not yet at the bounce. -/
theorem known_of_round {p : Point N} {r : Round N} (hp : s.run = some p) (hround : p.round = some r)
    (hheld : r.baseline = s.baseline)
    (hforced : p.unbounced = some r → r.force = true → Forced c s₀ as s)
    (hplace : (∀ r, p ≠ .counting r) ∧ ∀ r, p ≠ .stamping r) : Known c s₀ as s := by
  refine ⟨?_, ?_, ?_⟩
  · intro q hq r' hr'
    rw [hp] at hq
    cases hq
    rw [hround] at hr'
    cases hr'
    exact hheld
  · intro q hq r' hr' hforce
    rw [hp] at hq
    cases hq
    have hsame : r' = r := by
      cases p <;> cases hround <;> cases hr' <;> rfl
    exact hforced (hsame ▸ hr') (hsame ▸ hforce)
  · intro r' hr'
    rw [hp] at hr'
    rcases hr' with hr' | hr'
    · exact absurd (Option.some.inj hr') (hplace.1 r')
    · exact absurd (Option.some.inj hr') (hplace.2 r')

/-- The next round goes without `--force`. -/
theorem known_nextRound {n : Nat} {base : Option N} (hrun : s.run = nextRound c n false base)
    (hbase : base = s.baseline) : Known c s₀ as s := by
  unfold nextRound at hrun
  split at hrun
  · exact known_of_round hrun rfl hbase (fun _ h => by cases h)
      (by constructor <;> intro _ h <;> cases h)
  · exact known_of_free hrun

/-- A run that counts, or is about to write the bounce down. -/
theorem known_of_degraded {p : Point N} {r : Round N} (hp : s.run = some p)
    (hplace : p = .counting r ∨ p = .stamping r) (hheld : r.baseline = s.baseline)
    (hforced : r.force = true → Forced c s₀ as s) {avg : N} (havg : Measured as avg)
    (hdegraded : r.force = false → isDegraded c avg r.baseline = true) : Known c s₀ as s := by
  have hround : p.round = some r ∧ p.unbounced = some r := by
    rcases hplace with rfl | rfl <;> exact ⟨rfl, rfl⟩
  refine ⟨?_, ?_, ?_⟩
  · intro q hq r' hr'
    rw [hp] at hq
    cases hq
    rw [hround.1] at hr'
    cases hr'
    exact hheld
  · intro q hq r' hr'
    rw [hp] at hq
    cases hq
    rw [hround.2] at hr'
    cases hr'
    exact hforced
  · intro r' hr'
    have hsame : r' = r := by
      rw [hp] at hr'
      rcases hplace with rfl | rfl <;> rcases hr' with hr' | hr' <;> cases hr' <;> rfl
    rw [hsame]
    exact ⟨avg, havg, hdegraded⟩

theorem Known.start {force : Bool} (h : Known c s₀ as s) (hexec : (runs c).exec s₀ as = some s)
    (hst : (runs c).step s (.start force) = some s') : Known c s₀ (as ++ [.start force]) s' := by
  simp only [runs, step] at hst
  split at hst
  · cases hst
    refine ⟨h.held, fun p hp r hr hforce => (h.forced p hp r hr hforce).snoc _ rfl, ?_⟩
    intro r hr
    obtain ⟨avg, havg, hdegraded⟩ := h.measured r hr
    exact ⟨avg, havg.snoc (fun _ h => by cases h), hdegraded⟩
  · rename_i hfree
    cases hst
    cases force with
    | false =>
        refine ⟨?_, ?_, ?_⟩
        · rintro p ⟨⟩ r hr
          cases hr
        · rintro p ⟨⟩ r hr
          cases hr
        · rintro r (hr | hr) <;> cases hr
    | true =>
        by_cases hn : 0 < c.attempts
        · have hrun : nextRound c 0 true s.baseline = some (.connected ⟨1, true, s.baseline⟩) :=
            if_pos hn
          refine known_of_round (p := .connected ⟨1, true, s.baseline⟩) hrun rfl rfl ?_
            (by constructor <;> intro _ h <;> cases h)
          intro _ _
          exact ⟨rfl, as, [], s, rfl, hexec, hfree, rfl⟩
        · exact known_of_free (if_neg hn)

/-- The run goes on. -/
theorem Known.advance {p : Point N} (h : Known c s₀ as s) (hp : s.run = some p)
    (hst : advance c s p a = some s') : Known c s₀ (as ++ [a]) s' := by
  have hheld := h.held p hp
  have hforced := h.forced p hp
  cases p with
  | settling =>
      cases a with
      | settled =>
          cases hst
          exact known_nextRound rfl rfl
      | _ => cases hst
  | connected r =>
      cases a with
      | link up =>
          cases hst
          cases up with
          | false => exact known_of_free rfl
          | true =>
              exact known_of_round rfl rfl (hheld r rfl)
                (fun _ hforce => (hforced r rfl hforce).snoc _ rfl)
                (by constructor <;> intro _ h <;> cases h)
      | _ => cases hst
  | measuring r =>
      cases a with
      | pinged pings =>
          simp only [Heal.advance] at hst
          split at hst
          · cases hst
            exact known_of_free rfl
          next avg havg =>
            split at hst
            · cases hst
              exact known_of_free rfl
            next hact =>
              cases hst
              refine known_of_degraded rfl (.inl rfl) (hheld r rfl)
                (fun hforce => (hforced r rfl hforce).snoc _ rfl)
                ⟨as, pings, [], rfl, (fun _ h => by cases h), havg⟩ ?_
              intro hforce
              by_contra hno
              exact hact ⟨hforce, Bool.eq_false_iff.mpr hno⟩
      | _ => cases hst
  | counting r =>
      cases a with
      | counted now =>
          simp only [Heal.advance] at hst
          split at hst
          · cases hst
            exact known_of_free rfl
          · cases hst
            obtain ⟨avg, havg, hdegraded⟩ := h.measured r (.inl hp)
            exact known_of_degraded rfl (.inr rfl) (hheld r rfl)
              (fun hforce => (hforced r rfl hforce).snoc _ rfl)
              (havg.snoc (fun _ h => by cases h)) hdegraded
      | _ => cases hst
  | stamping r =>
      cases a with
      | stamped now =>
          cases hst
          exact known_of_round rfl rfl (hheld r rfl) (fun h => by cases h)
            (by constructor <;> intro _ h <;> cases h)
      | _ => cases hst
  | bouncing r t =>
      cases a with
      | radio =>
          cases hst
          exact known_of_round rfl rfl (hheld r rfl) (fun h => by cases h)
            (by constructor <;> intro _ h <;> cases h)
      | _ => cases hst
  | bounced r =>
      cases a with
      | pinged pings =>
          simp only [Heal.advance] at hst
          split at hst
          · cases hst
            exact known_nextRound rfl (hheld r rfl)
          · split at hst
            · cases hst
              exact known_nextRound rfl (hheld r rfl)
            · cases hst
              exact known_of_free rfl
      | _ => cases hst

theorem Known.step (h : Known c s₀ as s) (hexec : (runs c).exec s₀ as = some s)
    (hst : (runs c).step s a = some s') : Known c s₀ (as ++ [a]) s' := by
  have hgo : (s.run.bind fun p => Heal.advance c s p a) = some s' → Known c s₀ (as ++ [a]) s' := by
    intro hst
    obtain ⟨p, hp, hst⟩ := Option.bind_eq_some_iff.mp hst
    exact h.advance hp hst
  cases a with
  | start force => exact h.start hexec hst
  | killed =>
      obtain ⟨p, -, rfl⟩ := Option.map_eq_some_iff.mp hst
      exact known_of_free rfl
  | _ => exact hgo hst

/-- Wherever runs start, are skipped or killed, and whatever is measured: a run
that is about to bounce the radio has last measured a link that is degraded by
the baseline of the file, or it was started with `--force` and has bounced
nothing so far. -/
theorem bounce_justified {bounces : Option (List Int)} {baseline : Option N}
    (h : (runs c).exec (.init bounces baseline) as = some s) {r : Round N}
    (hr : s.run = some (.stamping r)) :
    ∃ avg, Measured as avg ∧
      (isDegraded c avg s.baseline = true ∨ Forced c (.init bounces baseline) as s) := by
  have hknown : Known c (.init bounces baseline) as s := by
    refine (runs c).exec_induction_of_all (Q := fun _ => True)
      (P := fun as s => Known c (.init bounces baseline) as s) (known_of_free rfl) ?_ h
      (fun _ _ => trivial)
    intro as a s s' hexec hs _ hst
    exact hs.step hexec hst
  obtain ⟨avg, havg, hdegraded⟩ := hknown.measured r (.inr hr)
  refine ⟨avg, havg, ?_⟩
  cases hforce : r.force with
  | true => exact .inr (hknown.forced _ hr r rfl hforce)
  | false =>
      rw [← hknown.held _ hr r rfl]
      exact .inl (hdegraded hforce)

/-- A step leaves the baseline, or learns from a sample below `DEGRADED_MS`. -/
theorem baseline_step (hst : (runs c).step s a = some s') :
    s'.baseline = s.baseline ∨ ∃ r avg, s.run = some (.measuring r) ∧
      Awk.lt avg c.degradedMs = true ∧ s'.baseline = some (learn avg r.baseline) := by
  have hgo : (s.run.bind fun p => Heal.advance c s p a) = some s' →
      s'.baseline = s.baseline ∨ ∃ r avg, s.run = some (.measuring r) ∧
        Awk.lt avg c.degradedMs = true ∧ s'.baseline = some (learn avg r.baseline) := by
    intro hadv
    obtain ⟨p, hp, hmove⟩ := Option.bind_eq_some_iff.mp hadv
    clear hadv
    unfold Heal.advance at hmove
    split at hmove
    · cases hmove
      exact .inl rfl
    · cases hmove
      exact .inl rfl
    next r pings =>
      split at hmove
      · cases hmove
        exact .inl rfl
      next avg havg =>
        split at hmove
        · cases hmove
          dsimp only
          split
          next hlt => exact .inr ⟨r, avg, hp, hlt, rfl⟩
          next => exact .inl rfl
        · cases hmove
          exact .inl rfl
    · split at hmove <;> cases hmove <;> exact .inl rfl
    · cases hmove
      exact .inl rfl
    · cases hmove
      exact .inl rfl
    · split at hmove
      · cases hmove
        exact .inl rfl
      · split at hmove <;> cases hmove <;> exact .inl rfl
    · cases hmove
  cases a with
  | start force =>
      simp only [runs, step] at hst
      split at hst <;> cases hst <;> exact .inl rfl
  | killed =>
      obtain ⟨p, -, rfl⟩ := Option.map_eq_some_iff.mp hst
      exact .inl rfl
  | _ => exact hgo hst

end

/-! ## The baseline in exact numbers -/

section
variable {c : Tunables ℚ} {s : State ℚ} {as : List (Act ℚ)}

/-- Rounding does not get past a whole number. -/
theorem halfEven_le {x : ℚ} {k : ℤ} (h : x ≤ k) : halfEven x ≤ k := by
  have hfloor : ⌊x⌋ ≤ k := Int.floor_le_iff.mpr (lt_of_le_of_lt h (lt_add_one _))
  rw [halfEven]
  split
  · exact hfloor
  · rename_i hup
    rcases lt_or_eq_of_le hfloor with hlt | heq
    · exact hlt
    · have hle : x ≤ (⌊x⌋ : ℚ) := by rwa [heq]
      have hfract : Int.fract x < 1 / 2 := by
        rw [Int.fract]
        linarith
      exact absurd (.inl hfract) hup

/-- Rounding to two decimals does not get past a number with two decimals. -/
theorem fixed2_le {x d : ℚ} (hd : ∃ k : ℤ, d * 100 = k) (h : x ≤ d) : Awk.fixed2 x ≤ d := by
  obtain ⟨k, hk⟩ := hd
  have hround : halfEven (x * 100) ≤ k := halfEven_le (by linarith)
  have hcast : (halfEven (x * 100) : ℚ) ≤ d * 100 := by
    rw [hk]
    exact_mod_cast hround
  show (halfEven (x * 100) : ℚ) / 100 ≤ d
  rw [div_le_iff₀ (by norm_num)]
  exact hcast

theorem learn_le {d avg : ℚ} {base : Option ℚ} (hd : ∃ k : ℤ, d * 100 = k) (havg : avg ≤ d)
    (hbase : ∀ b ∈ base, b ≤ d) : learn avg base ≤ d := by
  cases base with
  | none => exact havg
  | some b =>
      have hb : b ≤ d := hbase b rfl
      have hmean : (3 * b + avg) / 4 ≤ d := by linarith
      exact fixed2_le hd hmean

/-- The baseline does not grow past `DEGRADED_MS`. -/
theorem baseline_le {bounces : Option (List Int)} {baseline : Option ℚ}
    (hcents : ∃ k : ℤ, c.degradedMs * 100 = k) (hold : ∀ b ∈ baseline, b ≤ c.degradedMs)
    (h : (runs c).exec (.init bounces baseline) as = some s) :
    ∀ b ∈ s.baseline, b ≤ c.degradedMs := by
  have hboth : Known c (.init bounces baseline) as s ∧ ∀ b ∈ s.baseline, b ≤ c.degradedMs := by
    refine (runs c).exec_induction_of_all (Q := fun _ => True)
      (P := fun as s => Known c (.init bounces baseline) as s ∧ ∀ b ∈ s.baseline, b ≤ c.degradedMs)
      ⟨known_of_free rfl, hold⟩ ?_ h (fun _ _ => trivial)
    intro as a s s' hexec hs _ hst
    refine ⟨hs.1.step hexec hst, ?_⟩
    rcases baseline_step hst with hsame | ⟨r, avg, hrun, hlt, hlearn⟩
    · rw [hsame]
      exact hs.2
    · rw [hlearn]
      rintro b ⟨⟩
      have havg : avg < c.degradedMs := of_decide_eq_true hlt
      refine learn_le hcents (le_of_lt havg) ?_
      rw [hs.1.held _ hrun r rfl]
      exact hs.2
  exact hboth.2

/-- A link that is worse than `DEGRADED_MS` and than `FACTOR` times that is
degraded by every baseline up to `DEGRADED_MS`. -/
theorem isDegraded_of_le {base : Option ℚ} (hbase : ∀ b ∈ base, b ≤ c.degradedMs) {avg : ℚ}
    (hfloor : c.degradedMs < avg) (hworse : c.factor * c.degradedMs < avg) :
    isDegraded c avg base = true := by
  have habove : Awk.le avg c.degradedMs = false := decide_eq_false (not_le.mpr hfloor)
  have hfar : ∀ b ∈ base, 0 < b → Awk.le avg (c.factor * b) = false := by
    intro b hb hpos
    have hb' := hbase b hb
    refine decide_eq_false (not_le.mpr ?_)
    -- A FACTOR below zero makes the product negative, and the average is not.
    rcases le_or_gt 0 c.factor with hfactor | hfactor
    · exact lt_of_le_of_lt (mul_le_mul_of_nonneg_left hb' hfactor) hworse
    · have hneg : c.factor * b < 0 := mul_neg_of_neg_of_pos hfactor hpos
      linarith
  have hzero : (Awk.ofNat 0 : ℚ) = 0 := Nat.cast_zero
  rw [isDegraded, habove, hzero]
  cases hb : base with
  | none =>
      have hno : Awk.lt (0 : ℚ) 0 = false := decide_eq_false (lt_irrefl _)
      simp [hno]
  | some b =>
      rcases le_or_gt b 0 with hneg | hpos
      · have hno : Awk.lt (0 : ℚ) b = false := decide_eq_false (not_lt.mpr hneg)
        simp [hno]
      · simp [hfar b hb hpos]

/-- **Nothing is hidden.** Whatever is measured in whatever runs, the baseline
does not get above `DEGRADED_MS`, and a link that is worse than that and than
`FACTOR` times that is judged degraded. -/
theorem never_masked {bounces : Option (List Int)} {baseline : Option ℚ}
    (hcents : ∃ k : ℤ, c.degradedMs * 100 = k) (hold : ∀ b ∈ baseline, b ≤ c.degradedMs)
    (h : (runs c).exec (.init bounces baseline) as = some s) :
    (∀ b ∈ s.baseline, b ≤ c.degradedMs) ∧
      ∀ avg, c.degradedMs < avg → c.factor * c.degradedMs < avg →
        isDegraded c avg s.baseline = true := by
  have hle := baseline_le hcents hold h
  exact ⟨hle, fun _ hfloor hworse => isDegraded_of_le hle hfloor hworse⟩

end

/-! ## A link that got worse, and a forced run -/

/-- A good link is learned; then it is bad, and bounced; a forced run bounces it
although it is good again. -/
def worsened : List (Act ℚ) :=
  [.start false, .settled, .link true, .pinged [some 4], .start false, .settled, .link true,
    .pinged [some 46], .counted 100]

theorem exec_worsened : ∃ s, (runs (⟨15, 3, 4, 3⟩ : Tunables ℚ)).exec (.init none none) worsened =
    some s ∧ s.run = some (.stamping ⟨1, false, some 4⟩) :=
  ⟨⟨none, some 4, some (.stamping ⟨1, false, some 4⟩), [[], []]⟩, by decide +kernel, rfl⟩

theorem bounce_justified_worsened :
    ∃ s avg, (runs (⟨15, 3, 4, 3⟩ : Tunables ℚ)).exec (.init none none) worsened = some s ∧
      Measured worsened avg ∧ (isDegraded (⟨15, 3, 4, 3⟩ : Tunables ℚ) avg s.baseline = true ∨
        Forced (⟨15, 3, 4, 3⟩ : Tunables ℚ) (.init none none) worsened s) := by
  obtain ⟨s, hs, hr⟩ := exec_worsened
  obtain ⟨avg, havg, hwhy⟩ := bounce_justified hs hr
  exact ⟨s, avg, hs, havg, hwhy⟩

/-- The baseline is learned, and moves with the next sample to 4.125, which is
written as 4.12. -/
def moved : List (Act ℚ) :=
  [.start false, .settled, .link true, .pinged [some 4], .start false, .settled, .link true,
    .pinged [none, some (9 / 2)]]

theorem exec_moved : ∃ s, (runs (⟨15, 3, 4, 3⟩ : Tunables ℚ)).exec (.init none none) moved =
    some s ∧ s.baseline = some (103 / 25) :=
  ⟨⟨none, some (103 / 25), none, [[], []]⟩, by decide +kernel, rfl⟩

theorem never_masked_moved :
    ∃ s, (runs (⟨15, 3, 4, 3⟩ : Tunables ℚ)).exec (.init none none) moved = some s ∧
      s.baseline = some (103 / 25) ∧
      isDegraded (⟨15, 3, 4, 3⟩ : Tunables ℚ) 46 s.baseline = true := by
  obtain ⟨s, hs, hbase⟩ := exec_moved
  obtain ⟨-, hmasked⟩ := never_masked ⟨1500, by norm_num⟩ (fun b hb => by cases hb) hs
  refine ⟨s, hs, hbase, hmasked 46 ?_ ?_⟩
  · show (15 : ℚ) < 46
    norm_num
  · show (3 : ℚ) * 15 < 46
    norm_num

end Beaglewing.Heal
