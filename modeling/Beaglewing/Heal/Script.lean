/-
# `Heal.Script` — the self-healing of the Wi-Fi link

`pi/wifi-heal/wifi-heal.sh`, one label for each thing that a run waits for or
is told.

    start    the dispatcher, the timer or a user starts a run, which is skipped
             while another one holds the lock
    settled  the sleep before the first measurement is over, `force` skips it
    link     whether the interface is connected
    pinged   what the hosts have answered
    counted  the clock, when the bounces of the last hour are counted
    stamped  the clock, when a bounce is written down
    radio    the radio goes off and on again
    killed   the run is killed, wherever it is

The bounces are one time a line, in a file that is only appended to.  The
numbers are those of `awk`, of a type with its operations and no laws.
-/
import Beaglewing.Base.Lts

namespace Beaglewing.Heal

open Base

/-- What the script uses of the numbers of `awk`. -/
class Awk (N : Type) extends Add N, Mul N, Div N where
  ofNat : Nat → N
  lt : N → N → Bool
  le : N → N → Bool
  /-- `printf "%.2f"`, as it is read again. -/
  fixed2 : N → N

/-- The nearest whole number; of a half, the even one. -/
def halfEven (x : ℚ) : ℤ :=
  if Int.fract x < 1 / 2 ∨ Int.fract x = 1 / 2 ∧ ⌊x⌋ % 2 = 0 then ⌊x⌋ else ⌊x⌋ + 1

/-- Exact arithmetic.  `printf` rounds a half to the even digit. -/
instance : Awk ℚ where
  ofNat n := n
  lt a b := a < b
  le a b := a ≤ b
  fixed2 a := halfEven (a * 100) / 100

example : (Awk.fixed2 (4.125 : ℚ), Awk.fixed2 (4.135 : ℚ)) = (4.12, 4.14) := by decide +kernel

structure Tunables (N : Type) where
  /-- Absolute floor: never act below this. -/
  degradedMs : N
  factor : N
  attempts : Nat
  maxBouncesPerHour : Nat

section
variable {N : Type} [Awk N] (c : Tunables N)

/-! ## The functions of the script -/

/-- `measure`: the first of the hosts that has answered. -/
def measure (pings : List (Option N)) : Option N := pings.findSome? id

/-- `bounces_last_hour`. -/
def bouncesLastHour (now : Int) : Option (List Int) → Nat
  | none => 0
  | some times => (times.filter fun t => now - 3600 < t).length

/-- `is_degraded`, with no baseline as zero. -/
def isDegraded (a : N) (base : Option N) : Bool :=
  let b := base.getD (Awk.ofNat 0)
  if Awk.le a c.degradedMs then false
  else if Awk.lt (Awk.ofNat 0) b && Awk.le a (c.factor * b) then false
  else true

/-- `learn`: slow-moving baseline, healthy samples only. -/
def learn (avg : N) : Option N → N
  | none => avg
  | some b => Awk.fixed2 ((Awk.ofNat 3 * b + avg) / Awk.ofNat 4)

/-! ## A run -/

/-- The variables of one round of the loop. -/
structure Round (N : Type) where
  attempt : Nat
  force : Bool
  baseline : Option N
deriving DecidableEq

/-- Places in the script. -/
inductive Point (N : Type) where
  | settling
  | connected (r : Round N)
  | measuring (r : Round N)
  | counting (r : Round N)
  -- in `bounce`: before the time is written, and after
  | stamping (r : Round N)
  | bouncing (r : Round N) (t : Int)
  | bounced (r : Round N)
deriving DecidableEq

inductive Act (N : Type) where
  | start (force : Bool)
  | settled
  | link (up : Bool)
  | pinged (pings : List (Option N))
  | counted (now : Int)
  | stamped (now : Int)
  | radio
  | killed

structure State (N : Type) where
  /-- `$STATE/bounces`. -/
  bounces : Option (List Int)
  /-- `$STATE/wifi-baseline`. -/
  baseline : Option N
  /-- The run that holds the lock. -/
  run : Option (Point N)
  /-- The bounces of each run, by the time written for them, the latest first. -/
  done : List (List Int)
deriving DecidableEq

/-- No run yet, with whatever the two files hold. -/
def State.init (bounces : Option (List Int)) (baseline : Option N) : State N :=
  ⟨bounces, baseline, none, []⟩

/-- The next round of `for attempt in $(seq 1 "$ATTEMPTS")`, after `n` of them. -/
def nextRound (n : Nat) (force : Bool) (baseline : Option N) : Option (Point N) :=
  if n < c.attempts then some (.connected ⟨n + 1, force, baseline⟩) else none

/-- The radio is bounced in the latest run. -/
def bounce (t : Int) : List (List Int) → List (List Int)
  | times :: runs => (t :: times) :: runs
  | [] => [[t]]

/-- One step of the run that holds the lock; it ends with `run := none`. -/
def advance (s : State N) : Point N → Act N → Option (State N)
  | .settling, .settled => some { s with run := nextRound c 0 false s.baseline }
  | .connected r, .link up => some { s with run := if up then some (.measuring r) else none }
  | .measuring r, .pinged pings =>
      match measure pings with
      | none => some { s with run := none }
      | some avg =>
          if r.force = false ∧ isDegraded c avg r.baseline = false then
            some { s with
              baseline :=
                if Awk.lt avg c.degradedMs then some (learn avg r.baseline) else s.baseline
              run := none }
          else some { s with run := some (.counting r) }
  | .counting r, .counted now =>
      if bouncesLastHour now s.bounces ≥ c.maxBouncesPerHour then some { s with run := none }
      else some { s with run := some (.stamping r) }
  | .stamping r, .stamped now =>
      some { s with
        bounces := some (s.bounces.getD [] ++ [now])
        run := some (.bouncing r now) }
  | .bouncing r t, .radio => some { s with run := some (.bounced r), done := bounce t s.done }
  | .bounced r, .pinged pings =>
      match measure pings with
      | none => some { s with run := nextRound c r.attempt false r.baseline }
      | some after =>
          if isDegraded c after r.baseline then
            some { s with run := nextRound c r.attempt false r.baseline }
          else some { s with run := none }
  | _, _ => none

/-- A step of the machine: a run starts, or is killed, or goes on. -/
def step (s : State N) : Act N → Option (State N)
  | .start force =>
      match s.run with
      | some _ => some s
      | none =>
          some { s with
            run := if force then nextRound c 0 true s.baseline else some .settling
            done := [] :: s.done }
  | .killed => s.run.map fun _ => { s with run := none }
  | a => s.run.bind fun p => advance c s p a

def runs : Lts (State N) (Act N) where
  step := step c

end

/-- What `date +%s` has read, in order. -/
def readings {N : Type} (as : List (Act N)) : List Int :=
  as.filterMap fun
    | .counted now => some now
    | .stamped now => some now
    | _ => none

end Beaglewing.Heal
