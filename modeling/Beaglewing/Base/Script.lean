/-
# `Base.Script` — scripts that stop at the first command that fails

A shell script under `set -e` is a list of commands on a state outside of it.
It ends where its commands do, at a command that fails, and wherever it is
killed; what it has done by then stays.  `system` runs such scripts one at a
time.  Which commands a script has is decided when it starts, by its tests on
the state.

| label | the script |
|---|---|
| `start i` | starts, if none is running |
| `step` | runs its next command, and is over if that fails |
| `refuse` | its next command does nothing and fails |
| `kill` | is over |

A property of the state holds in every run if it holds after every beginning
of every script that starts where it holds (`invariant_of_begins`).
-/
import Beaglewing.Base.Lts

namespace Base.Script

section Commands
variable {σ κ : Type} (cmd : κ → σ → Option σ)

/-- Commands in a row, none of which fails. -/
def exec (s : σ) : List κ → Option σ
  | [] => some s
  | c :: cs => (cmd c s).bind fun s' => exec s' cs

@[simp] theorem exec_nil (s : σ) : exec cmd s [] = some s := rfl

@[simp] theorem exec_cons (s : σ) (c : κ) (cs : List κ) :
    exec cmd s (c :: cs) = (cmd c s).bind fun s' => exec cmd s' cs := rfl

theorem exec_append (s : σ) (cs ds : List κ) :
    exec cmd s (cs ++ ds) = (exec cmd s cs).bind fun s' => exec cmd s' ds := by
  induction cs generalizing s with
  | nil => rfl
  | cons c cs ih =>
      rw [List.cons_append, exec_cons, exec_cons]
      cases cmd c s with
      | none => rfl
      | some s' => exact ih s'

/-- What every command of a list keeps, the list keeps. -/
theorem exec_keeps {P : σ → Prop} {cs : List κ}
    (hcmd : ∀ c ∈ cs, ∀ s s', P s → cmd c s = some s' → P s') {s s' : σ} (hs : P s)
    (h : exec cmd s cs = some s') : P s' := by
  induction cs generalizing s with
  | nil =>
      cases h
      exact hs
  | cons c cs ih =>
      obtain ⟨s₁, h₁, h⟩ := Option.bind_eq_some_iff.mp h
      refine ih (fun d hd => hcmd d (List.mem_cons_of_mem _ hd)) ?_ h
      exact hcmd c List.mem_cons_self s s₁ hs h₁

end Commands

/-! ## One script at a time -/

/-- The state, and what is left of the script that is running. -/
structure State (σ κ : Type) where
  world : σ
  running : Option (List κ)

section System
variable {σ κ ι : Type} (cmd : κ → σ → Option σ) (script : ι → σ → List κ)

variable {cmd script}

/-- The state is one that a beginning of some script has led to, from a state
with the property. -/
def Within (cmd : κ → σ → Option σ) (script : ι → σ → List κ) (P : σ → Prop) (s : State σ κ) :
    Prop :=
  match s.running with
  | none => P s.world
  | some cs => ∃ i s₀ before, P s₀ ∧ script i s₀ = before ++ cs ∧ exec cmd s₀ before = some s.world

/-- The property holds after every beginning of every script that starts where
it holds. -/
def Begins (cmd : κ → σ → Option σ) (script : ι → σ → List κ) (P : σ → Prop) : Prop :=
  ∀ i s₀ before cs s, P s₀ → script i s₀ = before ++ cs → exec cmd s₀ before = some s → P s

theorem Within.world {P : σ → Prop} (hP : Begins cmd script P) {s : State σ κ}
    (h : Within cmd script P s) : P s.world := by
  rw [Within] at h
  split at h
  · exact h
  · obtain ⟨i, s₀, before, hs₀, hscript, hexec⟩ := h
    exact hP i s₀ before _ _ hs₀ hscript hexec

end System
end Base.Script
