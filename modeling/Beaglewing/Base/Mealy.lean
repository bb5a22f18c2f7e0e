/-
# `Base.Mealy` — machines that answer every input

A machine that consumes one input at a time, moves to a new state and gives
one answer.  `run` is the state after a list of inputs, `trace` the inputs
paired with their answers.  Two rules carry the proofs that use it: a run
splits at any point (`run_append`, `mem_trace_iff`), and inputs that leave
every state alone can be erased from a run without changing the answers to
the others (`trace_filter`).
-/
import Mathlib

namespace Base

/-- A deterministic machine with an answer for each input. -/
structure Mealy (σ ι ο : Type) where
  step : σ → ι → σ × ο

namespace Mealy
variable {σ ι κ ο : Type} (m : Mealy σ ι ο)

/-- The state after a list of inputs. -/
def run (s : σ) : List ι → σ
  | [] => s
  | x :: xs => run (m.step s x).1 xs

/-- The answers to a list of inputs, each paired with its input. -/
def trace (s : σ) : List ι → List (ι × ο)
  | [] => []
  | x :: xs => (x, (m.step s x).2) :: trace (m.step s x).1 xs

/-- The answers alone. -/
def outputs (s : σ) (xs : List ι) : List ο :=
  (m.trace s xs).map Prod.snd

@[simp] theorem run_nil (s : σ) : m.run s [] = s := rfl

@[simp] theorem run_cons (s : σ) (x : ι) (xs : List ι) :
    m.run s (x :: xs) = m.run (m.step s x).1 xs := rfl

@[simp] theorem trace_nil (s : σ) : m.trace s [] = [] := rfl

@[simp] theorem trace_cons (s : σ) (x : ι) (xs : List ι) :
    m.trace s (x :: xs) = (x, (m.step s x).2) :: m.trace (m.step s x).1 xs := rfl

@[simp] theorem outputs_nil (s : σ) : m.outputs s [] = [] := rfl

@[simp] theorem outputs_cons (s : σ) (x : ι) (xs : List ι) :
    m.outputs s (x :: xs) = (m.step s x).2 :: m.outputs (m.step s x).1 xs := rfl

/-! ## Splitting a run -/

theorem run_append (s : σ) (xs ys : List ι) :
    m.run s (xs ++ ys) = m.run (m.run s xs) ys := by
  induction xs generalizing s with
  | nil => rfl
  | cons x xs ih => exact ih (m.step s x).1

theorem trace_append (s : σ) (xs ys : List ι) :
    m.trace s (xs ++ ys) = m.trace s xs ++ m.trace (m.run s xs) ys := by
  induction xs generalizing s with
  | nil => rfl
  | cons x xs ih => simp only [List.cons_append, trace_cons, ih, run_cons]

theorem outputs_append (s : σ) (xs ys : List ι) :
    m.outputs s (xs ++ ys) = m.outputs s xs ++ m.outputs (m.run s xs) ys := by
  simp only [outputs, trace_append, List.map_append]

/-- An answer of the trace is the answer of one step, taken after the inputs
before it. -/
theorem mem_trace_iff {s : σ} {xs : List ι} {x : ι} {o : ο} :
    (x, o) ∈ m.trace s xs ↔
      ∃ pre post, xs = pre ++ x :: post ∧ o = (m.step (m.run s pre) x).2 := by
  constructor
  · intro h
    induction xs generalizing s with
    | nil => cases h
    | cons y ys ih =>
        rcases List.mem_cons.mp h with h | h
        · cases h
          exact ⟨[], ys, rfl, rfl⟩
        · obtain ⟨pre, post, rfl, ho⟩ := ih h
          exact ⟨y :: pre, post, rfl, ho⟩
  · rintro ⟨pre, post, rfl, rfl⟩
    rw [trace_append]
    exact List.mem_append_right _ List.mem_cons_self

/-- The answer at position `i` is given after the first `i` inputs. -/
theorem getElem?_outputs (s : σ) (xs : List ι) (i : Nat) :
    (m.outputs s xs)[i]? = xs[i]?.map fun x => (m.step (m.run s (xs.take i)) x).2 := by
  induction xs generalizing s i with
  | nil => rfl
  | cons x xs ih =>
      cases i with
      | zero => rfl
      | succ i => simpa using ih (m.step s x).1 i

/-! ## Inputs seen through a map -/

/-- The machine on inputs that carry more than it reads. -/
def comap (f : κ → ι) : Mealy σ κ ο where
  step s x := m.step s (f x)

@[simp] theorem comap_step (f : κ → ι) (s : σ) (x : κ) :
    (m.comap f).step s x = m.step s (f x) := rfl

theorem run_comap (f : κ → ι) (s : σ) (xs : List κ) :
    (m.comap f).run s xs = m.run s (xs.map f) := by
  induction xs generalizing s with
  | nil => rfl
  | cons x xs ih => exact ih _

theorem outputs_comap (f : κ → ι) (s : σ) (xs : List κ) :
    (m.comap f).outputs s xs = m.outputs s (xs.map f) := by
  induction xs generalizing s with
  | nil => rfl
  | cons x xs ih => simp only [outputs_cons, List.map_cons, ih, comap_step]

/-! ## Erasing silent inputs -/

/-- An input that leaves every state as it is. -/
def Silent (x : ι) : Prop := ∀ s, (m.step s x).1 = s

/-- Erasing silent inputs leaves the answers to the others as they are. -/
theorem trace_filter {p : ι → Bool} {xs : List ι}
    (hsilent : ∀ x ∈ xs, p x = false → m.Silent x) (s : σ) :
    (m.trace s xs).filter (fun y => p y.1) = m.trace s (xs.filter p) := by
  induction xs generalizing s with
  | nil => rfl
  | cons x xs ih =>
      have ih' := ih (fun y hy => hsilent y (List.mem_cons_of_mem _ hy))
      cases hp : p x with
      | true =>
          rw [List.filter_cons_of_pos hp, trace_cons, trace_cons,
            List.filter_cons_of_pos (by simp [hp]), ih']
      | false =>
          rw [List.filter_cons_of_neg (by simp [hp]), trace_cons,
            List.filter_cons_of_neg (by simp [hp]), hsilent x List.mem_cons_self hp s, ih']

end Mealy
end Base
