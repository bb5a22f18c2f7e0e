/-
# `Base.Window` — a rate limit over a sliding window

A log of the times at which something was done.  An entry is written only when
fewer than `max` entries are less than `len` old at a time that is not after
it.  Then no half-open window of that length, wherever it starts, has more than
`max` of the entries written so (`limited_append`).  What was in the log before
counts against the limit, and is not limited itself.
-/
import Mathlib

namespace Base

section Window
variable {τ : Type} [AddCommGroup τ] [LinearOrder τ]

/-- The entries in the window that starts at `w`. -/
def inWindow (len w : τ) (log : List τ) : Nat := log.countP fun t => w ≤ t ∧ t < w + len

/-- The entries less than `len` old. -/
def recent (len now : τ) (log : List τ) : Nat := log.countP fun t => now - len < t

/-- No window has more than `max` entries. -/
def Limited (len : τ) (max : Nat) (log : List τ) : Prop := ∀ w, inWindow len w log ≤ max

variable {len now t : τ} {max : Nat} {old log : List τ}

theorem limited_nil : Limited len max ([] : List τ) := fun _ => Nat.zero_le _

/-- Fewer entries are limited if more of them are. -/
theorem Limited.of_countP_le {done : List τ} (h : Limited len max log)
    (hle : ∀ p : τ → Bool, done.countP p ≤ log.countP p) : Limited len max done := fun w =>
  Nat.le_trans (hle _) (h w)

variable [IsOrderedAddMonoid τ]

/-- What is in a window with a later entry is recent. -/
theorem inWindow_le_recent {w : τ} (ht : t < w + len) (hnow : now ≤ t) :
    inWindow len w log ≤ recent len now log := by
  refine List.countP_mono_left ?_
  intro x _ hx
  simp only [decide_eq_true_eq] at hx ⊢
  calc now - len ≤ t - len := sub_le_sub_right hnow len
    _ < w := sub_lt_iff_lt_add.mpr ht
    _ ≤ x := hx.1

/-- An entry that was checked against the limit keeps it. -/
theorem limited_append (h : Limited len max log) (hcount : recent len now (old ++ log) < max)
    (hnow : now ≤ t) : Limited len max (log ++ [t]) := by
  intro w
  rw [inWindow, List.countP_append, List.countP_singleton]
  split
  · next ht =>
      rw [decide_eq_true_eq] at ht
      have hrecent : recent len now log ≤ recent len now (old ++ log) := by
        rw [recent, recent, List.countP_append]
        exact Nat.le_add_left _ _
      calc log.countP _ + 1 ≤ recent len now log + 1 :=
            Nat.succ_le_succ (inWindow_le_recent ht.2 hnow)
        _ ≤ recent len now (old ++ log) + 1 := Nat.succ_le_succ hrecent
        _ ≤ max := hcount
  · exact h w

end Window
end Base
