/-
# `Base.Replace` — replacing a pattern in a list

Every occurrence of a non-empty pattern, from the left and without overlap,
by something else.  What is put in is not searched again.  Two equations
unfold it: where the pattern stands, and where it does not.
-/
import Mathlib

namespace Base

section Replace
variable {α : Type} [DecidableEq α] (pat rep : List α)

/-- `replace`, with so many elements still to go over that are replaced. -/
def replaceFrom : Nat → List α → List α
  | _, [] => []
  | skip + 1, _ :: t => replaceFrom skip t
  | 0, c :: t =>
      if pat.isPrefixOf (c :: t) then rep ++ replaceFrom (pat.length - 1) t
      else c :: replaceFrom 0 t

/-- The list with every occurrence of `pat` replaced by `rep`. -/
def replace (l : List α) : List α := replaceFrom pat rep 0 l

@[simp] theorem replace_nil : replace pat rep [] = [] := rfl

theorem replaceFrom_eq_drop (n : Nat) (l : List α) :
    replaceFrom pat rep n l = replace pat rep (l.drop n) := by
  induction n generalizing l with
  | zero => rfl
  | succ n ih =>
      cases l with
      | nil => rfl
      | cons c t => exact ih t

theorem replace_append {pat : List α} (h : pat ≠ []) (rep t : List α) :
    replace pat rep (pat ++ t) = rep ++ replace pat rep t := by
  obtain ⟨c, pat, rfl⟩ := List.exists_cons_of_ne_nil h
  rw [List.cons_append, replace, replaceFrom, if_pos, replaceFrom_eq_drop, List.length_cons,
    Nat.add_sub_cancel, List.drop_left]
  rw [List.isPrefixOf_iff_prefix]
  exact List.prefix_append (c :: pat) t

theorem replace_cons {pat : List α} {c : α} {t : List α} (h : ∀ u, c :: t ≠ pat ++ u)
    (rep : List α) : replace pat rep (c :: t) = c :: replace pat rep t := by
  rw [replace, replaceFrom, if_neg]
  · rfl
  · rw [List.isPrefixOf_iff_prefix]
    rintro ⟨u, hu⟩
    exact h u hu.symm

end Replace

end Base
