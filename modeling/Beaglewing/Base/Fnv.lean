/-
# `Base.Fnv` — hashes that fold their input, and FNV-1a on 64 bits

A hash that takes its input word by word into a state.  Where each step is
injective in the state and in the word, a difference in one word survives
every later step (`foldl_ne_of_oneChanged`), whatever the input's length.
FNV-1a is such a hash: exclusive or is injective on both sides, and the prime
is odd, hence invertible modulo `2 ^ 64` (`fnvPrime_inverse`).
-/
import Mathlib

namespace Base

/-- Two lists of one length that differ in exactly one position. -/
def OneChanged {α : Type} (l l' : List α) : Prop :=
  ∃ pre a b post, a ≠ b ∧ l = pre ++ a :: post ∧ l' = pre ++ b :: post

theorem OneChanged.map {α β : Type} {l l' : List α} {f : α → β} (hf : Function.Injective f)
    (h : OneChanged l l') : OneChanged (l.map f) (l'.map f) := by
  obtain ⟨pre, a, b, post, hab, rfl, rfl⟩ := h
  exact ⟨pre.map f, f a, f b, post.map f, fun heq => hab (hf heq), by simp, by simp⟩

/-- A change inside a list that stands between others. -/
theorem OneChanged.between {α : Type} {l l' : List α} (h : OneChanged l l') (before after : List α) :
    OneChanged (before ++ (l ++ after)) (before ++ (l' ++ after)) := by
  obtain ⟨pre, a, b, post, hab, rfl, rfl⟩ := h
  exact ⟨before ++ pre, a, b, post ++ after, hab, by simp, by simp⟩

section Fold
variable {σ α : Type} {step : σ → α → σ}

theorem foldl_injective (hstate : ∀ a, Function.Injective fun s => step s a) (as : List α) :
    Function.Injective fun s => as.foldl step s := by
  induction as with
  | nil => exact fun _ _ h => h
  | cons a as ih =>
      intro s s' h
      exact hstate a (ih h)

theorem foldl_ne_of_oneChanged (hstate : ∀ a, Function.Injective fun s => step s a)
    (hword : ∀ s, Function.Injective (step s)) {l l' : List α} (h : OneChanged l l') (s : σ) :
    l.foldl step s ≠ l'.foldl step s := by
  obtain ⟨pre, a, b, post, hab, rfl, rfl⟩ := h
  rw [List.foldl_append, List.foldl_append, List.foldl_cons, List.foldl_cons]
  intro heq
  exact hab (hword _ (foldl_injective hstate post heq))

end Fold

/-! ## FNV-1a -/

def fnvBasis : UInt64 := 0xcbf29ce484222325
def fnvPrime : UInt64 := 0x100000001b3

def fnvStep (h w : UInt64) : UInt64 := (h ^^^ w) * fnvPrime

/-- The hash of a sequence of words. -/
def fnv (ws : List UInt64) : UInt64 := ws.foldl fnvStep fnvBasis

theorem fnvPrime_inverse : fnvPrime * 0xce965057aff6957b = 1 := by decide

theorem mul_fnvPrime_injective : Function.Injective fun h => h * fnvPrime := by
  intro h h' heq
  have hcancel := congrArg (· * 0xce965057aff6957b) heq
  simpa only [UInt64.mul_assoc, fnvPrime_inverse, UInt64.mul_one] using hcancel

theorem fnvStep_injective_state (w : UInt64) : Function.Injective fun h => fnvStep h w := by
  intro h h' heq
  exact (UInt64.xor_left_inj w).mp (mul_fnvPrime_injective heq)

theorem fnvStep_injective_word (h : UInt64) : Function.Injective (fnvStep h) := by
  intro w w' heq
  exact (UInt64.xor_right_inj h).mp (mul_fnvPrime_injective heq)

/-- One changed word changes the hash. -/
theorem fnv_ne_of_oneChanged {ws ws' : List UInt64} (h : OneChanged ws ws') : fnv ws ≠ fnv ws' :=
  foldl_ne_of_oneChanged fnvStep_injective_state fnvStep_injective_word h fnvBasis

end Base
