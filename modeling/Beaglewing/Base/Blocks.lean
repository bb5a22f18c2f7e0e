/-
# `Base.Blocks` — a stream of blocks, written in parts

Blocks are written to a stream one after the other, each in as many parts as
it takes, and a write may fail for good.  `Blocks.Account` relates what is on
the stream to the blocks begun: it is a beginning of them, and as long as no
write failed all of them but for what is still `owed`.
-/
import Mathlib

namespace Base.Blocks

variable {α : Type}

structure Account (out owed : List α) (broken : Bool) (blocks : List (List α)) : Prop where
  begun : out <+: blocks.flatten
  rest : broken = false → out ++ owed = blocks.flatten

namespace Account
variable {out owed : List α} {broken : Bool} {blocks : List (List α)}

theorem nil : Account ([] : List α) [] broken [] :=
  ⟨List.nil_prefix, fun _ => rfl⟩

/-- A part of what is owed is written. -/
theorem part {a b : List α} (h : Account out (a ++ b) false blocks) :
    Account (out ++ a) b false blocks := by
  have hrest := h.rest rfl
  rw [← List.append_assoc] at hrest
  exact ⟨⟨b, hrest⟩, fun _ => hrest⟩

/-- The next block is begun when nothing is owed. -/
theorem next (h : Account out [] broken blocks) (b : List α) :
    Account out b broken (blocks ++ [b]) := by
  refine ⟨h.begun.trans ?_, ?_⟩
  · rw [List.flatten_append]
    exact List.prefix_append _ _
  · intro hb
    have hrest := h.rest hb
    rw [List.append_nil] at hrest
    rw [List.flatten_append, hrest]
    simp

/-- After a failure nothing more is owed, or ever written. -/
theorem fail (h : Account out owed broken blocks) (owed' : List α) :
    Account out owed' true blocks :=
  ⟨h.begun, fun hb => by cases hb⟩

/-- With nothing owed the stream is its blocks. -/
theorem whole (h : Account out [] false blocks) : out = blocks.flatten := by
  have hrest := h.rest rfl
  rwa [List.append_nil] at hrest

end Account
end Base.Blocks
