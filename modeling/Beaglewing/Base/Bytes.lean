/-
# `Base.Bytes` — little-endian words and fixed-size blocks

Two things every wire format of this development rests on: the two- and
four-byte little-endian encodings, each with its decoder, and the cut of a
list into blocks of at most `n` elements, all full but possibly the last.
Both are over bytes or over an arbitrary type and name no particular format.
-/
import Mathlib

namespace Base

/-! ## Little-endian words -/

/-- The two bytes of a `u16`, low byte first. -/
def toLe16 (n : UInt16) : List UInt8 :=
  [UInt8.ofNat n.toNat, UInt8.ofNat (n.toNat / 256)]

/-- The `u16` of two bytes, low byte first. -/
def fromLe16 (b₀ b₁ : UInt8) : UInt16 :=
  UInt16.ofNat (b₀.toNat + 256 * b₁.toNat)

/-- The four bytes of a `u32`, low byte first. -/
def toLe32 (n : UInt32) : List UInt8 :=
  [UInt8.ofNat n.toNat, UInt8.ofNat (n.toNat / 256),
    UInt8.ofNat (n.toNat / 65536), UInt8.ofNat (n.toNat / 16777216)]

/-- The `u32` of four bytes, low byte first. -/
def fromLe32 (b₀ b₁ b₂ b₃ : UInt8) : UInt32 :=
  UInt32.ofNat (b₀.toNat + 256 * b₁.toNat + 65536 * b₂.toNat + 16777216 * b₃.toNat)

@[simp] theorem length_toLe16 (n : UInt16) : (toLe16 n).length = 2 := rfl

@[simp] theorem length_toLe32 (n : UInt32) : (toLe32 n).length = 4 := rfl

theorem fromLe16_toLe16 (n : UInt16) :
    fromLe16 (UInt8.ofNat n.toNat) (UInt8.ofNat (n.toNat / 256)) = n := by
  apply UInt16.toNat_inj.mp
  have := n.toNat_lt
  simp only [fromLe16, UInt16.toNat_ofNat', UInt8.toNat_ofNat']
  omega

theorem toLe16_fromLe16 (b₀ b₁ : UInt8) : toLe16 (fromLe16 b₀ b₁) = [b₀, b₁] := by
  have h₀ := b₀.toNat_lt
  have h₁ := b₁.toNat_lt
  simp only [toLe16, fromLe16, UInt16.toNat_ofNat', List.cons.injEq, and_true]
  refine ⟨?_, ?_⟩
  all_goals
    apply UInt8.toNat_inj.mp
    simp only [UInt8.toNat_ofNat']
    omega

/-- The low and the high byte of a word. -/
theorem low_add_high (x : UInt16) :
    (x &&& 0xff).toUInt8.toNat + 256 * (x >>> 8).toUInt8.toNat = x.toNat := by
  have hx := x.toNat_lt
  have hlow : (x &&& 0xff).toUInt8.toNat = x.toNat % 256 := by
    rw [UInt16.toNat_toUInt8, UInt16.toNat_and]
    have : x.toNat &&& (0xff : UInt16).toNat = x.toNat % 2 ^ 8 := Nat.and_two_pow_sub_one_eq_mod _ 8
    omega
  have hhigh : (x >>> 8).toUInt8.toNat = x.toNat / 256 := by
    rw [UInt16.toNat_toUInt8, UInt16.toNat_shiftRight]
    have : x.toNat >>> ((8 : UInt16).toNat % 16) = x.toNat / 2 ^ 8 := Nat.shiftRight_eq_div_pow _ 8
    omega
  omega

theorem fromLe32_toLe32 (n : UInt32) :
    fromLe32 (UInt8.ofNat n.toNat) (UInt8.ofNat (n.toNat / 256))
      (UInt8.ofNat (n.toNat / 65536)) (UInt8.ofNat (n.toNat / 16777216)) = n := by
  apply UInt32.toNat_inj.mp
  have := n.toNat_lt
  simp only [fromLe32, UInt32.toNat_ofNat', UInt8.toNat_ofNat']
  omega

theorem toLe32_fromLe32 (b₀ b₁ b₂ b₃ : UInt8) :
    toLe32 (fromLe32 b₀ b₁ b₂ b₃) = [b₀, b₁, b₂, b₃] := by
  have h₀ := b₀.toNat_lt
  have h₁ := b₁.toNat_lt
  have h₂ := b₂.toNat_lt
  have h₃ := b₃.toNat_lt
  simp only [toLe32, fromLe32, UInt32.toNat_ofNat', List.cons.injEq, and_true]
  refine ⟨?_, ?_, ?_, ?_⟩
  all_goals
    apply UInt8.toNat_inj.mp
    simp only [UInt8.toNat_ofNat']
    omega

/-! ## Blocks

`chunks n l` cuts `l` from the left into blocks of `n`, the last one
shorter when `n` does not divide the length.  Each block carries its size
bound. -/

section Chunks
variable {α : Type}

/-- A list of at most `n` elements. -/
abbrev Bounded (α : Type) (n : Nat) : Type := {l : List α // l.length ≤ n}

/-- The first `n` elements, with the bound. -/
def takeBounded (n : Nat) (l : List α) : Bounded α n :=
  ⟨l.take n, List.length_take_le n l⟩

/-- `chunks`, on a counter that bounds the number of blocks. -/
def chunksUpTo (n : Nat) : Nat → List α → List (Bounded α n)
  | 0, _ => []
  | fuel + 1, l =>
      if l = [] then [] else takeBounded n l :: chunksUpTo n fuel (l.drop n)

/-- The blocks of `l`, left to right.  A list of length `k` has at most `k`
blocks, so the counter never runs out. -/
def chunks (n : Nat) (l : List α) : List (Bounded α n) :=
  chunksUpTo n l.length l

/-- Any counter that is at least the length gives the same blocks. -/
theorem chunksUpTo_eq {n : Nat} (hn : 0 < n) :
    ∀ (fuel fuel' : Nat) (l : List α), l.length ≤ fuel → l.length ≤ fuel' →
      chunksUpTo n fuel l = chunksUpTo n fuel' l
  | 0, 0, _, _, _ => rfl
  | 0, _ + 1, l, h, _ => by
      have : l = [] := List.length_eq_zero_iff.mp (Nat.le_zero.mp h)
      simp [chunksUpTo, this]
  | _ + 1, 0, l, _, h => by
      have : l = [] := List.length_eq_zero_iff.mp (Nat.le_zero.mp h)
      simp [chunksUpTo, this]
  | fuel + 1, fuel' + 1, l, h, h' => by
      by_cases hl : l = []
      · simp [chunksUpTo, hl]
      · have hpos : 0 < l.length := List.length_pos_iff.mpr hl
        have hdrop : (l.drop n).length ≤ l.length - 1 := by
          simp only [List.length_drop]; omega
        simp only [chunksUpTo, if_neg hl]
        rw [chunksUpTo_eq hn fuel fuel' (l.drop n) (by omega) (by omega)]

@[simp] theorem chunks_nil (n : Nat) : chunks n ([] : List α) = [] := rfl

theorem chunks_of_ne_nil {n : Nat} (hn : 0 < n) {l : List α} (hl : l ≠ []) :
    chunks n l = takeBounded n l :: chunks n (l.drop n) := by
  obtain ⟨a, t, rfl⟩ := List.exists_cons_of_ne_nil hl
  show chunksUpTo n (t.length + 1) (a :: t) = _
  simp only [chunksUpTo, if_neg hl, chunks]
  rw [chunksUpTo_eq hn t.length ((a :: t).drop n).length ((a :: t).drop n)
    (by simp only [List.length_drop, List.length_cons]; omega) (Nat.le_refl _)]

/-- Induction along the cut: the empty list, and a non-empty list from its
tail past the first block. -/
theorem chunks_induction {n : Nat} (hn : 0 < n) {motive : List α → Prop}
    (nil : motive []) (block : ∀ l, l ≠ [] → motive (l.drop n) → motive l) (l : List α) :
    motive l := by
  induction hk : l.length using Nat.strongRecOn generalizing l with
  | ind k ih =>
      by_cases hl : l = []
      · exact hl ▸ nil
      · have hpos : 0 < l.length := List.length_pos_iff.mpr hl
        exact block l hl (ih (l.drop n).length (by simp only [List.length_drop]; omega) (l.drop n) rfl)

/-- The blocks put together are the list. -/
theorem flatten_chunks {n : Nat} (hn : 0 < n) (l : List α) :
    ((chunks n l).map Subtype.val).flatten = l := by
  induction l using chunks_induction hn with
  | nil => rfl
  | block l hl ih =>
      rw [chunks_of_ne_nil hn hl, List.map_cons, List.flatten_cons, ih]
      exact List.take_append_drop n l

/-- No block is empty. -/
theorem ne_nil_of_mem_chunks {n : Nat} (hn : 0 < n) {l : List α} :
    ∀ c ∈ chunks n l, c.val ≠ [] := by
  induction l using chunks_induction hn with
  | nil => intro c hc; cases hc
  | block l hl ih =>
      intro c hc
      rw [chunks_of_ne_nil hn hl] at hc
      rcases List.mem_cons.mp hc with rfl | hc
      · intro h
        rcases List.take_eq_nil_iff.mp h with h | h
        · omega
        · exact hl h
      · exact ih c hc

/-- Every block but the last is full. -/
theorem length_of_mem_dropLast_chunks {n : Nat} (hn : 0 < n) {l : List α} :
    ∀ c ∈ (chunks n l).dropLast, c.val.length = n := by
  induction l using chunks_induction hn with
  | nil => intro c hc; cases hc
  | block l hl ih =>
      intro c hc
      rw [chunks_of_ne_nil hn hl] at hc
      by_cases hd : l.drop n = []
      · simp [hd] at hc
      · rw [chunks_of_ne_nil hn hd, List.dropLast_cons_cons, ← chunks_of_ne_nil hn hd] at hc
        rcases List.mem_cons.mp hc with rfl | hc
        · have : ¬ l.length ≤ n := fun h => hd (List.drop_eq_nil_iff.mpr h)
          simp only [takeBounded, List.length_take]
          omega
        · exact ih c hc

/-- Blocks that are all full but possibly the last, none of them empty, are
the cut of what they hold. -/
theorem eq_chunks {n : Nat} (hn : 0 < n) :
    ∀ {bs : List (Bounded α n)}, (∀ c ∈ bs, c.val ≠ []) → (∀ c ∈ bs.dropLast, c.val.length = n) →
      bs = chunks n (bs.map Subtype.val).flatten
  | [], _, _ => rfl
  | [c], hne, _ => by
      have hc := hne c List.mem_cons_self
      simp only [List.map_cons, List.map_nil, List.flatten_cons, List.flatten_nil, List.append_nil]
      rw [chunks_of_ne_nil hn hc, List.drop_eq_nil_of_le c.property, chunks_nil]
      congr 1
      exact Subtype.ext (List.take_of_length_le c.property).symm
  | c :: c' :: bs, hne, hfull => by
      have hc := hne c List.mem_cons_self
      have hlen : c.val.length = n := hfull c (by simp)
      have ih : c' :: bs = chunks n ((c' :: bs).map Subtype.val).flatten :=
        eq_chunks hn (fun d hd => hne d (List.mem_cons_of_mem _ hd))
          (fun d hd => hfull d (by rw [List.dropLast_cons_cons]; exact List.mem_cons_of_mem _ hd))
      rw [List.map_cons, List.flatten_cons, chunks_of_ne_nil hn (by simp [hc]),
        List.drop_left' hlen, ← ih]
      congr 1
      exact Subtype.ext (List.take_left' hlen).symm

/-- The number of blocks is the length over `n`, rounded up. -/
theorem length_chunks {n : Nat} (hn : 0 < n) (l : List α) :
    (chunks n l).length = (l.length + (n - 1)) / n := by
  induction l using chunks_induction hn with
  | nil =>
      simp only [chunks_nil, List.length_nil, Nat.zero_add]
      exact (Nat.div_eq_of_lt (by omega)).symm
  | block l hl ih =>
      have hpos : 0 < l.length := List.length_pos_iff.mpr hl
      rw [chunks_of_ne_nil hn hl, List.length_cons, ih, List.length_drop]
      by_cases hle : l.length ≤ n
      · have h1 : (l.length + (n - 1)) / n = 1 := by
          rw [Nat.div_eq_iff hn]; omega
        have h0 : (l.length - n + (n - 1)) / n = 0 := Nat.div_eq_of_lt (by omega)
        omega
      · have : l.length + (n - 1) = (l.length - n + (n - 1)) + n := by omega
        rw [this, Nat.add_div_right _ hn]

end Chunks

end Base
