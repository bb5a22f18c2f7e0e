/-
# `Base.Utf16` — text as code units, and strings ended by a NUL

`utf16` is the encoding of a text, one unit for a character below U+10000 and
a surrogate pair for any other.  A string in memory is its units in little
endian and a unit of zero (`wideBytes`), a list of strings ends with an empty
one.  Each is read back: the units (`fromUtf16_utf16`), a string with what
follows it (`wideString_wideBytes`), a list of non-empty strings
(`wideStrings_flatMap`).
-/
import Beaglewing.Base.Bytes

namespace Base

/-! ## Code units -/

/-- `char::encode_utf16`. -/
def encodeUtf16 (c : Char) : List UInt16 :=
  if c.toNat < 0x10000 then [UInt16.ofNat c.toNat]
  else
    [UInt16.ofNat (0xD800 + (c.toNat - 0x10000) / 0x400),
      UInt16.ofNat (0xDC00 + (c.toNat - 0x10000) % 0x400)]

/-- `str::encode_utf16`. -/
def utf16 (t : List Char) : List UInt16 := t.flatMap encodeUtf16

/-- The first and the second unit of a pair. -/
def isHigh (u : UInt16) : Bool := 0xD800 ≤ u.toNat && u.toNat ≤ 0xDBFF

def isLow (u : UInt16) : Bool := 0xDC00 ≤ u.toNat && u.toNat ≤ 0xDFFF

/-- The character of a pair. -/
def ofPair (u v : UInt16) : Char :=
  Char.ofNat (0x10000 + (u.toNat - 0xD800) * 0x400 + (v.toNat - 0xDC00))

/-- The character of a unit that stands alone. -/
def ofUnit (u : UInt16) : Option Char :=
  if isHigh u || isLow u then none else some (Char.ofNat u.toNat)

/-- The text of some units; there is none if a surrogate is not in a pair. -/
def fromUtf16 : List UInt16 → Option (List Char)
  | u :: v :: us =>
      if isHigh u && isLow v then (fromUtf16 us).map fun t => ofPair u v :: t
      else (ofUnit u).bind fun c => (fromUtf16 (v :: us)).map fun t => c :: t
  | [u] => (ofUnit u).map fun c => [c]
  | [] => some []

theorem toNat_bounds (c : Char) : c.toNat < 0xD800 ∨ 0xDFFF < c.toNat ∧ c.toNat < 0x110000 := c.valid

theorem toNat_ofNat16 {n : Nat} (h : n < 0x10000) : (UInt16.ofNat n).toNat = n :=
  UInt16.toNat_ofNat_of_lt' h

/-- No character is a surrogate. -/
theorem ofUnit_small {c : Char} (h : c.toNat < 0x10000) :
    isHigh (UInt16.ofNat c.toNat) = false ∧ ofUnit (UInt16.ofNat c.toNat) = some c := by
  have hc := toNat_bounds c
  have hhigh : isHigh (UInt16.ofNat c.toNat) = false := by
    rw [isHigh, toNat_ofNat16 h, Bool.and_eq_false_iff, decide_eq_false_iff_not,
      decide_eq_false_iff_not]
    omega
  have hlow : isLow (UInt16.ofNat c.toNat) = false := by
    rw [isLow, toNat_ofNat16 h, Bool.and_eq_false_iff, decide_eq_false_iff_not,
      decide_eq_false_iff_not]
    omega
  refine ⟨hhigh, ?_⟩
  rw [ofUnit, hhigh, hlow, toNat_ofNat16 h, Char.ofNat_toNat]
  rfl

/-- A character beyond U+FFFF is read back from its pair. -/
theorem ofPair_large {c : Char} (h : ¬ c.toNat < 0x10000) {u v : UInt16}
    (hu : u = UInt16.ofNat (0xD800 + (c.toNat - 0x10000) / 0x400))
    (hv : v = UInt16.ofNat (0xDC00 + (c.toNat - 0x10000) % 0x400)) :
    (isHigh u && isLow v) = true ∧ ofPair u v = c := by
  have hc := toNat_bounds c
  have hhigh : u.toNat = 0xD800 + (c.toNat - 0x10000) / 0x400 := by
    rw [hu, toNat_ofNat16 (by omega)]
  have hlow : v.toNat = 0xDC00 + (c.toNat - 0x10000) % 0x400 := by
    rw [hv, toNat_ofNat16 (by omega)]
  constructor
  · rw [isHigh, isLow, hhigh, hlow]
    simp only [Bool.and_eq_true, decide_eq_true_eq]
    omega
  · have hsum : 0x10000 + (u.toNat - 0xD800) * 0x400 + (v.toNat - 0xDC00) = c.toNat := by omega
    rw [ofPair, hsum, Char.ofNat_toNat]

/-- A character is read back, whatever comes after it. -/
theorem fromUtf16_encodeUtf16 (c : Char) (us : List UInt16) :
    fromUtf16 (encodeUtf16 c ++ us) = (fromUtf16 us).map fun t => c :: t := by
  unfold encodeUtf16
  split
  · next hsmall =>
      obtain ⟨hhigh, hunit⟩ := ofUnit_small hsmall
      cases us with
      | nil =>
          show fromUtf16 [_] = _
          rw [fromUtf16, hunit]
          rfl
      | cons v us =>
          show fromUtf16 (_ :: v :: us) = _
          rw [fromUtf16, hhigh, hunit]
          rfl
  · next hlarge =>
      obtain ⟨hpair, hback⟩ := ofPair_large hlarge rfl rfl
      show fromUtf16 (_ :: _ :: us) = _
      rw [fromUtf16, if_pos hpair, hback]

theorem fromUtf16_utf16 (t : List Char) : fromUtf16 (utf16 t) = some t := by
  induction t with
  | nil => rfl
  | cons c t ih => rw [utf16, List.flatMap_cons, fromUtf16_encodeUtf16, ← utf16, ih, Option.map_some]

theorem utf16_ne_nil {t : List Char} (h : t ≠ []) : utf16 t ≠ [] := by
  intro heq
  have hback := fromUtf16_utf16 t
  rw [heq] at hback
  exact h (Option.some.inj hback).symm

/-- Only a NUL is encoded with a unit of zero. -/
theorem not_zero_mem_utf16 {t : List Char} (h : '\x00' ∉ t) : 0 ∉ utf16 t := by
  intro hmem
  obtain ⟨c, hc, hzero⟩ := List.mem_flatMap.mp hmem
  have hbound := toNat_bounds c
  have hnat : ∀ n, n < 0x10000 → (0 : UInt16) = UInt16.ofNat n → n = 0 := by
    intro n hn heq
    rw [← toNat_ofNat16 hn, ← heq]
    rfl
  unfold encodeUtf16 at hzero
  split at hzero
  · next hsmall =>
      have hcode := hnat _ hsmall (List.mem_singleton.mp hzero)
      have : c = '\x00' := by rw [← Char.ofNat_toNat c, hcode]
      exact h (this ▸ hc)
  · simp only [List.mem_cons, List.not_mem_nil, or_false] at hzero
    rcases hzero with heq | heq
    · have := hnat _ (by omega) heq
      omega
    · have := hnat _ (by omega) heq
      omega

/-! ## Strings ended by a NUL -/

/-- A text in UTF-16LE and a NUL unit. -/
def wideBytes (t : List Char) : List UInt8 := (utf16 t).flatMap toLe16 ++ toLe16 0

/-- The units up to the first NUL unit, and the bytes after it. -/
def wideString : List UInt8 → Option (List UInt16 × List UInt8)
  | b₀ :: b₁ :: bs =>
      if fromLe16 b₀ b₁ = 0 then some ([], bs)
      else (wideString bs).map fun x => (fromLe16 b₀ b₁ :: x.1, x.2)
  | _ => none

/-- The texts up to the first empty one, and the bytes after it, on a counter
that bounds the number of strings. -/
def wideStrings : Nat → List UInt8 → Option (List (List Char) × List UInt8)
  | 0, _ => none
  | fuel + 1, bytes =>
      (wideString bytes).bind fun (units, rest) =>
        if units = [] then some ([], rest)
        else
          (fromUtf16 units).bind fun t => (wideStrings fuel rest).map fun x => (t :: x.1, x.2)

theorem wideString_toLe16 (u : UInt16) (bs : List UInt8) :
    wideString (toLe16 u ++ bs)
      = if u = 0 then some ([], bs) else (wideString bs).map fun x => (u :: x.1, x.2) := by
  show wideString (_ :: _ :: bs) = _
  rw [wideString, fromLe16_toLe16]

/-- A string is read up to its NUL, and no further. -/
theorem wideString_wideBytes {t : List Char} (h : '\x00' ∉ t) (bs : List UInt8) :
    wideString (wideBytes t ++ bs) = some (utf16 t, bs) := by
  have hzero := not_zero_mem_utf16 h
  rw [wideBytes, List.append_assoc]
  generalize utf16 t = us at hzero
  induction us with
  | nil => exact wideString_toLe16 0 bs
  | cons u us ih =>
      rw [List.mem_cons, not_or] at hzero
      rw [List.flatMap_cons, List.append_assoc, wideString_toLe16, if_neg (Ne.symm hzero.1),
        ih hzero.2, Option.map_some]

/-- A list of strings is read up to the NUL after the last one. -/
theorem wideStrings_flatMap {ts : List (List Char)} (h : ∀ t ∈ ts, t ≠ [] ∧ '\x00' ∉ t) :
    ∀ (fuel : Nat) (bs : List UInt8), ts.length < fuel →
      wideStrings fuel (ts.flatMap wideBytes ++ toLe16 0 ++ bs) = some (ts, bs) := by
  induction ts with
  | nil =>
      intro fuel bs hfuel
      cases fuel with
      | zero => cases hfuel
      | succ fuel => rfl
  | cons t ts ih =>
      intro fuel bs hfuel
      obtain ⟨hne, hnul⟩ := h t List.mem_cons_self
      cases fuel with
      | zero => cases hfuel
      | succ fuel =>
          rw [List.flatMap_cons, List.append_assoc, List.append_assoc, wideStrings,
            wideString_wideBytes hnul, Option.bind_some]
          simp only
          rw [if_neg (utf16_ne_nil hne), fromUtf16_utf16, Option.bind_some, ← List.append_assoc,
            ih (fun u hu => h u (List.mem_cons_of_mem _ hu)) fuel bs (Nat.lt_of_succ_lt_succ hfuel),
            Option.map_some]

end Base
