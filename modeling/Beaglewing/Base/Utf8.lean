/-
# `Base.Utf8` — text as bytes

`utf8` is the encoding of a text, character by character.  `fromUtf8Lossy`
reads any bytes: what is well formed is decoded, each maximal prefix of a
character that is cut short or continued wrongly becomes one U+FFFD.  On
what `utf8` writes it is the identity (`fromUtf8Lossy_utf8`).
-/
import Mathlib

namespace Base

/-- The bytes of a text. -/
def utf8 (t : List Char) : List UInt8 := t.flatMap String.utf8EncodeChar

/-- `0x80..=0xBF`. -/
def isTail (b : UInt8) : Bool := 0x80 ≤ b && b ≤ 0xBF

/-- The second bytes allowed after the first byte of three or four. -/
def isSecond (b₀ b₁ : UInt8) : Bool :=
  if b₀ = 0xE0 then 0xA0 ≤ b₁ && b₁ ≤ 0xBF
  else if b₀ = 0xED then 0x80 ≤ b₁ && b₁ ≤ 0x9F
  else if b₀ = 0xF0 then 0x90 ≤ b₁ && b₁ ≤ 0xBF
  else if b₀ = 0xF4 then 0x80 ≤ b₁ && b₁ ≤ 0x8F
  else isTail b₁

/-- How many bytes one replacement character stands for, where no character is
well formed. -/
def brokenLength : List UInt8 → Nat
  | b₀ :: b₁ :: rest =>
      if 0xE0 ≤ b₀ && b₀ ≤ 0xEF && isSecond b₀ b₁ then 2
      else if 0xF0 ≤ b₀ && b₀ ≤ 0xF4 && isSecond b₀ b₁ then
        match rest with
        | b₂ :: _ => if isTail b₂ then 3 else 2
        | [] => 2
      else 1
  | _ => 1

/-- `fromUtf8Lossy`, on a counter that bounds the number of characters. -/
def lossyUpTo : Nat → List UInt8 → List Char
  | 0, _ => []
  | fuel + 1, bs =>
      if bs = [] then []
      else
        match bs.toByteArray.utf8DecodeChar? 0 with
        | some c => c :: lossyUpTo fuel (bs.drop c.utf8Size)
        | none => '\uFFFD' :: lossyUpTo fuel (bs.drop (brokenLength bs))

/-- The text of some bytes. -/
def fromUtf8Lossy (bs : List UInt8) : List Char := lossyUpTo bs.length bs

@[simp] theorem utf8_nil : utf8 [] = [] := rfl

@[simp] theorem utf8_cons (c : Char) (t : List Char) :
    utf8 (c :: t) = String.utf8EncodeChar c ++ utf8 t := rfl

/-- The character at the head of encoded text. -/
theorem decodeChar_utf8_cons (c : Char) (bs : List UInt8) :
    (String.utf8EncodeChar c ++ bs).toByteArray.utf8DecodeChar? 0 = some c := by
  rw [List.toByteArray_append]
  exact ByteArray.utf8DecodeChar?_utf8EncodeChar_append

theorem lossyUpTo_utf8 (t : List Char) :
    ∀ fuel, (utf8 t).length ≤ fuel → lossyUpTo fuel (utf8 t) = t := by
  induction t with
  | nil =>
      intro fuel _
      cases fuel <;> simp [lossyUpTo]
  | cons c t ih =>
      intro fuel hfuel
      rw [utf8_cons, List.length_append, String.length_utf8EncodeChar] at hfuel
      have hpos := c.utf8Size_pos
      cases fuel with
      | zero => omega
      | succ fuel =>
          rw [utf8_cons, lossyUpTo, if_neg (by simp [String.utf8EncodeChar_ne_nil]),
            decodeChar_utf8_cons]
          simp only
          rw [List.drop_left' (String.length_utf8EncodeChar c), ih fuel (by omega)]

/-- Encoded text is read back. -/
@[simp] theorem fromUtf8Lossy_utf8 (t : List Char) : fromUtf8Lossy (utf8 t) = t :=
  lossyUpTo_utf8 t _ (Nat.le_refl _)

/-! ## Where characters start

No character's encoding is a prefix of another's, and the byte a character
starts with occurs nowhere inside one.  So encoded text can be cut where a
character ends, and what comes after is encoded text again. -/

theorem utf8_append (t u : List Char) : utf8 (t ++ u) = utf8 t ++ utf8 u := List.flatMap_append

theorem utf8_injective : Function.Injective utf8 := by
  intro t u h
  rw [← fromUtf8Lossy_utf8 t, h, fromUtf8Lossy_utf8]

theorem utf8_ne_nil {t : List Char} (h : t ≠ []) : utf8 t ≠ [] := by
  obtain ⟨c, t, rfl⟩ := List.exists_cons_of_ne_nil h
  rw [utf8_cons]
  exact fun heq => String.utf8EncodeChar_ne_nil (List.append_eq_nil_iff.mp heq).1

/-- What follows encoded text in encoded text is encoded text. -/
theorem exists_of_utf8_eq_append {t u : List Char} {bs : List UInt8} (h : utf8 u = utf8 t ++ bs) :
    ∃ v, u = t ++ v ∧ bs = utf8 v := by
  induction t generalizing u with
  | nil => exact ⟨u, rfl, h.symm⟩
  | cons c t ih =>
      rw [utf8_cons, List.append_assoc] at h
      cases u with
      | nil => exact absurd (List.append_eq_nil_iff.mp h.symm).1 String.utf8EncodeChar_ne_nil
      | cons d u =>
          rw [utf8_cons] at h
          have hd := decodeChar_utf8_cons d (utf8 u)
          rw [h, decodeChar_utf8_cons, Option.some.injEq] at hd
          subst hd
          obtain ⟨v, rfl, hv⟩ := ih (List.append_cancel_left h)
          exact ⟨v, rfl, hv⟩

theorem encodeChar_of_ascii {c : Char} (h : c.toNat < 128) :
    String.utf8EncodeChar c = [UInt8.ofNat c.toNat] := by
  have hle : c.val.toNat ≤ 0x7f := Nat.le_of_lt_succ h
  simp only [String.utf8EncodeChar]
  rw [if_pos hle]
  rfl

/-- The first byte of a text is one that a character starts with. -/
theorem first_of_utf8_eq_cons {t : List Char} {b : UInt8} {bs : List UInt8}
    (h : utf8 t = b :: bs) : b.IsUTF8FirstByte := by
  cases t with
  | nil => cases h
  | cons c t =>
      have hlen : 0 < (String.utf8EncodeChar c).length := by
        rw [String.length_utf8EncodeChar]
        exact c.utf8Size_pos
      rw [utf8_cons] at h
      have hb : (String.utf8EncodeChar c)[0] = b := by
        have hget : (String.utf8EncodeChar c ++ utf8 t)[0]? = some b := by rw [h]; rfl
        rw [List.getElem?_append_left hlen, List.getElem?_eq_getElem hlen] at hget
        exact Option.some.inj hget
      exact hb ▸ UInt8.isUTF8FirstByte_getElem_utf8EncodeChar.mpr rfl

/-- A byte with nothing after it, or with a byte that a character starts with,
is a character of its own. -/
theorem exists_ascii_of_utf8_eq_cons {t : List Char} {b : UInt8} {bs : List UInt8}
    (h : utf8 t = b :: bs) (hnext : ∀ k ks, bs = k :: ks → k.IsUTF8FirstByte) :
    ∃ c v, t = c :: v ∧ c.toNat < 128 ∧ b = UInt8.ofNat c.toNat ∧ bs = utf8 v := by
  cases t with
  | nil => cases h
  | cons c v =>
      rw [utf8_cons] at h
      have hone : c.utf8Size = 1 := by
        by_contra hne
        have hlt : 1 < (String.utf8EncodeChar c).length := by
          rw [String.length_utf8EncodeChar]
          have := c.utf8Size_pos
          omega
        have hget : (String.utf8EncodeChar c ++ utf8 v)[1]? = bs[0]? := by rw [h]; rfl
        rw [List.getElem?_append_left hlt, List.getElem?_eq_getElem hlt] at hget
        cases hbs : bs with
        | nil =>
            rw [hbs] at hget
            cases hget
        | cons k ks =>
            rw [hbs] at hget
            have hfirst := hnext k ks hbs
            rw [← Option.some.inj hget] at hfirst
            exact absurd (UInt8.isUTF8FirstByte_getElem_utf8EncodeChar.mp hfirst) (by decide)
      have hc : c.toNat < 128 :=
        Nat.lt_succ_of_le (UInt32.le_iff_toNat_le.mp (Char.utf8Size_eq_one_iff.mp hone))
      rw [encodeChar_of_ascii hc] at h
      obtain ⟨hb, hbs⟩ := List.cons.inj h
      exact ⟨c, v, rfl, hc, hb.symm, hbs.symm⟩

end Base
