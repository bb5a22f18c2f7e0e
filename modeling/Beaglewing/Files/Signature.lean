/-
# `Files.Signature` — what the change hashes tell apart

`fnv1a` and `list_signature` as folds of 64-bit words, by the rules of
`Base.Fnv`.

| | |
| :-- | :-- |
| `hash_tracks_edit` | one changed byte, or one changed size, changes the hash |
| `separated_iff` | which batches fold to a word sequence of their own |

A batch is folded as the bytes of each name, then its size, in one stream
without separators.  So a size below 128 reads as a character as well, and an
ASCII character inside a name as a size: `Cut` is the one step between lists
with the same words, and `words_eq_iff` says that there is no other way.
-/
import Beaglewing.Files.Tree

namespace Beaglewing.Files

open Base Agents Clipframe

/-! ## The words that are folded -/

theorem fnv1a_eq (data : List UInt8) : fnv1a data = fnv (data.map UInt8.toUInt64) := by
  rw [fnv, List.foldl_map]
  rfl

/-- What `list_signature` takes from one item: the bytes of the name, then the
size, a `u64`. -/
def itemWords (x : Text × Nat) : List UInt64 :=
  (utf8 x.1).map UInt8.toUInt64 ++ [UInt64.ofNat x.2]

theorem listSignature_eq (items : Items) : listSignature items = fnv (items.flatMap itemWords) := by
  rw [fnv, List.foldl_flatMap, listSignature]
  congr 1
  funext h x
  rw [itemWords, List.foldl_append, List.foldl_map]
  rfl

/-! ## One edit -/

theorem listSignature_ne_of_oneChanged {x x' : Text × Nat}
    (h : OneChanged (itemWords x) (itemWords x')) (pre post : Items) :
    listSignature (pre ++ x :: post) ≠ listSignature (pre ++ x' :: post) := by
  rw [listSignature_eq, listSignature_eq, List.flatMap_append, List.flatMap_append,
    List.flatMap_cons, List.flatMap_cons]
  exact fnv_ne_of_oneChanged (h.between _ _)

theorem oneChanged_of_size (name : Text) {s s' : UInt64} (h : s ≠ s') :
    OneChanged (itemWords (name, s.toNat)) (itemWords (name, s'.toNat)) := by
  refine ⟨(utf8 name).map UInt8.toUInt64, s, s', [], h, ?_, ?_⟩
  · rw [itemWords, UInt64.ofNat_toNat]
  · rw [itemWords, UInt64.ofNat_toNat]

theorem toUInt64_injective : Function.Injective UInt8.toUInt64 :=
  fun _ _ h => UInt8.toUInt64_inj.mp h

theorem oneChanged_of_name {name name' : Text} (h : OneChanged (utf8 name) (utf8 name'))
    (size : Nat) : OneChanged (itemWords (name, size)) (itemWords (name', size)) :=
  (h.map toUInt64_injective).between [] _

theorem fnv1a_ne_of_oneChanged {d d' : List UInt8} (h : OneChanged d d') : fnv1a d ≠ fnv1a d' := by
  rw [fnv1a_eq, fnv1a_eq]
  exact fnv_ne_of_oneChanged (h.map toUInt64_injective)

/-- One changed byte of a content changes its hash; one changed size or one
changed byte of a name changes the signature of a list; and so it is with the
kind mixed in, as the agents compare them. -/
theorem hash_tracks_edit :
    (∀ d d' : List UInt8, OneChanged d d' →
      fnv1a d ≠ fnv1a d' ∧ ∀ kind, contentHash kind d ≠ contentHash kind d') ∧
    ∀ (pre post : Items) (name name' : Text) (s s' : UInt64),
      (s ≠ s' ∧ name = name' ∨ s = s' ∧ OneChanged (utf8 name) (utf8 name')) →
      listSignature (pre ++ (name, s.toNat) :: post) ≠
        listSignature (pre ++ (name', s'.toNat) :: post) ∧
      listSignature (pre ++ (name, s.toNat) :: post) ^^^ kindTar.toUInt64 ≠
        listSignature (pre ++ (name', s'.toNat) :: post) ^^^ kindTar.toUInt64 := by
  constructor
  · intro d d' h
    have hne := fnv1a_ne_of_oneChanged h
    exact ⟨hne, fun kind heq => hne ((UInt64.xor_left_inj _).mp heq)⟩
  · intro pre post name name' s s' h
    have hwords : OneChanged (itemWords (name, s.toNat)) (itemWords (name', s'.toNat)) := by
      rcases h with ⟨hs, rfl⟩ | ⟨rfl, hname⟩
      · exact oneChanged_of_size name hs
      · exact oneChanged_of_name hname _
    have hne := listSignature_ne_of_oneChanged hwords pre post
    exact ⟨hne, fun heq => hne ((UInt64.xor_left_inj _).mp heq)⟩

/-! ## Different batches -/

/-- A file of a batch, as `walk` finds it. -/
structure Item where
  name : Text
  size : UInt64
  named : name ≠ []
deriving DecidableEq

/-- The pair that `list_signature` is given. -/
def Item.pair (x : Item) : Text × Nat := (x.name, x.size.toNat)

/-- The words that `list_signature` folds. -/
def words (xs : List Item) : List UInt64 := (xs.map Item.pair).flatMap itemWords

/-- Two neighbours as one item: the size of the first is read as a character. -/
def Item.join (x y : Item) (c : Char) : Item where
  name := x.name ++ c :: y.name
  size := y.size
  named := by simp

/-- One item is cut in two at an ASCII character inside its name, which becomes
the size of the first. -/
inductive Cut : List Item → List Item → Prop
  | mk (before after : List Item) (x y : Item) (c : Char) (hc : c.toNat < 128)
      (hx : x.size = UInt64.ofNat c.toNat) :
      Cut (before ++ x.join y c :: after) (before ++ x :: y :: after)

/-- No name has an ASCII character but first or last, and no size but the last
of the list is that of one. -/
def Separated (xs : List Item) : Prop :=
  (∀ x ∈ xs, ∀ p c q, x.name = p ++ c :: q → p ≠ [] → q ≠ [] → 128 ≤ c.toNat) ∧
    ∀ x ∈ xs.dropLast, 128 ≤ x.size.toNat

@[simp] theorem words_nil : words [] = [] := rfl

theorem words_cons (x : Item) (xs : List Item) :
    words (x :: xs) = (utf8 x.name).map UInt8.toUInt64 ++ x.size :: words xs := by
  rw [words, List.map_cons, List.flatMap_cons, itemWords, Item.pair, UInt64.ofNat_toNat,
    List.append_assoc]
  rfl

theorem words_append (xs ys : List Item) : words (xs ++ ys) = words xs ++ words ys := by
  rw [words, List.map_append, List.flatMap_append]
  rfl

theorem words_ne_nil {xs : List Item} (h : xs ≠ []) : words xs ≠ [] := by
  obtain ⟨x, xs, rfl⟩ := List.exists_cons_of_ne_nil h
  rw [words_cons]
  exact List.append_ne_nil_of_right_ne_nil _ (List.cons_ne_nil _ _)

theorem toUInt64_ofNat {n : Nat} (h : n < 128) : (UInt8.ofNat n).toUInt64 = UInt64.ofNat n := by
  apply UInt64.toNat_inj.mp
  simp only [UInt8.toNat_toUInt64, UInt8.toNat_ofNat', UInt64.toNat_ofNat']
  omega

theorem words_join {x : Item} {c : Char} (hc : c.toNat < 128)
    (hx : x.size = UInt64.ofNat c.toNat) (y : Item) (xs : List Item) :
    words (x.join y c :: xs) = words (x :: y :: xs) := by
  rw [words_cons, words_cons, words_cons, Item.join, utf8_append, utf8_cons, encodeChar_of_ascii hc,
    List.map_append, List.map_append, List.map_cons, List.map_nil, toUInt64_ofNat hc, ← hx,
    List.append_assoc, List.append_assoc]
  rfl

/-- A cut leaves the words as they are. -/
theorem words_cut {xs ys : List Item} (h : Cut xs ys) : words xs = words ys := by
  obtain ⟨before, after, x, y, c, hc, hx⟩ := h
  rw [words_append, words_append, words_join hc hx]

/-- The words start with the first byte of a name. -/
theorem exists_first_of_words {xs : List Item} {w : UInt64} {ws : List UInt64}
    (h : words xs = w :: ws) : ∃ k : UInt8, k.IsUTF8FirstByte ∧ w = k.toUInt64 := by
  cases xs with
  | nil => cases h
  | cons x xs =>
      rw [words_cons] at h
      cases hname : utf8 x.name with
      | nil => exact absurd hname (utf8_ne_nil x.named)
      | cons k ks =>
          rw [hname] at h
          cases h
          exact ⟨k, first_of_utf8_eq_cons hname, rfl⟩

/-- Where the first name of a list goes on in the first name of another with the
same words, its size is an ASCII character, and there is an item after it. -/
theorem exists_join {x x' : Item} {rest rest' : List Item} {w : UInt64} {ws : List UInt64}
    (hname : (utf8 x'.name).map UInt8.toUInt64 = (utf8 x.name).map UInt8.toUInt64 ++ w :: ws)
    (hwords : x.size :: words rest = w :: (ws ++ x'.size :: words rest')) :
    ∃ (c : Char) (y : Item) (after : List Item),
      c.toNat < 128 ∧ x.size = UInt64.ofNat c.toNat ∧ rest = y :: after := by
  obtain ⟨hsize, hrest⟩ := List.cons.inj hwords
  obtain ⟨bs, bs', hsplit, hbs, hbs'⟩ := List.map_eq_append_iff.mp hname
  have hbs : bs = utf8 x.name := (List.map_injective_iff.mpr toUInt64_injective) hbs
  subst hbs
  obtain ⟨v, -, hv⟩ := exists_of_utf8_eq_append hsplit
  obtain ⟨b, ks, rfl, hb, hks⟩ := List.map_eq_cons_iff.mp hbs'
  have hnext : ∀ k ks', ks = k :: ks' → k.IsUTF8FirstByte := by
    rintro k ks' rfl
    rw [List.map_cons] at hks
    rw [← hks, List.cons_append] at hrest
    obtain ⟨k', hk', heq⟩ := exists_first_of_words hrest
    exact toUInt64_injective heq ▸ hk'
  obtain ⟨c, v', rfl, hc, rfl, -⟩ := exists_ascii_of_utf8_eq_cons hv.symm hnext
  cases rest with
  | nil => exact absurd hrest.symm (by simp)
  | cons y after =>
      refine ⟨c, y, after, hc, ?_, rfl⟩
      rw [hsize, ← hb, toUInt64_ofNat hc]

theorem cut_cons {xs ys : List Item} (x : Item) (h : Cut xs ys) : Cut (x :: xs) (x :: ys) := by
  obtain ⟨before, after, y, z, c, hc, hy⟩ := h
  exact .mk (x :: before) after y z c hc hy

theorem regrouped_cons {xs ys : List Item} (x : Item) (h : Relation.EqvGen Cut xs ys) :
    Relation.EqvGen Cut (x :: xs) (x :: ys) := by
  induction h with
  | rel _ _ h => exact .rel _ _ (cut_cons x h)
  | refl => exact .refl _
  | symm _ _ _ ih => exact .symm _ _ ih
  | trans _ _ _ _ _ ih₁ ih₂ => exact .trans _ _ _ ih₁ ih₂

section Prefix
variable {x y : Item} {xs ys : List Item}

theorem item_eq_of_words {x y : Item}
    (hname : (utf8 y.name).map UInt8.toUInt64 = (utf8 x.name).map UInt8.toUInt64)
    (hsize : x.size = y.size) : x = y := by
  have hutf := (List.map_injective_iff.mpr toUInt64_injective) hname
  cases x
  cases y
  cases utf8_injective hutf
  cases hsize
  rfl

/-- One step of the induction below: equal first items go, and an item whose
name ends inside the other's is joined with the next. -/
theorem regrouped_of_append
    (ih : ∀ xs' ys' : List Item, xs'.length + ys'.length < (x :: xs).length + (y :: ys).length →
      words xs' = words ys' → Relation.EqvGen Cut xs' ys')
    (h : words (x :: xs) = words (y :: ys)) {ws : List UInt64}
    (hname : (utf8 y.name).map UInt8.toUInt64 = (utf8 x.name).map UInt8.toUInt64 ++ ws)
    (hwords : x.size :: words xs = ws ++ y.size :: words ys) :
    Relation.EqvGen Cut (x :: xs) (y :: ys) := by
  simp only [List.length_cons] at ih
  cases ws with
  | nil =>
      rw [List.append_nil] at hname
      obtain ⟨hsize, hrest⟩ := List.cons.inj hwords
      have hxy := item_eq_of_words hname hsize
      subst hxy
      exact regrouped_cons x (ih xs ys (by omega) hrest)
  | cons w ws =>
      obtain ⟨c, z, after, hc, hx, rfl⟩ := exists_join hname hwords
      have hcut : Cut (x.join z c :: after) (x :: z :: after) := .mk [] after x z c hc hx
      have hjoined := ih (x.join z c :: after) (y :: ys)
        (by simp only [List.length_cons]; omega) ((words_cut hcut).trans h)
      exact .trans _ _ _ (.symm _ _ (.rel _ _ hcut)) hjoined

end Prefix

/-- Lists with the same words are regrouped from one another, by induction on
the number of their items. -/
theorem regrouped_of_words_eq (n : Nat) {xs ys : List Item} (hn : xs.length + ys.length = n)
    (h : words xs = words ys) : Relation.EqvGen Cut xs ys := by
  induction n using Nat.strongRecOn generalizing xs ys with
  | ind n ih =>
      cases xs with
      | nil =>
          cases ys with
          | nil => exact .refl _
          | cons y ys => exact absurd h.symm (words_ne_nil (List.cons_ne_nil y ys))
      | cons x xs =>
          cases ys with
          | nil => exact absurd h (words_ne_nil (List.cons_ne_nil x xs))
          | cons y ys =>
              have hwords := h
              rw [words_cons, words_cons, List.append_eq_append_iff] at hwords
              rcases hwords with ⟨ws, hname, hwords⟩ | ⟨ws, hname, hwords⟩
              · refine regrouped_of_append ?_ h hname hwords
                intro xs' ys' hlt heq
                exact ih _ (hn ▸ hlt) rfl heq
              · refine .symm _ _ (regrouped_of_append ?_ h.symm hname hwords)
                intro xs' ys' hlt heq
                exact ih _ (by omega) rfl heq

theorem words_eq_iff {xs ys : List Item} :
    words xs = words ys ↔ Relation.EqvGen Cut xs ys := by
  constructor
  · exact regrouped_of_words_eq _ rfl
  · intro h
    induction h with
    | rel _ _ h => exact words_cut h
    | refl => rfl
    | symm _ _ _ ih => exact ih.symm
    | trans _ _ _ _ _ ih₁ ih₂ => exact ih₁.trans ih₂

/-! ## Batches with words of their own -/

/-- No cut leads to the list, and none from it, exactly if it is separated. -/
theorem separated_iff_forall_cut {xs : List Item} :
    Separated xs ↔ ∀ ys, ¬ Cut xs ys ∧ ¬ Cut ys xs := by
  constructor
  · rintro ⟨hnames, hsizes⟩ ys
    constructor
    · rintro ⟨before, after, x, y, c, hc, -⟩
      have := hnames (x.join y c) (by simp) x.name c y.name rfl x.named y.named
      omega
    · rintro ⟨before, after, x, y, c, hc, hx⟩
      have hlow := hsizes x (by rw [List.dropLast_append_cons]; simp)
      rw [hx, UInt64.toNat_ofNat'] at hlow
      omega
  · intro h
    constructor
    · intro x hx p c q hname hp hq
      by_contra hc
      obtain ⟨before, after, rfl⟩ := List.append_of_mem hx
      have hjoin : x = Item.join ⟨p, UInt64.ofNat c.toNat, hp⟩ ⟨q, x.size, hq⟩ c := by
        cases x
        cases hname
        rfl
      rw [hjoin] at h
      exact (h _).1 (.mk before after _ _ c (by omega) rfl)
    · intro x hx
      by_contra hlow
      have hlow : x.size.toNat < 128 := by omega
      have hne : xs ≠ [] := by
        rintro rfl
        cases hx
      obtain ⟨before, after, hsplit⟩ := List.append_of_mem hx
      obtain ⟨y, after', hafter⟩ := List.exists_cons_of_ne_nil
        (List.append_ne_nil_of_right_ne_nil after (List.cons_ne_nil (xs.getLast hne) []))
      have hxs : xs = before ++ x :: y :: after' := by
        rw [← List.dropLast_append_getLast hne, hsplit, List.append_assoc, List.cons_append, hafter]
      have hc : (Char.ofNat x.size.toNat).toNat = x.size.toNat := by
        rw [Char.toNat_ofNat, if_pos (.inl (by omega))]
      have hcut : Cut (before ++ x.join y (Char.ofNat x.size.toNat) :: after') xs := by
        rw [hxs]
        exact .mk before after' x y _ (by omega) (by rw [hc, UInt64.ofNat_toNat])
      exact (h _).2 hcut

theorem eq_of_regrouped {xs ys : List Item} (hxs : ∀ zs, ¬ Cut xs zs ∧ ¬ Cut zs xs)
    (h : Relation.EqvGen Cut xs ys) : ys = xs := by
  have hiff : ∀ {as bs}, Relation.EqvGen Cut as bs → (as = xs ↔ bs = xs) := by
    intro as bs hcuts
    induction hcuts with
    | rel as bs hcut =>
        constructor
        · rintro rfl
          exact absurd hcut (hxs bs).1
        · rintro rfl
          exact absurd hcut (hxs as).2
    | refl => exact Iff.rfl
    | symm _ _ _ ih => exact ih.symm
    | trans _ _ _ _ _ ih₁ ih₂ => exact ih₁.trans ih₂
  exact (hiff h).mp rfl

theorem cut_ne {xs ys : List Item} (h : Cut xs ys) : xs ≠ ys := by
  obtain ⟨before, after, x, y, c, -, -⟩ := h
  intro heq
  have := congrArg List.length heq
  simp at this

/-- The list is told from every other exactly if it is separated. -/
theorem separated_iff {xs : List Item} :
    (∀ ys, xs ≠ ys → words xs ≠ words ys) ↔ Separated xs := by
  rw [separated_iff_forall_cut]
  constructor
  · intro h ys
    exact ⟨fun hcut => h ys (cut_ne hcut) (words_cut hcut),
      fun hcut => h ys (cut_ne hcut).symm (words_cut hcut).symm⟩
  · intro h ys hne heq
    exact hne (eq_of_regrouped h (words_eq_iff.mp heq)).symm

/-- The signature of a batch is the FNV hash of its words.  They tell it from
another batch unless one is the other regrouped; and from every other exactly if
it is separated. -/
theorem batches_told_apart_iff (xs : List Item) :
    listSignature (xs.map Item.pair) = fnv (words xs) ∧
      (∀ ys, (xs ≠ ys → words xs ≠ words ys) ↔ (Relation.EqvGen Cut xs ys → xs = ys)) ∧
      ((∀ ys, xs ≠ ys → words xs ≠ words ys) ↔ Separated xs) := by
  refine ⟨listSignature_eq _, ?_, separated_iff⟩
  intro ys
  rw [← words_eq_iff]
  constructor
  · intro h heq
    by_contra hne
    exact h hne heq
  · intro h hne heq
    exact hne (h heq)

/-- A file `abc` of 5 bytes; and `a` of 98 bytes with `c` of 5. -/
theorem batches_clash :
    [Item.mk ['a', 'b', 'c'] 5 (by decide)] ≠ [⟨['a'], 98, by decide⟩, ⟨['c'], 5, by decide⟩] ∧
      words [⟨['a', 'b', 'c'], 5, by decide⟩] =
        words [⟨['a'], 98, by decide⟩, ⟨['c'], 5, by decide⟩] ∧
      listSignature [(['a', 'b', 'c'], 5)] = listSignature [(['a'], 98), (['c'], 5)] := by
  decide

end Beaglewing.Files
