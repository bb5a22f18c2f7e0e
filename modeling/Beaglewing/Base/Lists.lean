/-
# `Base.Lists` — lists that grow at the end, sublists by weight

Facts about lists that Mathlib does not have in this form: where a marked
element of `ps ++ [p]` can be, and when a sublist that weighs as much as
the whole is the whole.
-/
import Mathlib

namespace Base

/-- A marked element of `ps ++ [p]` is `p` itself or is in `ps`. -/
theorem snoc_eq_append_cons {α : Type} {ps pre mid : List α} {p st : α} :
    ps ++ [p] = pre ++ st :: mid ↔
      (mid = [] ∧ ps = pre ∧ p = st) ∨ ∃ mid', mid = mid' ++ [p] ∧ ps = pre ++ st :: mid' := by
  constructor
  · intro h
    rcases List.eq_nil_or_concat' mid with rfl | ⟨mid', q, rfl⟩
    · obtain ⟨h₁, h₂⟩ := List.append_inj' h rfl
      exact Or.inl ⟨rfl, h₁, List.singleton_inj.mp h₂⟩
    · have h' : ps ++ [p] = (pre ++ st :: mid') ++ [q] := by simpa using h
      obtain ⟨h₁, h₂⟩ := List.append_inj' h' rfl
      cases List.singleton_inj.mp h₂
      exact Or.inr ⟨mid', rfl, h₁⟩
  · rintro (⟨rfl, rfl, rfl⟩ | ⟨mid', rfl, rfl⟩)
    · rfl
    · simp

/-- A sublist of `l ++ [x]` is a sublist of `l`, with or without `x`. -/
theorem sublist_snoc {α : Type} {s l : List α} {x : α} (h : s.Sublist (l ++ [x])) :
    s.Sublist l ∨ ∃ s', s'.Sublist l ∧ s = s' ++ [x] := by
  obtain ⟨s₁, s₂, rfl, h₁, h₂⟩ := List.sublist_append_iff.mp h
  rcases List.sublist_singleton.mp h₂ with rfl | rfl
  · exact Or.inl (by simpa using h₁)
  · exact Or.inr ⟨s₁, h₁, rfl⟩

/-- A sublist of a list that has `P` everywhere but at its end has `P`
everywhere but at its end. -/
theorem dropLast_sublist {α : Type} {P : α → Prop} {s l : List α} (h : s.Sublist l)
    (hP : ∀ x ∈ l.dropLast, P x) : ∀ x ∈ s.dropLast, P x := by
  rcases List.eq_nil_or_concat' l with rfl | ⟨l', a, rfl⟩
  · rw [List.sublist_nil.mp h]
    exact fun x hx => nomatch hx
  · rw [List.dropLast_concat] at hP
    intro x hx
    rcases sublist_snoc h with hs | ⟨s', hs, rfl⟩
    · exact hP x (hs.subset (List.dropLast_subset s hx))
    · rw [List.dropLast_concat] at hx
      exact hP x (hs.subset hx)

theorem countP_split {α : Type} (p q : α → Bool) (l : List α) :
    l.countP p = l.countP (fun x => p x && q x) + l.countP (fun x => p x && !q x) := by
  induction l with
  | nil => rfl
  | cons a l ih =>
      simp only [List.countP_cons, ih]
      cases p a <;> cases q a <;> simp <;> omega

/-- A list in the order of its keys, key by key. -/
theorem map_snd_by_key {β : Type} {l : List (Nat × β)} {n : Nat}
    (horder : (l.map Prod.fst).Pairwise (· ≤ ·)) (hn : ∀ c ∈ l.map Prod.fst, c < n) :
    l.map Prod.snd = (List.range n).flatMap fun c => (l.filter fun x => x.1 = c).map Prod.snd := by
  induction l with
  | nil => exact (List.flatMap_eq_nil_iff.mpr fun _ _ => rfl).symm
  | cons x l ih =>
      rw [List.map_cons, List.pairwise_cons] at horder
      have hxn : x.1 < n := hn x.1 List.mem_cons_self
      have hsplit : List.range n = List.range x.1 ++ x.1 :: List.range' (x.1 + 1) (n - (x.1 + 1)) := by
        have happ : List.range' 0 x.1 ++ List.range' (0 + x.1) (n - (x.1 + 1) + 1) =
            List.range' 0 (x.1 + (n - (x.1 + 1) + 1)) := List.range'_append_1
        have hlen : x.1 + (n - (x.1 + 1) + 1) = n := by omega
        rw [Nat.zero_add, List.range'_succ, hlen, ← List.range_eq_range',
          ← List.range_eq_range'] at happ
        exact happ.symm
      have hhere : ((x :: l).filter fun y => y.1 = x.1) = x :: l.filter fun y => y.1 = x.1 := by
        simp
      have helse : ∀ c, x.1 ≠ c → ((x :: l).filter fun y => y.1 = c) = l.filter fun y => y.1 = c :=
        fun c hc => by simp [hc]
      have hbelow : ∀ c < x.1, (l.filter fun y => y.1 = c) = [] := by
        intro c hc
        rw [List.filter_eq_nil_iff]
        intro y hy heq
        have hle := horder.1 y.1 (List.mem_map_of_mem hy)
        rw [decide_eq_true_eq] at heq
        omega
      have hfirst : ∀ l' : List (Nat × β), (∀ c < x.1, (l'.filter fun y => y.1 = c) = []) →
          (List.range x.1).flatMap (fun c => (l'.filter fun y => y.1 = c).map Prod.snd) = [] := by
        intro l' hl'
        refine List.flatMap_eq_nil_iff.mpr fun c hc => ?_
        rw [hl' c (List.mem_range.mp hc)]
        rfl
      have hrest : ∀ c ∈ List.range' (x.1 + 1) (n - (x.1 + 1)), x.1 ≠ c := by
        intro c hc
        have hlt := (List.mem_range'_1.mp hc).1
        omega
      have ih' := ih horder.2 fun c hc => hn c (List.mem_cons_of_mem _ hc)
      rw [hsplit, List.flatMap_append, List.flatMap_cons, hfirst l hbelow, List.nil_append] at ih'
      rw [hsplit, List.flatMap_append, List.flatMap_cons, hhere, List.map_cons,
        hfirst (x :: l) fun c hc => (helse c (Nat.ne_of_gt hc)).trans (hbelow c hc), List.nil_append,
        List.flatMap_congr fun c hc => by rw [helse c (hrest c hc)], List.map_cons, ih']
      rfl

section Weight
variable {α : Type} {w : α → Nat}

theorem sum_map_le_of_sublist {s l : List α} (h : s.Sublist l) :
    (s.map w).sum ≤ (l.map w).sum := by
  induction h with
  | slnil => exact Nat.le_refl _
  | cons a _ ih => simp only [List.map_cons, List.sum_cons]; omega
  | cons_cons a _ ih => simp only [List.map_cons, List.sum_cons]; omega

/-- What weighs something is paid for by the weight. -/
theorem countP_pos_le_sum (w : α → Nat) (l : List α) :
    l.countP (fun x => 0 < w x) ≤ (l.map w).sum := by
  induction l with
  | nil => exact Nat.le_refl _
  | cons a l ih =>
      rw [List.countP_cons, List.map_cons, List.sum_cons]
      split
      · next ha =>
          have : 0 < w a := by simpa using ha
          omega
      · omega

/-- When every element of `l` weighs something, a sublist of `l` with the
weight of `l` has dropped nothing. -/
theorem eq_of_sublist_of_sum_eq {s l : List α} (h : s.Sublist l) (hpos : ∀ x ∈ l, 0 < w x)
    (hsum : (s.map w).sum = (l.map w).sum) : s = l := by
  induction h with
  | slnil => rfl
  | cons a h _ =>
      have hle := sum_map_le_of_sublist (w := w) h
      have ha := hpos a List.mem_cons_self
      simp only [List.map_cons, List.sum_cons] at hsum
      omega
  | cons_cons a _ ih =>
      simp only [List.map_cons, List.sum_cons, Nat.add_left_cancel_iff] at hsum
      rw [ih (fun x hx => hpos x (List.mem_cons_of_mem _ hx)) hsum]

end Weight
/-- A loop that may fail, run to its end. -/
theorem forall₂_of_mapM {α β ε : Type} {f : α → Except ε β} {as : List α} {bs : List β}
    (h : as.mapM f = .ok bs) : List.Forall₂ (fun a b => f a = .ok b) as bs := by
  induction as generalizing bs with
  | nil =>
      cases h
      exact .nil
  | cons a as ih =>
      rw [List.mapM_cons] at h
      cases hb : f a with
      | error e =>
          rw [hb] at h
          cases h
      | ok b =>
          cases hbs : as.mapM f with
          | error e =>
              rw [hb, hbs] at h
              cases h
          | ok bs' =>
              rw [hb, hbs] at h
              cases h
              exact .cons hb (ih hbs)

end Base
