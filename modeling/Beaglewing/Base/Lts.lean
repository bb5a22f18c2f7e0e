/-
# `Base.Lts` — transition systems with labels

A system in which the label says everything a step leaves open: which party
moves, what the network or the clock answers.  `exec` runs a list of labels
and is undefined when one of them is not possible.  A property of every run
is then a property of every `exec`, proved from one step at a time
(`exec_induction`, with the labels so far, and `exec_invariant`); a run
whose steps all meet a condition is `Meets` (`exec_meets`); and a map that
commutes with the steps commutes with the runs (`exec_map`).

Where each state asks one thing and the surroundings answer it, the answers
determine the run (`drive`).
-/
import Mathlib

namespace Base

structure Lts (σ α : Type) where
  step : σ → α → Option σ

namespace Lts
variable {σ τ α : Type} (m : Lts σ α)

/-- The state after some labels, if all of them are possible. -/
def exec (s : σ) : List α → Option σ
  | [] => some s
  | a :: as => (m.step s a).bind fun s' => exec s' as

@[simp] theorem exec_nil (s : σ) : m.exec s [] = some s := rfl

@[simp] theorem exec_cons (s : σ) (a : α) (as : List α) :
    m.exec s (a :: as) = (m.step s a).bind fun s' => m.exec s' as := rfl

theorem exec_append (s : σ) (as bs : List α) :
    m.exec s (as ++ bs) = (m.exec s as).bind fun s' => m.exec s' bs := by
  induction as generalizing s with
  | nil => rfl
  | cons a as ih =>
      rw [List.cons_append, exec_cons, exec_cons]
      cases m.step s a with
      | none => rfl
      | some s' => exact ih s'

/-- A run that ends with `a` is a run, then the step `a`. -/
theorem exec_snoc {s s' : σ} {as : List α} {a : α} :
    m.exec s (as ++ [a]) = some s' ↔
      ∃ s₁, m.exec s as = some s₁ ∧ m.step s₁ a = some s' := by
  rw [exec_append, Option.bind_eq_some_iff]
  refine exists_congr fun s₁ => and_congr_right fun _ => ?_
  rw [exec_cons]
  cases m.step s₁ a <;> simp

/-- Two runs in a row are a run. -/
theorem exec_trans {s s₁ s₂ : σ} {as bs : List α} (h₁ : m.exec s as = some s₁)
    (h₂ : m.exec s₁ bs = some s₂) : m.exec s (as ++ bs) = some s₂ := by
  rw [exec_append, h₁]
  exact h₂

/-- Induction over the runs whose labels all have a property. -/
theorem exec_induction_of_all {Q : α → Prop} {P : List α → σ → Prop} {s₀ : σ} (hinit : P [] s₀)
    (hstep : ∀ as a s s', m.exec s₀ as = some s → P as s → Q a → m.step s a = some s' →
      P (as ++ [a]) s') {as : List α} {s : σ} (h : m.exec s₀ as = some s)
    (hQ : ∀ a ∈ as, Q a) : P as s := by
  induction as using List.reverseRec generalizing s with
  | nil =>
      cases h
      exact hinit
  | append_singleton as a ih =>
      obtain ⟨s₁, h₁, h₂⟩ := m.exec_snoc.mp h
      have hbefore : ∀ b ∈ as, Q b := fun b hb => hQ b (List.mem_append_left _ hb)
      exact hstep as a s₁ s h₁ (ih h₁ hbefore) (hQ a (List.mem_append_right _ (by simp))) h₂

/-- A relation between the labels so far and the state, kept by every step,
holds of every run. -/
theorem exec_induction {P : List α → σ → Prop} {s₀ : σ} (hinit : P [] s₀)
    (hstep : ∀ as a s s', P as s → m.step s a = some s' → P (as ++ [a]) s') {as : List α} {s : σ}
    (h : m.exec s₀ as = some s) : P as s := by
  refine m.exec_induction_of_all (Q := fun _ => True) hinit ?_ h (fun _ _ => trivial)
  intro as a s s' _ hP _ hst
  exact hstep as a s s' hP hst

/-- An invariant of the steps holds of every run. -/
theorem exec_invariant {P : σ → Prop} {s₀ : σ} (hinit : P s₀)
    (hstep : ∀ s a s', P s → m.step s a = some s' → P s') {as : List α} {s : σ}
    (h : m.exec s₀ as = some s) : P s :=
  m.exec_induction (P := fun _ s => P s) hinit (fun _ a s s' hs hst => hstep s a s' hs hst) h

/-! ## Runs under a condition -/

/-- Every step of the run meets the condition. -/
def Meets (C : σ → α → Prop) (s : σ) : List α → Prop
  | [] => True
  | a :: as => C s a ∧ ∀ s', m.step s a = some s' → Meets C s' as

theorem meets_snoc {C : σ → α → Prop} {s s₁ : σ} {as : List α} {a : α}
    (h : m.Meets C s (as ++ [a])) (hrun : m.exec s as = some s₁) :
    m.Meets C s as ∧ C s₁ a := by
  induction as generalizing s with
  | nil =>
      cases hrun
      exact ⟨trivial, h.1⟩
  | cons b as ih =>
      obtain ⟨s₂, h₂, hrun⟩ := Option.bind_eq_some_iff.mp hrun
      obtain ⟨hm, hc⟩ := ih (h.2 s₂ h₂) hrun
      refine ⟨⟨h.1, ?_⟩, hc⟩
      intro s' hs'
      rw [h₂, Option.some.injEq] at hs'
      exact hs' ▸ hm

/-- Two runs in a row meet it. -/
theorem meets_append {C : σ → α → Prop} {s s₁ : σ} {as bs : List α} (h₁ : m.Meets C s as)
    (hrun : m.exec s as = some s₁) (h₂ : m.Meets C s₁ bs) : m.Meets C s (as ++ bs) := by
  induction as generalizing s with
  | nil =>
      cases hrun
      exact h₂
  | cons a as ih =>
      obtain ⟨s₂, hs₂, hrun⟩ := Option.bind_eq_some_iff.mp hrun
      refine ⟨h₁.1, ?_⟩
      intro s' hs'
      rw [hs₂, Option.some.injEq] at hs'
      subst hs'
      exact ih (h₁.2 s₂ hs₂) hrun

/-- A condition on the labels alone. -/
theorem meets_of_labels {C : σ → α → Prop} {as : List α} (h : ∀ a ∈ as, ∀ s, C s a) (s : σ) :
    m.Meets C s as := by
  induction as generalizing s with
  | nil => trivial
  | cons a as ih =>
      refine ⟨h a List.mem_cons_self s, ?_⟩
      intro s' _
      exact ih (fun b hb => h b (List.mem_cons_of_mem a hb)) s'

/-- An invariant of the steps that meet the condition holds of every run
whose steps all meet it. -/
theorem exec_meets {C : σ → α → Prop} {P : σ → Prop} {s₀ : σ} (hinit : P s₀)
    (hstep : ∀ s a s', P s → C s a → m.step s a = some s' → P s') {as : List α} {s : σ}
    (h : m.exec s₀ as = some s) (hC : m.Meets C s₀ as) : P s := by
  induction as using List.reverseRec generalizing s with
  | nil =>
      cases h
      exact hinit
  | append_singleton as a ih =>
      obtain ⟨s₁, h₁, h₂⟩ := m.exec_snoc.mp h
      obtain ⟨hC₁, hc⟩ := m.meets_snoc hC h₁
      exact hstep s₁ a s (ih h₁ hC₁) hc h₂

/-- The run meets the condition exactly if every step does, in the state that
the steps before it lead to. -/
theorem meets_iff {C : σ → α → Prop} {s : σ} {as : List α} :
    m.Meets C s as ↔
      ∀ bs a cs s', as = bs ++ a :: cs → m.exec s bs = some s' → C s' a := by
  induction as generalizing s with
  | nil => simp [Meets]
  | cons b as ih =>
      constructor
      · rintro ⟨hb, htail⟩ bs a cs s' heq hrun
        cases bs with
        | nil =>
            cases heq
            cases hrun
            exact hb
        | cons b' bs =>
            rw [List.cons_append, List.cons.injEq] at heq
            obtain ⟨rfl, rfl⟩ := heq
            obtain ⟨s₁, h₁, hrun⟩ := Option.bind_eq_some_iff.mp hrun
            exact ih.mp (htail s₁ h₁) bs a cs s' rfl hrun
      · intro h
        refine ⟨h [] b as s rfl rfl, ?_⟩
        intro s₁ h₁
        refine ih.mpr ?_
        intro bs a cs s' heq hrun
        refine h (b :: bs) a cs s' (by rw [heq, List.cons_append]) ?_
        rw [exec_cons, h₁]
        exact hrun

instance decMeets {C : σ → α → Prop} [∀ s a, Decidable (C s a)] :
    ∀ (s : σ) (as : List α), Decidable (m.Meets C s as)
  | _, [] => isTrue trivial
  | s, a :: as =>
      have : Decidable (∀ s', m.step s a = some s' → m.Meets C s' as) :=
        match m.step s a with
        | none => isTrue fun _ h => nomatch h
        | some s₁ =>
            have : Decidable (m.Meets C s₁ as) := decMeets s₁ as
            decidable_of_iff (m.Meets C s₁ as)
              ⟨fun h _ hs => Option.some.inj hs ▸ h, fun h => h s₁ rfl⟩
      inferInstanceAs (Decidable (C s a ∧ _))

/-! ## Maps between systems -/

/-- A map that commutes with the steps commutes with the runs. -/
theorem exec_map {n : Lts τ α} {f : σ → τ} (h : ∀ s a, n.step (f s) a = (m.step s a).map f)
    (s : σ) (as : List α) : n.exec (f s) as = (m.exec s as).map f := by
  induction as generalizing s with
  | nil => rfl
  | cons a as ih =>
      rw [exec_cons, exec_cons, h]
      cases m.step s a with
      | none => rfl
      | some s' => exact ih s'

/-- If each step, seen through the maps, is a step of another system, so is each
run a run of it. -/
theorem exec_project {β : Type} {n : Lts τ β} {f : σ → τ} {g : α → β}
    (h : ∀ s a s', m.step s a = some s' → n.step (f s) (g a) = some (f s')) {s s' : σ}
    {as : List α} (hrun : m.exec s as = some s') : n.exec (f s) (as.map g) = some (f s') := by
  induction as generalizing s with
  | nil =>
      cases hrun
      rfl
  | cons a as ih =>
      obtain ⟨s₁, h₁, hrun⟩ := Option.bind_eq_some_iff.mp hrun
      rw [List.map_cons, exec_cons, h s a s₁ h₁]
      exact ih hrun

/-- The same where some steps are none of the other system. -/
theorem exec_filterMap {β : Type} {n : Lts τ β} {f : σ → τ} {g : α → Option β}
    (h : ∀ s a s', m.step s a = some s' →
      (∀ b, g a = some b → n.step (f s) b = some (f s')) ∧ (g a = none → f s' = f s))
    {s s' : σ} {as : List α} (hrun : m.exec s as = some s') :
    n.exec (f s) (as.filterMap g) = some (f s') := by
  induction as generalizing s with
  | nil =>
      cases hrun
      rfl
  | cons a as ih =>
      obtain ⟨s₁, h₁, hrun⟩ := Option.bind_eq_some_iff.mp hrun
      obtain ⟨hstep, hsame⟩ := h s a s₁ h₁
      cases hg : g a with
      | none =>
          rw [List.filterMap_cons_none hg, ← hsame hg]
          exact ih hrun
      | some b =>
          rw [List.filterMap_cons_some hg, exec_cons, hstep b hg]
          exact ih hrun

/-- A condition on the steps that are. -/
theorem meets_filterMap {β : Type} {n : Lts τ β} {f : σ → τ} {g : α → Option β}
    (h : ∀ s a s', m.step s a = some s' →
      (∀ b, g a = some b → n.step (f s) b = some (f s')) ∧ (g a = none → f s' = f s))
    {C : σ → α → Prop} {D : τ → β → Prop} (hCD : ∀ s a b, g a = some b → C s a → D (f s) b)
    {s s' : σ} {as : List α} (hrun : m.exec s as = some s') (hC : m.Meets C s as) :
    n.Meets D (f s) (as.filterMap g) := by
  induction as generalizing s with
  | nil => trivial
  | cons a as ih =>
      obtain ⟨s₁, h₁, hrun⟩ := Option.bind_eq_some_iff.mp hrun
      obtain ⟨hstep, hsame⟩ := h s a s₁ h₁
      have hrest := ih hrun (hC.2 s₁ h₁)
      cases hg : g a with
      | none =>
          rw [List.filterMap_cons_none hg, ← hsame hg]
          exact hrest
      | some b =>
          rw [List.filterMap_cons_some hg]
          refine ⟨hCD s a b hg hC.1, ?_⟩
          intro t ht
          rw [hstep b hg] at ht
          cases ht
          exact hrest

/-- So does a condition that the map respects. -/
theorem meets_map {n : Lts τ α} {f : σ → τ} (h : ∀ s a, n.step (f s) a = (m.step s a).map f)
    {C : σ → α → Prop} {D : τ → α → Prop} (hCD : ∀ s a, D (f s) a ↔ C s a) (s : σ)
    (as : List α) : n.Meets D (f s) as ↔ m.Meets C s as := by
  induction as generalizing s with
  | nil => exact Iff.rfl
  | cons a as ih =>
      refine and_congr (hCD s a) ?_
      rw [h]
      cases m.step s a with
      | none => simp
      | some s' => simpa using ih s'

/-! ## Driven runs -/

section Drive
variable {β : Type} (ask : σ → Option β) (answer : List α → β → α)

/-- At most `n` steps from `s`, after the labels `as`, with the answer to what
each state asks.  It ends where nothing is asked, or the answer does not fit. -/
def drive : Nat → σ → List α → σ × List α
  | 0, s, as => (s, as)
  | n + 1, s, as =>
      match ask s with
      | none => (s, as)
      | some q =>
          match m.step s (answer as q) with
          | none => (s, as)
          | some s' => drive n s' (as ++ [answer as q])

variable {ask answer}

/-- A state that asks nothing is left alone. -/
theorem drive_of_ask_none {s : σ} (h : ask s = none) (n : Nat) (as : List α) :
    m.drive ask answer n s as = (s, as) := by
  cases n with
  | zero => rfl
  | succ n => rw [drive, h]

/-- A map that commutes with the steps, and keeps what is asked, commutes with
the driven runs. -/
theorem drive_map {n : Lts τ α} {f : σ → τ} (h : ∀ s a, n.step (f s) a = (m.step s a).map f)
    {ask' : τ → Option β} (hask : ∀ s, ask' (f s) = ask s) (k : Nat) (s : σ) (as : List α) :
    n.drive ask' answer k (f s) as = Prod.map f id (m.drive ask answer k s as) := by
  induction k generalizing s as with
  | zero => rfl
  | succ k ih =>
      rw [drive, drive, hask]
      cases ask s with
      | none => rfl
      | some q =>
          simp only [h]
          cases m.step s (answer as q) with
          | none => rfl
          | some s' => exact ih s' _

/-- If every answer fits, a driven run takes all its steps or ends where
nothing is asked. -/
theorem drive_progress {P : σ → Prop} (hfit : ∀ s q, P s → ask s = some q → ∀ as,
      ∃ s', m.step s (answer as q) = some s' ∧ P s') (k : Nat) {s : σ} (hs : P s) (as : List α) :
    P (m.drive ask answer k s as).1 ∧
      (ask (m.drive ask answer k s as).1 = none ∨
        (m.drive ask answer k s as).2.length = as.length + k) := by
  induction k generalizing s as with
  | zero => exact ⟨hs, .inr rfl⟩
  | succ k ih =>
      cases hask : ask s with
      | none =>
          rw [drive_of_ask_none m hask]
          exact ⟨hs, .inl hask⟩
      | some q =>
          obtain ⟨s', hstep, hs'⟩ := hfit s q hs hask as
          simp only [drive, hask, hstep]
          obtain ⟨hP, hend⟩ := ih hs' (as ++ [answer as q])
          refine ⟨hP, hend.imp_right ?_⟩
          intro hlen
          rw [hlen, List.length_append, List.length_singleton]
          omega

end Drive

end Lts
end Base
