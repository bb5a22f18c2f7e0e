/-
# `Base.Receiver` — where a receiver stops, and what it has acted on

`Base.Framing` says what a receiver has acted on for as long as it goes on.
A loop stops in two ways, at a front that is not an item and at an item it
does not go on from (`Halts`), and then the items before that place are the
ones it has acted on (`drain_stop_iff`).  What follows the place is never
looked at (`drain_stop_append`).

`logged` keeps a log beside the state, of what an observer sees in every
item.  The log has no influence (`drain_logged`), so a claim about what a
receiver has acted on is a claim about the log of the same loop.

| the receiver | after its reads |
|---|---|
| goes on | `Tracks`: the stream is items, and the rest waits |
| has stopped | `Ends`: the stream is items, and the rest halts it |
-/
import Beaglewing.Base.Framing

namespace Base

namespace Flow
variable {σ τ υ : Type}

def state : Flow σ → σ
  | .go s => s
  | .stop s => s

def map (f : σ → τ) : Flow σ → Flow τ
  | .go s => .go (f s)
  | .stop s => .stop (f s)

@[simp] theorem map_go (f : σ → τ) (s : σ) : (Flow.go s).map f = .go (f s) := rfl

@[simp] theorem map_stop (f : σ → τ) (s : σ) : (Flow.stop s).map f = .stop (f s) := rfl

theorem map_map (f : σ → τ) (g : τ → υ) (r : Flow σ) : (r.map f).map g = r.map (g ∘ f) := by
  cases r <;> rfl

theorem map_eq_go {f : σ → τ} {r : Flow σ} {t : τ} :
    r.map f = .go t ↔ ∃ s, r = .go s ∧ f s = t := by
  cases r <;> simp

theorem map_eq_stop {f : σ → τ} {r : Flow σ} {t : τ} :
    r.map f = .stop t ↔ ∃ s, r = .stop s ∧ f s = t := by
  cases r <;> simp

end Flow

/-! ## A log beside the state -/

section Logged
variable {σ τ υ μ ω : Type}

/-- The loop's body, and a log of what `obs` sees in each item. -/
def logged (obs : σ → μ → List ω) (act : σ → μ → Flow σ) (p : σ × List ω) (m : μ) :
    Flow (σ × List ω) :=
  (act p.1 m).map fun s => (s, p.2 ++ obs p.1 m)

/-- A map that commutes with the body commutes with the loop. -/
theorem acts_map {act : σ → μ → Flow σ} {act' : τ → μ → Flow τ} {f : σ → τ}
    (h : ∀ s m, act' (f s) m = (act s m).map f) (s : σ) (ms : List μ) :
    acts act' (f s) ms = (acts act s ms).map f := by
  induction ms generalizing s with
  | nil => rfl
  | cons m ms ih =>
      rw [acts, acts, h]
      cases act s m with
      | go s' => exact ih s'
      | stop s' => rfl

theorem acts_append {act : σ → μ → Flow σ} {s : σ} (ms ns : List μ) :
    acts act s (ms ++ ns) =
      match acts act s ms with
      | .go s' => acts act s' ns
      | .stop s' => .stop s' := by
  induction ms generalizing s with
  | nil => rfl
  | cons m ms ih =>
      rw [List.cons_append, acts, acts]
      cases act s m with
      | go s' => exact ih
      | stop s' => rfl

/-- The log has no influence. -/
theorem logged_fst (obs : σ → μ → List ω) (act : σ → μ → Flow σ) (p : σ × List ω) (m : μ) :
    act p.1 m = (logged obs act p m).map Prod.fst := by
  rw [logged, Flow.map_map]
  cases act p.1 m <;> rfl

/-- A log that was begun before stands before the new one. -/
theorem logged_log (obs : σ → μ → List ω) (act : σ → μ → Flow σ) (l : List ω) (p : σ × List ω)
    (m : μ) :
    logged obs act (p.1, l ++ p.2) m = (logged obs act p m).map fun q => (q.1, l ++ q.2) := by
  rw [logged, logged, Flow.map_map]
  cases act p.1 m <;> simp

theorem acts_logged_fst (obs : σ → μ → List ω) (act : σ → μ → Flow σ) (p : σ × List ω)
    (ms : List μ) : acts act p.1 ms = (acts (logged obs act) p ms).map Prod.fst :=
  acts_map (logged_fst obs act) p ms

/-- A map that commutes with both parts of a receiver maps what it becomes. -/
theorem Led.map {act : σ → μ → Flow σ} {act' : τ → μ → Flow τ} {tidy : σ → σ} {tidy' : τ → τ}
    {f : σ → τ} (hact : ∀ s m, act' (f s) m = (act s m).map f)
    (htidy : ∀ s, tidy' (f s) = f (tidy s)) {s₀ s : σ} {ms : List μ}
    (h : Led act tidy s₀ ms s) : Led act' tidy' (f s₀) ms (f s) := by
  induction h with
  | start => exact .start
  | act _ hgo ih => exact .act ih (by rw [hact, hgo, Flow.map_go])
  | tidy _ ih => exact htidy _ ▸ .tidy ih

/-! ### Simulation -/

/-- Both go on, or both stop, in related states. -/
inductive Flow.Rel (R : σ → τ → Prop) : Flow σ → Flow τ → Prop
  | go {s : σ} {t : τ} : R s t → Rel R (.go s) (.go t)
  | stop {s : σ} {t : τ} : R s t → Rel R (.stop s) (.stop t)

theorem Flow.Rel.mono {R Q : σ → τ → Prop} (h : ∀ s t, R s t → Q s t) {r : Flow σ} {r' : Flow τ}
    (hr : Rel R r r') : Rel Q r r' := by
  cases hr with
  | go hst => exact .go (h _ _ hst)
  | stop hst => exact .stop (h _ _ hst)

/-- Two flows that both compare with a third compare with each other. -/
theorem Flow.Rel.join {R : σ → υ → Prop} {Q : τ → υ → Prop} {S : σ → τ → Prop}
    (h : ∀ s t u, R s u → Q t u → S s t) {r : Flow σ} {r' : Flow τ} {r'' : Flow υ}
    (hr : Rel R r r'') (hr' : Rel Q r' r'') : Rel S r r' := by
  cases hr with
  | go hR =>
      cases hr' with
      | go hQ => exact .go (h _ _ _ hR hQ)
  | stop hR =>
      cases hr' with
      | stop hQ => exact .stop (h _ _ _ hR hQ)

/-- If one body simulates another, and tidying is not seen, then a receiver
does what the other loop does on the same items. -/
theorem led_simulation {act : σ → μ → Flow σ} {act' : τ → μ → Flow τ} {tidy : σ → σ}
    {R : σ → τ → Prop} (hact : ∀ s t m, R s t → Flow.Rel R (act s m) (act' t m))
    (htidy : ∀ s t, R s t → R (tidy s) t) {s₀ s : σ} {t₀ : τ} {ms : List μ} (h₀ : R s₀ t₀)
    (h : Led act tidy s₀ ms s) : ∃ t, acts act' t₀ ms = .go t ∧ R s t := by
  induction h with
  | start => exact ⟨t₀, rfl, h₀⟩
  | @act ms m s s' _ hgo ih =>
      obtain ⟨t, ht, hR⟩ := ih
      have hrel := hact s t m hR
      rw [hgo] at hrel
      generalize hr : act' t m = r at hrel
      cases hrel with
      | go hR' =>
          refine ⟨_, ?_, hR'⟩
          rw [acts_append, ht]
          simp only [acts, hr]
  | tidy _ ih =>
      obtain ⟨t, ht, hR⟩ := ih
      exact ⟨t, ht, htidy _ _ hR⟩

/-- A receiver with a log is the receiver. -/
theorem Led.fst {obs : σ → μ → List ω} {act : σ → μ → Flow σ} {tidy : σ → σ} {p₀ p : σ × List ω}
    {ms : List μ} (h : Led (logged obs act) (Prod.map tidy id) p₀ ms p) :
    Led act tidy p₀.1 ms p.1 :=
  h.map (logged_fst obs act) fun _ => rfl

/-- And there is a log of what a receiver has acted on. -/
theorem Led.logged {act : σ → μ → Flow σ} {tidy : σ → σ} {s₀ s : σ} {ms : List μ}
    (h : Led act tidy s₀ ms s) (obs : σ → μ → List ω) :
    ∃ log, Led (logged obs act) (Prod.map tidy id) (s₀, []) ms (s, log) := by
  induction h with
  | start => exact ⟨[], .start⟩
  | @act ms m s s' _ hact ih =>
      obtain ⟨log, hlog⟩ := ih
      exact ⟨log ++ obs s m, .act hlog (by rw [Base.logged, hact]; rfl)⟩
  | tidy _ ih =>
      obtain ⟨log, hlog⟩ := ih
      exact ⟨log, .tidy hlog⟩

end Logged

namespace Framing
variable {β μ σ τ ω : Type} (F : Framing β μ)

/-- What every item keeps, whether the loop goes on or not, the loop keeps. -/
theorem drain_invariant {P : σ → Prop} {act : σ → μ → Flow σ}
    (hact : ∀ s m, P s → P (act s m).state) {s : σ} (hs : P s) (bs : List β) :
    P (F.drain act s bs).state.1 := by
  have hfuel : ∀ (fuel : Nat) (s : σ) (bs : List β), P s →
      P (F.drainUpTo act fuel s bs).state.1 := by
    intro fuel
    induction fuel with
    | zero => exact fun _ _ hs => hs
    | succ fuel ih =>
        intro s bs hs
        rw [drainUpTo]
        cases F.next bs with
        | more => exact hs
        | bad => exact hs
        | item m rest =>
            have hm := hact s m hs
            cases hflow : act s m with
            | go s' =>
                rw [hflow] at hm
                simp only [hflow]
                exact ih s' rest hm
            | stop s' =>
                rw [hflow] at hm
                simp only [hflow]
                exact hm
  exact hfuel _ s bs hs

/-! ## Where the loop stops -/

/-- The loop stops here: at what is not an item, or at an item. -/
inductive Halts (act : σ → μ → Flow σ) (s : σ) (bs : List β) : σ → List β → Prop
  | bad : F.next bs = .bad → Halts act s bs s bs
  | item {m : μ} {rest : List β} {s' : σ} :
      F.next bs = .item m rest → act s m = .stop s' → Halts act s bs s' rest

variable {F} in
theorem Halts.append {act : σ → μ → Flow σ} {s s' : σ} {bs rest : List β}
    (h : F.Halts act s bs s' rest) (cs : List β) :
    F.Halts act s (bs ++ cs) s' (rest ++ cs) := by
  cases h with
  | bad hbad => exact .bad (F.bad_append cs hbad)
  | item hnext hact => exact .item (F.item_append cs hnext) hact

variable {F} in
/-- Where an item is, the loop stops at that item. -/
theorem Halts.of_item {act : σ → μ → Flow σ} {s s' : σ} {bs rest rest' : List β} {m : μ}
    (h : F.Halts act s bs s' rest') (hnext : F.next bs = .item m rest) :
    act s m = .stop s' ∧ rest' = rest := by
  cases h with
  | bad hbad => simp [hnext] at hbad
  | item hnext' hact =>
      rw [hnext, Next.item.injEq] at hnext'
      obtain ⟨rfl, rfl⟩ := hnext'
      exact ⟨hact, rfl⟩

theorem drainUpTo_stop_iff {act : σ → μ → Flow σ} {fuel : Nat} {s s' : σ} {bs rest' : List β}
    (hfuel : bs.length < fuel) :
    F.drainUpTo act fuel s bs = .stop (s', rest') ↔
      ∃ ms rest s₁, F.Parses bs ms rest ∧ acts act s ms = .go s₁ ∧ F.Halts act s₁ rest s' rest' := by
  induction fuel generalizing s bs with
  | zero => omega
  | succ fuel ih =>
      cases hnext : F.next bs with
      | more =>
          simp only [drainUpTo, hnext, reduceCtorEq, false_iff]
          rintro ⟨ms, rest, s₁, hparses, -, hhalts⟩
          obtain ⟨-, rfl⟩ := hparses.of_not_item (by simp [hnext])
          cases hhalts with
          | bad hbad => simp [hnext] at hbad
          | item hnext' _ => simp [hnext] at hnext'
      | bad =>
          simp only [drainUpTo, hnext, Flow.stop.injEq, Prod.mk.injEq]
          constructor
          · rintro ⟨rfl, rfl⟩
            exact ⟨[], bs, s, .nil bs, rfl, .bad hnext⟩
          · rintro ⟨ms, rest, s₁, hparses, hacts, hhalts⟩
            obtain ⟨rfl, rfl⟩ := hparses.of_not_item (by simp [hnext])
            cases hacts
            cases hhalts with
            | bad _ => exact ⟨rfl, rfl⟩
            | item hnext' _ => simp [hnext] at hnext'
      | item m rest₁ =>
          have hlt := F.item_lt hnext
          cases hact : act s m with
          | go s₂ =>
              simp only [drainUpTo, hnext, hact]
              rw [ih (by omega)]
              constructor
              · rintro ⟨ms, rest, s₁, hparses, hacts, hhalts⟩
                exact ⟨m :: ms, rest, s₁, .cons hnext hparses, by rw [acts, hact]; exact hacts,
                  hhalts⟩
              · rintro ⟨ms, rest, s₁, hparses, hacts, hhalts⟩
                rcases hparses.of_item hnext with ⟨rfl, rfl⟩ | ⟨ms₁, rfl, hparses₁⟩
                · cases hacts
                  have hstop := (hhalts.of_item hnext).1
                  rw [hact] at hstop
                  cases hstop
                · rw [acts, hact] at hacts
                  exact ⟨ms₁, rest, s₁, hparses₁, hacts, hhalts⟩
          | stop s₂ =>
              simp only [drainUpTo, hnext, hact, Flow.stop.injEq, Prod.mk.injEq]
              constructor
              · rintro ⟨rfl, rfl⟩
                exact ⟨[], bs, s, .nil bs, rfl, .item hnext hact⟩
              · rintro ⟨ms, rest, s₁, hparses, hacts, hhalts⟩
                rcases hparses.of_item hnext with ⟨rfl, rfl⟩ | ⟨ms₁, rfl, -⟩
                · cases hacts
                  obtain ⟨hstop, rfl⟩ := hhalts.of_item hnext
                  rw [hact, Flow.stop.injEq] at hstop
                  exact ⟨hstop, rfl⟩
                · rw [acts, hact] at hacts
                  cases hacts

/-- The loop stops exactly behind the items that let it go on. -/
theorem drain_stop_iff {act : σ → μ → Flow σ} {s s' : σ} {bs rest' : List β} :
    F.drain act s bs = .stop (s', rest') ↔
      ∃ ms rest s₁, F.Parses bs ms rest ∧ acts act s ms = .go s₁ ∧ F.Halts act s₁ rest s' rest' :=
  F.drainUpTo_stop_iff (Nat.lt_succ_self bs.length)

/-- What follows the place where the loop stops is not looked at. -/
theorem drain_stop_append {act : σ → μ → Flow σ} {s s' : σ} {bs rest : List β}
    (h : F.drain act s bs = .stop (s', rest)) (cs : List β) :
    F.drain act s (bs ++ cs) = .stop (s', rest ++ cs) := by
  obtain ⟨ms, rest₁, s₁, hparses, hacts, hhalts⟩ := F.drain_stop_iff.mp h
  exact F.drain_stop_iff.mpr ⟨ms, rest₁ ++ cs, s₁, hparses.append cs, hacts, hhalts.append cs⟩

/-! ## The log of the loop -/

theorem drainUpTo_map {act : σ → μ → Flow σ} {act' : τ → μ → Flow τ} {f : σ → τ}
    (h : ∀ s m, act' (f s) m = (act s m).map f) (fuel : Nat) (s : σ) (bs : List β) :
    F.drainUpTo act' fuel (f s) bs = (F.drainUpTo act fuel s bs).map fun p => (f p.1, p.2) := by
  induction fuel generalizing s bs with
  | zero => rfl
  | succ fuel ih =>
      rw [drainUpTo, drainUpTo]
      cases F.next bs with
      | more => rfl
      | bad => rfl
      | item m rest =>
          simp only [h]
          cases act s m with
          | go s' => exact ih s' rest
          | stop s' => rfl

theorem drain_map {act : σ → μ → Flow σ} {act' : τ → μ → Flow τ} {f : σ → τ}
    (h : ∀ s m, act' (f s) m = (act s m).map f) (s : σ) (bs : List β) :
    F.drain act' (f s) bs = (F.drain act s bs).map fun p => (f p.1, p.2) :=
  F.drainUpTo_map h _ s bs

/-- What an observer of the loop sees. -/
def log (obs : σ → μ → List ω) (act : σ → μ → Flow σ) (s : σ) (bs : List β) : List ω :=
  (F.drain (logged obs act) (s, []) bs).state.1.2

/-- The loop with a log is the loop, and the log. -/
theorem drain_logged (obs : σ → μ → List ω) (act : σ → μ → Flow σ) (s : σ) (l : List ω)
    (bs : List β) :
    F.drain (logged obs act) (s, l) bs =
      (F.drain act s bs).map fun p => ((p.1, l ++ F.log obs act s bs), p.2) := by
  have hfst := F.drain_map (logged_fst obs act) (s, []) bs
  have hlog := F.drain_map (logged_log obs act l) (s, []) bs
  rw [List.append_nil] at hlog
  rw [hlog, log]
  dsimp only at hfst
  rw [hfst]
  cases F.drain (logged obs act) (s, []) bs <;> rfl

/-! ## How far a stream parses -/

/-- Every stream starts with items up to where there is no item any more. -/
theorem exists_parses (bs : List β) :
    ∃ ms rest, F.Parses bs ms rest ∧ ∀ m rest', F.next rest ≠ .item m rest' := by
  induction hn : bs.length using Nat.strong_induction_on generalizing bs with
  | _ n ih =>
      cases hnext : F.next bs with
      | more => exact ⟨[], bs, .nil bs, by simp [hnext]⟩
      | bad => exact ⟨[], bs, .nil bs, by simp [hnext]⟩
      | item m rest =>
          have hlt := F.item_lt hnext
          obtain ⟨ms, rest', hparses, hend⟩ := ih rest.length (by omega) rest rfl
          exact ⟨m :: ms, rest', .cons hnext hparses, hend⟩

variable {F} in
/-- No parse of the stream goes further than that. -/
theorem Parses.prefix {bs rest rest' : List β} {ms ms' : List μ} (h : F.Parses bs ms rest)
    (hend : ∀ m rest', F.next rest ≠ .item m rest') (h' : F.Parses bs ms' rest') :
    ms' <+: ms := by
  induction h' generalizing ms with
  | nil bs => exact List.nil_prefix
  | cons hnext _ ih =>
      cases h with
      | nil => exact absurd hnext (hend _ _)
      | cons hnext' hparses =>
          rw [hnext, Next.item.injEq] at hnext'
          obtain ⟨rfl, rfl⟩ := hnext'
          exact List.prefix_cons_inj _ |>.mpr (ih hparses)

/-! ## Receivers that have stopped -/

/-- The receiver has acted on the items at the front of the stream, and what
comes then has stopped it. -/
def Ends (act : σ → μ → Flow σ) (tidy : σ → σ) (s₀ : σ) (stream : List β) (s : σ) : Prop :=
  ∃ ms rest s₁ rest', F.Parses stream ms rest ∧ Led act tidy s₀ ms s₁ ∧
    F.Halts act s₁ rest s rest'

theorem ends_append {act : σ → μ → Flow σ} {tidy : σ → σ} {s₀ s : σ} {stream : List β}
    (h : F.Ends act tidy s₀ stream s) (cs : List β) : F.Ends act tidy s₀ (stream ++ cs) s := by
  obtain ⟨ms, rest, s₁, rest', hparses, hled, hhalts⟩ := h
  exact ⟨ms, rest ++ cs, s₁, rest' ++ cs, hparses.append cs, hled, hhalts.append cs⟩

variable {F} in
/-- The rest of a stream of whole items is whole items. -/
theorem Parses.rest {bs rest : List β} {ms ms' : List μ} (h : F.Parses bs ms [])
    (h' : F.Parses bs ms' rest) : ∃ ns, ms = ms' ++ ns ∧ F.Parses rest ns [] := by
  induction h' generalizing ms with
  | nil bs => exact ⟨ms, rfl, h⟩
  | cons hnext _ ih =>
      cases h with
      | nil =>
          rw [F.next_nil] at hnext
          cases hnext
      | cons hnext' hparses =>
          rw [hnext, Next.item.injEq] at hnext'
          obtain ⟨rfl, rfl⟩ := hnext'
          obtain ⟨ns, rfl, hns⟩ := ih hparses
          exact ⟨ns, rfl, hns⟩

/-- Of whole items, only an item stops the receiver, and then the loop that
it simulates stops there too. -/
theorem ends_simulation {act : σ → μ → Flow σ} {act' : τ → μ → Flow τ} {tidy : σ → σ}
    {R : σ → τ → Prop} (hact : ∀ s t m, R s t → Flow.Rel R (act s m) (act' t m))
    (htidy : ∀ s t, R s t → R (tidy s) t) {s₀ s : σ} {t₀ : τ} {stream : List β} {ms : List μ}
    (h₀ : R s₀ t₀) (hms : F.Parses stream ms []) (h : F.Ends act tidy s₀ stream s) :
    ∃ t, acts act' t₀ ms = .stop t ∧ R s t := by
  obtain ⟨ms', rest, s₁, rest', hparses, hled, hhalts⟩ := h
  obtain ⟨ns, rfl, hns⟩ := hms.rest hparses
  obtain ⟨t₁, ht₁, hR₁⟩ := led_simulation hact htidy h₀ hled
  rw [acts_append, ht₁]
  cases hhalts with
  | bad hbad =>
      cases hns with
      | nil =>
          rw [F.next_nil] at hbad
          cases hbad
      | cons hnext _ => simp [hbad] at hnext
  | @item m rest₁ _ hnext hstop =>
      cases hns with
      | nil =>
          rw [F.next_nil] at hnext
          cases hnext
      | cons hnext' _ =>
          rw [hnext, Next.item.injEq] at hnext'
          obtain ⟨rfl, rfl⟩ := hnext'
          have hrel := hact _ _ m hR₁
          rw [hstop] at hrel
          generalize hr : act' t₁ m = r at hrel
          cases hrel with
          | stop hR => exact ⟨_, by simp only [acts, hr], hR⟩

/-- A read that stops the loop. -/
theorem ends_read {act : σ → μ → Flow σ} {tidy : σ → σ} {s₀ s s' : σ}
    {stream buf chunk rest : List β} (h : F.Tracks act tidy s₀ stream s buf)
    (hdrain : F.drain act s (buf ++ chunk) = .stop (s', rest)) :
    F.Ends act tidy s₀ (stream ++ chunk) s' := by
  obtain ⟨ms, hparses, -, hled⟩ := h
  obtain ⟨ns, rest₁, s₁, hparses', hacts, hhalts⟩ := F.drain_stop_iff.mp hdrain
  exact ⟨ms ++ ns, rest₁, s₁, rest, (hparses.append chunk).trans hparses', led_acts hled hacts,
    hhalts⟩

end Framing
end Base
