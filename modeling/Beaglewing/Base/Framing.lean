/-
# `Base.Framing` — a decoder that is fed a stream in pieces

A receiver keeps an accumulator, appends what each read gives it, and takes
complete items off the front for as long as there are any.  `Framing` is a
decoder for which this makes sense: what it says of the front of a buffer,
an item or an error, it still says when more bytes follow.

`drain` is the loop between two reads.  It acts on exactly the items the
buffer parses into (`drain_go_iff`), so a receiver that keeps the rest has,
after any sequence of reads, acted on the items of everything it was sent
and on nothing else (`tracks_read`).  Once it has been sent whole items, how
they were cut can be seen no more (`tracks_whole`).
-/
import Mathlib

namespace Base

/-- What a decoder finds at the front of its buffer. -/
inductive Next (β μ : Type) where
  | more
  | bad
  | item (m : μ) (rest : List β)

structure Framing (β μ : Type) where
  next : List β → Next β μ
  next_nil : next [] = .more
  item_lt : ∀ {bs m rest}, next bs = .item m rest → rest.length < bs.length
  item_append : ∀ {bs m rest} (cs), next bs = .item m rest → next (bs ++ cs) = .item m (rest ++ cs)
  bad_append : ∀ {bs} (cs), next bs = .bad → next (bs ++ cs) = .bad

/-- Go on, or leave the loop. -/
inductive Flow (σ : Type) where
  | go (s : σ)
  | stop (s : σ)
  deriving DecidableEq

/-- A list of items, as long as each of them lets the loop go on. -/
def acts {σ μ : Type} (act : σ → μ → Flow σ) (s : σ) : List μ → Flow σ
  | [] => .go s
  | m :: ms =>
      match act s m with
      | .go s' => acts act s' ms
      | .stop s' => .stop s'

/-! ## What a receiver has acted on

Between two reads a receiver may do something of its own, `tidy`.  `Led` is
what it has become after some items, with any tidying in between. -/

section Led
variable {σ μ : Type}

inductive Led (act : σ → μ → Flow σ) (tidy : σ → σ) (s₀ : σ) : List μ → σ → Prop
  | start : Led act tidy s₀ [] s₀
  | act {ms : List μ} {m : μ} {s s' : σ} :
      Led act tidy s₀ ms s → act s m = .go s' → Led act tidy s₀ (ms ++ [m]) s'
  | tidy {ms : List μ} {s : σ} : Led act tidy s₀ ms s → Led act tidy s₀ ms (tidy s)

variable {act : σ → μ → Flow σ} {tidy : σ → σ} {s₀ : σ}

theorem led_acts {ms ns : List μ} {s s' : σ} (h : Led act tidy s₀ ms s)
    (hacts : acts act s ns = .go s') : Led act tidy s₀ (ms ++ ns) s' := by
  induction ns generalizing ms s with
  | nil =>
      cases hacts
      rw [List.append_nil]
      exact h
  | cons n ns ih =>
      cases hact : act s n with
      | go s₁ =>
          rw [acts, hact] at hacts
          have := ih (.act h hact) hacts
          rwa [List.append_assoc] at this
      | stop s₁ =>
          rw [acts, hact] at hacts
          cases hacts

/-- What the start has, and tidying keeps, a receiver without items has. -/
theorem led_nil {Q : σ → Prop} (htidy : ∀ s, Q s → Q (tidy s)) (hstart : Q s₀) {s : σ}
    (h : Led act tidy s₀ [] s) : Q s := by
  generalize hms : ([] : List μ) = ms at h
  induction h with
  | start => exact hstart
  | act _ _ _ => exact absurd hms (by simp)
  | tidy _ ih => exact htidy _ (ih hms)

/-- What the last item brings about, and tidying keeps, the receiver has. -/
theorem led_snoc {Q : σ → Prop} (htidy : ∀ s, Q s → Q (tidy s)) {ms : List μ} {m : μ}
    (hlast : ∀ s s', Led act tidy s₀ ms s → act s m = .go s' → Q s') {s : σ}
    (h : Led act tidy s₀ (ms ++ [m]) s) : Q s := by
  generalize hns : ms ++ [m] = ns at h
  induction h with
  | start => exact absurd hns (by simp)
  | act hled hact _ =>
      obtain ⟨rfl, hm⟩ := List.append_inj' hns rfl
      cases hm
      exact hlast _ _ hled hact
  | tidy _ ih => exact htidy _ (ih hns)

end Led

namespace Framing
variable {β μ σ : Type} (F : Framing β μ)

/-! ## Streams -/

/-- The stream starts with the items, and then comes the rest. -/
inductive Parses : List β → List μ → List β → Prop
  | nil (bs : List β) : Parses bs [] bs
  | cons {bs rest rest' : List β} {m : μ} {ms : List μ} :
      F.next bs = .item m rest → Parses rest ms rest' → Parses bs (m :: ms) rest'

namespace Parses
variable {F}

theorem append {bs rest : List β} {ms : List μ} (h : F.Parses bs ms rest) (cs : List β) :
    F.Parses (bs ++ cs) ms (rest ++ cs) := by
  induction h with
  | nil bs => exact .nil (bs ++ cs)
  | cons hnext _ ih => exact .cons (F.item_append cs hnext) ih

theorem trans {bs cs ds : List β} {ms ns : List μ} (h : F.Parses bs ms cs)
    (h' : F.Parses cs ns ds) : F.Parses bs (ms ++ ns) ds := by
  induction h with
  | nil bs => exact h'
  | cons hnext _ ih => exact .cons hnext (ih h')

/-- A stream that starts with an item parses as nothing, or as that item and
what follows it. -/
theorem of_item {bs rest₁ rest : List β} {m : μ} {ms : List μ} (h : F.Parses bs ms rest)
    (hnext : F.next bs = .item m rest₁) :
    (ms = [] ∧ rest = bs) ∨ ∃ ms₁, ms = m :: ms₁ ∧ F.Parses rest₁ ms₁ rest := by
  cases h with
  | nil => exact .inl ⟨rfl, rfl⟩
  | cons hnext' hparses =>
      rw [hnext, Next.item.injEq] at hnext'
      obtain ⟨rfl, rfl⟩ := hnext'
      exact .inr ⟨_, rfl, hparses⟩

theorem of_not_item {bs rest : List β} {ms : List μ} (h : F.Parses bs ms rest)
    (hnext : ∀ m rest₁, F.next bs ≠ .item m rest₁) : ms = [] ∧ rest = bs := by
  cases h with
  | nil => exact ⟨rfl, rfl⟩
  | cons hnext' _ => exact absurd hnext' (hnext _ _)

/-- A stream parses in one way, up to where the parser has to wait. -/
theorem unique {bs rest rest' : List β} {ms ms' : List μ} (h : F.Parses bs ms rest)
    (h' : F.Parses bs ms' rest') (hrest : F.next rest = .more) (hrest' : F.next rest' = .more) :
    ms = ms' ∧ rest = rest' := by
  induction h generalizing ms' with
  | nil bs =>
      cases h' with
      | nil => exact ⟨rfl, rfl⟩
      | cons hnext _ => simp [hrest] at hnext
  | @cons bs rest₁ rest m ms hnext _ ih =>
      rcases h'.of_item hnext with ⟨-, rfl⟩ | ⟨ms₁, rfl, hparses⟩
      · simp [hrest'] at hnext
      · obtain ⟨rfl, rfl⟩ := ih hparses hrest
        exact ⟨rfl, rfl⟩

end Parses

/-! ## The loop between two reads -/

/-- `drain`, on a counter that bounds the number of items. -/
def drainUpTo (act : σ → μ → Flow σ) : Nat → σ → List β → Flow (σ × List β)
  | 0, s, bs => .go (s, bs)
  | fuel + 1, s, bs =>
      match F.next bs with
      | .more => .go (s, bs)
      | .bad => .stop (s, bs)
      | .item m rest =>
          match act s m with
          | .go s' => drainUpTo act fuel s' rest
          | .stop s' => .stop (s', rest)

/-- Take items off the front of the buffer until there is no complete one.
An item shortens the buffer, so the counter never runs out. -/
def drain (act : σ → μ → Flow σ) (s : σ) (bs : List β) : Flow (σ × List β) :=
  F.drainUpTo act (bs.length + 1) s bs

/-- The loop goes on exactly when every item of the buffer lets it, and it
leaves what is not yet an item. -/
theorem drainUpTo_go_iff {act : σ → μ → Flow σ} {fuel : Nat} {s s' : σ} {bs rest : List β}
    (hfuel : bs.length < fuel) :
    F.drainUpTo act fuel s bs = .go (s', rest) ↔
      ∃ ms, F.Parses bs ms rest ∧ F.next rest = .more ∧ acts act s ms = .go s' := by
  induction fuel generalizing s bs with
  | zero => omega
  | succ fuel ih =>
      cases hnext : F.next bs with
      | more =>
          simp only [drainUpTo, hnext, Flow.go.injEq, Prod.mk.injEq]
          constructor
          · rintro ⟨rfl, rfl⟩
            exact ⟨[], .nil bs, hnext, rfl⟩
          · rintro ⟨ms, hparses, -, hacts⟩
            obtain ⟨rfl, rfl⟩ := hparses.of_not_item (by simp [hnext])
            cases hacts
            exact ⟨rfl, rfl⟩
      | bad =>
          simp only [drainUpTo, hnext, reduceCtorEq, false_iff]
          rintro ⟨ms, hparses, hmore, -⟩
          obtain ⟨rfl, rfl⟩ := hparses.of_not_item (by simp [hnext])
          simp [hnext] at hmore
      | item m rest₁ =>
          have hlt := F.item_lt hnext
          have hcons : ∀ ms, F.Parses bs ms rest → F.next rest = .more →
              ∃ ms₁, ms = m :: ms₁ ∧ F.Parses rest₁ ms₁ rest := by
            intro ms hparses hmore
            rcases hparses.of_item hnext with ⟨-, rfl⟩ | hcons
            · simp [hnext] at hmore
            · exact hcons
          cases hact : act s m with
          | go s₁ =>
              simp only [drainUpTo, hnext, hact]
              rw [ih (by omega)]
              constructor
              · rintro ⟨ms, hparses, hmore, hacts⟩
                exact ⟨m :: ms, .cons hnext hparses, hmore, by rw [acts, hact]; exact hacts⟩
              · rintro ⟨ms, hparses, hmore, hacts⟩
                obtain ⟨ms₁, rfl, hparses₁⟩ := hcons ms hparses hmore
                rw [acts, hact] at hacts
                exact ⟨ms₁, hparses₁, hmore, hacts⟩
          | stop s₁ =>
              simp only [drainUpTo, hnext, hact, reduceCtorEq, false_iff]
              rintro ⟨ms, hparses, hmore, hacts⟩
              obtain ⟨ms₁, rfl, -⟩ := hcons ms hparses hmore
              rw [acts, hact] at hacts
              cases hacts

theorem drain_go_iff {act : σ → μ → Flow σ} {s s' : σ} {bs rest : List β} :
    F.drain act s bs = .go (s', rest) ↔
      ∃ ms, F.Parses bs ms rest ∧ F.next rest = .more ∧ acts act s ms = .go s' :=
  F.drainUpTo_go_iff (Nat.lt_succ_self bs.length)

/-! ## Reads -/

/-- The receiver has been sent the stream: it has acted on the items, and
keeps what is not yet an item. -/
def Tracks (act : σ → μ → Flow σ) (tidy : σ → σ) (s₀ : σ) (stream : List β) (s : σ)
    (buf : List β) : Prop :=
  ∃ ms, F.Parses stream ms buf ∧ F.next buf = .more ∧ Led act tidy s₀ ms s

theorem tracks_start (act : σ → μ → Flow σ) (tidy : σ → σ) (s₀ : σ) :
    F.Tracks act tidy s₀ [] s₀ [] :=
  ⟨[], .nil [], F.next_nil, .start⟩

/-- A read that lets the loop go on. -/
theorem tracks_read {act : σ → μ → Flow σ} {tidy : σ → σ} {s₀ s s' : σ}
    {stream buf chunk rest : List β} (h : F.Tracks act tidy s₀ stream s buf)
    (hdrain : F.drain act s (buf ++ chunk) = .go (s', rest)) :
    F.Tracks act tidy s₀ (stream ++ chunk) (tidy s') rest := by
  obtain ⟨ms, hparses, -, hled⟩ := h
  obtain ⟨ns, hparses', hmore, hacts⟩ := F.drain_go_iff.mp hdrain
  exact ⟨ms ++ ns, (hparses.append chunk).trans hparses', hmore, .tidy (led_acts hled hacts)⟩

/-- A receiver that has been sent whole items has acted on them all. -/
theorem tracks_whole {act : σ → μ → Flow σ} {tidy : σ → σ} {s₀ s : σ} {stream buf : List β}
    {ms : List μ} (h : F.Tracks act tidy s₀ stream s buf) (hms : F.Parses stream ms []) :
    Led act tidy s₀ ms s := by
  obtain ⟨ns, hparses, hmore, hled⟩ := h
  obtain ⟨rfl, rfl⟩ := hparses.unique hms hmore F.next_nil
  exact hled

end Framing
end Base
