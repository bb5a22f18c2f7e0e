/-
# `Agents.Offers` — which files the Linux agent pushes

An offer is held from the copy of its files until a push of them succeeds, or
a copy that comes later takes its place.  What takes its place is an event of
the main loop; the clipboard changes before, when the user copies or the
agent sets what it has received, and the event comes when the watcher has
read it, if it comes at all:

| the content on the clipboard | the offer held |
| :-- | :-- |
| is not read yet, or waits in the queue | of before |
| cannot be read, or has the hash that was read last | of before |
| is handled, and ignored: it was last sent or set, or its files are gone | of before |
| is handled, and offered or sent | its own, or none |

The signature of files has their relative names and sizes only, so files of
the same names and sizes elsewhere are read as the ones before.

    where an offer is passed by, it has the   what is pushed is what is on the
    files that passed it                      clipboard   (`pushed_fresh`)
    in general                                it can be a batch the user has
                                              replaced   (`stale_push`)

`Superseding` says where an offer can be passed by: at a push, as long as the
loop has handled no event of the content (`Behind`); and when it handles the
last one without acting on it (`PassesBy`).

## What it is not

What is compared is the path list of the content with the paths of the offer,
not the files: that what a path leads to is as it was when the user copied it
is not claimed.  A push that fails is a push.
-/
import Beaglewing.Agents.Threads

namespace Beaglewing.Agents.Linux

open Base Clipframe Files

/-! ## What the watcher has queued -/

/-- The events queued so far, in their order. -/
def System.events (s : System) : List Item := s.handled.map Prod.snd ++ s.queue

/-- Events of the watcher come in the order of the contents, and those of the
last one have what is on the clipboard. -/
structure Watched (s : System) : Prop where
  source : ∀ x ∈ s.events, ∀ kind content h, x.ev = .local kind content h →
    ∃ n, x.source = .watcher n
  bound : ∀ x ∈ s.events, ∀ n, x.source = .watcher n → n ≤ s.number
  current : ∀ x ∈ s.events, x.source = .watcher s.number → ∃ kind content h,
    x.ev = .local kind content h ∧ payload s.clip = some (kind, content)
  order : s.events.Pairwise fun x y => ∀ m n, x.source = .watcher m → y.source = .watcher n → m ≤ n

theorem watched_init (a : Agent) (fs : Fs) (clip : Selection) : Watched (.init a fs clip) where
  source x h := by cases h
  bound x h := by cases h
  current x h := by cases h
  order := List.Pairwise.nil

section Watched
variable {tar : TarCrate} {stageRoot : Path} {s s' : System}

/-- Nothing is queued, and the clipboard keeps its content or gets a new one. -/
theorem Watched.same (h : Watched s) (hevents : s'.events = s.events)
    (hclip : s'.number = s.number ∧ s'.clip = s.clip ∨ s'.number = s.number + 1) : Watched s' where
  source := by
    rw [hevents]
    exact h.source
  bound x hx n hn := by
    rw [hevents] at hx
    have := h.bound x hx n hn
    rcases hclip with ⟨hnum, -⟩ | hnum <;> omega
  current x hx hn := by
    rw [hevents] at hx
    rcases hclip with ⟨hnum, hclip⟩ | hnum
    · rw [hnum] at hn
      rw [hclip]
      exact h.current x hx hn
    · have := h.bound x hx _ hn
      omega
  order := by
    rw [hevents]
    exact h.order

/-- An event is queued: of the content on the clipboard, or by another thread. -/
theorem Watched.push (h : Watched s) {ev : Ev} {source : Source}
    (hevents : s'.events = s.events ++ [⟨ev, source⟩]) (hnumber : s'.number = s.number)
    (hclip : s'.clip = s.clip)
    (hsource : (∀ n, source = .watcher n → n = s.number) ∧
      (source = .watcher s.number → ∃ kind content h,
        ev = .local kind content h ∧ payload s.clip = some (kind, content)) ∧
      ∀ kind content h, ev = .local kind content h → source = .watcher s.number) :
    Watched s' := by
  obtain ⟨hnow, hcurrent, hlocal⟩ := hsource
  refine ⟨?_, ?_, ?_, ?_⟩
  · rw [hevents]
    intro x hx kind content y hev
    rcases List.mem_append.mp hx with hx | hx
    · exact h.source x hx kind content y hev
    · rw [List.mem_singleton.mp hx] at hev ⊢
      exact ⟨_, hlocal kind content y hev⟩
  · rw [hevents, hnumber]
    intro x hx n hn
    rcases List.mem_append.mp hx with hx | hx
    · exact h.bound x hx n hn
    · rw [List.mem_singleton.mp hx] at hn
      exact Nat.le_of_eq (hnow n hn)
  · rw [hevents, hnumber, hclip]
    intro x hx hn
    rcases List.mem_append.mp hx with hx | hx
    · exact h.current x hx hn
    · rw [List.mem_singleton.mp hx] at hn ⊢
      exact hcurrent hn
  · rw [hevents]
    refine List.pairwise_append.mpr ⟨h.order, List.pairwise_singleton _ _, ?_⟩
    intro x hx y hy m n hm hn
    rw [List.mem_singleton.mp hy] at hn
    rw [hnow n hn]
    exact h.bound x hx m hm

theorem Watched.push_other (h : Watched s) {ev : Ev} {source : Source}
    (hevents : s'.events = s.events ++ [⟨ev, source⟩]) (hnumber : s'.number = s.number)
    (hclip : s'.clip = s.clip) (hev : ∀ kind content h, ev ≠ .local kind content h)
    (hsource : ∀ n, source ≠ .watcher n) : Watched s' :=
  h.push hevents hnumber hclip
    ⟨fun n hn => absurd hn (hsource n), fun hn => absurd hn (hsource _),
      fun k c y hk => absurd hk (hev k c y)⟩

theorem System.push_events (s : System) (ev : Ev) (source : Source) :
    (s.push ev source).events = s.events ++ [⟨ev, source⟩] :=
  (List.append_assoc _ _ _).symm

/-- The event handled is taken from the queue. -/
theorem after_events {i : Nat} {item : Item} {rest : List Item} {o : Outcome}
    (hqueue : s.queue = item :: rest) : (s.after i item rest o).events = s.events := by
  simp [System.events, System.after, hqueue]

/-- A handler leaves the clipboard, or sets it. -/
theorem after_clip (i : Nat) (item : Item) (rest : List Item) (o : Outcome) :
    (s.after i item rest o).number = s.number ∧ (s.after i item rest o).clip = s.clip ∨
      (s.after i item rest o).number = s.number + 1 := by
  cases hset : clipSet o.effects with
  | none => exact Or.inl (by simp [System.after, hset])
  | some x => exact Or.inr (by simp [System.after, hset])

theorem Watched.step {act : Act} (h : Watched s)
    (hs : (threads tar stageRoot).step s act = some s') : Watched s' := by
  cases act with
  | copy sel =>
      cases hs
      exact h.same rfl (Or.inr rfl)
  | files fs =>
      cases hs
      exact h.same rfl (Or.inl ⟨rfl, rfl⟩)
  | watch =>
      cases hs
      rcases watch_cases s with hw | ⟨kind, content, hash, hread, -, hw⟩
      · rw [hw]
        exact h
      · rw [hw]
        have hpayload := (readLocalClipboard_eq_some.mp hread).1
        refine h.push (System.push_events _ _ _) rfl rfl ⟨?_, ?_, ?_⟩
        · intro n hn
          cases hn
          rfl
        · intro _
          exact ⟨kind, content, hash, rfl, hpayload⟩
        · intro _ _ _ _
          rfl
  | control msg =>
      cases hs
      exact h.push_other (s.push_events _ _) rfl rfl (fun _ _ _ h => by cases h)
        (fun _ h => by cases h)
  | timer =>
      cases hs
      exact h.push_other (s.push_events _ _) rfl rfl (fun _ _ _ h => by cases h)
        (fun _ h => by cases h)
  | connect =>
      obtain ⟨-, rfl⟩ := connect_eq_some hs
      exact h.same rfl (Or.inl ⟨rfl, rfl⟩)
  | read i f =>
      obtain ⟨-, rfl | rfl⟩ := read_eq_some hs
      · exact h
      · exact h.push_other (s.push_events _ _) rfl rfl (fun _ _ _ h => by cases h)
          (fun _ h => by cases h)
  | hangUp i =>
      obtain ⟨-, rfl⟩ := hangUp_eq_some hs
      exact h.push_other (System.push_events _ _ _) rfl rfl (fun _ _ _ h => by cases h)
        (fun _ h => by cases h)
  | main ans =>
      obtain ⟨i, item, rest, o, -, hqueue, -, rfl⟩ := main_eq_some hs
      exact h.same (after_events hqueue) (after_clip i item rest o)

end Watched

/-! ## Where an offer is passed by -/

/-- The paths are the path list of the content. -/
def Fresh (paths : List Path) (clip : Option (UInt8 × List UInt8)) : Prop :=
  ∃ content, clip = some (kindTar, content) ∧ paths = parseFileList content

/-- What is offered, if anything, are the files of that content. -/
def Agent.Offers (a : Agent) (clip : Option (UInt8 × List UInt8)) : Prop :=
  ∀ lo, a.localOffer = some lo → Fresh lo.paths clip

/-- No event of the content on the clipboard has been handled, or one waits. -/
def System.Behind (s : System) : Prop :=
  (∀ x ∈ s.handled, x.2.source ≠ .watcher s.number) ∨ ∃ x ∈ s.queue, x.source = .watcher s.number

/-- The event asks for the files offered. -/
def Agent.Asked (a : Agent) (recv : Reassembler) : Ev → Prop
  | .control msg => msg = "remote" ∨ msg = "pull"
  | .frame f => ∃ lo, a.localOffer = some lo ∧ (recv.feed f).2 = .pull lo.id
  | _ => False

/-- The event leaves the offer as it is: it is ignored, or its OFFER is not
written. -/
def Agent.PassesBy (a : Agent) (fs : Fs) (ans : Answers) : Ev → Prop
  | .local kind content h => a.Ignores fs kind content h ∨ kind = kindTar ∧ ans.wrote = false
  | _ => False

/-- An offer asked for when the loop is behind the clipboard, or left as it is by
the last event of what is there, has the files of what is there. -/
def Superseding (s : System) : Act → Prop
  | .main ans => ∀ item rest, s.queue = item :: rest →
      (s.Behind → s.agent.Asked s.recv item.ev → s.agent.Offers (payload s.clip)) ∧
        (item.source = .watcher s.number → (∀ x ∈ rest, x.source ≠ .watcher s.number) →
          s.agent.PassesBy s.fs ans item.ev → s.agent.Offers (payload s.clip))
  | _ => True

/-! ## The offer held is that of the clipboard -/

/-- A loop that is not behind holds the offer of what is on the clipboard. -/
def System.UpToDate (s : System) : Prop := ¬ s.Behind → s.agent.Offers (payload s.clip)

theorem Agent.Offers.of_localOffer {a a' : Agent} {clip : Option (UInt8 × List UInt8)}
    (h : a.Offers clip) (hlo : a'.localOffer = none ∨ a'.localOffer = a.localOffer) :
    a'.Offers clip := by
  intro lo hlo'
  rcases hlo with hlo | hlo
  · rw [hlo] at hlo'
    cases hlo'
  · exact h lo (hlo ▸ hlo')

section Step
variable {tar : TarCrate} {stageRoot : Path} {s s' : System} {i : Nat} {item : Item}
  {rest : List Item} {ans : Answers} {o : Outcome}

/-- A loop that was behind still is. -/
theorem System.UpToDate.of_behind (h : s.UpToDate) (hbehind : s.Behind → s'.Behind)
    (hagent : s'.agent = s.agent) (hclip : s'.clip = s.clip) : s'.UpToDate := by
  intro hnot
  rw [hagent, hclip]
  exact h fun hb => hnot (hbehind hb)

theorem System.Behind.push {ev : Ev} {source : Source} (hqueue : s'.queue = s.queue ++ [⟨ev, source⟩])
    (hhandled : s'.handled = s.handled) (hnumber : s'.number = s.number) (h : s.Behind) :
    s'.Behind := by
  unfold System.Behind
  rw [hqueue, hhandled, hnumber]
  refine h.imp_right ?_
  rintro ⟨x, hx, hn⟩
  exact ⟨x, List.mem_append_left _ hx, hn⟩

/-- The loop is behind a content that is new. -/
theorem Watched.behind_new (h : Watched s) (hevents : s'.events = s.events)
    (hnumber : s'.number = s.number + 1) : s'.Behind := by
  left
  intro x hx hn
  have hx' : x.2 ∈ s.events := hevents ▸ List.mem_append_left _ (List.mem_map_of_mem hx)
  have := h.bound x.2 hx' _ hn
  omega

/-- A copy that does not pass the offer by takes its place. -/
theorem offers_of_local {kind : UInt8} {content : List UInt8} {hash : UInt64}
    (h : handle tar stageRoot s.agent s.recv s.fs (.local kind content hash) ans = some o)
    (hC : s.agent.PassesBy s.fs ans (.local kind content hash) →
      s.agent.Offers (some (kind, content))) :
    o.agent.Offers (some (kind, content)) := by
  rcases onLocal_cases h with ⟨hig, rfl⟩ | ⟨-, rfl, offer, -, rfl⟩ | ⟨-, -, r, -, rfl⟩
  · exact hC (Or.inl hig)
  · cases hw : ans.wrote with
    | true =>
        intro lo hlo
        cases hlo
        exact ⟨content, rfl, rfl⟩
    | false => exact hC (Or.inr ⟨rfl, hw⟩)
  · intro lo hlo
    cases hlo

/-- The event of an older content leaves the loop behind, as it was. -/
theorem Watched.behind_old (h : Watched s) (hqueue : s.queue = item :: rest) {n : Nat}
    (hn : item.source = .watcher n) (hne : n ≠ s.number)
    (hnumber : (s.after i item rest o).number = s.number) : (s.after i item rest o).Behind := by
  have hitem : item ∈ s.events := List.mem_append_right _ (hqueue ▸ List.mem_cons_self)
  left
  intro x hx hx'
  rw [hnumber] at hx'
  rcases List.mem_append.mp hx with hx | hx
  · -- what is handled before it is of a content at most as new
    have horder := List.pairwise_append.mp h.order
    have hle := horder.2.2 x.2 (List.mem_map_of_mem hx) item (hqueue ▸ List.mem_cons_self) _ n hx' hn
    have := h.bound item hitem n hn
    omega
  · rw [List.mem_singleton.mp hx] at hx'
    have hx' : item.source = .watcher s.number := hx'
    rw [hn] at hx'
    cases hx'
    exact hne rfl

theorem System.UpToDate.main (h : s.UpToDate) (hw : Watched s) (hC : Superseding s (.main ans))
    (hs : (threads tar stageRoot).step s (.main ans) = some s') : s'.UpToDate := by
  obtain ⟨i, item, rest, o, -, hqueue, ho, rfl⟩ := main_eq_some hs
  rcases after_clip i item rest o with
    ⟨hnumber, hclip⟩ | hnumber
  · intro hnot
    rw [hclip]
    by_cases hev : ∃ kind content hash, item.ev = .local kind content hash
    · obtain ⟨kind, content, hash, hev⟩ := hev
      have hitem : item ∈ s.events := List.mem_append_right _ (hqueue ▸ List.mem_cons_self)
      obtain ⟨n, hn⟩ := hw.source item hitem kind content hash hev
      by_cases hlast : n = s.number
      · subst hlast
        obtain ⟨k, c, y, hev', hpayload⟩ := hw.current item hitem hn
        rw [hev] at hev'
        cases hev'
        have hrest : ∀ x ∈ rest, x.source ≠ .watcher s.number := by
          intro x hx hxn
          exact hnot (Or.inr ⟨x, hx, by rw [hnumber]; exact hxn⟩)
        rw [hpayload]
        rw [hev] at ho
        refine offers_of_local ho ?_
        rw [← hev, ← hpayload]
        exact (hC item rest hqueue).2 hn hrest
      · exact absurd (hw.behind_old hqueue hn hlast hnumber) hnot
    · have hnone : published tar stageRoot s.recv s.fs ans item.ev = none := by
        have hset : clipSet o.effects = none := by
          by_contra hset
          have : (clipSet o.effects).isSome = true := Option.ne_none_iff_isSome.mp hset
          simp [System.after, this] at hnumber
        rw [clipSet_eq ho] at hset
        exact Option.map_eq_none_iff.mp hset
      have hkeeps := handle_keeps ho (fun k c y hk => hev ⟨k, c, y, hk⟩) hnone
      refine (h ?_).of_localOffer hkeeps.localOffer
      rintro (hbefore | ⟨x, hx, hxn⟩)
      · -- no event of it was handled now either
        refine hnot (Or.inl ?_)
        intro x hx
        rw [hnumber]
        rcases List.mem_append.mp hx with hx | hx
        · exact hbefore x hx
        · rw [List.mem_singleton.mp hx]
          intro hn
          have hitem : item ∈ s.events := List.mem_append_right _ (hqueue ▸ List.mem_cons_self)
          obtain ⟨k, c, y, hk, -⟩ := hw.current item hitem hn
          exact hev ⟨k, c, y, hk⟩
      · rw [hqueue] at hx
        rcases List.mem_cons.mp hx with rfl | hx
        · have hitem : x ∈ s.events := List.mem_append_right _ (hqueue ▸ List.mem_cons_self)
          obtain ⟨k, c, y, hk, -⟩ := hw.current x hitem hxn
          exact hev ⟨k, c, y, hk⟩
        · exact hnot (Or.inr ⟨x, hx, by rw [hnumber]; exact hxn⟩)
  · exact fun hnot => absurd (hw.behind_new (after_events hqueue) hnumber) hnot

theorem System.UpToDate.step {act : Act} (h : s.UpToDate) (hw : Watched s) (hC : Superseding s act)
    (hs : (threads tar stageRoot).step s act = some s') : s'.UpToDate := by
  cases act with
  | copy sel =>
      cases hs
      exact fun hnot => (hnot (hw.behind_new rfl rfl)).elim
  | files fs =>
      cases hs
      exact h
  | watch =>
      cases hs
      rcases watch_cases s with hwatch | ⟨kind, content, hash, -, -, hwatch⟩
      · rw [hwatch]
        exact h
      · rw [hwatch]
        exact h.of_behind (.push rfl rfl rfl) rfl rfl
  | control msg =>
      cases hs
      exact h.of_behind (.push rfl rfl rfl) rfl rfl
  | timer =>
      cases hs
      exact h.of_behind (.push rfl rfl rfl) rfl rfl
  | connect =>
      obtain ⟨-, rfl⟩ := connect_eq_some hs
      exact h
  | read i f =>
      obtain ⟨-, rfl | rfl⟩ := read_eq_some hs
      · exact h
      · exact h.of_behind (.push rfl rfl rfl) rfl rfl
  | hangUp i =>
      obtain ⟨-, rfl⟩ := hangUp_eq_some hs
      exact h.of_behind (.push rfl rfl rfl) rfl rfl
  | main ans => exact h.main hw hC hs

/-! ## What is pushed -/

theorem not_push_of_onlyWrites {es : List Effect} (h : OnlyWrites es) {paths : List Path}
    {archive : List UInt8} {r : Except Bool Unit} : Effect.push paths archive r ∉ es := by
  intro hmem
  obtain ⟨f, ok, heq⟩ := h _ hmem
  cases heq

/-- A push is asked for. -/
theorem asked_of_push {a : Agent} {recv : Reassembler} {fs : Fs} {ev : Ev}
    (h : handle tar stageRoot a recv fs ev ans = some o) {paths : List Path}
    {archive : List UInt8} {r : Except Bool Unit} (hpush : .push paths archive r ∈ o.effects) :
    a.Asked recv ev := by
  cases ev with
  | tick =>
      cases h
      unfold onTick at hpush
      split at hpush
      · cases hpush
      · exact absurd hpush (not_push_of_onlyWrites (onlyWrites_singleton _ _))
  | «local» kind content hash => exact absurd rfl ((handle_effects h _ hpush).1 kind content hash)
  | frame f =>
      cases hp : published tar stageRoot recv fs ans (.frame f) with
      | some x =>
          rw [handle_published h hp] at hpush
          cases List.mem_singleton.mp hpush
      | none =>
          obtain ⟨hes, -, -⟩ := handleFrame_none a.lastSet hp
          have h : onFrame tar stageRoot a recv fs f ans = some o := h
          unfold onFrame at h
          simp only at h
          split at h
          next =>
            cases h
            exact absurd hpush (not_push_of_onlyWrites hes)
          next id hid =>
            obtain ⟨⟨a', es', ended⟩, hpull, rfl⟩ := Option.map_eq_some_iff.mp h
            rcases List.mem_append.mp hpush with hpush | hpush
            · exact absurd hpush (not_push_of_onlyWrites hes)
            · rcases onPull_cases hpull with ⟨-, rfl, -⟩ | ⟨lo, r', hlo, rfl, -, -, -⟩
              · cases hpush
              · exact ⟨lo, hlo, (handleFrame_pull hid).1⟩
          next =>
            cases h
            exact absurd hpush (not_push_of_onlyWrites hes)
          next =>
            cases h
            exact absurd hpush (not_push_of_onlyWrites hes)
  | control msg =>
      by_contra hasked
      obtain ⟨a₁, es₁, end₁, hes, ho⟩ := onControl_cases h
      rw [if_neg (show ¬ (msg = "remote" ∨ msg = "pull") from hasked)] at hes
      obtain ⟨-, rfl, -⟩ := hes
      split at ho
      · rw [ho] at hpush
        rcases controlPull_cases a₁ msg ans with ⟨hpull, -⟩ | ⟨ro, -, -, hpull⟩
        · rw [hpull] at hpush
          cases hpush
        · rw [hpull] at hpush
          exact absurd hpush (not_push_of_onlyWrites (onlyWrites_singleton _ _))
      · rw [ho] at hpush
        cases hpush
  | disconnected =>
      cases h
      cases hpush

end Step

/-- **What is pushed.** In every run in which a copy that passes an offer by has the
files of the offer, each push is of the files on the clipboard. -/
theorem pushed_fresh {tar : TarCrate} {stageRoot : Path} {fs : Fs} {clip : Selection}
    {acts : List Act} {s s' : System} {ans : Answers}
    (hrun : (threads tar stageRoot).exec (.init .init fs clip) acts = some s)
    (hstep : (threads tar stageRoot).step s (.main ans) = some s')
    (hC : (threads tar stageRoot).Meets Superseding (.init .init fs clip) (acts ++ [.main ans])) :
    ∀ es, s'.effects = s.effects ++ es → ∀ paths archive r, .push paths archive r ∈ es →
      Fresh paths (payload s.clip) := by
  obtain ⟨hbefore, hnow⟩ := (threads tar stageRoot).meets_snoc hC hrun
  have hinv : Watched s ∧ s.UpToDate := by
    refine (threads tar stageRoot).exec_meets (P := fun s => Watched s ∧ s.UpToDate)
      ⟨watched_init _ _ _, fun _ lo hlo => by cases hlo⟩ ?_ hrun hbefore
    intro s act s' hs hC hstep
    exact ⟨hs.1.step hstep, hs.2.step hs.1 hC hstep⟩
  obtain ⟨i, item, rest, o, -, hqueue, ho, rfl⟩ := main_eq_some hstep
  intro es hes paths archive r hpush
  rw [← List.append_cancel_left hes] at hpush
  obtain ⟨-, lo, hlo, rfl⟩ := handle_effects ho _ hpush
  have hasked := asked_of_push ho hpush
  by_cases hbehind : s.Behind
  · exact (hnow item rest hqueue).1 hbehind hasked lo hlo
  · exact hinv.2 hbehind lo hlo

/-! ## A batch the user has replaced -/

instance (paths : List Path) : ∀ clip, Decidable (Fresh paths clip)
  | none => isFalse fun ⟨_, h, _⟩ => nomatch h
  | some (kind, content) =>
      decidable_of_iff (kind = kindTar ∧ paths = parseFileList content) (by
        constructor
        · rintro ⟨rfl, h⟩
          exact ⟨content, rfl, h⟩
        · rintro ⟨c, heq, h⟩
          cases heq
          exact ⟨rfl, h⟩)

instance (a : Agent) (clip : Option (UInt8 × List UInt8)) : Decidable (a.Offers clip) :=
  inferInstanceAs (Decidable (∀ lo ∈ a.localOffer, Fresh lo.paths clip))

instance (s : System) : Decidable s.Behind := inferInstanceAs (Decidable (_ ∨ _))

instance (a : Agent) (recv : Reassembler) : DecidablePred (a.Asked recv)
  | .control _ => inferInstanceAs (Decidable (_ ∨ _))
  | .frame f =>
      decidable_of_iff (∃ lo ∈ a.localOffer, (recv.feed f).2 = .pull lo.id) Iff.rfl
  | .local _ _ _ | .tick | .disconnected => isFalse id

instance (a : Agent) (fs : Fs) (ans : Answers) : DecidablePred (a.PassesBy fs ans)
  | .local _ _ _ => inferInstanceAs (Decidable (_ ∨ _))
  | .frame _ | .control _ | .tick | .disconnected => isFalse id

theorem superseding_main {s : System} {ans : Answers} :
    (∀ item ∈ s.queue.head?,
      (s.Behind → s.agent.Asked s.recv item.ev → s.agent.Offers (payload s.clip)) ∧
        (item.source = .watcher s.number → (∀ x ∈ s.queue.tail, x.source ≠ .watcher s.number) →
          s.agent.PassesBy s.fs ans item.ev → s.agent.Offers (payload s.clip))) ↔
      Superseding s (.main ans) := by
  constructor
  · intro h item rest hqueue
    rw [hqueue] at h
    exact h item rfl
  · intro h item hitem
    obtain ⟨rest, hqueue⟩ := List.head?_eq_some_iff.mp hitem
    rw [hqueue]
    exact h item rest hqueue

instance (s : System) : ∀ act, Decidable (Superseding s act)
  | .main _ => decidable_of_iff _ superseding_main
  | .copy _ | .files _ | .watch | .control _ | .timer | .connect | .read _ _ | .hangUp _ =>
      isTrue trivial

/-- Every path is a file of one byte. -/
def oneByte : Fs := fun _ => .file [7]

def fileIn (dir name : Name) : Path := [.rootDir, .normal dir, .normal name]

/-- The user copies a file, and the watcher reads it. -/
def copyFile (dir name : Name) : List Act :=
  [.copy [("x-special/gnome-copied-files", copyList [fileIn dir name])], .watch]

/-- Writes work, and a file of that name goes out in one attempt. -/
def sending (name : Name) : Answers where
  silent := false
  wrote := true
  sends := unstalled (encodeTransfer kindTar (ustar.build [⟨[name], some [7]⟩]))
  set := true
  ts := 0

/-- The id of the offer of such a file. -/
def fileId (name : Name) : UInt32 :=
  offerId ((changeHash oneByte kindTar (copyList [fileIn ['a'] name])).getD 0)

/-- A file is pushed at a crossing; of two more, the first is superseded, and the
second is pulled. -/
def threeCopies : List Act :=
  [.connect] ++ copyFile ['a'] ['x'] ++ [.main (sending ['x']), .control "remote",
    .main (sending ['x'])] ++ copyFile ['a'] ['y'] ++ [.main (sending ['y'])] ++
    copyFile ['b'] ['z'] ++ [.main (sending ['z']), .read 0 (pullFrame (fileId ['z']))]

/-- The same name twice. -/
def twoCopies : List Act :=
  [.connect] ++ copyFile ['a'] ['x'] ++ [.main (sending ['x'])] ++ copyFile ['b'] ['x'] ++
    [.control "remote"]

/-- The clipboard before a last step of the main loop, and what the step does. -/
def lastStep (acts : List Act) (ans : Answers) :
    Option (Option (UInt8 × List UInt8) × List Effect) :=
  ((threads ustar []).exec (.init .init oneByte []) acts).bind fun s =>
    ((threads ustar []).step s (.main ans)).map fun s' =>
      (payload s.clip, s'.effects.drop s.effects.length)

/-- Such a step, taken apart. -/
theorem lastStep_eq_some {acts : List Act} {ans : Answers}
    {clip : Option (UInt8 × List UInt8)} {es : List Effect}
    (h : lastStep acts ans = some (clip, es)) : ∃ s s',
      (threads ustar []).exec (.init .init oneByte []) acts = some s ∧
        (threads ustar []).step s (.main ans) = some s' ∧ payload s.clip = clip ∧
        s'.effects = s.effects ++ es := by
  obtain ⟨s, hrun, h⟩ := Option.bind_eq_some_iff.mp h
  obtain ⟨s', hstep, heq⟩ := Option.map_eq_some_iff.mp h
  obtain ⟨hclip, hes⟩ := Prod.mk.inj heq
  obtain ⟨i, item, rest, o, -, -, -, rfl⟩ := main_eq_some hstep
  refine ⟨s, _, hrun, hstep, hclip, ?_⟩
  have hes : (s.effects ++ o.effects).drop s.effects.length = es := hes
  rw [List.drop_left] at hes
  rw [← hes]
  rfl

theorem threeCopies_superseding :
    (threads ustar []).Meets Superseding (.init .init oneByte [])
      (threeCopies ++ [.main (sending ['z'])]) := by
  decide +kernel

theorem threeCopies_pushed : lastStep threeCopies (sending ['z']) =
    some (some (kindTar, copyList [fileIn ['b'] ['z']]), [.push [fileIn ['b'] ['z']]
      (ustar.build [⟨[['z']], some [7]⟩]) (.ok ())]) := by
  decide +kernel

theorem twoCopies_pushed : lastStep twoCopies (sending ['x']) =
    some (some (kindTar, copyList [fileIn ['b'] ['x']]), [.push [fileIn ['a'] ['x']]
      (ustar.build [⟨[['x']], some [7]⟩]) (.ok ())]) := by
  decide +kernel

theorem pushed_fresh_threeCopies : ∃ s s',
    (threads ustar []).exec (.init .init oneByte []) threeCopies = some s ∧
      (threads ustar []).step s (.main (sending ['z'])) = some s' ∧
      s'.effects = s.effects ++ [.push [fileIn ['b'] ['z']]
        (ustar.build [⟨[['z']], some [7]⟩]) (.ok ())] ∧
      Fresh [fileIn ['b'] ['z']] (payload s.clip) := by
  obtain ⟨s, s', hrun, hstep, -, hes⟩ := lastStep_eq_some threeCopies_pushed
  exact ⟨s, s', hrun, hstep, hes, pushed_fresh hrun hstep threeCopies_superseding _ hes _ _ _
    (List.mem_singleton_self _)⟩

/-- **A stale push.** The user copies a file, and then another of the same name
and size elsewhere: the watcher takes the second for the first, and the
crossing pushes the first. -/
theorem stale_push :
    ¬ ∀ (tar : TarCrate) (stageRoot : Path) (fs : Fs) (clip : Selection) (acts : List Act)
      (s s' : System) (ans : Answers),
      (threads tar stageRoot).exec (.init .init fs clip) acts = some s →
      (threads tar stageRoot).step s (.main ans) = some s' →
      ∀ es, s'.effects = s.effects ++ es → ∀ paths archive r, .push paths archive r ∈ es →
        Fresh paths (payload s.clip) := by
  intro h
  obtain ⟨s, s', hrun, hstep, hclip, hes⟩ := lastStep_eq_some twoCopies_pushed
  have hfresh := h ustar [] oneByte [] twoCopies s s' _ hrun hstep _ hes _ _ _
    (List.mem_singleton_self _)
  rw [hclip] at hfresh
  obtain ⟨content, heq, hpaths⟩ := hfresh
  cases heq
  exact absurd hpaths (by decide +kernel)

end Beaglewing.Agents.Linux
