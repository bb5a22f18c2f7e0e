/-
# `Agents.Echo` — received contents sent back

"Echo loops are broken by hashing what we last sent and last set locally."
What the agent sets, its watcher finds on the clipboard and queues; when the
event gets to the main loop it is dropped if its hash is still the one that
was recorded last.

    no content received waits in the queue when   only what the user has copied
    another is set                                goes out   (`own_of_run`)
    one does                                      it goes back to where it came
                                                  from   (`sent_back`)

For a batch the hash that is recorded must also be the one that the watcher
computes later, from the staged files (`Recorded`).
-/
import Beaglewing.Agents.Delivery
import Beaglewing.Agents.Threads

namespace Beaglewing.Agents.Linux

open Base Clipframe Files

/-- What goes out is what the user has copied at some time. -/
def Effect.Own (copied : List (UInt8 × List UInt8)) : Effect → Prop
  | .send kind content _ => (kind, content) ∈ copied
  | .offer content _ _ => (kindTar, content) ∈ copied
  | .push paths _ _ => ∃ content, (kindTar, content) ∈ copied ∧ paths = parseFileList content
  | .write _ _ | .set _ _ => True

/-- Contents the user has not copied are recognised: a batch when it is read, by
the hash recorded, and what waits in the queue when something else is set. -/
def Recorded (tar : TarCrate) (stageRoot : Path) (s : System) : Act → Prop
  | .watch => ∀ content h, payload s.clip = some (kindTar, content) →
      changeHash s.fs kindTar content = some h → h ≠ s.prev →
      (kindTar, content) ∈ s.copied ∨ h = s.agent.lastSet
  | .main ans => ∀ item rest kind r, s.queue = item :: rest →
      published tar stageRoot s.recv s.fs ans item.ev = some (kind, r) →
      ∀ x ∈ rest, ∀ k c h, x.ev = .local k c h →
        (k, c) ∈ s.copied ∨ h = r.hash.getD s.agent.lastSet
  | _ => True

/-- A local change that waits was copied, or has that hash. -/
def Ev.Known (copied : List (UInt8 × List UInt8)) (last : UInt64) : Ev → Prop
  | .local kind content h => (kind, content) ∈ copied ∨ h = last
  | _ => True

instance (copied : List (UInt8 × List UInt8)) (last : UInt64) : DecidablePred (Ev.Known copied last)
  | .local _ _ _ => inferInstanceAs (Decidable (_ ∨ _))
  | .frame _ | .control _ | .tick | .disconnected => isTrue trivial

theorem recorded_watch {tar : TarCrate} {stageRoot : Path} {s : System} :
    (∀ x ∈ payload s.clip, x.1 = kindTar → ∀ h ∈ changeHash s.fs kindTar x.2, h ≠ s.prev →
      (kindTar, x.2) ∈ s.copied ∨ h = s.agent.lastSet) ↔ Recorded tar stageRoot s .watch := by
  constructor
  · intro h content y hpayload hhash hne
    exact h (kindTar, content) hpayload rfl y hhash hne
  · rintro h ⟨kind, content⟩ hpayload rfl y hhash hne
    exact h content y hpayload hhash hne

theorem recorded_main {tar : TarCrate} {stageRoot : Path} {s : System} {ans : Answers} :
    (∀ item ∈ s.queue.head?, ∀ p ∈ published tar stageRoot s.recv s.fs ans item.ev,
      ∀ x ∈ s.queue.tail, x.ev.Known s.copied (p.2.hash.getD s.agent.lastSet)) ↔
      Recorded tar stageRoot s (.main ans) := by
  constructor
  · intro h item rest kind r hqueue hp x hx k c y hev
    have hx' := h item (by rw [hqueue]; rfl) (kind, r) hp x (by rw [hqueue]; exact hx)
    rw [hev] at hx'
    exact hx'
  · intro h item hitem p hp x hx
    obtain ⟨rest, hqueue⟩ := List.head?_eq_some_iff.mp hitem
    rw [hqueue] at hx
    cases hev : x.ev with
    | «local» k c y => exact h item rest p.1 p.2 hqueue hp x hx k c y hev
    | _ => trivial

instance decRecorded (tar : TarCrate) (stageRoot : Path) (s : System) :
    ∀ act, Decidable (Recorded tar stageRoot s act)
  | .watch => decidable_of_iff _ recorded_watch
  | .main _ => decidable_of_iff _ recorded_main
  | .copy _ | .files _ | .control _ | .timer | .connect | .read _ _ | .hangUp _ => isTrue trivial

/-! ## What was received has the hash recorded -/

structure System.Echoless (s : System) : Prop where
  queue : ∀ x ∈ s.queue, ∀ kind content h, x.ev = .local kind content h →
    (kind, content) ∈ s.copied ∨ h = s.agent.lastSet
  clip : ∀ kind content, payload s.clip = some (kind, content) → kind ≠ kindTar →
    (kind, content) ∈ s.copied ∨ contentHash kind content = s.agent.lastSet
  offer : ∀ lo, s.agent.localOffer = some lo →
    ∃ content, (kindTar, content) ∈ s.copied ∧ lo.paths = parseFileList content
  own : ∀ e ∈ s.effects, e.Own s.copied

theorem echoless_init (fs : Fs) (clip : Selection) : (System.init .init fs clip).Echoless where
  queue x h := by cases h
  clip kind content h _ := by
    left
    show (kind, content) ∈ (payload clip).toList
    rw [show payload clip = some (kind, content) from h]
    exact List.mem_singleton_self _
  offer lo h := by cases h
  own e h := by cases h

theorem Effect.Own.mono {e : Effect} {copied copied' : List (UInt8 × List UInt8)}
    (h : e.Own copied) (hsub : copied ⊆ copied') : e.Own copied' := by
  cases e with
  | write f ok => trivial
  | offer content o ok => exact hsub h
  | send kind content r => exact hsub h
  | push paths archive r =>
      obtain ⟨content, hmem, hpaths⟩ := h
      exact ⟨content, hsub hmem, hpaths⟩
  | set kind content => trivial

/-- The kinds that are set, and the hash that is recorded for them. -/
theorem receive_eq_some {tar : TarCrate} {stageRoot : Path} {fs : Fs} {ts : Nat} {kind : UInt8}
    {data : List UInt8} {r : Received} (h : receive tar stageRoot fs ts kind data = some r) :
    (kind = kindText ∨ kind = kindPng ∨ kind = kindTar) ∧
      (kind ≠ kindTar → r.hash = some (contentHash kind r.content)) := by
  unfold receive at h
  split at h
  next hk =>
    cases h
    exact ⟨Or.inl hk, fun _ => by rw [hk]⟩
  next =>
    split at h
    next hk =>
      cases h
      exact ⟨Or.inr (Or.inl hk), fun _ => by rw [hk]⟩
    next =>
      split at h
      next hk => exact ⟨Or.inr (Or.inr hk), fun hne => absurd hk hne⟩
      next => cases h

theorem published_eq_some {tar : TarCrate} {stageRoot : Path} {recv : Reassembler} {fs : Fs}
    {ans : Answers} {ev : Ev} {kind : UInt8} {r : Received}
    (h : published tar stageRoot recv fs ans ev = some (kind, r)) :
    ∃ data, receive tar stageRoot fs ans.ts kind data = some r := by
  cases ev with
  | frame f =>
      simp only [published] at h
      split at h
      · split at h
        · obtain ⟨r', hr, heq⟩ := Option.map_eq_some_iff.mp h
          cases heq
          exact ⟨_, hr⟩
        · cases h
      · cases h
  | _ => cases h

section Step
variable {tar : TarCrate} {stageRoot : Path} {s s' : System}

/-- Only the queue grows, by an event that is no local change or that is
recognised. -/
theorem System.Echoless.append (h : s.Echoless) {ev : Ev} {source : Source}
    (hev : ∀ kind content hash, ev = .local kind content hash →
      (kind, content) ∈ s.copied ∨ hash = s.agent.lastSet)
    (hqueue : s'.queue = s.queue ++ [⟨ev, source⟩]) (hagent : s'.agent = s.agent)
    (hclip : s'.clip = s.clip) (hcopied : s'.copied = s.copied)
    (heffects : s'.effects = s.effects) :
    s'.Echoless where
  queue x hx := by
    rw [hqueue] at hx
    rw [hagent, hcopied]
    rcases List.mem_append.mp hx with hx | hx
    · exact h.queue x hx
    · rw [List.mem_singleton.mp hx]
      exact hev
  clip := by
    rw [hagent, hclip, hcopied]
    exact h.clip
  offer := by
    rw [hagent, hcopied]
    exact h.offer
  own := by
    rw [hcopied, heffects]
    exact h.own

theorem System.Echoless.watch (h : s.Echoless) (hC : Recorded tar stageRoot s .watch) :
    s.watch.Echoless := by
  rcases watch_cases s with hw | ⟨kind, content, hash, hread, hne, hw⟩
  · rw [hw]
    exact h
  · rw [hw]
    obtain ⟨hpayload, hhash⟩ := readLocalClipboard_eq_some.mp hread
    refine h.append ?_ rfl rfl rfl rfl rfl
    intro k c y hev
    cases hev
    by_cases hkind : kind = kindTar
    · subst hkind
      exact hC content hash hpayload hhash hne
    · rw [changeHash_of_ne_tar hkind] at hhash
      cases hhash
      exact h.clip kind content hpayload hkind

/-- A copy is recognised as long as it is not one. -/
theorem copied_of_not_ignored (h : s.Echoless) {item : Item} {rest : List Item}
    (hqueue : s.queue = item :: rest) {kind : UInt8} {content : List UInt8} {hash : UInt64}
    (hev : item.ev = .local kind content hash)
    (hgo : ¬ s.agent.Ignores s.fs kind content hash) : (kind, content) ∈ s.copied := by
  have hhead : item ∈ s.queue := hqueue ▸ List.mem_cons_self
  rcases h.queue item hhead kind content hash hev with hmem | hset
  · exact hmem
  · exact absurd (Or.inl (Or.inr hset)) hgo

theorem own_of_from (h : s.Echoless) {item : Item} {rest : List Item}
    (hqueue : s.queue = item :: rest) {pub : Option (UInt8 × Received)} {e : Effect}
    (hfrom : e.From s.agent s.fs item.ev pub) : e.Own s.copied := by
  cases e with
  | write f ok => trivial
  | offer content o ok =>
      obtain ⟨hash, hev, hgo⟩ := hfrom
      exact copied_of_not_ignored h hqueue hev hgo
  | send kind content r =>
      obtain ⟨hash, hev, hgo⟩ := hfrom
      exact copied_of_not_ignored h hqueue hev hgo
  | push paths archive r =>
      obtain ⟨-, lo, hlo, rfl⟩ := hfrom
      exact h.offer lo hlo
  | set kind content => trivial

theorem System.Echoless.main {ans : Answers} (h : s.Echoless)
    (hC : Recorded tar stageRoot s (.main ans))
    (hs : (threads tar stageRoot).step s (.main ans) = some s') : s'.Echoless := by
  obtain ⟨i, item, rest, o, -, hqueue, ho, rfl⟩ := main_eq_some hs
  have hmem : ∀ x ∈ rest, x ∈ s.queue := fun x hx => hqueue ▸ List.mem_cons_of_mem _ hx
  have hown : ∀ e ∈ s.effects ++ o.effects, e.Own s.copied := by
    intro e he
    rcases List.mem_append.mp he with he | he
    · exact h.own e he
    · exact own_of_from h hqueue (handle_effects ho e he)
  have hoffer : ∀ lo, o.agent.localOffer = some lo →
      ∃ content, (kindTar, content) ∈ s.copied ∧ lo.paths = parseFileList content := by
    intro lo hlo
    rcases handle_localOffer ho with hnone | hkept | ⟨content, hash, hev, hgo, hnew⟩
    · rw [hnone] at hlo
      cases hlo
    · exact h.offer lo (hkept ▸ hlo)
    · rw [hnew] at hlo
      cases hlo
      exact ⟨content, copied_of_not_ignored h hqueue hev hgo, rfl⟩
  have hset := clipSet_eq ho
  cases hp : published tar stageRoot s.recv s.fs ans item.ev with
  | none =>
      rw [hp] at hset
      have hlast := handle_lastSet ho hp
      refine ⟨?_, ?_, hoffer, hown⟩
      · intro x hx k c y hev
        show (k, c) ∈ s.copied ∨ y = o.agent.lastSet
        rw [hlast]
        exact h.queue x (hmem x hx) k c y hev
      · intro k c hclip hk
        show (k, c) ∈ s.copied ∨ _ = o.agent.lastSet
        rw [hlast]
        simp only [System.after, hset] at hclip
        exact h.clip k c hclip hk
  | some p =>
      obtain ⟨kind, r⟩ := p
      rw [hp] at hset
      have hlast : o.agent.lastSet = r.hash.getD s.agent.lastSet := by
        rw [handle_published ho hp]
      refine ⟨?_, ?_, hoffer, hown⟩
      · intro x hx k c y hev
        show (k, c) ∈ s.copied ∨ y = o.agent.lastSet
        rw [hlast]
        exact hC item rest kind r hqueue hp x hx k c y hev
      · intro k c hclip hk
        -- what is on the clipboard now is what was recorded with it
        obtain ⟨data, hr⟩ := published_eq_some hp
        obtain ⟨hkinds, hhash⟩ := receive_eq_some hr
        simp only [System.after, hset] at hclip
        have hclip : payload (served kind r.content) = some (k, c) := hclip
        rw [payload_served hkinds] at hclip
        split at hclip
        · cases hclip
        · cases hclip
          right
          show _ = o.agent.lastSet
          rw [hlast, hhash hk]
          rfl

theorem System.Echoless.step {act : Act} (h : s.Echoless) (hC : Recorded tar stageRoot s act)
    (hs : (threads tar stageRoot).step s act = some s') : s'.Echoless := by
  cases act with
  | copy sel =>
      cases hs
      have hsub : s.copied ⊆ s.copied ++ (payload sel).toList := List.subset_append_left _ _
      refine ⟨fun x hx k c y hev => (h.queue x hx k c y hev).imp_left (hsub ·), ?_, ?_,
        fun e he => (h.own e he).mono hsub⟩
      · intro k c hpayload _
        left
        refine List.mem_append_right _ ?_
        rw [show payload sel = some (k, c) from hpayload]
        exact List.mem_singleton_self _
      · intro lo hlo
        obtain ⟨content, hmem, hpaths⟩ := h.offer lo hlo
        exact ⟨content, hsub hmem, hpaths⟩
  | files fs =>
      cases hs
      exact ⟨h.queue, h.clip, h.offer, h.own⟩
  | watch =>
      cases hs
      exact h.watch hC
  | control msg =>
      cases hs
      exact h.append (fun _ _ _ hev => by cases hev) rfl rfl rfl rfl rfl
  | timer =>
      cases hs
      exact h.append (fun _ _ _ hev => by cases hev) rfl rfl rfl rfl rfl
  | connect =>
      obtain ⟨-, rfl⟩ := connect_eq_some hs
      exact ⟨h.queue, h.clip, h.offer, h.own⟩
  | read i f =>
      obtain ⟨-, rfl | rfl⟩ := read_eq_some hs
      · exact h
      · exact h.append (fun _ _ _ hev => by cases hev) rfl rfl rfl rfl rfl
  | hangUp i =>
      obtain ⟨-, rfl⟩ := hangUp_eq_some hs
      exact h.append (fun _ _ _ hev => by cases hev) rfl rfl rfl rfl rfl
  | main ans => exact h.main hC hs

end Step

/-- **What goes out.** In every run in which contents that were received are
recognised, the agent sends, offers and pushes only what the user has copied. -/
theorem own_of_run {tar : TarCrate} {stageRoot : Path} {fs : Fs} {clip : Selection}
    {acts : List Act} {s : System}
    (hrun : (threads tar stageRoot).exec (.init .init fs clip) acts = some s)
    (hC : (threads tar stageRoot).Meets (Recorded tar stageRoot) (.init .init fs clip) acts) :
    ∀ e ∈ s.effects, e.Own s.copied :=
  ((threads tar stageRoot).exec_meets (echoless_init fs clip) (fun _ _ _ h hC hs => h.step hC hs)
    hrun hC).own

/-! ## Sent back -/

/-- Writes work, the clipboard is set, and a text of one byte goes out. -/
def working : Answers := ⟨false, true, sentText, true, 0⟩

/-- A text arrives, is found on the clipboard, and is dropped; then the user copies
another. -/
def receivedThenCopied : List Act :=
  [.connect] ++ (encodeTransfer kindText [8]).map (.read 0) ++
    List.replicate 3 (.main working) ++
      [.watch, .main working, .copy [("UTF8_STRING", [7])], .watch, .main working]

/-- Two texts arrive; the watcher reads the first when the second is about to be
set. -/
def twoReceived : List Act :=
  [.connect] ++ (encodeTransfer kindText [7]).map (.read 0) ++
    List.replicate 3 (.main working) ++ (encodeTransfer kindText [8]).map (.read 0) ++
      [.watch] ++ List.replicate 4 (.main working)

theorem receivedThenCopied_recorded :
    (threads ustar []).Meets (Recorded ustar []) (.init .init (fun _ => .broken) [])
      receivedThenCopied := by
  decide +kernel

theorem own_of_run_receivedThenCopied : ∃ s,
    (threads ustar []).exec (.init .init (fun _ => .broken) []) receivedThenCopied = some s ∧
      s.effects = [.set kindText [8], .send kindText [7] (.ok ())] ∧
      s.handled.countP (fun x => x.2.source = .watcher 1) = 1 ∧
      ∀ e ∈ s.effects, e.Own s.copied := by
  have hstate : ((threads ustar []).exec (.init .init (fun _ => .broken) [])
      receivedThenCopied).map (fun s => (s.effects,
        s.handled.countP fun x => x.2.source = .watcher 1)) =
      some ([.set kindText [8], .send kindText [7] (.ok ())], 1) := by
    decide +kernel
  obtain ⟨s, hrun, hs⟩ := Option.map_eq_some_iff.mp hstate
  obtain ⟨heffects, hseen⟩ := Prod.mk.inj hs
  exact ⟨s, hrun, heffects, hseen, own_of_run hrun receivedThenCopied_recorded⟩

/-- **A text sent back.** By the time its event is handled, the hash of another is
recorded. -/
theorem sent_back :
    ¬ ∀ (tar : TarCrate) (stageRoot : Path) (fs : Fs) (clip : Selection) (acts : List Act)
      (s : System), (threads tar stageRoot).exec (.init .init fs clip) acts = some s →
      ∀ e ∈ s.effects, e.Own s.copied := by
  intro h
  have heffects : ((threads ustar []).exec (.init .init (fun _ => .broken) []) twoReceived).map
      (fun s => (s.effects, s.copied)) = some ([.set kindText [7], .set kindText [8],
        .send kindText [7] (.ok ())], []) := by
    decide +kernel
  obtain ⟨s, hrun, hs⟩ := Option.map_eq_some_iff.mp heffects
  obtain ⟨he, hcopied⟩ := Prod.mk.inj hs
  have hown := h ustar [] _ [] twoReceived s hrun (.send kindText [7] (.ok ())) (by simp [he])
  rw [hcopied] at hown
  cases hown

end Beaglewing.Agents.Linux
