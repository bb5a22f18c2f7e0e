/-
# `Agents.Failure` — what a failed write takes with it

A write to the relay fails and the session ends.  What is left for the next
session is in the variables of `run`, in the channel, and on the clipboard,
which the watcher reads again only if the change hash is new to it.

| the event | what the failure takes |
| :-- | :-- |
| Tick, Frame | nothing |
| Control | the offer, which was taken before the push and is not put back; and the offer of the peer counts as requested |
| Local, of files | nothing of the agent; the event is gone |
| Local, of a text or an image | the offer that it supersedes; the event is gone, and the watcher has seen its hash |

So the content of a Local event goes out afterwards only if there is another
event of it: one that waits, or one of files whose signature has changed when
the watcher reads them again (`found`); and it must get past `last_sent` and
`last_set` as they are when its turn comes (`GoesOut`).  `intact_iff` says
exactly which failures leave the offers and `last_sent` as they were, and the
content to go out, in every continuation that leaves the agent undisturbed.

## What is assumed of the continuation

The agent reconnects, as often as it likes; its threads go on in any order;
the peer sends anything but a transfer.  The user does not copy, files do not
change, and no transfer is completed (`Undisturbed`): each would put another
content on the clipboard, or change a signature.  What the loop sends and
offers works.  The continuation ends when no local change waits, and a poll
finds none (`Settled`); which contents went out is then decided.

## What it is not

Whether the peer has the content is not asked (`Agents.Delivery`): a transfer
went out when all its writes worked, an offer when its OFFER was written.  What
a failure leaves to a session in which writes fail again is not said either;
the theorem then applies to that failure.
-/
import Beaglewing.Agents.Threads

namespace Beaglewing.Agents.Linux

open Base Clipframe Files

/-! ## What goes out after a failure -/

/-- The local changes among some events. -/
def locals (items : List Item) : List (UInt8 × List UInt8 × UInt64) :=
  items.filterMap fun x =>
    match x.ev with
    | .local kind content h => some (kind, content, h)
    | _ => none

/-- The event that the next poll queues. -/
def System.found (s : System) : List Item :=
  match readLocalClipboard s.fs s.clip with
  | none => []
  | some (kind, content, h) =>
      if h = s.prev then [] else [⟨.local kind content h, .watcher s.number⟩]

/-- Handled one after another, with nothing received meanwhile and every write
working, one of the changes is of that content, and is sent or offered. -/
def Agent.GoesOut (fs : Fs) (kind : UInt8) (content : List UInt8) :
    Agent → List (UInt8 × List UInt8 × UInt64) → Prop
  | _, [] => False
  | a, (k, c, h) :: rest =>
      if a.Ignores fs k c h then a.GoesOut fs kind content rest
      else (k = kind ∧ c = content) ∨ { a with lastSent := h }.GoesOut fs kind content rest

/-- The content is on its way: of the changes that wait, and the one that the next
poll finds, one will go out. -/
def System.Due (s : System) (kind : UInt8) (content : List UInt8) : Prop :=
  s.agent.GoesOut s.fs kind content (locals (s.queue ++ s.found))

/-- No change waits, and a poll finds none. -/
def System.Settled (s : System) : Prop := locals (s.queue ++ s.found) = []

/-- The content was sent, or offered, and no write of it failed. -/
def Effect.Out (kind : UInt8) (content : List UInt8) : Effect → Prop
  | .send k c r => (k = kind ∧ c = content) ∧ r = .ok ()
  | .offer c _ ok => (kindTar = kind ∧ c = content) ∧ ok = true
  | _ => False

/-- What the loop sends of the clipboard, it sends to the end. -/
def Effect.Worked : Effect → Prop
  | .send _ _ r => r = .ok ()
  | .offer _ _ ok => ok = true
  | _ => True

/-- The event completes a transfer. -/
def Ev.Completes (recv : Reassembler) (ev : Ev) : Prop :=
  ∃ f kind data, ev = .frame f ∧ (recv.feed f).2 = .complete kind data

/-- The user does not copy, files do not change, no transfer is completed, and what
is sent or offered works. -/
def Undisturbed (tar : TarCrate) (stageRoot : Path) (s : System) : Act → Prop
  | .copy _ | .files _ => False
  | .main ans => ∀ item ∈ s.queue.head?, ¬ item.ev.Completes s.recv ∧
      ∀ o ∈ handle tar stageRoot s.agent s.recv s.fs item.ev ans, ∀ e ∈ o.effects, e.Worked
  | _ => True

/-! ## What survives -/

/-- `local_offer`, `remote_offer` and `last_sent` are as before. -/
def Agent.Same (a a' : Agent) : Prop :=
  a'.localOffer = a.localOffer ∧ a'.remoteOffer = a.remoteOffer ∧ a'.lastSent = a.lastSent

/-- A push of the offer ends without success, and with the relay there: the batch
is not packed, or the receiver does not acknowledge. -/
def Abandoned (tar : TarCrate) (fs : Fs) (lo : LocalOffer) (sends : List SendAct) : Prop :=
  ∃ es, pushLocalOffer tar fs lo sends = some (es, .error false)

/-- The failures that take nothing with them. -/
def Survives (tar : TarCrate) (s : System) (rest : List Item) (item : Item) (ans : Answers) :
    Prop :=
  match item.ev with
  | .local kind content _ =>
      (kind = kindTar ∨ s.agent.localOffer = none) ∧
        s.agent.GoesOut s.fs kind content (locals (rest ++ s.found))
  | .control msg =>
      (msg = "local" ∨ ∀ lo, s.agent.localOffer = some lo → Abandoned tar s.fs lo ans.sends) ∧
        ∃ ro, s.agent.remoteOffer = some ro ∧ ro.requested = true
  | _ => True

/-! ## The changes of a continuation -/

theorem locals_append (items items' : List Item) :
    locals (items ++ items') = locals items ++ locals items' := List.filterMap_append

theorem locals_push {ev : Ev} (hev : ∀ kind content h, ev ≠ .local kind content h)
    (source : Source) (items items' : List Item) :
    locals ((items ++ [⟨ev, source⟩]) ++ items') = locals (items ++ items') := by
  have hnone : locals [⟨ev, source⟩] = [] := by
    cases ev with
    | «local» kind content h => exact absurd rfl (hev kind content h)
    | _ => rfl
  rw [locals_append, locals_append, locals_append, hnone, List.append_nil]

/-- A poll queues what it finds, and then there is nothing more to find. -/
theorem watch_found (s : System) :
    s.watch.queue = s.queue ++ s.found ∧ s.watch.found = [] ∧ s.watch.agent = s.agent ∧
      s.watch.fs = s.fs ∧ s.watch.effects = s.effects := by
  unfold System.watch System.found
  cases hread : readLocalClipboard s.fs s.clip with
  | none => simp [hread]
  | some x =>
      obtain ⟨kind, content, h⟩ := x
      by_cases hprev : h = s.prev
      · simp [hread, hprev]
      · simp [hread, hprev, System.push]

/-- Only the hashes of an agent matter. -/
theorem goesOut_congr {fs : Fs} {kind : UInt8} {content : List UInt8} {a b : Agent}
    (hsent : a.lastSent = b.lastSent) (hset : a.lastSet = b.lastSet)
    (changes : List (UInt8 × List UInt8 × UInt64)) :
    a.GoesOut fs kind content changes ↔ b.GoesOut fs kind content changes := by
  induction changes generalizing a b with
  | nil => exact Iff.rfl
  | cons x changes ih =>
      obtain ⟨k, c, h⟩ := x
      have hig : a.Ignores fs k c h ↔ b.Ignores fs k c h := by
        simp only [Agent.Ignores, Agent.Suppresses, hsent, hset]
      simp only [Agent.GoesOut, hig]
      split
      · exact ih hsent hset
      · exact or_congr_right (ih rfl hset)

section Continuation
variable {tar : TarCrate} {stageRoot : Path} {kind : UInt8} {content : List UInt8}

/-- Nothing is received, and no file is staged. -/
theorem handle_calm {a : Agent} {recv : Reassembler} {fs : Fs} {ev : Ev} {ans : Answers}
    {o : Outcome} (h : handle tar stageRoot a recv fs ev ans = some o)
    (hcalm : ¬ ev.Completes recv) :
    published tar stageRoot recv fs ans ev = none ∧ o.fs = fs := by
  cases ev with
  | tick =>
      cases h
      unfold onTick
      split <;> exact ⟨rfl, rfl⟩
  | «local» k c y =>
      rcases onLocal_cases h with ⟨-, rfl⟩ | ⟨-, -, offer, -, rfl⟩ | ⟨-, -, r, -, rfl⟩
      all_goals exact ⟨rfl, rfl⟩
  | frame f =>
      have hfs : (handleFrame tar stageRoot recv f a.lastSet fs ans).fs = fs ∧
          published tar stageRoot recv fs ans (.frame f) = none := by
        cases hfeed : (recv.feed f).2 with
        | complete k data => exact absurd ⟨f, k, data, rfl, hfeed⟩ hcalm
        | _ => simp only [handleFrame, published, hfeed, and_self]
      refine ⟨hfs.2, ?_⟩
      have h : onFrame tar stageRoot a recv fs f ans = some o := h
      unfold onFrame at h
      simp only at h
      split at h
      next =>
        cases h
        exact hfs.1
      next =>
        obtain ⟨y, -, rfl⟩ := Option.map_eq_some_iff.mp h
        exact hfs.1
      next =>
        cases h
        exact hfs.1
      next =>
        cases h
        exact hfs.1
  | control msg =>
      obtain ⟨a₁, es₁, end₁, -, ho⟩ := onControl_cases h
      split at ho <;> exact ⟨rfl, by rw [ho]⟩
  | disconnected =>
      cases h
      exact ⟨rfl, rfl⟩

/-- A local change that is handled is dropped, or goes out and is the last sent. -/
theorem goesOut_local {a : Agent} {recv : Reassembler} {fs : Fs} {k : UInt8} {c : List UInt8}
    {y : UInt64} {ans : Answers} {o : Outcome}
    (h : onLocal a recv fs k c y ans = some o) (hworked : ∀ e ∈ o.effects, e.Worked)
    (changes : List (UInt8 × List UInt8 × UInt64)) :
    a.GoesOut fs kind content ((k, c, y) :: changes) ↔
      (∃ e ∈ o.effects, e.Out kind content) ∨ o.agent.GoesOut fs kind content changes := by
  rcases onLocal_cases h with ⟨hig, rfl⟩ | ⟨hgo, rfl, offer, -, rfl⟩ | ⟨hgo, -, r, -, rfl⟩
  · rw [Agent.GoesOut, if_pos hig]
    simp
  · have hwrote : ans.wrote = true := hworked _ (List.mem_singleton_self _)
    rw [Agent.GoesOut, if_neg hgo]
    simp only [List.mem_singleton, exists_eq_left, Effect.Out, hwrote, and_true, if_true]
    exact or_congr_right (goesOut_congr (by rfl) (by rfl) changes)
  · have hr : r = .ok () := hworked _ (List.mem_singleton_self _)
    rw [Agent.GoesOut, if_neg hgo]
    simp only [List.mem_singleton, exists_eq_left, Effect.Out, hr, and_true, reduceCtorEq, if_false]
    exact or_congr_right (goesOut_congr (by rfl) (by rfl) changes)

/-- After an event that sets nothing and stages nothing, a poll finds what it found. -/
theorem after_found {s : System} {i : Nat} {item : Item} {rest : List Item} {o : Outcome}
    (hset : clipSet o.effects = none) (hfs : o.fs = s.fs) :
    (s.after i item rest o).found = s.found := by
  simp [System.found, System.after, hset, hfs]

theorem due_main {s s' : System} {ans : Answers} (hC : Undisturbed tar stageRoot s (.main ans))
    (hs : (threads tar stageRoot).step s (.main ans) = some s') :
    ∃ es, s'.effects = s.effects ++ es ∧
      (s.Due kind content ↔ (∃ e ∈ es, e.Out kind content) ∨ s'.Due kind content) := by
  obtain ⟨i, item, rest, o, -, hqueue, ho, rfl⟩ := main_eq_some hs
  obtain ⟨hcalm, hworked⟩ := hC item (by rw [hqueue]; rfl)
  obtain ⟨hnone, hfs⟩ := handle_calm ho hcalm
  have hset : clipSet o.effects = none := by
    rw [clipSet_eq ho, hnone]
    rfl
  refine ⟨o.effects, rfl, ?_⟩
  unfold System.Due
  rw [after_found hset hfs, hqueue]
  show _ ↔ _ ∨ o.agent.GoesOut o.fs kind content (locals (rest ++ s.found))
  rw [hfs]
  cases hev : item.ev with
  | «local» k c y =>
      rw [hev] at ho hworked
      have hlocals : locals (item :: rest ++ s.found) = (k, c, y) :: locals (rest ++ s.found) := by
        rw [List.cons_append, locals, List.filterMap_cons, hev]
        rfl
      rw [hlocals]
      exact goesOut_local ho (hworked o ho) _
  | _ =>
      have hev' : ∀ k c y, item.ev ≠ .local k c y := by
        intro k c y h
        rw [hev] at h
        cases h
      have hlocals : locals (item :: rest ++ s.found) = locals (rest ++ s.found) := by
        rw [List.cons_append, locals, List.filterMap_cons, hev]
        rfl
      have hnot : ¬ ∃ e ∈ o.effects, e.Out kind content := by
        rintro ⟨e, he, hout⟩
        have hfrom := handle_effects ho e he
        cases e with
        | send k c r =>
            obtain ⟨y, h, -⟩ := hfrom
            exact hev' _ _ _ h
        | offer c offer ok =>
            obtain ⟨y, h, -⟩ := hfrom
            exact hev' _ _ _ h
        | _ => exact hout
      have hkeeps := handle_keeps ho hev' hnone
      rw [hlocals, or_iff_right hnot]
      exact goesOut_congr hkeeps.lastSent.symm hkeeps.lastSet.symm _

/-- A step of the continuation: the content goes out, or is on its way as before. -/
theorem due_step {s s' : System} {act : Act} (hC : Undisturbed tar stageRoot s act)
    (hs : (threads tar stageRoot).step s act = some s') :
    ∃ es, s'.effects = s.effects ++ es ∧
      (s.Due kind content ↔ (∃ e ∈ es, e.Out kind content) ∨ s'.Due kind content) := by
  have hsame : ∀ s' : System, s'.effects = s.effects → s'.agent = s.agent → s'.fs = s.fs →
      locals (s'.queue ++ s'.found) = locals (s.queue ++ s.found) →
      ∃ es, s'.effects = s.effects ++ es ∧
        (s.Due kind content ↔ (∃ e ∈ es, e.Out kind content) ∨ s'.Due kind content) := by
    intro s' heffects hagent hfs hlocals
    refine ⟨[], by rw [heffects, List.append_nil], ?_⟩
    unfold System.Due
    rw [hagent, hfs, hlocals]
    simp
  cases act with
  | copy sel => exact hC.elim
  | files fs => exact hC.elim
  | watch =>
      cases hs
      obtain ⟨hqueue, hfound, hagent, hfs, heffects⟩ := watch_found s
      exact hsame _ heffects hagent hfs (by rw [hqueue, hfound, List.append_nil])
  | control msg =>
      cases hs
      exact hsame _ rfl rfl rfl (locals_push (fun _ _ _ h => by cases h) _ _ _)
  | timer =>
      cases hs
      exact hsame _ rfl rfl rfl (locals_push (fun _ _ _ h => by cases h) _ _ _)
  | connect =>
      obtain ⟨-, rfl⟩ := connect_eq_some hs
      exact hsame _ rfl rfl rfl rfl
  | read i f =>
      obtain ⟨-, rfl | rfl⟩ := read_eq_some hs
      · exact hsame _ rfl rfl rfl rfl
      · exact hsame _ rfl rfl rfl (locals_push (fun _ _ _ h => by cases h) _ _ _)
  | hangUp i =>
      obtain ⟨-, rfl⟩ := hangUp_eq_some hs
      exact hsame _ rfl rfl rfl (locals_push (fun _ _ _ h => by cases h) _ _ _)
  | main ans => exact due_main hC hs

theorem due_run {s s' : System} {acts : List Act}
    (hrun : (threads tar stageRoot).exec s acts = some s')
    (hC : (threads tar stageRoot).Meets (Undisturbed tar stageRoot) s acts) :
    ∃ es, s'.effects = s.effects ++ es ∧
      (s.Due kind content ↔ (∃ e ∈ es, e.Out kind content) ∨ s'.Due kind content) := by
  refine (threads tar stageRoot).exec_meets
    (P := fun t => ∃ es, t.effects = s.effects ++ es ∧
      (s.Due kind content ↔ (∃ e ∈ es, e.Out kind content) ∨ t.Due kind content))
    ⟨[], (List.append_nil _).symm, by simp⟩ ?_ hrun hC
  rintro t act t' ⟨es₁, hes₁, h₁⟩ hC ht
  obtain ⟨es₂, hes₂, h₂⟩ := due_step hC ht
  refine ⟨es₁ ++ es₂, by rw [hes₂, hes₁, List.append_assoc], ?_⟩
  rw [h₁, h₂, ← or_assoc]
  simp only [List.mem_append, or_and_right, exists_or]

/-- A continuation up to where nothing waits. -/
theorem due_iff_out {s s' : System} {acts : List Act}
    (hrun : (threads tar stageRoot).exec s acts = some s')
    (hC : (threads tar stageRoot).Meets (Undisturbed tar stageRoot) s acts) (hsettled : s'.Settled)
    {es : List Effect} (hes : s'.effects = s.effects ++ es) :
    s.Due kind content ↔ ∃ e ∈ es, e.Out kind content := by
  have hend : ¬ s'.Due kind content := by
    unfold System.Due
    rw [show locals (s'.queue ++ s'.found) = [] from hsettled]
    exact id
  have hrun' : ∃ es, s'.effects = s.effects ++ es ∧
      (s.Due kind content ↔ (∃ e ∈ es, e.Out kind content) ∨ s'.Due kind content) := due_run hrun hC
  obtain ⟨es', hes', hdue⟩ := hrun'
  rw [hes'] at hes
  rw [List.append_cancel_left hes, or_iff_left hend] at hdue
  exact hdue

end Continuation

/-! ## Event by event -/

section Lost
variable {tar : TarCrate} {stageRoot : Path} {s : System} {i : Nat} {rest : List Item}
  {item : Item} {ans : Answers} {o : Outcome}

theorem lost_of_gone {r : Except Bool Unit} (h : gone r = some .lost) : r = .error true := by
  match r with
  | .ok () => cases h
  | .error false => cases h
  | .error true => rfl

/-- A text or an image takes the offer with it; what else there is of a copy is in
the queue, or on the clipboard. -/
theorem lost_local {kind : UInt8} {content : List UInt8} {hash : UInt64}
    (ho : onLocal s.agent s.recv s.fs kind content hash ans = some o)
    (hlost : o.ended = some .lost) :
    (s.agent.Same o.agent ↔ kind = kindTar ∨ s.agent.localOffer = none) ∧
      ((s.after i item rest o).Due kind content ↔
        s.agent.GoesOut s.fs kind content (locals (rest ++ s.found))) := by
  rcases onLocal_cases ho with ⟨-, rfl⟩ | ⟨-, rfl, offer, -, rfl⟩ | ⟨-, hkind, r, -, rfl⟩
  · cases hlost
  · have hwrote : ans.wrote = false := by
      cases hw : ans.wrote with
      | true => rw [hw] at hlost; cases hlost
      | false => rfl
    simp only [hwrote, Bool.false_eq_true, if_false]
    refine ⟨iff_of_true ⟨rfl, rfl, rfl⟩ (Or.inl trivial), ?_⟩
    unfold System.Due
    rw [after_found rfl rfl]
    exact Iff.rfl
  · have hr := lost_of_gone hlost
    subst hr
    simp only [if_true]
    constructor
    · constructor
      · rintro ⟨hlo, -⟩
        exact Or.inr hlo.symm
      · intro h
        exact ⟨(h.resolve_left hkind).symm, rfl, rfl⟩
    · unfold System.Due
      rw [after_found rfl rfl]
      exact goesOut_congr (by rfl) (by rfl) _

theorem lost_frame {f : Frame} (ho : onFrame tar stageRoot s.agent s.recv s.fs f ans = some o)
    (hlost : o.ended = some .lost) : s.agent.Same o.agent := by
  rcases onFrame_cases ho with ⟨kind, r, -, rfl⟩ | ⟨-, es, -, ⟨-, hend, -⟩ | hpull⟩
  · cases hlost
  · rw [hend] at hlost
    cases hlost
  · obtain ⟨fs', id, a', es', ended, hpull, ha, -, hend⟩ := hpull
    rw [ha]
    rcases onPull_cases hpull with ⟨rfl, -⟩ | ⟨lo, r, -, -, -, rfl, hr⟩
    · exact ⟨rfl, rfl, rfl⟩
    · rw [hend, hr] at hlost
      rw [lost_of_gone hlost, if_neg (by decide)]
      exact ⟨rfl, rfl, rfl⟩

/-- The push of a crossing, as far as the offers go. -/
theorem offers_controlPush {a a₁ : Agent} {fs : Fs} {es : List Effect} {ended : Option End}
    (h : controlPush tar a fs ans = some (a₁, es, ended)) :
    a₁.remoteOffer = a.remoteOffer ∧ a₁.lastSent = a.lastSent ∧
      (a₁.localOffer = a.localOffer ↔
        ∀ lo, a.localOffer = some lo → Abandoned tar fs lo ans.sends) ∧
      (ended ≠ none → ¬ ∀ lo, a.localOffer = some lo → Abandoned tar fs lo ans.sends) := by
  rcases controlPush_cases h with ⟨hnone, rfl, -, rfl⟩ | ⟨lo, r, hlo, hpush, rfl, rfl⟩
  · have hall : ∀ lo, a₁.localOffer = some lo → Abandoned tar fs lo ans.sends := by
      intro lo hlo
      rw [hnone] at hlo
      cases hlo
    exact ⟨rfl, rfl, ⟨fun _ => hall, fun _ => rfl⟩, fun h => absurd rfl h⟩
  · have hone : (∀ lo, a.localOffer = some lo → Abandoned tar fs lo ans.sends) ↔
        r = .error false := by
      constructor
      · intro hall
        obtain ⟨es', hes⟩ := hall lo hlo
        rw [hpush] at hes
        cases hes
        rfl
      · rintro rfl lo' hlo'
        rw [hlo] at hlo'
        cases hlo'
        exact ⟨es, hpush⟩
    rw [hone]
    by_cases hr : r = .error false
    · rw [if_pos hr]
      exact ⟨rfl, rfl, ⟨fun _ => hr, fun _ => rfl⟩, fun h => absurd (by rw [hr]; rfl) h⟩
    · rw [if_neg hr]
      refine ⟨rfl, rfl, ⟨?_, fun h => absurd h hr⟩, fun _ => hr⟩
      intro h
      rw [hlo] at h
      cases h

/-- The request of a crossing, when its PULL was not written. -/
theorem offers_controlPull {a : Agent} {msg : String}
    (h : (controlPull a msg ans).2.2 = some .lost) :
    (controlPull a msg ans).1.localOffer = a.localOffer ∧
      (controlPull a msg ans).1.lastSent = a.lastSent ∧
      ((controlPull a msg ans).1.remoteOffer = a.remoteOffer ↔
        ∃ ro, a.remoteOffer = some ro ∧ ro.requested = true) := by
  rcases controlPull_cases a msg ans with ⟨hpull, -⟩ | ⟨ro, hro, -, hpull⟩
  · rw [hpull] at h
    cases h
  · rw [hpull]
    refine ⟨rfl, rfl, ?_⟩
    show some { ro with requested := true } = a.remoteOffer ↔ _
    rw [hro]
    constructor
    · intro heq
      have hreq := congrArg RemoteOffer.requested (Option.some.inj heq)
      exact ⟨ro, rfl, hreq.symm⟩
    · rintro ⟨ro', hro', hreq⟩
      cases hro'
      rw [← hreq]

theorem lost_control {msg : String} (ho : onControl tar s.agent s.recv s.fs msg ans = some o)
    (hlost : o.ended = some .lost) :
    s.agent.Same o.agent ↔
      (msg = "local" ∨ ∀ lo, s.agent.localOffer = some lo → Abandoned tar s.fs lo ans.sends) ∧
        ∃ ro, s.agent.remoteOffer = some ro ∧ ro.requested = true := by
  unfold Agent.Same
  obtain ⟨a₁, es₁, end₁, hpush, ho⟩ := onControl_cases ho
  by_cases hp : msg = "remote" ∨ msg = "pull"
  · rw [if_pos hp] at hpush
    obtain ⟨hremote, hlast, hlocal, hend⟩ := offers_controlPush hpush
    have hmsg : msg ≠ "local" := by
      rcases hp with rfl | rfl <;> decide
    split at ho
    next hpull =>
      rw [ho] at hlost
      obtain ⟨hlocal₁, hlast₁, hremote₁⟩ := offers_controlPull hlost
      rw [ho]
      simp only [hlocal₁, hlast₁, hlast, and_true, hlocal, hmsg, false_or]
      rw [← hremote, hremote₁]
    next =>
      rw [ho] at hlost
      have hnot := hend (by rw [show end₁ = some .lost from hlost]; decide)
      rw [ho]
      constructor
      · rintro ⟨h, -⟩
        exact absurd (hlocal.mp h) hnot
      · rintro ⟨h | h, -⟩
        · exact absurd h hmsg
        · exact absurd h hnot
  · rw [if_neg hp] at hpush
    obtain ⟨rfl, -, rfl⟩ := hpush
    split at ho
    next hpull =>
      have hmsg : msg = "local" := hpull.2.resolve_right fun h => hp (Or.inr h)
      rw [ho] at hlost
      obtain ⟨hlocal₁, hlast₁, hremote₁⟩ := offers_controlPull hlost
      rw [ho]
      simp only [hlocal₁, hlast₁, hremote₁, and_true, true_and]
      exact (and_iff_right (Or.inl hmsg)).symm
    next =>
      rw [ho] at hlost
      cases hlost

end Lost

/-- **What a failed write takes with it.** In every state of the agent, and for
every event whose handling a failed write ends, whatever the agent then does
undisturbed until nothing waits: the offers and `last_sent` are as before, and
the content of a local change goes out, exactly if the failure is of these. -/
theorem intact_iff {tar : TarCrate} {stageRoot : Path} {s s' s₂ : System} {item : Item}
    {rest : List Item} {ans : Answers} {o : Outcome} {acts : List Act} {es : List Effect}
    (hstep : (threads tar stageRoot).step s (.main ans) = some s')
    (hqueue : s.queue = item :: rest)
    (ho : handle tar stageRoot s.agent s.recv s.fs item.ev ans = some o)
    (hlost : o.ended = some .lost)
    (hrun : (threads tar stageRoot).exec s' acts = some s₂)
    (hC : (threads tar stageRoot).Meets (Undisturbed tar stageRoot) s' acts)
    (hsettled : s₂.Settled) (hes : s₂.effects = s'.effects ++ es) :
    (s.agent.Same s'.agent ∧ ∀ kind content h, item.ev = .local kind content h →
        ∃ e ∈ es, e.Out kind content) ↔ Survives tar s rest item ans := by
  obtain ⟨i, item', rest', o', -, hqueue', ho', rfl⟩ := main_eq_some hstep
  rw [hqueue] at hqueue'
  cases hqueue'
  rw [ho] at ho'
  cases ho'
  show s.agent.Same o.agent ∧ _ ↔ _
  unfold Survives
  cases hev : item.ev with
  | «local» kind content hash =>
      rw [hev] at ho
      obtain ⟨hsame, hdue⟩ : _ ∧ ((s.after i item rest o).Due kind content ↔ _) :=
        lost_local ho hlost
      refine and_congr hsame ?_
      rw [← hdue, due_iff_out hrun hC hsettled hes]
      constructor
      · intro h
        exact h kind content hash rfl
      · intro h k c y heq
        cases heq
        exact h
  | control msg =>
      rw [hev] at ho
      have hnone : ∀ kind content h, Ev.control msg = .local kind content h →
          ∃ e ∈ es, e.Out kind content := fun _ _ _ h => by cases h
      exact (and_iff_left hnone).trans (lost_control ho hlost)
  | frame f =>
      rw [hev] at ho
      exact iff_of_true ⟨lost_frame ho hlost, fun _ _ _ h => by cases h⟩ trivial
  | tick =>
      rw [hev] at ho
      cases ho
      refine iff_of_true ⟨?_, fun _ _ _ h => by cases h⟩ trivial
      unfold onTick
      split <;> exact ⟨rfl, rfl, rfl⟩
  | disconnected =>
      rw [hev] at ho
      cases ho
      cases hlost

/-! ## Two failures -/

instance (kind : UInt8) (content : List UInt8) : DecidablePred (Effect.Out kind content)
  | .send _ _ _ | .offer _ _ _ => inferInstanceAs (Decidable (_ ∧ _))
  | .write _ _ | .push _ _ _ | .set _ _ => isFalse id

instance : DecidablePred Effect.Worked
  | .send _ _ r => inferInstanceAs (Decidable (r = .ok ()))
  | .offer _ _ ok => inferInstanceAs (Decidable (ok = true))
  | .write _ _ | .push _ _ _ | .set _ _ => isTrue trivial

/-- Whether the answer to a frame is a transfer. -/
def isComplete : FeedResult → Bool
  | .complete _ _ => true
  | _ => false

theorem completes_iff {recv : Reassembler} {f : Frame} :
    isComplete (recv.feed f).2 = true ↔ (Ev.frame f).Completes recv := by
  constructor
  · intro h
    cases hfeed : (recv.feed f).2 with
    | complete kind data => exact ⟨f, kind, data, rfl, hfeed⟩
    | _ =>
        rw [hfeed] at h
        cases h
  · rintro ⟨f', kind, data, hf, hfeed⟩
    cases hf
    rw [hfeed]
    rfl

instance (recv : Reassembler) : DecidablePred (Ev.Completes recv)
  | .frame _ => decidable_of_iff _ completes_iff
  | .local _ _ _ | .control _ | .tick | .disconnected => isFalse fun ⟨_, _, _, h, _⟩ => nomatch h

instance (tar : TarCrate) (stageRoot : Path) (s : System) :
    ∀ act, Decidable (Undisturbed tar stageRoot s act)
  | .copy _ | .files _ => isFalse id
  | .main ans => inferInstanceAs (Decidable (∀ item ∈ s.queue.head?, ¬ item.ev.Completes s.recv ∧
      ∀ o ∈ handle tar stageRoot s.agent s.recv s.fs item.ev ans, ∀ e ∈ o.effects, e.Worked))
  | .watch | .control _ | .timer | .connect | .read _ _ | .hangUp _ => isTrue trivial

instance (s : System) : Decidable s.Settled := inferInstanceAs (Decidable (_ = _))

/-- A run, a step of the main loop, and what comes after it. -/
def failure (acts : List Act) (ans : Answers) (more : List Act) :
    Option (System × System × System) :=
  ((threads ustar []).exec (.init .init (fun _ => .broken) []) acts).bind fun s =>
    ((threads ustar []).step s (.main ans)).bind fun s' =>
      ((threads ustar []).exec s' more).map fun s₂ => (s, s', s₂)

/-- The user copies a text of one byte, and the watcher reads it. -/
def copyText (b : UInt8) : List Act := [.copy [("UTF8_STRING", [b])], .watch]

def textItem (b : UInt8) (n : Nat) : Item :=
  ⟨.local kindText [b] (contentHash kindText [b]), .watcher n⟩

/-- Writes fail, from the first frame of the text on. -/
def failing (b : UInt8) : Answers where
  silent := false
  wrote := false
  sends := [.store, .write (startFrame kindText [b]) false]
  set := false
  ts := 0

/-- Writes work. -/
def sendingText (b : UInt8) : Answers where
  silent := false
  wrote := true
  sends := unstalled (encodeTransfer kindText [b])
  set := true
  ts := 0

/-- Three texts are copied before there is a relay, the last as the first. -/
def threeTexts : List Act := copyText 7 ++ copyText 8 ++ copyText 7 ++ [.connect]

/-- The agent reconnects, sends what waits, takes the end of the connection that
failed for that of the new one, and reconnects. -/
def resumed : List Act :=
  [.hangUp 0, .connect, .main (sendingText 8), .main (sendingText 7), .main (sendingText 0),
    .connect, .watch]

/-- The event and what waits behind it, whether it is lost, whether the rest is
undisturbed and settled, and what it does. -/
def failureFacts (ans : Answers) (more : List Act) (x : System × System × System) :
    (List Item × Agent × List Item) × Option (Option End) × Bool × List Effect :=
  ((x.1.queue, x.1.agent, x.1.found),
    (x.1.queue.head?.bind fun item =>
      handle ustar [] x.1.agent x.1.recv x.1.fs item.ev ans).map (·.ended),
    decide ((threads ustar []).Meets (Undisturbed ustar []) x.2.1 more ∧ x.2.2.Settled),
    x.2.2.effects.drop x.2.1.effects.length)

/-- The hypotheses of `intact_iff`, from the facts. -/
theorem failure_eq_some {acts : List Act} {ans : Answers} {more : List Act} {item : Item}
    {rest : List Item} {a : Agent} {found : List Item} {es : List Effect}
    (h : (failure acts ans more).map (failureFacts ans more) =
      some ((item :: rest, a, found), some (some .lost), true, es)) : ∃ s s' s₂ o,
    (threads ustar []).exec (.init .init (fun _ => .broken) []) acts = some s ∧
      (threads ustar []).step s (.main ans) = some s' ∧
      (s.queue = item :: rest ∧ s.agent = a ∧ s.found = found) ∧
      (handle ustar [] s.agent s.recv s.fs item.ev ans = some o ∧ o.ended = some .lost) ∧
      (threads ustar []).exec s' more = some s₂ ∧
      (threads ustar []).Meets (Undisturbed ustar []) s' more ∧ s₂.Settled ∧
      s₂.effects = s'.effects ++ es := by
  obtain ⟨⟨s, s', s₂⟩, hx, hfacts⟩ := Option.map_eq_some_iff.mp h
  obtain ⟨t, hrun, hx⟩ := Option.bind_eq_some_iff.mp hx
  obtain ⟨t', hstep, hx⟩ := Option.bind_eq_some_iff.mp hx
  obtain ⟨t₂, hmore, heq⟩ := Option.map_eq_some_iff.mp hx
  cases heq
  simp only [failureFacts, Prod.mk.injEq, decide_eq_true_eq] at hfacts
  obtain ⟨hstate, hlost, ⟨hC, hsettled⟩, hes⟩ := hfacts
  rw [hstate.1] at hlost
  obtain ⟨o, ho, hlost⟩ := Option.map_eq_some_iff.mp hlost
  obtain ⟨es', hes', -⟩ : ∃ es, s₂.effects = s'.effects ++ es ∧
      (s'.Due kindText [] ↔ _ ∨ s₂.Due kindText []) := due_run hmore hC
  rw [hes', List.drop_left] at hes
  subst hes
  exact ⟨s, s', s₂, o, hrun, hstep, hstate, ⟨ho, hlost⟩, hmore, hC, hsettled, hes'⟩

theorem threeTexts_facts : (failure threeTexts (failing 7) resumed).map
    (failureFacts (failing 7) resumed) =
      some (([textItem 7 1, textItem 8 2, textItem 7 3], .init, []), some (some .lost), true,
        [.send kindText [8] (.ok ()), .send kindText [7] (.ok ())]) := by
  decide +kernel

theorem intact_iff_threeTexts : ∃ s s' s₂,
    (threads ustar []).exec (.init .init (fun _ => .broken) []) threeTexts = some s ∧
      (threads ustar []).step s (.main (failing 7)) = some s' ∧
      (threads ustar []).exec s' resumed = some s₂ ∧
      s₂.effects = s'.effects ++ [.send kindText [8] (.ok ()), .send kindText [7] (.ok ())] ∧
      s.agent.Same s'.agent ∧ ∃ e ∈ ([.send kindText [8] (.ok ()), .send kindText [7] (.ok ())]
        : List Effect), e.Out kindText [7] := by
  obtain ⟨s, s', s₂, o, hrun, hstep, ⟨hqueue, hagent, hfound⟩, ⟨ho, hlost⟩, hmore, hC, hsettled,
    hes⟩ := failure_eq_some threeTexts_facts
  have hout : Agent.init.GoesOut s.fs kindText [7] (locals [textItem 8 2, textItem 7 3]) := by
    have htext : kindText ≠ kindTar := by decide
    have hfirst : ¬ Agent.init.Suppresses (contentHash kindText [8]) := by decide +kernel
    have hsecond : ¬ Agent.Suppresses ⟨contentHash kindText [8], 0, none, none⟩
        (contentHash kindText [7]) := by
      decide +kernel
    have hlocals : locals [textItem 8 2, textItem 7 3] =
        [(kindText, [8], contentHash kindText [8]), (kindText, [7], contentHash kindText [7])] := rfl
    rw [hlocals, Agent.GoesOut, if_neg (by rintro (h | ⟨h, -⟩); exacts [hfirst h, htext h]),
      Agent.GoesOut, if_neg (by rintro (h | ⟨h, -⟩); exacts [hsecond h, htext h])]
    exact Or.inr (Or.inl ⟨rfl, rfl⟩)
  obtain ⟨hsame, hgone⟩ := (intact_iff hstep hqueue ho hlost hmore hC hsettled hes).mpr
    ⟨Or.inr (by rw [hagent]; rfl), by rw [hagent, hfound]; exact hout⟩
  exact ⟨s, s', s₂, hrun, hstep, hmore, hes, hsame, hgone _ _ _ rfl⟩

/-- **A copy lost.** The first frame of a text is not written; the agent reconnects,
and reads the clipboard again. -/
theorem copy_lost :
    ¬ ∀ (tar : TarCrate) (stageRoot : Path) (fs : Fs) (clip : Selection) (before : List Act)
      (s s' s₂ : System) (item : Item) (rest : List Item) (ans : Answers) (o : Outcome)
      (acts : List Act) (es : List Effect),
      (threads tar stageRoot).exec (.init .init fs clip) before = some s →
      (threads tar stageRoot).step s (.main ans) = some s' → s.queue = item :: rest →
      handle tar stageRoot s.agent s.recv s.fs item.ev ans = some o → o.ended = some .lost →
      (threads tar stageRoot).exec s' acts = some s₂ →
      (threads tar stageRoot).Meets (Undisturbed tar stageRoot) s' acts → s₂.Settled →
      s₂.effects = s'.effects ++ es →
      s.agent.Same s'.agent ∧ ∀ kind content h, item.ev = .local kind content h →
        ∃ e ∈ es, e.Out kind content := by
  intro h
  have hfacts : (failure (copyText 7 ++ [.connect]) (failing 7) [.connect, .watch]).map
      (failureFacts (failing 7) [.connect, .watch]) =
        some (([textItem 7 1], .init, []), some (some .lost), true, []) := by
    decide +kernel
  obtain ⟨s, s', s₂, o, hrun, hstep, ⟨hqueue, -, -⟩, ⟨ho, hlost⟩, hmore, hC, hsettled, hes⟩ :=
    failure_eq_some hfacts
  obtain ⟨-, hgone⟩ := h ustar [] _ [] _ s s' s₂ _ [] _ o _ [] hrun hstep hqueue ho hlost hmore hC
    hsettled hes
  obtain ⟨e, he, -⟩ := hgone kindText [7] _ rfl
  cases he

end Beaglewing.Agents.Linux
