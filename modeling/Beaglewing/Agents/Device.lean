/-
# `Agents.Device` — the helper and a device that comes and goes

The write handle of the Windows helper: the send loop tries to open the device
at the top of each round (`ensure_open`), and a write that fails drops it
(`hid_send`).  The loop looks at a sequence number of the clipboard only once,
and before it sends; what becomes of a copy that could not be sent depends on
what the loop has recorded then.

    text, image    `last_sent` is set after a failure as after a success: the
                   copy is taken for one that was sent
    files          `last_sent` is not set, for another try; but the sequence
                   number is an old one, unless it changed between the look at
                   it and the reading of the clipboard

So a copy that failed stays where it is (`Spent.run`), except in that gap
(`unsent_copy`).
-/
import Beaglewing.Agents.Helper

namespace Beaglewing.Agents.Windows

open Base Clipframe Files

/-! ## The device -/

/-- Whether the device is open after `hid_send` has returned `ok`. -/
def hidSend (opened ok : Bool) : Option Bool :=
  if ok then (if opened then some true else none) else some false

/-- The same for the writes of `send_frames`. -/
def hidSends (opened : Bool) : List SendAct → Option Bool
  | [] => some opened
  | .write _ ok :: sends => (hidSend opened ok).bind fun opened => hidSends opened sends
  | _ :: sends => hidSends opened sends

structure Wired where
  helper : Helper
  opened : Bool

inductive WiredAct where
  /-- `ensure_open`, and whether `try_open` finds a device. -/
  | ensureOpen (found : Bool)
  | helper (a : Act)

/-- The device after a step from `s` to `s'`, if it can have answered so. -/
def used (opened : Bool) (s s' : Helper) (a : Act) : Option Bool :=
  if s'.sents = s.sents then some opened
  else
    match a, s.poll with
    | .pull sends, _ => hidSends opened sends
    | .send wrote sends, .send kind _ _ =>
        if kind = kindTar then hidSend opened wrote else hidSends opened sends
    | _, _ => some opened

def wired (host : Host) : Lts Wired WiredAct where
  step w
    | .ensureOpen found =>
        if w.helper.poll = .top then some { w with opened := w.opened || found } else none
    | .helper a =>
        ((helper host).step w.helper a).bind fun s =>
          (used w.opened w.helper s a).map fun opened => ⟨s, opened⟩

/-- The user copies something, or the applier opens the clipboard. -/
def Act.sets : Act → Bool
  | .copy _ => true
  | .publish set => set.opened
  | _ => false

def WiredAct.sets : WiredAct → Bool
  | .ensureOpen _ => false
  | .helper a => a.sets

/-- It could not be sent, or offered. -/
def Sent.Failed : Sent → Prop
  | .offer _ _ ok => ok = false
  | .send _ _ ok => ok = false
  | .push _ _ _ => False

instance : DecidablePred Sent.Failed
  | .offer _ _ ok => inferInstanceAs (Decidable (ok = false))
  | .send _ _ ok => inferInstanceAs (Decidable (ok = false))
  | .push _ _ _ => isFalse id

section Steps
variable {host : Host}

theorem wired_eq_some {w w' : Wired} {a : Act} (h : (wired host).step w (.helper a) = some w') :
    (helper host).step w.helper a = some w'.helper ∧
      used w.opened w.helper w'.helper a = some w'.opened := by
  obtain ⟨s, hs, h⟩ := Option.bind_eq_some_iff.mp h
  obtain ⟨opened, hopened, rfl⟩ := Option.map_eq_some_iff.mp h
  exact ⟨hs, hopened⟩

theorem ensureOpen_helper {w w' : Wired} {found : Bool}
    (h : (wired host).step w (.ensureOpen found) = some w') : w'.helper = w.helper := by
  simp only [wired] at h
  split at h
  · cases h
    rfl
  · cases h

/-- An invariant of the helper is one of the helper with a device. -/
theorem wired_invariant {P : Helper → Prop} {w w' : Wired} {acts : List WiredAct}
    (hinit : P w.helper)
    (hstep : ∀ s a s', P s → (helper host).step s a = some s' → P s')
    (h : (wired host).exec w acts = some w') : P w'.helper := by
  refine (wired host).exec_invariant (P := fun w => P w.helper) hinit ?_ h
  intro w₁ a w₂ hw hst
  cases a with
  | ensureOpen found => exact (ensureOpen_helper hst).symm ▸ hw
  | helper a => exact hstep _ a _ hw (wired_eq_some hst).1

/-! ## A clipboard that has been dealt with -/

/-- What the clipboard holds has the hash of what was sent last. -/
def Helper.Handled (host : Host) (s : Helper) : Prop :=
  ∀ fs x, getClipboardContent host fs s.clip = some x → x.2.2 = s.lastSent

/-- Places on the way to nothing. -/
def Helper.Idles (host : Host) (s : Helper) : Polling → Prop
  | .top => True
  | .seq => True
  | .read => s.Handled host
  | .compare _ _ h => h = s.lastSent
  | .send _ _ _ => False

structure Helper.Spent (host : Host) (s : Helper) : Prop where
  seen : s.seqNum = s.lastSeq ∨ s.Handled host
  idles : s.Idles host s.poll

theorem see_new {s s' : Helper} (h : (helper host).step s .see = some s')
    (hread : s'.poll = .read) : s.seqNum ≠ s.lastSeq := by
  intro heq
  simp only [helper, heq, if_true] at h
  split at h
  · cases h
    cases hread
  · cases h

theorem read_place {s s' : Helper} (h : (helper host).step s .read = some s') : s.poll = .read := by
  simp only [helper] at h
  split at h
  next hplace => exact hplace
  next => cases h

/-- The round ends without a message, and so does every later one; only a PULL
of the offer that is held is served. -/
theorem Helper.Spent.step {s s' : Helper} {a : Act} (hs : s.Spent host)
    (hset : a.sets = false) (h : (helper host).step s a = some s') :
    s'.Spent host ∧ (s'.localOffer = s.localOffer ∨ s'.localOffer = none) ∧
      (s'.sents = s.sents ∨ ∃ lo archive ok, s.localOffer = some lo ∧
        s'.sents = s.sents ++ [.push lo.paths archive ok]) := by
  cases a with
  | copy c => cases hset
  | files fs =>
      cases h
      exact ⟨⟨hs.seen, hs.idles⟩, .inl rfl, .inl rfl⟩
  | pulled id =>
      cases h
      exact ⟨⟨hs.seen, hs.idles⟩, .inl rfl, .inl rfl⟩
  | take kind data ts =>
      obtain rfl | ⟨p, fs, rfl⟩ := take_eq_some h
      · exact ⟨hs, .inl rfl, .inl rfl⟩
      · exact ⟨⟨hs.seen, hs.idles⟩, .inl rfl, .inl rfl⟩
  | publish set =>
      have hclosed : set.opened = false := hset
      simp only [helper, hclosed, Bool.false_eq_true, if_false] at h
      split at h
      · cases h
        exact ⟨⟨hs.seen, hs.idles⟩, .inl rfl, .inl rfl⟩
      · cases h
  | walk =>
      obtain ⟨staged, rfl⟩ := walk_eq_some h
      exact ⟨⟨hs.seen, hs.idles⟩, .inl rfl, .inl rfl⟩
  | store =>
      obtain ⟨kind, content, y, -, rfl⟩ := store_eq_some h
      exact ⟨⟨hs.seen, hs.idles⟩, .inl rfl, .inl rfl⟩
  | pull sends =>
      rcases pull_cases (pull_eq_some h) with rfl | ⟨lo, archive, ok, hserves, rfl⟩
      · exact ⟨⟨hs.seen, trivial⟩, .inl rfl, .inl rfl⟩
      · refine ⟨⟨hs.seen, trivial⟩, ?_, .inr ⟨lo, archive, ok, hserves.offer, rfl⟩⟩
        cases ok with
        | true => exact .inr rfl
        | false => exact .inl hserves.offer.symm
  | see =>
      rcases see_eq_some h with rfl | heq
      · exact ⟨⟨hs.seen, trivial⟩, .inl rfl, .inl rfl⟩
      · have hhandled := hs.seen.resolve_left (see_new h (by rw [heq]))
        rw [heq]
        exact ⟨⟨.inl rfl, hhandled⟩, .inl rfl, .inl rfl⟩
  | read =>
      have hidles := hs.idles
      rw [read_place h] at hidles
      rcases read_eq_some h with rfl | ⟨kind, content, y, hget, rfl⟩
      · exact ⟨⟨hs.seen, trivial⟩, .inl rfl, .inl rfl⟩
      · exact ⟨⟨hs.seen, hidles s.fs _ hget⟩, .inl rfl, .inl rfl⟩
  | compare =>
      rcases compare_eq_some h with rfl | ⟨kind, content, y, hplace, hgo, rfl⟩
      · exact ⟨⟨hs.seen, trivial⟩, .inl rfl, .inl rfl⟩
      · have hidles := hs.idles
        rw [hplace] at hidles
        exact absurd (.inl hidles) hgo
  | send wrote sends =>
      obtain ⟨kind, content, y, hplace, -⟩ := send_eq_some h
      have hidles := hs.idles
      rw [hplace] at hidles
      exact hidles.elim

/-- What has gone out since: files of the offer that was held, at a PULL. -/
def Pushed (s : Helper) (news : List Sent) : Prop :=
  ∀ x ∈ news, ∃ lo archive ok, s.localOffer = some lo ∧ x = .push lo.paths archive ok

/-- Nothing is offered or sent any more, however the device does. -/
theorem Helper.Spent.run {w w' : Wired} {acts : List WiredAct} (hs : w.helper.Spent host)
    (hset : ∀ a ∈ acts, a.sets = false) (h : (wired host).exec w acts = some w') :
    ∃ news, w'.helper.sents = w.helper.sents ++ news ∧ Pushed w.helper news := by
  have hkept := (wired host).exec_induction
    (P := fun acts w' => (∀ a ∈ acts, a.sets = false) → w'.helper.Spent host ∧
      (w'.helper.localOffer = w.helper.localOffer ∨ w'.helper.localOffer = none) ∧
      ∃ news, w'.helper.sents = w.helper.sents ++ news ∧ Pushed w.helper news)
    (fun _ => ⟨hs, .inl rfl, [], (List.append_nil _).symm, nofun⟩) ?_ h
  · exact (hkept hset).2.2
  · intro acts a w₁ w₂ ih hst hset
    obtain ⟨hs₁, hoffer, news, hsents, hpushed⟩ :=
      ih fun x hx => hset x (List.mem_append_left _ hx)
    have ha := hset a (List.mem_append_right _ List.mem_cons_self)
    cases a with
    | ensureOpen found =>
        rw [ensureOpen_helper hst]
        exact ⟨hs₁, hoffer, news, hsents, hpushed⟩
    | helper a =>
        obtain ⟨hs₂, hoffer₂, hsents₂⟩ := hs₁.step ha (wired_eq_some hst).1
        refine ⟨hs₂, ?_, ?_⟩
        · rcases hoffer₂ with heq | heq
          · rw [heq]
            exact hoffer
          · exact .inr heq
        · rcases hsents₂ with heq | ⟨lo, archive, ok, hlo, heq⟩
          · exact ⟨news, heq.trans hsents, hpushed⟩
          · refine ⟨news ++ [.push lo.paths archive ok], ?_, ?_⟩
            · rw [heq, hsents, List.append_assoc]
            · intro x hx
              rcases List.mem_append.mp hx with hx | hx
              · exact hpushed x hx
              · have hlo₀ : w.helper.localOffer = some lo := by
                  rcases hoffer with heq | heq
                  · rw [← heq, hlo]
                  · rw [hlo] at heq
                    cases heq
                exact ⟨lo, archive, ok, hlo₀, List.mem_singleton.mp hx⟩

/-! ## The hash of what is sent -/

/-- A text or an image goes out under the hash of its bytes. -/
structure Helper.HashedSend (s : Helper) : Prop where
  hashed : s.Hashed
  sending : ∀ kind content h, s.poll = .send kind content h → kind ≠ kindTar →
    h = contentHash kind content

theorem Helper.HashedSend.step {s s' : Helper} {a : Act} (hs : s.HashedSend)
    (h : (helper host).step s a = some s') : s'.HashedSend := by
  refine ⟨hs.hashed.step h, ?_⟩
  intro kind content y hplace hkind
  cases a with
  | copy c =>
      cases h
      exact hs.sending kind content y hplace hkind
  | files fs =>
      cases h
      exact hs.sending kind content y hplace hkind
  | pulled id =>
      cases h
      exact hs.sending kind content y hplace hkind
  | take k data ts =>
      obtain rfl | ⟨p, fs, rfl⟩ := take_eq_some h
      · exact hs.sending kind content y hplace hkind
      · exact hs.sending kind content y hplace hkind
  | publish set =>
      obtain ⟨p, clip, seqNum, -, rfl⟩ := publish_eq_some h
      exact hs.sending kind content y hplace hkind
  | walk =>
      obtain ⟨staged, rfl⟩ := walk_eq_some h
      exact hs.sending kind content y hplace hkind
  | store =>
      obtain ⟨k, c, z, -, rfl⟩ := store_eq_some h
      exact hs.sending kind content y hplace hkind
  | pull sends =>
      rcases pull_cases (pull_eq_some h) with rfl | ⟨lo, archive, ok, -, rfl⟩
      · cases hplace
      · cases hplace
  | see =>
      rcases see_eq_some h with rfl | rfl
      · cases hplace
      · cases hplace
  | read =>
      rcases read_eq_some h with rfl | ⟨k, c, z, -, rfl⟩
      · cases hplace
      · cases hplace
  | compare =>
      rcases compare_eq_some h with rfl | ⟨k, c, z, hcompare, -, rfl⟩
      · cases hplace
      · cases hplace
        exact hs.hashed.comparing kind content y hcompare hkind
  | send wrote sends =>
      obtain ⟨k, c, z, -, h⟩ := send_eq_some h
      rcases send_cases h with rfl | ⟨-, sig, total, -, rfl⟩ | ⟨-, ok, -, rfl⟩
      · cases hplace
      · cases hplace
      · cases hplace

/-- What is read of a text or an image is the payload. -/
theorem payload_of_get {fs : Fs} {c : Formats} {x : UInt8 × List UInt8 × UInt64}
    (h : getClipboardContent host fs c = some x) : payload host c = some (x.1, x.2.1) := by
  unfold getClipboardContent at h
  rw [payload]
  by_cases hfiles : c.files ≠ []
  · rw [if_pos hfiles] at h ⊢
    obtain ⟨y, -, rfl⟩ := Option.map_eq_some_iff.mp h
    rfl
  · rw [if_neg hfiles] at h ⊢
    by_cases htext : c.text ≠ []
    · rw [if_pos htext] at h ⊢
      cases h
      rfl
    · rw [if_neg htext] at h ⊢
      by_cases hpng : c.png ≠ []
      · rw [if_pos hpng] at h ⊢
        cases h
        rfl
      · rw [if_neg hpng] at h ⊢
        obtain ⟨png, hbmp, rfl⟩ := Option.map_eq_some_iff.mp h
        rw [hbmp]
        rfl

/-! ## After a failure -/

/-- A text or an image is recorded as sent. -/
theorem spent_of_failed {w w' : Wired} {kind : UInt8} {content : List UInt8} {h : UInt64}
    {wrote : Bool} {sends : List SendAct} {x : Sent} (hhashed : w.helper.HashedSend)
    (hplace : w.helper.poll = .send kind content h)
    (hstep : (wired host).step w (.helper (.send wrote sends)) = some w')
    (hsents : w'.helper.sents = w.helper.sents ++ [x]) (hkind : kind ≠ kindTar)
    (hclip : payload host w.helper.clip = some (kind, content)) :
    w'.helper.Spent host ∧ w'.helper.localOffer = none ∧ w'.helper.lastSent = h := by
  obtain ⟨k, c, y, hplace', hsend⟩ := send_eq_some (wired_eq_some hstep).1
  rw [hplace] at hplace'
  cases hplace'
  have hhash := hhashed.sending kind content h hplace hkind
  rcases send_cases hsend with heq | ⟨htar, -⟩ | ⟨-, ok, -, heq⟩
  · rw [heq] at hsents
    simp at hsents
  · exact absurd htar hkind
  · rw [heq]
    refine ⟨⟨.inr ?_, trivial⟩, rfl, rfl⟩
    intro fs z hget
    have hpayload := payload_of_get hget
    rw [hclip, Option.some.injEq, Prod.mk.injEq] at hpayload
    obtain ⟨hk, hc⟩ := hpayload
    rw [hhash, hk, hc]
    exact getClipboardContent_hash hget (hk ▸ hkind)

theorem wired_quiet {w : Wired} {s : Helper} {a : Act} (h : (helper host).step w.helper a = some s)
    (hsents : s.sents = w.helper.sents) :
    (wired host).step w (.helper a) = some ⟨s, w.opened⟩ := by
  simp only [wired, h, Option.bind_some, used, if_pos hsents, Option.map_some]

/-- The rest of a round that finds a new sequence number, and files. -/
theorem offered_of_seq {s : Helper} {content : List UInt8} {h : UInt64} (hplace : s.poll = .seq)
    (hnew : s.seqNum ≠ s.lastSeq)
    (hget : getClipboardContent host s.fs s.clip = some (kindTar, content, h))
    (hgo : ¬ s.Suppresses h) (hsig : (batchSignature s.fs (pathList host content)).isSome) :
    ∃ o w, (wired host).exec ⟨s, true⟩ [.helper .see, .helper .read, .helper .compare,
      .helper (.send true [])] = some w ∧ .offer content o true ∈ w.helper.sents := by
  obtain ⟨⟨sig, total⟩, hsig⟩ := Option.isSome_iff_exists.mp hsig
  let s₁ : Helper := { s with lastSeq := s.seqNum, poll := .read }
  let s₂ : Helper := { s₁ with poll := .compare kindTar content h }
  let s₃ : Helper := { s₂ with poll := .send kindTar content h }
  let s₄ : Helper := { s₃ with
    poll := .top
    sents := s.sents ++ [.offer content (offerOf h (pathList host content) total) true]
    localOffer := some ⟨(offerOf h (pathList host content) total).id, pathList host content⟩
    lastSent := h }
  have hsee : (helper host).step s .see = some s₁ := by simp [helper, hplace, hnew, s₁]
  have hread : (helper host).step s₁ .read = some s₂ := by simp [helper, hget, s₁, s₂]
  have hcompare : (helper host).step s₂ .compare = some s₃ := by
    have hgo₂ : ¬ s₂.Suppresses h := hgo
    simp only [helper, if_neg hgo₂, s₂, s₃]
  have hsend : (wired host).step ⟨s₃, true⟩ (.helper (.send true [])) = some ⟨s₄, true⟩ := by
    simp [wired, helper, Helper.send, used, hidSend, hsig, s₁, s₂, s₃, s₄]
  have hsee' := wired_quiet (w := ⟨s, true⟩) hsee rfl
  have hread' := wired_quiet (w := ⟨s₁, true⟩) hread rfl
  have hcompare' := wired_quiet (w := ⟨s₂, true⟩) hcompare rfl
  refine ⟨offerOf h (pathList host content) total, ⟨s₄, true⟩, ?_, ?_⟩
  · rw [Lts.exec_cons, hsee', Option.bind_some, Lts.exec_cons, hread', Option.bind_some,
      Lts.exec_cons, hcompare', Option.bind_some, Lts.exec_cons, hsend]
    rfl
  · exact List.mem_append_right _ List.mem_cons_self

/-- Files are not recorded, so a round that finds a new sequence number offers
them. -/
theorem offered_of_new {w w₁ : Wired} {content : List UInt8} {h : UInt64}
    {sends : List SendAct} (hnew : w.helper.seqNum ≠ w.helper.lastSeq)
    (hget : getClipboardContent host w.helper.fs w.helper.clip = some (kindTar, content, h))
    (hgo : ¬ w.helper.Suppresses h)
    (hsig : (batchSignature w.helper.fs (pathList host content)).isSome)
    (hpull : (wired host).step w (.helper (.pull sends)) = some w₁) (hopen : w₁.opened = true) :
    ∃ o w₂, (wired host).exec w₁ [.helper .see, .helper .read, .helper .compare,
      .helper (.send true [])] = some w₂ ∧ .offer content o true ∈ w₂.helper.sents := by
  obtain ⟨s, opened⟩ := w₁
  cases hopen
  rcases pull_cases (pull_eq_some (wired_eq_some hpull).1) with heq | ⟨lo, archive, ok, -, heq⟩
  · cases heq
    exact offered_of_seq rfl hnew hget hgo hsig
  · cases heq
    exact offered_of_seq rfl hnew hget hgo hsig

/-- **A copy that could not be sent.** A text or an image is recorded as sent, and
stays where it is, however long the device is open, until something else is
copied.  Files are not recorded as offered; if the sequence number is a new one,
the next round with an open device offers them. -/
theorem unsent_copy (host : Host) (fs : Fs) (clip : Formats) (seqNum : Nat) (opened : Bool)
    (acts : List WiredAct) (w w' : Wired) (kind : UInt8) (content : List UInt8) (h : UInt64)
    (wrote : Bool) (sends : List SendAct) (x : Sent)
    (hrun : (wired host).exec ⟨.init host fs clip seqNum, opened⟩ acts = some w)
    (hplace : w.helper.poll = .send kind content h)
    (hstep : (wired host).step w (.helper (.send wrote sends)) = some w')
    (hsents : w'.helper.sents = w.helper.sents ++ [x]) (hfailed : x.Failed)
    (hclip : payload host w.helper.clip = some (kind, content)) :
    (kind ≠ kindTar → w'.helper.lastSent = h ∧ ∀ acts' w'', (∀ a ∈ acts', a.sets = false) →
      (wired host).exec w' acts' = some w'' → w''.helper.sents = w'.helper.sents) ∧
    (kind = kindTar → w'.helper.lastSent = w.helper.lastSent ∧
      (w.helper.seqNum ≠ w.helper.lastSeq → ∀ found sends' h' w₁,
        (wired host).exec w' [.ensureOpen found, .helper (.pull sends')] = some w₁ →
        w₁.opened = true →
        getClipboardContent host w'.helper.fs w'.helper.clip = some (kindTar, content, h') →
        ¬ w'.helper.Suppresses h' →
        ∃ o w₂, (wired host).exec w₁ [.helper .see, .helper .read, .helper .compare,
          .helper (.send true [])] = some w₂ ∧ .offer content o true ∈ w₂.helper.sents)) := by
  have hhashed : w.helper.HashedSend :=
    wired_invariant ⟨hashed_init host fs clip seqNum, fun _ _ _ he => by cases he⟩
      (fun _ _ _ hs hst => hs.step hst) hrun
  constructor
  · intro hkind
    obtain ⟨hspent, hnone, hlast⟩ := spent_of_failed hhashed hplace hstep hsents hkind hclip
    refine ⟨hlast, ?_⟩
    intro acts' w'' hset hrun'
    obtain ⟨news, hnews, hpushed⟩ := hspent.run hset hrun'
    have hnil : news = [] := by
      refine List.eq_nil_iff_forall_not_mem.mpr ?_
      intro y hy
      obtain ⟨lo, archive, ok, hlo, -⟩ := hpushed y hy
      rw [hnone] at hlo
      cases hlo
    rw [hnews, hnil, List.append_nil]
  · rintro rfl
    obtain ⟨k, c, y, hplace', hsend⟩ := send_eq_some (wired_eq_some hstep).1
    rw [hplace] at hplace'
    cases hplace'
    rcases send_cases hsend with heq | ⟨-, sig, total, hsig, heq⟩ | ⟨hne, -⟩
    · rw [heq] at hsents
      simp at hsents
    · have hwrote : wrote = false := by
        rw [heq] at hsents
        rw [← List.singleton_inj.mp (List.append_cancel_left hsents)] at hfailed
        exact hfailed
      subst hwrote
      refine ⟨by rw [heq]; rfl, ?_⟩
      intro hnew found sends' h' w₁ hround hopen hget hgo
      obtain ⟨w₂, hensure, hround⟩ := Option.bind_eq_some_iff.mp hround
      obtain ⟨w₃, hpull, hround⟩ := Option.bind_eq_some_iff.mp hround
      cases hround
      have hkeep := ensureOpen_helper hensure
      have hnew₂ : w₂.helper.seqNum ≠ w₂.helper.lastSeq := by
        rw [hkeep, heq]
        exact hnew
      have hsig₂ : (batchSignature w₂.helper.fs (pathList host content)).isSome := by
        rw [hkeep, heq, hsig]
        rfl
      rw [← hkeep] at hget hgo
      exact offered_of_new hnew₂ hget hgo hsig₂ hpull hopen
    · exact absurd rfl hne

end Steps

/-! Files copied when the loop has seen an earlier copy, and not yet read it;
then the offer fails, for the device is absent. -/

def noneCopied : Formats := ⟨[], [], [], none⟩

def copiedText : Formats := ⟨[], ['\x07'], [], none⟩

def copiedFiles : Formats := ⟨[['a']], [], [], none⟩

/-- Every path is a file. -/
def files : Fs := fun _ => .file [1]

def gap : List WiredAct :=
  [.helper (.copy copiedText), .helper (.pull []), .helper .see, .helper (.copy copiedFiles),
    .helper .read, .helper .compare]

def Polling.offers (content : List UInt8) : Polling → Bool
  | .send kind c _ => kind = kindTar && c = content
  | _ => false

theorem unsent_copy_gap : ∃ (w' w₁ w₂ : Wired) (x : Sent) (o : Offer),
    (wired plain).exec ⟨.init plain files noneCopied 0, false⟩
        (gap ++ [.helper (.send false [])]) = some w' ∧
      w'.helper.sents = [x] ∧ x.Failed ∧
      (wired plain).exec w' [.ensureOpen true, .helper (.pull [])] = some w₁ ∧
      (wired plain).exec w₁ [.helper .see, .helper .read, .helper .compare,
        .helper (.send true [])] = some w₂ ∧ .offer [97] o true ∈ w₂.helper.sents := by
  have hrun : ((wired plain).exec ⟨.init plain files noneCopied 0, false⟩ gap).bind (fun w =>
      ((wired plain).step w (.helper (.send false []))).bind fun w' =>
        ((wired plain).exec w' [.ensureOpen true, .helper (.pull [])]).map fun w₁ =>
          decide (w.helper.poll.offers [97] ∧ payload plain w.helper.clip = some (kindTar, [97]) ∧
            w.helper.seqNum ≠ w.helper.lastSeq ∧ w.helper.sents = [] ∧
            w'.helper.sents.length = 1 ∧ (∀ x ∈ w'.helper.sents, x.Failed) ∧ w₁.opened ∧
            (getClipboardContent plain w'.helper.fs w'.helper.clip).any fun x =>
              x.1 = kindTar && x.2.1 = [97] && ¬ w'.helper.Suppresses x.2.2)) = some true := by
    decide +kernel
  obtain ⟨w, hw, hrun⟩ := Option.bind_eq_some_iff.mp hrun
  obtain ⟨w', hw', hrun⟩ := Option.bind_eq_some_iff.mp hrun
  obtain ⟨w₁, hw₁, hstate⟩ := Option.map_eq_some_iff.mp hrun
  obtain ⟨hoffers, hclip, hnew, hnone, hone, hfailed, hopen, hget⟩ := of_decide_eq_true hstate
  obtain ⟨h, hplace⟩ : ∃ h, w.helper.poll = .send kindTar [97] h := by
    cases hpoll : w.helper.poll with
    | send kind content h =>
        simp only [hpoll, Polling.offers, Bool.and_eq_true, decide_eq_true_eq] at hoffers
        exact ⟨h, by rw [hoffers.1, hoffers.2]⟩
    | _ => simp [hpoll, Polling.offers] at hoffers
  obtain ⟨x, hx⟩ := List.length_eq_one_iff.mp hone
  have hfail : x.Failed := hfailed x (by rw [hx]; exact List.mem_cons_self)
  obtain ⟨⟨k, c, h'⟩, hget, hshape⟩ := (Option.any_eq_true _ _).mp hget
  simp only [Bool.and_eq_true, decide_eq_true_eq] at hshape
  obtain ⟨⟨rfl, rfl⟩, hgo⟩ := hshape
  obtain ⟨-, hgap⟩ := unsent_copy plain files noneCopied 0 false gap w w' kindTar [97] h false [] x
    hw hplace hw' (by rw [hx, hnone]; rfl) hfail hclip
  obtain ⟨-, hoffered⟩ := hgap rfl
  obtain ⟨o, w₂, hw₂, hmem⟩ := hoffered hnew true [] h' w₁ hw₁ hopen hget hgo
  exact ⟨w', w₁, w₂, x, o, (wired plain).exec_snoc.mpr ⟨w, hw, hw'⟩, hx, hfail, hw₁, hw₂, hmem⟩

/-- A copy while the device is absent; after that round the device is found. -/
def absent (c : Formats) (sends : List SendAct) : List WiredAct :=
  [.ensureOpen false, .helper (.copy c), .helper (.pull []), .helper .see, .helper .read,
    .helper .compare, .helper (.send false sends), .ensureOpen true]

/-- The round is over, what was copied last has failed, and nothing more will
go out. -/
theorem stuck_of_absent {c : Formats} {sends : List SendAct} {x : UInt8 × List UInt8}
    (hrun : ((wired plain).exec ⟨.init plain files noneCopied 0, false⟩ (absent c sends)).map
      (fun w => decide (w.opened ∧ w.helper.poll = .top ∧ w.helper.seqNum = w.helper.lastSeq ∧
        w.helper.localOffer = none ∧ w.helper.copied = [x] ∧ w.helper.sents.length = 1 ∧
        ∀ y ∈ w.helper.sents, y.Failed)) = some true) :
    ∃ w y, (wired plain).exec ⟨.init plain files noneCopied 0, false⟩ (absent c sends) = some w ∧
      w.opened ∧ w.helper.copied = [x] ∧ w.helper.sents = [y] ∧ y.Failed ∧
      ∀ acts w', (∀ a ∈ acts, a.sets = false) → (wired plain).exec w acts = some w' →
        w'.helper.sents = [y] := by
  obtain ⟨w, hw, hstate⟩ := Option.map_eq_some_iff.mp hrun
  obtain ⟨hopen, hplace, hseen, hoffer, hcopied, hone, hfailed⟩ := of_decide_eq_true hstate
  obtain ⟨y, hy⟩ := List.length_eq_one_iff.mp hone
  refine ⟨w, y, hw, hopen, hcopied, hy, hfailed y (by rw [hy]; exact List.mem_cons_self), ?_⟩
  intro acts w' hset hrun'
  have hspent : w.helper.Spent plain := ⟨.inl hseen, by rw [hplace]; trivial⟩
  obtain ⟨news, hnews, hpushed⟩ := hspent.run hset hrun'
  cases news with
  | nil => rw [hnews, hy, List.append_nil]
  | cons z news =>
      obtain ⟨lo, archive, ok, hlo, -⟩ := hpushed z List.mem_cons_self
      rw [hoffer] at hlo
      cases hlo

/-- A text and files that are copied while the device is absent, and do not go
out when it is there. -/
theorem absent_lost :
    (∃ w y, (wired plain).exec ⟨.init plain files noneCopied 0, false⟩
        (absent copiedText [.store, .write (startFrame kindText [7]) false]) = some w ∧
      w.opened ∧ w.helper.copied = [(kindText, [7])] ∧ w.helper.sents = [y] ∧ y.Failed ∧
      ∀ acts w', (∀ a ∈ acts, a.sets = false) → (wired plain).exec w acts = some w' →
        w'.helper.sents = [y]) ∧
    ∃ w y, (wired plain).exec ⟨.init plain files noneCopied 0, false⟩
        (absent copiedFiles []) = some w ∧
      w.opened ∧ w.helper.copied = [(kindTar, [97])] ∧ w.helper.sents = [y] ∧ y.Failed ∧
      ∀ acts w', (∀ a ∈ acts, a.sets = false) → (wired plain).exec w acts = some w' →
        w'.helper.sents = [y] :=
  ⟨stuck_of_absent (by decide +kernel), stuck_of_absent (by decide +kernel)⟩

end Beaglewing.Agents.Windows
