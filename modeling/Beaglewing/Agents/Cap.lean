/-
# `Agents.Cap` — what the two agents send, and whether it is accepted

The Linux agent sends a text or an image as it was read, and a batch as `pack`
returns it; so does the Windows helper.  A receiver refuses a START over
`maxTransfer`, and `pack` compares that cap with the sizes of the files only;
texts and images are compared with nothing.  So what is sent is accepted

| | |
| :-- | :-- |
| a text or an image | iff it is at most the cap |
| a batch | iff its archive is, not just its files |

by `accepted_iff`, for every transfer that handling an event, or a step of the
helper, starts; and a file of exactly the cap is packed, sent, and refused
(`cap_file_refused`).

## The assumptions

`Archives` and `Sized` are all that is asked of the `tar` crate: which entries
an archive has, and how long they are.  Nothing is assumed of what it refuses;
a batch it refuses is not sent.
-/
import Beaglewing.Agents.Helper
import Beaglewing.Files.Cap

namespace Beaglewing.Agents

open Base Clipframe Files

/-! ## The Linux agent -/

namespace Linux

/-- The kind and the bytes that go to `encode_transfer`. -/
def Effect.transfer : Effect → Option (UInt8 × List UInt8)
  | .send kind content _ => some (kind, content)
  | .push _ archive _ => some (kindTar, archive)
  | .write _ _ | .offer _ _ _ | .set _ _ => none

/-- The content itself, or the archive of the batch, is at most the cap. -/
def Effect.WithinCap (fs : Fs) : Effect → Prop
  | .send _ content _ => content.length ≤ maxTransfer.toNat
  | .push paths _ _ => archiveSize fs paths ≤ maxTransfer.toNat
  | .write _ _ | .offer _ _ _ | .set _ _ => True

section Packed
variable {tar : TarCrate} {stageRoot : Path} {a : Agent} {recv : Reassembler} {fs : Fs}
  {ans : Answers} {o : Outcome}

/-- A batch that is pushed is what `pack` returned. -/
def Effect.Packed (tar : TarCrate) (fs : Fs) : Effect → Prop
  | .push paths archive _ => pack tar fs paths maxTransfer.toNat = .ok archive
  | _ => True

theorem packed_of_push {lo : LocalOffer} {sends : List SendAct} {es : List Effect}
    {r : Except Bool Unit} (h : pushLocalOffer tar fs lo sends = some (es, r)) :
    ∀ e ∈ es, e.Packed tar fs := by
  unfold pushLocalOffer at h
  split at h
  next archive hpack =>
    obtain ⟨r', -, heq⟩ := Option.map_eq_some_iff.mp h
    cases heq
    intro e he
    rw [List.mem_singleton.mp he]
    exact hpack
  next =>
    cases h
    exact fun e he => by cases he

theorem packed_of_onlyWrites {es : List Effect} (h : OnlyWrites es) : ∀ e ∈ es, e.Packed tar fs := by
  intro e he
  obtain ⟨f, ok, rfl⟩ := h e he
  trivial

theorem packed_of_onPull {id : UInt32} {a' : Agent} {es : List Effect} {ended : Option End}
    (h : onPull tar a fs id ans = some (a', es, ended)) : ∀ e ∈ es, e.Packed tar fs := by
  rcases onPull_cases h with ⟨-, rfl, -⟩ | ⟨lo, r, -, -, hpush, -, -⟩
  · exact packed_of_onlyWrites onlyWrites_nil
  · exact packed_of_push hpush

theorem packed_of_onFrame {f : Frame} (h : onFrame tar stageRoot a recv fs f ans = some o) :
    ∀ e ∈ o.effects, e.Packed tar fs := by
  cases hp : published tar stageRoot recv fs ans (.frame f) with
  | some x =>
      rw [handle_published (show handle tar stageRoot a recv fs (.frame f) ans = some o from h) hp]
      intro e he
      rw [List.mem_singleton.mp he]
      trivial
  | none =>
      obtain ⟨hes, -, -⟩ := handleFrame_none a.lastSet hp
      unfold onFrame at h
      simp only at h
      split at h
      next offer _ =>
        cases h
        exact packed_of_onlyWrites hes
      next id hid =>
        obtain ⟨⟨a', es', ended⟩, hpull, rfl⟩ := Option.map_eq_some_iff.mp h
        rw [(handleFrame_pull hid).2] at hpull
        intro e he
        rcases List.mem_append.mp he with he | he
        · exact packed_of_onlyWrites hes e he
        · exact packed_of_onPull hpull e he
      next kind _ =>
        cases h
        exact packed_of_onlyWrites hes
      next =>
        cases h
        exact packed_of_onlyWrites hes

theorem packed_of_onControl {msg : String} (h : onControl tar a recv fs msg ans = some o) :
    ∀ e ∈ o.effects, e.Packed tar fs := by
  obtain ⟨a₁, es₁, end₁, hpush, ho⟩ := onControl_cases h
  have hes₁ : ∀ e ∈ es₁, e.Packed tar fs := by
    split at hpush
    · rcases controlPush_cases hpush with ⟨-, -, rfl, -⟩ | ⟨lo, r, -, hpush, -, -⟩
      · exact packed_of_onlyWrites onlyWrites_nil
      · exact packed_of_push hpush
    · rw [hpush.2.1]
      exact packed_of_onlyWrites onlyWrites_nil
  split at ho
  · rw [ho]
    intro e he
    rcases List.mem_append.mp he with he | he
    · exact hes₁ e he
    · rcases controlPull_cases a₁ msg ans with ⟨hpull, -⟩ | ⟨ro, -, -, hpull⟩
      · rw [hpull] at he
        cases he
      · rw [hpull] at he
        exact packed_of_onlyWrites (onlyWrites_singleton _ _) e he
  · rw [ho]
    exact hes₁

theorem handle_packed {ev : Ev} (h : handle tar stageRoot a recv fs ev ans = some o) :
    ∀ e ∈ o.effects, e.Packed tar fs := by
  cases ev with
  | tick =>
      cases h
      unfold onTick
      split
      · exact packed_of_onlyWrites onlyWrites_nil
      · exact packed_of_onlyWrites (onlyWrites_singleton _ _)
  | «local» kind content hash =>
      rcases onLocal_cases h with ⟨-, rfl⟩ | ⟨-, -, offer, -, rfl⟩ | ⟨-, -, r, -, rfl⟩
      · exact packed_of_onlyWrites onlyWrites_nil
      · intro e he
        rw [List.mem_singleton.mp he]
        trivial
      · intro e he
        rw [List.mem_singleton.mp he]
        trivial
  | frame f => exact packed_of_onFrame h
  | control msg => exact packed_of_onControl h
  | disconnected =>
      cases h
      exact packed_of_onlyWrites onlyWrites_nil

end Packed

/-- What is sent, packed so, is accepted when it is within the cap. -/
theorem Effect.accepted_iff_withinCap {tar : TarCrate} (harch : tar.Archives)
    (hsized : tar.Sized) {fs : Fs} {e : Effect} (hpack : e.Packed tar fs) {kind : UInt8}
    {data : List UInt8} (h : e.transfer = some (kind, data)) : Accepted kind data ↔ e.WithinCap fs := by
  rw [accepted_of_length]
  cases e with
  | send k content r =>
      cases h
      exact Iff.rfl
  | push paths archive r =>
      cases h
      rw [length_pack harch hsized hpack]
      exact Iff.rfl
  | _ => cases h

end Linux

/-! ## The Windows helper -/

namespace Windows

/-- The kind and the bytes that go to `encode_transfer`. -/
def Sent.transfer : Sent → Option (UInt8 × List UInt8)
  | .send kind content _ => some (kind, content)
  | .push _ archive _ => some (kindTar, archive)
  | .offer _ _ _ => none

/-- The content itself, or the archive of the batch, is at most the cap. -/
def Sent.WithinCap (fs : Fs) : Sent → Prop
  | .send _ content _ => content.length ≤ maxTransfer.toNat
  | .push paths _ _ => archiveSize fs paths ≤ maxTransfer.toNat
  | .offer _ _ _ => True

/-- A step that starts a transfer serves a PULL or ends a round of the loop. -/
theorem step_transfer {host : Host} {s s' : Helper} {act : Act} {x : Sent} {kind : UInt8}
    {data : List UInt8} (h : (helper host).step s act = some s')
    (hsents : s'.sents = s.sents ++ [x]) (hx : x.transfer = some (kind, data)) :
    (∃ ok, x = .send kind data ok) ∨ ∃ paths ok, x = .push paths data ok ∧
      pack host.tar s.fs paths maxTransfer.toNat = .ok data := by
  have hnone : s'.sents ≠ s.sents := by
    rw [hsents]
    simp
  cases act with
  | copy c =>
      cases h
      exact absurd rfl hnone
  | files fs =>
      cases h
      exact absurd rfl hnone
  | pulled id =>
      cases h
      exact absurd rfl hnone
  | take k d ts =>
      obtain rfl | ⟨p, fs, rfl⟩ := take_eq_some h <;> exact absurd rfl hnone
  | publish set =>
      obtain ⟨p, clip, seqNum, -, rfl⟩ := publish_eq_some h
      exact absurd rfl hnone
  | walk =>
      obtain ⟨staged, rfl⟩ := walk_eq_some h
      exact absurd rfl hnone
  | store =>
      obtain ⟨k, c, y, -, rfl⟩ := store_eq_some h
      exact absurd rfl hnone
  | see => rcases see_eq_some h with rfl | rfl <;> exact absurd rfl hnone
  | read => rcases read_eq_some h with rfl | ⟨k, c, y, -, rfl⟩ <;> exact absurd rfl hnone
  | compare => rcases compare_eq_some h with rfl | ⟨k, c, y, -, -, rfl⟩ <;> exact absurd rfl hnone
  | pull sends =>
      rcases pull_cases (pull_eq_some h) with rfl | ⟨lo, archive, ok, hserves, heq⟩
      · exact absurd rfl hnone
      · rw [heq] at hsents
        obtain rfl := List.singleton_inj.mp (List.append_cancel_left hsents)
        cases hx
        exact Or.inr ⟨lo.paths, ok, rfl, hserves.packed⟩
  | send wrote sends =>
      obtain ⟨k, c, y, -, h⟩ := send_eq_some h
      rcases send_cases h with rfl | ⟨-, sig, total, -, heq⟩ | ⟨-, ok, -, heq⟩
      · exact absurd rfl hnone
      · rw [heq] at hsents
        obtain rfl := List.singleton_inj.mp (List.append_cancel_left hsents)
        cases hx
      · rw [heq] at hsents
        obtain rfl := List.singleton_inj.mp (List.append_cancel_left hsents)
        cases hx
        exact Or.inl ⟨ok, rfl⟩

end Windows

/-! ## What is accepted -/

/-- **What receivers accept.** Of every transfer that the Linux agent starts while
it handles an event, and the Windows helper in a step, the START is accepted
exactly if the content, or the archive of the batch, is within the cap. -/
theorem accepted_iff {tar : TarCrate} (harch : tar.Archives) (hsized : tar.Sized) :
    (∀ stageRoot a recv fs ev ans o,
      Linux.handle tar stageRoot a recv fs ev ans = some o →
      ∀ e ∈ o.effects, ∀ kind data, e.transfer = some (kind, data) →
        (Accepted kind data ↔ e.WithinCap fs)) ∧
    ∀ (host : Windows.Host) (s s' : Windows.Helper) (act : Windows.Act) (x : Windows.Sent),
      host.tar = tar → (Windows.helper host).step s act = some s' →
      s'.sents = s.sents ++ [x] → ∀ kind data, x.transfer = some (kind, data) →
        (Accepted kind data ↔ x.WithinCap s.fs) := by
  constructor
  · intro stageRoot a recv fs ev ans o ho e he kind data htransfer
    exact e.accepted_iff_withinCap harch hsized (Linux.handle_packed ho e he) htransfer
  · rintro host s s' act x rfl hs hsents kind data htransfer
    rw [accepted_of_length]
    rcases Windows.step_transfer hs hsents htransfer with ⟨ok, rfl⟩ | ⟨paths, ok, rfl, hpack⟩
    · exact Iff.rfl
    · rw [length_pack harch hsized hpack]
      exact Iff.rfl

/-! A directory of two files goes out from either side. -/

def smallDir : Fs := fun _ => .dir [(['x'], .file [7]), (['y'], .file [8, 9])]

def smallOffer : LocalOffer := ⟨1, [[.rootDir, .normal ['d']]]⟩

def smallArchive : List UInt8 :=
  ustar.build [⟨[['d']], none⟩, ⟨[['d'], ['x']], some [7]⟩, ⟨[['d'], ['y']], some [8, 9]⟩]

def smallAnswers : Linux.Answers :=
  ⟨false, true, unstalled (encodeTransfer kindTar smallArchive), true, 0⟩

theorem accepted_iff_smallDir :
    (∃ o, Linux.handle ustar [] ⟨0, 0, some smallOffer, none⟩ .default smallDir
        (.control "remote") smallAnswers = some o ∧
      o.effects = [.push smallOffer.paths smallArchive (.ok ())] ∧
      Accepted kindTar smallArchive) ∧
    ∃ s', (Windows.helper Windows.plain).step
        { Windows.Helper.init Windows.plain smallDir ⟨[], [], [], none⟩ 0 with
          localOffer := some smallOffer
          pullRequest := some 1 }
        (.pull (unstalled (encodeTransfer kindTar smallArchive))) = some s' ∧
      s'.sents = [.push smallOffer.paths smallArchive true] ∧ Accepted kindTar smallArchive := by
  have hcap : archiveSize smallDir smallOffer.paths ≤ maxTransfer.toNat := by decide +kernel
  obtain ⟨hlinux, hwindows⟩ := accepted_iff ustar_archives ustar_sized
  constructor
  · have heffects : (Linux.handle ustar [] ⟨0, 0, some smallOffer, none⟩ .default smallDir
        (.control "remote") smallAnswers).map Linux.Outcome.effects =
          some [.push smallOffer.paths smallArchive (.ok ())] := by
      decide +kernel
    obtain ⟨o, ho, he⟩ := Option.map_eq_some_iff.mp heffects
    exact ⟨o, ho, he, (hlinux _ _ _ _ _ _ o ho
      (.push smallOffer.paths smallArchive (.ok ())) (he ▸ List.mem_singleton_self _) _ _ rfl).mpr
        hcap⟩
  · have hsents : ((Windows.helper Windows.plain).step
        { Windows.Helper.init Windows.plain smallDir ⟨[], [], [], none⟩ 0 with
          localOffer := some smallOffer
          pullRequest := some 1 }
        (.pull (unstalled (encodeTransfer kindTar smallArchive)))).map Windows.Helper.sents =
          some [.push smallOffer.paths smallArchive true] := by
      decide +kernel
    obtain ⟨s', hs', hx⟩ := Option.map_eq_some_iff.mp hsents
    exact ⟨s', hs', hx, (hwindows _ _ s' _ (.push smallOffer.paths smallArchive true) rfl hs' hx
      _ _ rfl).mpr hcap⟩

/-- An attempt whose first write fails. -/
def lostAtOnce (kind : UInt8) (data : List UInt8) : List SendAct :=
  [.store, .write (startFrame kind data) false]

theorem sendResult_lostAtOnce (kind : UInt8) (data : List UInt8) :
    Linux.sendResult kind data (lostAtOnce kind data) = some (.error true) := by
  have hlen : 0 < (encodeTransfer kind data).length := by
    rw [encodeTransfer_eq]
    exact Nat.succ_pos _
  have hf : (encodeTransfer kind data)[0]? = some (startFrame kind data) := rfl
  have hstore : (Linux.sendWithRetry (encodeTransfer kind data)).step Linux.start .store
      = some (.running 0 (.write 0 0)) := by
    show some (Linux.afterAttempt 0 (Linux.atFrame _ 0 0)) = _
    rw [Linux.atFrame, if_pos hlen]
    rfl
  have hwrite : (Linux.sendWithRetry (encodeTransfer kind data)).step (.running 0 (.write 0 0))
      (.write (startFrame kind data) false) = some (.done (.error true)) := by
    simp only [Linux.sendWithRetry, Linux.sendTransfer, hf, Linux.afterAttempt, if_true,
      Option.map_some]
    rfl
  rw [Linux.sendResult, lostAtOnce, Lts.exec_cons, hstore, Option.bind_some, Lts.exec_cons, hwrite,
    Option.bind_some, Lts.exec_nil]

/-- **A batch the receiver refuses.** A file of exactly the cap is within the
cap of `pack`, and its archive is not. -/
theorem cap_file_refused :
    ¬ ∀ (tar : TarCrate) (stageRoot : Path) (a : Linux.Agent) (recv : Reassembler) (fs : Fs)
      (ev : Linux.Ev) (ans : Linux.Answers) (o : Linux.Outcome), tar.Archives → tar.Sized →
      Linux.handle tar stageRoot a recv fs ev ans = some o → ∀ e ∈ o.effects,
        ∀ kind data, e.transfer = some (kind, data) → Accepted kind data := by
  intro h
  obtain ⟨bytes, hbytes⟩ : ∃ bytes : List UInt8, bytes.length = maxTransfer.toNat :=
    ⟨List.replicate maxTransfer.toNat 0, List.length_replicate⟩
  have hpack := pack_file (Nat.le_of_eq hbytes)
  let archive := ustar.build [⟨[['a']], some bytes⟩]
  let ans : Linux.Answers := ⟨false, true, lostAtOnce kindTar archive, true, 0⟩
  have hpush : Linux.pushLocalOffer ustar (fun _ => .file bytes) ⟨1, [[.normal ['a']]]⟩ ans.sends
      = some ([.push [[.normal ['a']]] archive (.error true)], .error true) := by
    simp only [Linux.pushLocalOffer, hpack, ans, archive, sendResult_lostAtOnce, Option.map_some]
  have ho : Linux.handle ustar [] ⟨0, 0, some ⟨1, [[.normal ['a']]]⟩, none⟩ .default
      (fun _ => .file bytes) (.control "remote") ans = some ⟨⟨0, 0, none, none⟩, .default,
        (fun _ => .file bytes), [.push [[.normal ['a']]] archive (.error true)], some .lost⟩ := by
    have hmsg : ¬ (("remote" : String) = "local" ∨ ("remote" : String) = "pull") := by decide
    simp only [Linux.handle, Linux.onControl, Linux.controlPush, hpush, hmsg, and_false, if_false,
      true_or, if_true, Option.map_some, reduceCtorEq, Except.error.injEq, Linux.gone]
  have hlen := (h ustar [] _ _ _ _ ans _ ustar_archives ustar_sized ho _
    (List.mem_singleton_self _) _ _ rfl).1
  have hcap : maxTransfer.toNat = 67108864 := rfl
  rw [ustar_sized] at hlen
  simp only [List.map_cons, List.map_nil, List.sum_cons, List.sum_nil, entrySize, padded,
    Option.getD_some, hbytes, hcap] at hlen
  omega

end Beaglewing.Agents
