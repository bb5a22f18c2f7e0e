/-
# `Agents.Helper` — the applier and the send loop of the Windows helper

Two threads of `main` in `windows/clipboard-agent/src/main.rs`, one label a
step of either, in any order.

    applier     take     a received transfer is converted, or unpacked
                publish  it is put on the clipboard
                walk     the signature of the staged files is computed
                store    the hash goes to `last_set`
    send loop   pull     a PULL of our offer is served
                see      the sequence number is new
                read     the clipboard is read
                compare  with `last_sent` and `last_set`
                send     an OFFER for files, a transfer for the rest

The clipboard is set before the hash is recorded.

    the loop compares what was recorded last    only what the user has copied
                                                goes out   (`helper_own`)
    it compares before that, or after another   what was received goes back
    hash was recorded                           (`sent_before_stored`)
-/
import Beaglewing.Agents.Delivery
import Beaglewing.Agents.Handle

namespace Beaglewing.Agents.Windows

open Base Clipframe Files

/-- What is outside the repository: paths as Windows writes them, the two image
conversions, the bitmap Windows derives from a DIB, and the `tar` crate. -/
structure Host where
  pathOf : Text → Path
  pathText : Path → Text
  pngToBmp : List UInt8 → Option (List UInt8)
  bmpToPng : List UInt8 → Option (List UInt8)
  bitmapOf : List UInt8 → Option (List UInt8)
  tar : TarCrate
  stageRoot : Path

/-! ## The clipboard -/

/-- The formats the helper reads, empty if they are not there. -/
structure Formats where
  files : List Text
  text : Text
  png : List UInt8
  bitmap : Option (List UInt8)
deriving DecidableEq

/-- `list.join("\n").into_bytes()`. -/
def joinLines (list : List Text) : List UInt8 := utf8 (List.intercalate ['\n'] list)

/-- The kind and the payload of what is on the clipboard. -/
def payload (host : Host) (c : Formats) : Option (UInt8 × List UInt8) :=
  if c.files ≠ [] then some (kindTar, joinLines c.files)
  else if c.text ≠ [] then some (kindText, utf8 c.text)
  else if c.png ≠ [] then some (kindPng, c.png)
  else (c.bitmap.bind host.bmpToPng).map fun png => (kindPng, png)

/-- `get_clipboard_content`. -/
def getClipboardContent (host : Host) (fs : Fs) (c : Formats) :
    Option (UInt8 × List UInt8 × UInt64) :=
  if c.files ≠ [] then
    (batchSignature fs (c.files.map host.pathOf)).map fun x =>
      (kindTar, joinLines c.files, x.1 ^^^ kindTar.toUInt64)
  else if c.text ≠ [] then
    let text := utf8 c.text
    some (kindText, text, contentHash kindText text)
  else if c.png ≠ [] then some (kindPng, c.png, contentHash kindPng c.png)
  else (c.bitmap.bind host.bmpToPng).map fun png => (kindPng, png, contentHash kindPng png)

/-- The paths of an offer, from the payload. -/
def pathList (host : Host) (content : List UInt8) : List Path :=
  (lines (fromUtf8Lossy content)).map host.pathOf

/-! ## The applier -/

/-- A received transfer, ready to be put on the clipboard. -/
inductive Prepared where
  | text (t : Text)
  | image (png bmp : List UInt8)
  | files (staged : List Path)
deriving DecidableEq

/-- The three branches of the applier, up to `set_clipboard`. -/
def prepare (host : Host) (fs : Fs) (ts : Nat) (kind : UInt8) (data : List UInt8) :
    Option (Prepared × Fs) :=
  if kind = kindText then some (.text (crlf (fromUtf8Lossy data)), fs)
  else if kind = kindPng then (host.pngToBmp data).map fun bmp => (.image data bmp, fs)
  else if kind = kindTar then
    match unpackToStage host.tar host.stageRoot ts data with
    | .error _ => none
    | .ok (batch, staged) =>
        some (.files staged, mount fs (batchDir host.stageRoot ts) batch)
  else none

/-- Whether the clipboard was opened and emptied, and whether its formats were
set: the text, the PNG and the DIB, the file list and the drop effect. -/
structure Setting where
  opened : Bool
  first : Bool
  second : Bool

/-- What is on the clipboard then. -/
def Prepared.formats (host : Host) (set : Setting) : Prepared → Formats
  | .text t => ⟨[], if set.first then t else [], [], none⟩
  | .image png bmp =>
      ⟨[], [], if set.first then png else [],
        if set.second ∧ 14 < bmp.length then host.bitmapOf (bmp.drop 14) else none⟩
  | .files staged => ⟨if set.first then staged.map host.pathText else [], [], [], none⟩

/-- What `set_clipboard`, `set_clipboard_image` and `set_clipboard_files` return. -/
def Prepared.ok (set : Setting) : Prepared → Bool
  | .text _ => set.opened && set.first
  | .image _ bmp => set.opened && (set.first || (set.second && 14 < bmp.length))
  | .files _ => set.opened && set.first && set.second

/-- Places in the applier thread. -/
inductive Applying where
  | idle
  | publish (p : Prepared)
  | walk (staged : List Path)
  | store (kind : UInt8) (content : List UInt8) (h : UInt64)
deriving DecidableEq

def Prepared.published : Prepared → Applying
  | .text t => .store kindText (utf8 t) (contentHash kindText (utf8 t))
  | .image png _ => .store kindPng png (contentHash kindPng png)
  | .files staged => .walk staged

/-- `if let Some((sig, _)) = files::batch_signature(&staged)`. -/
def walked (host : Host) (fs : Fs) (staged : List Path) : Applying :=
  match batchSignature fs staged with
  | none => .idle
  | some (sig, _) =>
      .store kindTar (joinLines (staged.map host.pathText)) (sig ^^^ kindTar.toUInt64)

/-! ## The helper -/

/-- Places in the send loop. -/
inductive Polling where
  | top
  | seq
  | read
  | compare (kind : UInt8) (content : List UInt8) (h : UInt64)
  | send (kind : UInt8) (content : List UInt8) (h : UInt64)
deriving DecidableEq

/-- What the send loop does to the other side, and whether it worked. -/
inductive Sent where
  | offer (content : List UInt8) (o : Offer) (ok : Bool)
  | send (kind : UInt8) (content : List UInt8) (ok : Bool)
  | push (paths : List Path) (archive : List UInt8) (ok : Bool)
deriving DecidableEq

/-- `copied`, what the user has copied, `recorded`, what the hash in `lastSet` is
of, and `sents` are not in the program. -/
structure Helper where
  clip : Formats
  seqNum : Nat
  fs : Fs
  applier : Applying
  lastSet : UInt64
  lastSent : UInt64
  pullRequest : Option UInt32
  localOffer : Option LocalOffer
  lastSeq : Nat
  poll : Polling
  copied : List (UInt8 × List UInt8)
  recorded : Option (UInt8 × List UInt8)
  sents : List Sent

/-- The sequence number is read before the loop. -/
def Helper.init (host : Host) (fs : Fs) (clip : Formats) (seqNum : Nat) : Helper where
  clip
  seqNum
  fs
  applier := .idle
  lastSet := 0
  lastSent := 0
  pullRequest := none
  localOffer := none
  lastSeq := seqNum
  poll := .top
  copied := (payload host clip).toList
  recorded := none
  sents := []

inductive Act where
  | copy (c : Formats)
  | files (fs : Fs)
  -- the reader hands over a transfer, and the applier takes it
  | take (kind : UInt8) (data : List UInt8) (ts : Nat)
  | publish (set : Setting)
  | walk
  | store
  -- the reader has received a PULL
  | pulled (id : UInt32)
  | pull (sends : List SendAct)
  | see
  | read
  | compare
  | send (wrote : Bool) (sends : List SendAct)

/-- What `send_frames` returns, if these are the labels of the call. -/
def sendResult (kind : UInt8) (data : List UInt8) (sends : List SendAct) : Option Bool :=
  match (sendFrames (encodeTransfer kind data)).exec start sends with
  | some (.done r) => some r
  | _ => none

namespace Helper

/-- `if let Some(id) = pull_request.lock().unwrap().take()`. -/
def pull (host : Host) (s : Helper) (sends : List SendAct) : Option Helper :=
  let s' := { s with pullRequest := none, poll := .seq }
  match s.pullRequest, s.localOffer with
  | some id, some lo =>
      if lo.id = id then
        match pack host.tar s.fs lo.paths maxTransfer.toNat with
        | .ok archive => (sendResult kindTar archive sends).map fun ok =>
            { s' with
              localOffer := if ok then none else some lo
              sents := s.sents ++ [.push lo.paths archive ok] }
        | .error _ => some s'
      else some s'
  | _, _ => some s'

/-- `h == *last_sent.lock().unwrap() || h == *last_set.lock().unwrap()`. -/
def Suppresses (s : Helper) (h : UInt64) : Prop := h = s.lastSent ∨ h = s.lastSet

instance (s : Helper) (h : UInt64) : Decidable (s.Suppresses h) :=
  inferInstanceAs (Decidable (h = s.lastSent ∨ h = s.lastSet))

/-- From the comparison to the end of the round. -/
def send (host : Host) (s : Helper) (kind : UInt8) (content : List UInt8) (h : UInt64)
    (wrote : Bool) (sends : List SendAct) : Option Helper :=
  if kind = kindTar then
    match batchSignature s.fs (pathList host content) with
    | none => some { s with poll := .top }
    | some (_, total) =>
        let offer := offerOf h (pathList host content) total
        some { s with
          poll := .top
          sents := s.sents ++ [.offer content offer wrote]
          localOffer := if wrote then some ⟨offer.id, pathList host content⟩ else s.localOffer
          lastSent := if wrote then h else s.lastSent }
  else
    -- a new local copy supersedes any file offer
    (sendResult kind content sends).map fun ok =>
      { s with
        poll := .top
        localOffer := none
        sents := s.sents ++ [.send kind content ok]
        lastSent := h }

end Helper

def helper (host : Host) : Lts Helper Act where
  step s
    | .copy c =>
        some { s with
          clip := c
          seqNum := s.seqNum + 1
          copied := s.copied ++ (payload host c).toList }
    | .files fs => some { s with fs }
    | .take kind data ts =>
        match s.applier with
        | .idle =>
            match prepare host s.fs ts kind data with
            | some (p, fs) => some { s with fs, applier := .publish p }
            | none => some s
        | _ => none
    | .publish set =>
        match s.applier with
        | .publish p =>
            some { s with
              clip := if set.opened then p.formats host set else s.clip
              seqNum := if set.opened then s.seqNum + 1 else s.seqNum
              applier := if p.ok set then p.published else .idle }
        | _ => none
    | .walk =>
        match s.applier with
        | .walk staged => some { s with applier := walked host s.fs staged }
        | _ => none
    | .store =>
        match s.applier with
        | .store kind content h =>
            some { s with lastSet := h, recorded := some (kind, content), applier := .idle }
        | _ => none
    | .pulled id => some { s with pullRequest := some id }
    | .pull sends => if s.poll = .top then s.pull host sends else none
    | .see =>
        if s.poll = .seq then
          if s.seqNum = s.lastSeq then some { s with poll := .top }
          else some { s with lastSeq := s.seqNum, poll := .read }
        else none
    | .read =>
        if s.poll = .read then
          match getClipboardContent host s.fs s.clip with
          | none => some { s with poll := .top }
          | some (kind, content, h) => some { s with poll := .compare kind content h }
        else none
    | .compare =>
        match s.poll with
        | .compare kind content h =>
            some { s with poll := if s.Suppresses h then .top else .send kind content h }
        | _ => none
    | .send wrote sends =>
        match s.poll with
        | .send kind content h => s.send host kind content h wrote sends
        | _ => none

/-! ## What a step can do -/

section Cases
variable {host : Host} {s s' : Helper}

/-- The hash of a text or an image is that of its bytes. -/
theorem getClipboardContent_hash {fs : Fs} {c : Formats} {kind : UInt8} {content : List UInt8}
    {h : UInt64} (hget : getClipboardContent host fs c = some (kind, content, h))
    (hkind : kind ≠ kindTar) : h = contentHash kind content := by
  unfold getClipboardContent at hget
  split at hget
  · obtain ⟨x, -, heq⟩ := Option.map_eq_some_iff.mp hget
    cases heq
    exact absurd rfl hkind
  · split at hget
    · cases hget
      rfl
    · split at hget
      · cases hget
        rfl
      · obtain ⟨png, -, heq⟩ := Option.map_eq_some_iff.mp hget
        cases heq
        rfl

/-- So it is when the applier records it. -/
theorem published_hash {p : Prepared} {kind : UInt8} {content : List UInt8} {h : UInt64}
    (hstore : p.published = .store kind content h) : h = contentHash kind content := by
  cases p with
  | text t =>
      cases hstore
      rfl
  | image png bmp =>
      cases hstore
      rfl
  | files staged => cases hstore

theorem walked_kind {fs : Fs} {staged : List Path} {kind : UInt8} {content : List UInt8}
    {h : UInt64} (hstore : walked host fs staged = .store kind content h) : kind = kindTar := by
  unfold walked at hstore
  split at hstore
  · cases hstore
  · cases hstore
    rfl

/-- The offer is asked for, and packed; and how sending it ended. -/
structure Helper.Serves (host : Host) (s : Helper) (sends : List SendAct) (lo : LocalOffer)
    (archive : List UInt8) (ok : Bool) : Prop where
  request : s.pullRequest = some lo.id
  offer : s.localOffer = some lo
  packed : pack host.tar s.fs lo.paths maxTransfer.toNat = .ok archive
  result : sendResult kindTar archive sends = some ok

/-- What serves a PULL changes the offer at most, and sends its files. -/
theorem pull_cases {sends : List SendAct} (h : s.pull host sends = some s') :
    s' = { s with pullRequest := none, poll := .seq } ∨
    ∃ lo archive ok, s.Serves host sends lo archive ok ∧ s' = { s with
      pullRequest := none
      poll := .seq
      localOffer := if ok = true then none else some lo
      sents := s.sents ++ [.push lo.paths archive ok] } := by
  unfold Helper.pull at h
  split at h
  next id lo hpull hlo =>
    split at h
    next hid =>
      split at h
      next archive hpack =>
        obtain ⟨ok, hok, rfl⟩ := Option.map_eq_some_iff.mp h
        exact Or.inr ⟨lo, archive, ok, ⟨hid ▸ hpull, hlo, hpack, hok⟩, rfl⟩
      next =>
        cases h
        exact Or.inl rfl
    next =>
      cases h
      exact Or.inl rfl
  next =>
    cases h
    exact Or.inl rfl

/-- The end of a round: nothing, an offer of files, or the content itself. -/
theorem send_cases {kind : UInt8} {content : List UInt8} {h : UInt64} {wrote : Bool}
    {sends : List SendAct} (hs : s.send host kind content h wrote sends = some s') :
    s' = { s with poll := .top } ∨
    (kind = kindTar ∧ ∃ sig total,
      batchSignature s.fs (pathList host content) = some (sig, total) ∧ s' = { s with
        poll := .top
        sents := s.sents ++ [.offer content (offerOf h (pathList host content) total) wrote]
        localOffer :=
          if wrote = true then
            some ⟨(offerOf h (pathList host content) total).id, pathList host content⟩
          else s.localOffer
        lastSent := if wrote = true then h else s.lastSent }) ∨
    (kind ≠ kindTar ∧ ∃ ok, sendResult kind content sends = some ok ∧ s' = { s with
      poll := .top
      localOffer := none
      sents := s.sents ++ [.send kind content ok]
      lastSent := h }) := by
  unfold Helper.send at hs
  split at hs
  next hkind =>
    split at hs
    next =>
      cases hs
      exact Or.inl rfl
    next sig total hsig =>
      cases hs
      exact Or.inr (Or.inl ⟨hkind, sig, total, hsig, rfl⟩)
  next hkind =>
    obtain ⟨ok, hok, rfl⟩ := Option.map_eq_some_iff.mp hs
    exact Or.inr (Or.inr ⟨hkind, ok, hok, rfl⟩)

/-! What a step of the applier or of the send loop can do. -/

theorem take_eq_some {kind : UInt8} {data : List UInt8} {ts : Nat}
    (h : (helper host).step s (.take kind data ts) = some s') :
    s' = s ∨ ∃ p fs, s' = { s with fs, applier := .publish p } := by
  simp only [helper] at h
  split at h
  · split at h
    next p fs hp =>
      cases h
      exact Or.inr ⟨p, fs, rfl⟩
    next =>
      cases h
      exact Or.inl rfl
  · cases h

theorem publish_eq_some {set : Setting} (h : (helper host).step s (.publish set) = some s') :
    ∃ p clip seqNum, s.applier = .publish p ∧
      s' = { s with clip, seqNum, applier := if p.ok set = true then p.published else .idle } := by
  simp only [helper] at h
  split at h
  next p hp =>
    cases h
    exact ⟨p, _, _, hp, rfl⟩
  next => cases h

theorem walk_eq_some (h : (helper host).step s .walk = some s') :
    ∃ staged, s' = { s with applier := walked host s.fs staged } := by
  simp only [helper] at h
  split at h
  next staged hp =>
    cases h
    exact ⟨staged, rfl⟩
  next => cases h

theorem store_eq_some (h : (helper host).step s .store = some s') :
    ∃ kind content y, s.applier = .store kind content y ∧
      s' = { s with lastSet := y, recorded := some (kind, content), applier := .idle } := by
  simp only [helper] at h
  split at h
  next kind content y hp =>
    cases h
    exact ⟨kind, content, y, hp, rfl⟩
  next => cases h

theorem see_eq_some (h : (helper host).step s .see = some s') :
    s' = { s with poll := .top } ∨ s' = { s with lastSeq := s.seqNum, poll := .read } := by
  simp only [helper] at h
  split at h
  · split at h
    · cases h
      exact Or.inl rfl
    · cases h
      exact Or.inr rfl
  · cases h

theorem read_eq_some (h : (helper host).step s .read = some s') :
    s' = { s with poll := .top } ∨
    ∃ kind content y, getClipboardContent host s.fs s.clip = some (kind, content, y) ∧
      s' = { s with poll := .compare kind content y } := by
  simp only [helper] at h
  split at h
  · split at h
    next =>
      cases h
      exact Or.inl rfl
    next kind content y hget =>
      cases h
      exact Or.inr ⟨kind, content, y, hget, rfl⟩
  · cases h

theorem compare_eq_some (h : (helper host).step s .compare = some s') :
    s' = { s with poll := .top } ∨
    ∃ kind content y, s.poll = .compare kind content y ∧ ¬ s.Suppresses y ∧
      s' = { s with poll := .send kind content y } := by
  simp only [helper] at h
  split at h
  next kind content y hplace =>
    by_cases hsup : s.Suppresses y
    · rw [if_pos hsup] at h
      cases h
      exact Or.inl rfl
    · rw [if_neg hsup] at h
      cases h
      exact Or.inr ⟨kind, content, y, hplace, hsup, rfl⟩
  next => cases h

theorem pull_eq_some {sends : List SendAct} (h : (helper host).step s (.pull sends) = some s') :
    s.pull host sends = some s' := by
  simp only [helper] at h
  split at h
  · exact h
  · cases h

theorem send_eq_some {wrote : Bool} {sends : List SendAct}
    (h : (helper host).step s (.send wrote sends) = some s') :
    ∃ kind content y, s.poll = .send kind content y ∧
      s.send host kind content y wrote sends = some s' := by
  simp only [helper] at h
  split at h
  next kind content y hplace => exact ⟨kind, content, y, hplace, h⟩
  next => cases h

end Cases

/-! ## The hash of what is recorded -/

/-- Hashes that go with a content are its own, unless it is a batch. -/
structure Helper.Hashed (s : Helper) : Prop where
  stored : ∀ kind content, s.recorded = some (kind, content) → kind ≠ kindTar →
    s.lastSet = contentHash kind content
  storing : ∀ kind content h, s.applier = .store kind content h → kind ≠ kindTar →
    h = contentHash kind content
  comparing : ∀ kind content h, s.poll = .compare kind content h → kind ≠ kindTar →
    h = contentHash kind content

theorem hashed_init (host : Host) (fs : Fs) (clip : Formats) (seqNum : Nat) :
    (Helper.init host fs clip seqNum).Hashed where
  stored kind content h := by cases h
  storing kind content h he := by cases he
  comparing kind content h he := by cases he

section Hashed
variable {host : Host} {s s' : Helper}

/-- Another place of the applier. -/
theorem Helper.Hashed.apply (hs : s.Hashed) (happlier : ∀ kind content h,
    s'.applier = .store kind content h → kind ≠ kindTar → h = contentHash kind content)
    (hset : s'.lastSet = s.lastSet) (hrecorded : s'.recorded = s.recorded)
    (hpoll : s'.poll = s.poll) : s'.Hashed where
  stored := by
    rw [hset, hrecorded]
    exact hs.stored
  storing := happlier
  comparing := by
    rw [hpoll]
    exact hs.comparing

/-- Another place of the send loop. -/
theorem Helper.Hashed.loop (hs : s.Hashed) (hpoll : ∀ kind content h,
    s'.poll = .compare kind content h → kind ≠ kindTar → h = contentHash kind content)
    (hset : s'.lastSet = s.lastSet) (hrecorded : s'.recorded = s.recorded)
    (happlier : s'.applier = s.applier) : s'.Hashed where
  stored := by
    rw [hset, hrecorded]
    exact hs.stored
  storing := by
    rw [happlier]
    exact hs.storing
  comparing := hpoll

theorem Helper.Hashed.step {act : Act} (hs : s.Hashed) (h : (helper host).step s act = some s') :
    s'.Hashed := by
  cases act with
  | copy c =>
      cases h
      exact ⟨hs.stored, hs.storing, hs.comparing⟩
  | files fs =>
      cases h
      exact ⟨hs.stored, hs.storing, hs.comparing⟩
  | pulled id =>
      cases h
      exact ⟨hs.stored, hs.storing, hs.comparing⟩
  | take kind data ts =>
      obtain rfl | ⟨p, fs, rfl⟩ := take_eq_some h
      · exact hs
      · exact hs.apply (fun _ _ _ he => by cases he) rfl rfl rfl
  | publish set =>
      obtain ⟨p, clip, seqNum, -, rfl⟩ := publish_eq_some h
      refine hs.apply ?_ rfl rfl rfl
      intro kind content y he _
      dsimp only at he
      split at he
      · exact published_hash he
      · cases he
  | walk =>
      obtain ⟨staged, rfl⟩ := walk_eq_some h
      exact hs.apply (fun _ _ _ he hkind => absurd (walked_kind he) hkind) rfl rfl rfl
  | store =>
      obtain ⟨kind, content, y, hplace, rfl⟩ := store_eq_some h
      refine ⟨?_, (fun _ _ _ he => by cases he), hs.comparing⟩
      intro k c he hkind
      cases he
      exact hs.storing kind content y hplace hkind
  | pull sends =>
      rcases pull_cases (pull_eq_some h) with rfl | ⟨lo, archive, ok, -, rfl⟩
      · exact hs.loop (fun _ _ _ he => by cases he) rfl rfl rfl
      · exact hs.loop (fun _ _ _ he => by cases he) rfl rfl rfl
  | see =>
      rcases see_eq_some h with rfl | rfl
      · exact hs.loop (fun _ _ _ he => by cases he) rfl rfl rfl
      · exact hs.loop (fun _ _ _ he => by cases he) rfl rfl rfl
  | read =>
      rcases read_eq_some h with rfl | ⟨kind, content, y, hget, rfl⟩
      · exact hs.loop (fun _ _ _ he => by cases he) rfl rfl rfl
      · refine hs.loop ?_ rfl rfl rfl
        intro k c z he hkind
        cases he
        exact getClipboardContent_hash hget hkind
  | compare =>
      rcases compare_eq_some h with rfl | ⟨kind, content, y, -, -, rfl⟩
      · exact hs.loop (fun _ _ _ he => by cases he) rfl rfl rfl
      · exact hs.loop (fun _ _ _ he => by cases he) rfl rfl rfl
  | send wrote sends =>
      obtain ⟨kind, content, y, -, h⟩ := send_eq_some h
      rcases send_cases h with rfl | ⟨-, sig, total, -, rfl⟩ | ⟨-, ok, -, rfl⟩
      · exact hs.loop (fun _ _ _ he => by cases he) rfl rfl rfl
      · exact hs.loop (fun _ _ _ he => by cases he) rfl rfl rfl
      · exact hs.loop (fun _ _ _ he => by cases he) rfl rfl rfl

end Hashed

/-! ## What goes out -/

/-- What goes out is what the user has copied at some time. -/
def Sent.Own (host : Host) (copied : List (UInt8 × List UInt8)) : Sent → Prop
  | .offer content _ _ => (kindTar, content) ∈ copied
  | .send kind content _ => (kind, content) ∈ copied
  | .push paths _ _ => ∃ content, (kindTar, content) ∈ copied ∧ paths = pathList host content

/-- The content that is compared was copied by the user, or has the hash last
sent, or it is what the applier has recorded last; of files, with the same
signature. -/
def Helper.Knows (s : Helper) : Polling → Prop
  | .compare kind content h => (kind, content) ∈ s.copied ∨ h = s.lastSent ∨
      (s.recorded = some (kind, content) ∧ (kind = kindTar → h = s.lastSet))
  | _ => True

instance (s : Helper) : ∀ p, Decidable (s.Knows p)
  | .compare _ _ _ => inferInstanceAs (Decidable (_ ∨ _ ∨ _))
  | .top | .seq | .read | .send _ _ _ => isTrue trivial

/-- Only what is known is compared. -/
def Recorded (s : Helper) : Act → Prop
  | .compare => s.Knows s.poll
  | _ => True

instance (s : Helper) : ∀ act, Decidable (Recorded s act)
  | .compare => inferInstanceAs (Decidable (s.Knows s.poll))
  | .copy _ | .files _ | .take _ _ _ | .publish _ | .walk | .store | .pulled _ | .pull _ | .see
  | .read | .send _ _ => isTrue trivial

structure Helper.Own (host : Host) (s : Helper) : Prop where
  hashed : s.Hashed
  sending : ∀ kind content h, s.poll = .send kind content h → (kind, content) ∈ s.copied
  offer : ∀ lo, s.localOffer = some lo →
    ∃ content, (kindTar, content) ∈ s.copied ∧ lo.paths = pathList host content
  sents : ∀ x ∈ s.sents, x.Own host s.copied

theorem own_init (host : Host) (fs : Fs) (clip : Formats) (seqNum : Nat) :
    (Helper.init host fs clip seqNum).Own host where
  hashed := hashed_init host fs clip seqNum
  sending kind content h he := by cases he
  offer lo h := by cases h
  sents x h := by cases h

section Own
variable {host : Host} {s s' : Helper}

theorem Sent.Own.mono {x : Sent} {copied copied' : List (UInt8 × List UInt8)}
    (h : x.Own host copied) (hsub : copied ⊆ copied') : x.Own host copied' := by
  cases x with
  | offer content o ok => exact hsub h
  | send kind content ok => exact hsub h
  | push paths archive ok =>
      obtain ⟨content, hmem, hpaths⟩ := h
      exact ⟨content, hsub hmem, hpaths⟩

/-- The applier and the reader leave the send loop where it is. -/
theorem Helper.Own.frame (hs : s.Own host) (hhashed : s'.Hashed) (hpoll : s'.poll = s.poll)
    (hoffer : s'.localOffer = s.localOffer) (hcopied : s'.copied = s.copied)
    (hsents : s'.sents = s.sents) : s'.Own host where
  hashed := hhashed
  sending := by
    rw [hpoll, hcopied]
    exact hs.sending
  offer := by
    rw [hoffer, hcopied]
    exact hs.offer
  sents := by
    rw [hsents, hcopied]
    exact hs.sents

/-- The send loop goes on to another place. -/
theorem Helper.Own.goto (hs : s.Own host) (hhashed : s'.Hashed)
    (hpoll : ∀ kind content h, s'.poll = .send kind content h → (kind, content) ∈ s.copied)
    (hoffer : s'.localOffer = s.localOffer) (hcopied : s'.copied = s.copied)
    (hsents : s'.sents = s.sents) : s'.Own host where
  hashed := hhashed
  sending := by
    rw [hcopied]
    exact hpoll
  offer := by
    rw [hoffer, hcopied]
    exact hs.offer
  sents := by
    rw [hsents, hcopied]
    exact hs.sents

theorem Helper.Own.snoc (hs : s.Own host) {x : Sent} (hx : x.Own host s.copied) :
    ∀ y ∈ s.sents ++ [x], y.Own host s.copied := by
  intro y hy
  rcases List.mem_append.mp hy with hy | hy
  · exact hs.sents y hy
  · rw [List.mem_singleton.mp hy]
    exact hx

/-- What gets past the comparison was copied: a hash that was recorded for
another content would have stopped it. -/
theorem Helper.Own.copied_of_compared (hs : s.Own host) {kind : UInt8} {content : List UInt8}
    {h : UInt64} (hplace : s.poll = .compare kind content h) (hC : Recorded s .compare)
    (hgo : ¬ s.Suppresses h) : (kind, content) ∈ s.copied := by
  have hknown : s.Knows (.compare kind content h) := hplace ▸ hC
  rcases hknown with hmem | hsent | ⟨hrecorded, htar⟩
  · exact hmem
  · exact absurd (Or.inl hsent) hgo
  · by_cases hkind : kind = kindTar
    · exact absurd (Or.inr (htar hkind)) hgo
    · have hset := hs.hashed.stored kind content hrecorded hkind
      have hown := hs.hashed.comparing kind content h hplace hkind
      exact absurd (Or.inr (hown.trans hset.symm)) hgo

theorem Helper.Own.step {act : Act} (hs : s.Own host) (hC : Recorded s act)
    (h : (helper host).step s act = some s') : s'.Own host := by
  have hhashed := hs.hashed.step h
  cases act with
  | copy c =>
      cases h
      have hsub : s.copied ⊆ s.copied ++ (payload host c).toList := List.subset_append_left _ _
      refine ⟨hhashed, fun k x y he => hsub (hs.sending k x y he), ?_,
        fun x hx => (hs.sents x hx).mono hsub⟩
      intro lo hlo
      obtain ⟨content, hmem, hpaths⟩ := hs.offer lo hlo
      exact ⟨content, hsub hmem, hpaths⟩
  | files fs =>
      cases h
      exact hs.frame hhashed rfl rfl rfl rfl
  | pulled id =>
      cases h
      exact hs.frame hhashed rfl rfl rfl rfl
  | take kind data ts =>
      obtain rfl | ⟨p, fs, rfl⟩ := take_eq_some h
      · exact hs
      · exact hs.frame hhashed rfl rfl rfl rfl
  | publish set =>
      obtain ⟨p, clip, seqNum, -, rfl⟩ := publish_eq_some h
      exact hs.frame hhashed rfl rfl rfl rfl
  | walk =>
      obtain ⟨staged, rfl⟩ := walk_eq_some h
      exact hs.frame hhashed rfl rfl rfl rfl
  | store =>
      obtain ⟨kind, content, y, -, rfl⟩ := store_eq_some h
      exact hs.frame hhashed rfl rfl rfl rfl
  | pull sends =>
      rcases pull_cases (pull_eq_some h) with rfl | ⟨lo, archive, ok, hserves, rfl⟩
      · exact hs.goto hhashed (fun _ _ _ he => by cases he) rfl rfl rfl
      · have hoffer := hs.offer lo hserves.offer
        refine ⟨hhashed, (fun _ _ _ he => by cases he), ?_, hs.snoc hoffer⟩
        intro lo' hlo'
        dsimp only at hlo'
        split at hlo'
        · cases hlo'
        · cases hlo'
          exact hoffer
  | see =>
      rcases see_eq_some h with rfl | rfl
      · exact hs.goto hhashed (fun _ _ _ he => by cases he) rfl rfl rfl
      · exact hs.goto hhashed (fun _ _ _ he => by cases he) rfl rfl rfl
  | read =>
      rcases read_eq_some h with rfl | ⟨kind, content, y, -, rfl⟩
      · exact hs.goto hhashed (fun _ _ _ he => by cases he) rfl rfl rfl
      · exact hs.goto hhashed (fun _ _ _ he => by cases he) rfl rfl rfl
  | compare =>
      rcases compare_eq_some h with rfl | ⟨kind, content, y, hplace, hgo, rfl⟩
      · exact hs.goto hhashed (fun _ _ _ he => by cases he) rfl rfl rfl
      · refine hs.goto hhashed ?_ rfl rfl rfl
        intro k c z he
        cases he
        exact hs.copied_of_compared hplace hC hgo
  | send wrote sends =>
      obtain ⟨kind, content, y, hplace, h⟩ := send_eq_some h
      have hmem := hs.sending kind content y hplace
      rcases send_cases h with rfl | ⟨rfl, sig, total, -, rfl⟩ | ⟨-, ok, -, rfl⟩
      · exact hs.goto hhashed (fun _ _ _ he => by cases he) rfl rfl rfl
      · refine ⟨hhashed, (fun _ _ _ he => by cases he), ?_, hs.snoc hmem⟩
        intro lo hlo
        dsimp only at hlo
        split at hlo
        · cases hlo
          exact ⟨content, hmem, rfl⟩
        · exact hs.offer lo hlo
      · exact ⟨hhashed, (fun _ _ _ he => by cases he), (fun lo hlo => by cases hlo),
          hs.snoc hmem⟩

end Own

/-- **What the helper sends.** In every run in which what the loop compares and
the user has not copied is what was recorded last, only what the user has copied
is sent, offered or pushed. -/
theorem helper_own {host : Host} {fs : Fs} {clip : Formats} {seqNum : Nat} {acts : List Act}
    {s : Helper} (hrun : (helper host).exec (.init host fs clip seqNum) acts = some s)
    (hC : (helper host).Meets Recorded (.init host fs clip seqNum) acts) :
    ∀ x ∈ s.sents, x.Own host s.copied :=
  ((helper host).exec_meets (own_init host fs clip seqNum) (fun _ _ _ hs hC h => hs.step hC h)
    hrun hC).sents

/-! ## Sent before it was recorded -/

/-- No images, and paths cut at slashes. -/
def plain : Host where
  pathOf := Files.pathOf
  pathText := Files.pathText
  pngToBmp _ := none
  bmpToPng _ := none
  bitmapOf _ := none
  tar := ustar
  stageRoot := []

def allSet : Setting := ⟨true, true, true⟩

/-- A text arrives, is set and recorded; then the loop reads it, and after that
what the user copies. -/
def storedFirst : List Act :=
  [.take kindText [8] 0, .publish allSet, .store, .pull [], .see, .read, .compare,
    .copy ⟨[], ['\x07'], [], none⟩, .pull [], .see, .read, .compare, .send true sentText]

/-- The loop reads it in between. -/
def storedLast : List Act :=
  [.take kindText [7] 0, .publish allSet, .pull [], .see, .read, .compare, .store,
    .send true sentText]

theorem storedFirst_recorded :
    (helper plain).Meets Recorded (.init plain (fun _ => .broken) ⟨[], [], [], none⟩ 0)
      storedFirst := by
  decide +kernel

theorem helper_own_storedFirst : ∃ s,
    (helper plain).exec (.init plain (fun _ => .broken) ⟨[], [], [], none⟩ 0) storedFirst
      = some s ∧
      s.sents = [.send kindText [7] true] ∧ ∀ x ∈ s.sents, x.Own plain s.copied := by
  have hsents : ((helper plain).exec (.init plain (fun _ => .broken) ⟨[], [], [], none⟩ 0)
      storedFirst).map Helper.sents = some [.send kindText [7] true] := by
    decide +kernel
  obtain ⟨s, hrun, hs⟩ := Option.map_eq_some_iff.mp hsents
  exact ⟨s, hrun, hs, helper_own hrun storedFirst_recorded⟩

/-- **A text sent before its hash was stored.** -/
theorem sent_before_stored :
    ¬ ∀ (host : Host) (fs : Fs) (clip : Formats) (seqNum : Nat) (acts : List Act) (s : Helper),
      (helper host).exec (.init host fs clip seqNum) acts = some s →
      ∀ x ∈ s.sents, x.Own host s.copied := by
  intro h
  have hsents : ((helper plain).exec (.init plain (fun _ => .broken) ⟨[], [], [], none⟩ 0)
      storedLast).map (fun s => (s.sents, s.copied)) = some ([.send kindText [7] true], []) := by
    decide +kernel
  obtain ⟨s, hrun, hs⟩ := Option.map_eq_some_iff.mp hsents
  obtain ⟨hx, hcopied⟩ := Prod.mk.inj hs
  have hown := h plain _ _ 0 storedLast s hrun (.send kindText [7] true) (by simp [hx])
  rw [hcopied] at hown
  cases hown

end Beaglewing.Agents.Windows
