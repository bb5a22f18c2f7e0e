/-
# `Agents.Published` — the file lists the agent publishes

`handle_frame` publishes a staged batch as the word copy and a URI a line.
Every byte of a path is a URI character of its own or an escape of three, so
no line of the list is broken, trimmed or filtered out, and what is decoded is
the path, byte by byte.  The agent then records the signature that its watcher
computes when it reads the list back.
-/
import Beaglewing.Agents.Handle
import Beaglewing.Files.Paths

namespace Beaglewing.Agents

open Base Clipframe Files

/-! ## One byte -/

/-- What a byte of a path is in a URI. -/
def escape (b : UInt8) : Text :=
  if keeps b then [Char.ofNat b.toNat] else ['%', hexChar (b.toNat / 16), hexChar (b.toNat % 16)]

/-- Printable ASCII, without the space. -/
def Plain (c : Char) : Prop := 0x21 ≤ c.toNat ∧ c.toNat ≤ 0x7E

instance (c : Char) : Decidable (Plain c) :=
  inferInstanceAs (Decidable (0x21 ≤ c.toNat ∧ c.toNat ≤ 0x7E))

theorem toNat_ofNat_of_ascii {n : Nat} (h : n < 128) : (Char.ofNat n).toNat = n := by
  have hvalid : n.isValidChar := Or.inl (by omega)
  rw [Char.ofNat, dif_pos hvalid]
  rfl

theorem keeps_bounds {b : UInt8} (h : keeps b = true) :
    0x21 ≤ b.toNat ∧ b.toNat ≤ 0x7E ∧ b ≠ 0x25 := by
  simp only [keeps, Bool.or_eq_true, Bool.and_eq_true, decide_eq_true_eq, beq_iff_eq,
    UInt8.le_iff_toNat_le, ← UInt8.toNat_inj] at h
  refine ⟨?_, ?_, ?_⟩
  · simp at h
    omega
  · simp at h
    omega
  · rintro rfl
    simp at h

theorem hexChar_digit : ∀ n < 16, Plain (hexChar n) ∧ hexDigit (UInt8.ofNat (hexChar n).toNat)
    = some (UInt8.ofNat n) ∧ UInt8.ofNat (hexChar n).toNat ≠ 0x2B := by
  decide

theorem plain_escape (b : UInt8) : ∀ c ∈ escape b, Plain c := by
  intro c hc
  unfold escape at hc
  split at hc
  · next hk =>
      rw [List.mem_singleton.mp hc, Plain]
      have := keeps_bounds hk
      rw [toNat_ofNat_of_ascii (by omega)]
      omega
  · have hb := b.toNat_lt
    simp only [List.mem_cons, List.not_mem_nil, or_false] at hc
    rcases hc with rfl | rfl | rfl
    · decide
    · exact (hexChar_digit _ (by omega)).1
    · exact (hexChar_digit _ (by omega)).1

theorem utf8_of_plain {t : Text} (h : ∀ c ∈ t, Plain c) :
    utf8 t = t.map fun c => UInt8.ofNat c.toNat := by
  induction t with
  | nil => rfl
  | cons c t ih =>
      have hc := (h c List.mem_cons_self).2
      rw [utf8_cons, encodeChar_of_ascii (by omega), ih fun d hd => h d (List.mem_cons_of_mem _ hd)]
      rfl

theorem percentDecode_cons {b : UInt8} (h : b ≠ 0x25) (bs : List UInt8) :
    percentDecode (b :: bs) = (percentDecode bs).map fun out => b :: out := by
  rw [percentDecode.eq_2]
  exact fun b₁ b₂ rest heq _ => h heq

/-- An escaped byte is read back, whatever comes after it. -/
theorem percentDecode_escape (b : UInt8) (bs : List UInt8) :
    percentDecode (utf8 (escape b) ++ bs) = (percentDecode bs).map fun out => b :: out := by
  rw [utf8_of_plain (plain_escape b), escape]
  split
  · next hk =>
      have := keeps_bounds hk
      rw [List.map_singleton, toNat_ofNat_of_ascii (by omega), UInt8.ofNat_toNat]
      exact percentDecode_cons this.2.2 bs
  · have hb := b.toNat_lt
    obtain ⟨-, hhigh, hplus⟩ := hexChar_digit (b.toNat / 16) (by omega)
    obtain ⟨-, hlow, -⟩ := hexChar_digit (b.toNat % 16) (by omega)
    have hbyte : 16 * UInt8.ofNat (b.toNat / 16) + UInt8.ofNat (b.toNat % 16) = b := by
      rw [← UInt8.toNat_inj]
      simp
      omega
    show percentDecode (0x25 :: UInt8.ofNat _ :: UInt8.ofNat _ :: bs) = _
    rw [percentDecode.eq_1, hexByte, if_neg hplus, hhigh, hlow, Option.bind_some, Option.map_some,
      hbyte, Option.bind_some]

theorem percentDecode_escaped (bs : List UInt8) :
    percentDecode (utf8 (bs.flatMap escape)) = some bs := by
  induction bs with
  | nil => rfl
  | cons b bs ih => rw [List.flatMap_cons, utf8_append, percentDecode_escape, ih, Option.map_some]

/-! ## One line -/

theorem not_isWhitespace_of_plain {c : Char} (h : Plain c) : isWhitespace c = false := by
  have ⟨hlow, hhigh⟩ := h
  simp only [isWhitespace, Bool.or_eq_false_iff, Bool.and_eq_false_iff, decide_eq_false_iff_not,
    beq_eq_false_iff_ne]
  omega

theorem not_plain_of_control {c : Char} (h : c.toNat < 0x21) : ¬ Plain c := fun hp => by
  have := hp.1
  omega

theorem trim_of_plain {t : Text} (h : ∀ c ∈ t, Plain c) : trim t = t := by
  have hkeep : ∀ u : Text, (∀ c ∈ u, Plain c) → u.dropWhile isWhitespace = u := by
    intro u hu
    cases u with
    | nil => rfl
    | cons c u =>
        rw [List.dropWhile_cons, not_isWhitespace_of_plain (hu c List.mem_cons_self)]
        rfl
  rw [trim, hkeep t h, hkeep t.reverse fun c hc => h c (List.mem_reverse.mp hc), List.reverse_reverse]

/-- The URI of a path with this text. -/
def textToUri (t : Text) : Text := fileScheme ++ (utf8 t).flatMap escape

theorem pathToUri_eq (p : Path) : pathToUri p = textToUri (pathText p) := rfl

/-- The text that `uri_to_path` makes a path of. -/
def uriToText (uri : Text) : Option Text :=
  if fileScheme.isPrefixOf (trim uri) then
    (percentDecode (utf8 ((trim uri).drop fileScheme.length))).map fromUtf8Lossy
  else none

theorem uriToPath_eq (uri : Text) : uriToPath uri = (uriToText uri).map pathOf := by
  rw [uriToPath, uriToText]
  split
  · rw [Option.map_map]
    rfl
  · rfl

theorem plain_textToUri (t : Text) : ∀ c ∈ textToUri t, Plain c := by
  intro c hc
  rcases List.mem_append.mp hc with hc | hc
  · exact (by simp [fileScheme, Plain] : ∀ c ∈ fileScheme, Plain c) c hc
  · obtain ⟨b, -, hc⟩ := List.mem_flatMap.mp hc
    exact plain_escape b c hc

theorem uriToText_textToUri (t : Text) : uriToText (textToUri t) = some t := by
  have hprefix : fileScheme.isPrefixOf (textToUri t) = true :=
    List.isPrefixOf_iff_prefix.mpr (List.prefix_append _ _)
  rw [uriToText, trim_of_plain (plain_textToUri t), if_pos hprefix, textToUri, List.drop_left,
    percentDecode_escaped, Option.map_some, fromUtf8Lossy_utf8]

/-! ## The list -/

/-- The lines of a payload that `parse_file_list` takes for URIs. -/
def fileLines (data : List UInt8) : List Text :=
  (lines (fromUtf8Lossy data)).filter fun l =>
    l ≠ [] && l.head? ≠ some '#' && l ≠ ['c', 'o', 'p', 'y'] && l ≠ ['c', 'u', 't']

/-- What is published for paths with these texts. -/
def publish (texts : List Text) : List UInt8 :=
  utf8 (['c', 'o', 'p', 'y'] ++ texts.flatMap fun t => '\n' :: textToUri t)

theorem parseFileList_eq (data : List UInt8) :
    parseFileList data = (fileLines data).filterMap uriToPath := rfl

theorem copyList_eq (staged : List Path) : copyList staged = publish (staged.map pathText) := by
  rw [copyList, publish, List.flatMap_map]
  simp only [pathToUri_eq]

/-- Lines that hold no line end are what their text is cut into. -/
theorem lines_intercalate {ls : List Text} (h : ∀ l ∈ ls, l ≠ [] ∧ ∀ c ∈ l, Plain c) :
    lines (List.intercalate ['\n'] ls) = ls := by
  cases hls : ls with
  | nil => rfl
  | cons first rest =>
      have hne : ls ≠ [] := hls ▸ List.cons_ne_nil _ _
      have hlf : ∀ l ∈ ls, '\n' ∉ l := fun l hl hmem =>
        not_plain_of_control (by decide) ((h l hl).2 _ hmem)
      have hcr : ∀ l ∈ ls.dropLast, (if l.getLast? = some '\r' then l.dropLast else l) = l := by
        intro l hl
        refine if_neg fun hlast => ?_
        exact not_plain_of_control (by decide)
          ((h l (List.mem_of_mem_dropLast hl)).2 _ (List.mem_of_getLast? hlast))
      rw [← hls, lines, List.splitOn_intercalate _ hlf hne, List.map_congr_left hcr, List.map_id',
        List.getLast?_eq_some_getLast hne, Option.toList_some, List.filter_cons_of_pos,
        List.filter_nil, List.dropLast_append_getLast]
      simpa using (h _ (List.getLast_mem hne)).1

/-- The lines of what is published are the URIs, in order. -/
theorem fileLines_publish (texts : List Text) : fileLines (publish texts) = texts.map textToUri := by
  have hlines : lines (['c', 'o', 'p', 'y'] ++ texts.flatMap fun t => '\n' :: textToUri t)
      = ['c', 'o', 'p', 'y'] :: texts.map textToUri := by
    have hjoin : ∀ first : Text, first ++ (texts.flatMap fun t => '\n' :: textToUri t)
        = List.intercalate ['\n'] (first :: texts.map textToUri) := by
      induction texts with
      | nil => exact fun first => by simp
      | cons t texts ih =>
          intro first
          rw [List.flatMap_cons, List.map_cons, List.intercalate_cons_cons, ← ih]
          simp
    rw [hjoin, lines_intercalate]
    intro l hl
    rcases List.mem_cons.mp hl with rfl | hl
    · exact ⟨by decide, by simp [Plain]⟩
    · obtain ⟨t, -, rfl⟩ := List.mem_map.mp hl
      exact ⟨List.cons_ne_nil _ _, plain_textToUri t⟩
  rw [fileLines, publish, fromUtf8Lossy_utf8, hlines, List.filter_cons_of_neg (by decide)]
  refine List.filter_eq_self.mpr ?_
  intro l hl
  obtain ⟨t, -, rfl⟩ := List.mem_map.mp hl
  rfl

/-- What is published for some texts is read as the paths that they are. -/
theorem parseFileList_publish (texts : List Text) :
    parseFileList (publish texts) = texts.map pathOf := by
  have hback : ∀ t : Text, uriToPath (textToUri t) = some (pathOf t) := by
    intro t
    rw [uriToPath_eq, uriToText_textToUri, Option.map_some]
  rw [parseFileList_eq, fileLines_publish, List.filterMap_map, ← List.filterMap_eq_map]
  exact List.filterMap_congr fun t _ => hback t

/-- Absolute paths come back as they were published. -/
theorem parseFileList_copyList {staged : List Path} (h : ∀ p ∈ staged, Absolute p) :
    parseFileList (copyList staged) = staged := by
  have hback : ∀ p ∈ staged, pathOf (pathText p) = p := by
    intro p hp
    exact pathOf_pathText (h p hp)
  rw [copyList_eq, parseFileList_publish, List.map_map]
  exact (List.map_congr_left hback).trans (List.map_id staged)

theorem unpackToStage_ne_nil {tar : TarCrate} {stageRoot : Path} {ts : Nat} {data : List UInt8}
    {batch : Node} {staged : List Path}
    (h : unpackToStage tar stageRoot ts data = .ok (batch, staged)) : staged ≠ [] := by
  unfold unpackToStage at h
  split at h
  · cases h
  · simp only at h
    split at h
    · cases h
    · next hne =>
        cases h
        exact hne

namespace Linux

/-- The hash recorded for a batch is the one read back with its list. -/
theorem readLocalClipboard_published {fs : Fs} {staged : List Path} (hne : staged ≠ [])
    (h : ∀ p ∈ staged, Absolute p) :
    readLocalClipboard fs (served kindTar (copyList staged))
      = ((batchSignature fs staged).map fun x => x.1 ^^^ kindTar.toUInt64).map fun hash =>
          (kindTar, copyList staged, hash) := by
  have hdata : copyList staged ≠ [] := utf8_ne_nil (by simp)
  rw [readLocalClipboard, payload_served (Or.inr (Or.inr rfl)), if_neg hdata, Option.bind_some,
    changeHash, if_pos rfl, parseFileList_copyList h, if_neg hne]

theorem published_tar {tar : TarCrate} {stageRoot : Path} {recv : Reassembler} {fs : Fs}
    {ans : Answers} {ev : Ev} {r : Received}
    (h : published tar stageRoot recv fs ans ev = some (kindTar, r)) :
    ∃ f data batch staged, ev = .frame f ∧ (recv.feed f).2 = .complete kindTar data ∧
      unpackToStage tar stageRoot ans.ts data = .ok (batch, staged) ∧
      r.fs = mount fs (batchDir stageRoot ans.ts) batch ∧ r.content = copyList staged ∧
      r.hash = (batchSignature r.fs staged).map fun x => x.1 ^^^ kindTar.toUInt64 := by
  cases ev with
  | frame f =>
      simp only [published] at h
      split at h
      next kind data hfeed =>
        split at h
        next =>
          obtain ⟨r', hr, heq⟩ := Option.map_eq_some_iff.mp h
          cases heq
          simp only [receive, if_neg (by decide : kindTar ≠ kindText),
            if_neg (by decide : kindTar ≠ kindPng), if_true] at hr
          split at hr
          next => cases hr
          next batch staged hstage =>
            cases hr
            exact ⟨f, data, batch, staged, rfl, hfeed, hstage, rfl, rfl, rfl⟩
        next => cases h
      next => cases h
  | _ => cases h

/-- A published file list reads back: every text of a path, whatever its
characters; every list of absolute paths, in order; and, once a received batch
is set, with the hash that the agent has recorded for it. -/
theorem file_lists_read_back :
    (∀ texts : List Text, (fileLines (publish texts)).map uriToText = texts.map some ∧
        parseFileList (publish texts) = texts.map pathOf) ∧
      (∀ staged : List Path, (∀ p ∈ staged, Absolute p) →
        parseFileList (copyList staged) = staged) ∧
      ∀ tar stageRoot a recv fs ev ans o r,
        handle tar stageRoot a recv fs ev ans = some o →
        published tar stageRoot recv fs ans ev = some (kindTar, r) →
        ∃ f data batch staged, ev = .frame f ∧ (recv.feed f).2 = .complete kindTar data ∧
          unpackToStage tar stageRoot ans.ts data = .ok (batch, staged) ∧
          o.fs = mount fs (batchDir stageRoot ans.ts) batch ∧
          r.content = copyList staged ∧
          r.hash = (batchSignature o.fs staged).map (fun x => x.1 ^^^ kindTar.toUInt64) ∧
          ((∀ p ∈ staged, Absolute p) →
            readLocalClipboard o.fs (served kindTar r.content)
              = r.hash.map fun hash => (kindTar, r.content, hash)) ∧
          ∀ hash, r.hash = some hash → o.agent.lastSet = hash := by
  refine ⟨?_, fun staged => parseFileList_copyList, ?_⟩
  · intro texts
    refine ⟨?_, parseFileList_publish texts⟩
    rw [fileLines_publish, List.map_map]
    exact List.map_congr_left fun t _ => uriToText_textToUri t
  · intro tar stageRoot a recv fs ev ans o r ho hp
    obtain ⟨f, data, batch, staged, hev, hfeed, hstage, hfs, hcontent, hhash⟩ := published_tar hp
    rw [handle_published ho hp]
    refine ⟨f, data, batch, staged, hev, hfeed, hstage, hfs, hcontent, hhash, ?_, ?_⟩
    · intro habs
      rw [hcontent, hhash, readLocalClipboard_published (unpackToStage_ne_nil hstage) habs]
    · intro hash hr
      simp only [hr, Option.getD_some]

/-! ## A batch that is received, published and read back -/

/-- Two files, with characters that a URI escapes in their names. -/
def twoFiles : List UInt8 :=
  ustar.build [⟨[['a', ' ', 'b']], some [7]⟩, ⟨[['5', '0', '%', '#']], some []⟩]

/-- All but the END has come. -/
def midway : Reassembler := receiver.run .default (encodeTransfer kindTar twoFiles).dropLast

def stagedFiles : List Path :=
  [[.rootDir, .normal ['b', 'w', '-', '0'], .normal ['5', '0', '%', '#']],
    [.rootDir, .normal ['b', 'w', '-', '0'], .normal ['a', ' ', 'b']]]

def setting : Answers := ⟨false, true, [], true, 0⟩

theorem file_lists_read_back_twoFiles : ∃ o r hash,
    handle ustar [.rootDir] .init midway (fun _ => .broken) (.frame (endFrame twoFiles)) setting =
      some o ∧
    published ustar [.rootDir] midway (fun _ => .broken) setting (.frame (endFrame twoFiles)) =
      some (kindTar, r) ∧
    parseFileList r.content = stagedFiles ∧
    readLocalClipboard o.fs (served kindTar r.content) = some (kindTar, r.content, hash) ∧
    o.agent.lastSet = hash := by
  have hcomplete : (midway.feed (endFrame twoFiles)).2 = .complete kindTar twoFiles := by
    decide +kernel
  have hunpack : (unpackToStage ustar [.rootDir] 0 twoFiles).map Prod.snd = .ok stagedFiles := by
    decide +kernel
  have habs : ∀ p ∈ stagedFiles, Absolute p := by
    intro p hp
    rcases List.mem_cons.mp hp with rfl | hp
    · exact ⟨['b', 'w', '-', '0', '/', '5', '0', '%', '#'], by decide⟩
    · rw [List.mem_singleton.mp hp]
      exact ⟨['b', 'w', '-', '0', '/', 'a', ' ', 'b'], by decide⟩
  obtain ⟨o, ho⟩ : ∃ o, handle ustar [.rootDir] .init midway (fun _ => .broken)
      (.frame (endFrame twoFiles)) setting = some o :=
    Option.isSome_iff_exists.mp (by decide +kernel)
  obtain ⟨⟨kind, r⟩, hp, hr⟩ : ∃ x, published ustar [.rootDir] midway (fun _ => .broken) setting
      (.frame (endFrame twoFiles)) = some x ∧ (x.1, x.2.hash.isSome) = (kindTar, true) :=
    Option.map_eq_some_iff.mp (by decide +kernel)
  obtain ⟨rfl, hsome⟩ := Prod.mk.inj hr
  obtain ⟨hash, hhash⟩ := Option.isSome_iff_exists.mp hsome
  obtain ⟨-, hlists, hreceived⟩ := file_lists_read_back
  obtain ⟨f, data, batch, staged, hev, hfeed, hstage, -, hcontent, -, hread, hlast⟩ :=
    hreceived _ _ _ _ _ _ _ _ _ ho hp
  cases hev
  rw [hcomplete] at hfeed
  cases hfeed
  have hstaged : staged = stagedFiles := by
    rw [show (setting.ts : Nat) = 0 from rfl] at hstage
    rw [hstage] at hunpack
    exact Except.ok.inj hunpack
  rw [hstaged] at hcontent hread
  refine ⟨o, r, hash, ho, hp, ?_, ?_, hlast hash hhash⟩
  · rw [hcontent]
    exact hlists _ habs
  · rw [hread habs, hhash, Option.map_some]

end Linux
end Beaglewing.Agents
