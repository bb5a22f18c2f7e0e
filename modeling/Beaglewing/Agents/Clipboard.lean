/-
# `Agents.Clipboard` — the clipboard as the Linux agent sees it

`read_local_clipboard` and `set_local_clipboard` of `clipboard.rs`.  A
selection is what its owner serves, some data for each target it advertises.
The kind of a content is decided from the targets: a file list before text,
text before an image.  Its change hash is the signature of the files for a
file list, a hash of the bytes for anything else.
-/
import Beaglewing.Agents.FileList

namespace Beaglewing.Agents

open Base Clipframe Files

/-- The targets an owner advertises, each with the data it serves. -/
abbrev Selection : Type := List (String × List UInt8)

/-- `xclip_out`: no empty data. -/
def xclipOut (sel : Selection) (target : String) : Option (List UInt8) :=
  (sel.lookup target).filter fun data => data ≠ []

def hasTarget (sel : Selection) (t : String) : Bool := (sel.lookup t).isSome

/-- The kind and the payload of a selection, from its TARGETS. -/
def payload (sel : Selection) : Option (UInt8 × List UInt8) :=
  if hasTarget sel "x-special/gnome-copied-files" then
    (xclipOut sel "x-special/gnome-copied-files").map fun data => (kindTar, data)
  else if hasTarget sel "text/uri-list" then
    (xclipOut sel "text/uri-list").map fun data => (kindTar, data)
  else if hasTarget sel "UTF8_STRING" || hasTarget sel "STRING" ||
      hasTarget sel "text/plain;charset=utf-8" || hasTarget sel "text/plain" then
    let t := if hasTarget sel "UTF8_STRING" then "UTF8_STRING" else "STRING"
    (xclipOut sel t).map fun data => (kindText, data)
  else if hasTarget sel "image/png" then
    (xclipOut sel "image/png").map fun data => (kindPng, data)
  else none

/-- The change hash of a content.  A list of no files has none, nor has one
with a file that is unreadable. -/
def changeHash (fs : Fs) (kind : UInt8) (data : List UInt8) : Option UInt64 :=
  if kind = kindTar then
    if parseFileList data = [] then none
    else (batchSignature fs (parseFileList data)).map fun x => x.1 ^^^ kindTar.toUInt64
  else some (contentHash kind data)

def readLocalClipboard (fs : Fs) (sel : Selection) : Option (UInt8 × List UInt8 × UInt64) :=
  (payload sel).bind fun x => (changeHash fs x.1 x.2).map fun h => (x.1, x.2, h)

/-- What `xclip` serves after `set_local_clipboard`, in its single target. -/
def served (kind : UInt8) (data : List UInt8) : Selection :=
  if kind = kindPng then [("image/png", data)]
  else if kind = kindTar then [("x-special/gnome-copied-files", data)]
  else [("UTF8_STRING", data)]

theorem readLocalClipboard_eq_some {fs : Fs} {sel : Selection} {kind : UInt8} {data : List UInt8}
    {h : UInt64} : readLocalClipboard fs sel = some (kind, data, h) ↔
      payload sel = some (kind, data) ∧ changeHash fs kind data = some h := by
  rw [readLocalClipboard, Option.bind_eq_some_iff]
  constructor
  · rintro ⟨⟨k, d⟩, hsel, hmap⟩
    obtain ⟨h', hh, heq⟩ := Option.map_eq_some_iff.mp hmap
    cases heq
    exact ⟨hsel, hh⟩
  · rintro ⟨hsel, hh⟩
    exact ⟨(kind, data), hsel, by rw [hh]; rfl⟩

/-- What was set is read back as it was set, if it was not empty. -/
theorem payload_served {kind : UInt8} (hkind : kind = kindText ∨ kind = kindPng ∨ kind = kindTar)
    (data : List UInt8) :
    payload (served kind data) = if data = [] then none else some (kind, data) := by
  rcases hkind with rfl | rfl | rfl
  all_goals
    cases data <;> rfl

/-- The hash of a text or an image is that of its bytes, whatever the files. -/
theorem changeHash_of_ne_tar {kind : UInt8} (h : kind ≠ kindTar) (fs : Fs) (data : List UInt8) :
    changeHash fs kind data = some (contentHash kind data) := if_neg h

end Beaglewing.Agents
