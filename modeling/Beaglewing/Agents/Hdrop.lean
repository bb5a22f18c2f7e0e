/-
# `Agents.Hdrop` — the file list on the Windows clipboard

`build_hdrop` of `windows/clipboard-agent/src/main.rs`: a DROPFILES header of
20 bytes, then the paths.  `readHdrop` is how Explorer takes it apart: the
offset of the list in the first four bytes, the wide flag at 16, strings up to
an empty one.
-/
import Beaglewing.Base.Utf16
import Beaglewing.Agents.Text

namespace Beaglewing.Agents.Windows

open Base

/-- `build_hdrop`, of the texts of the paths. -/
def buildHdrop (paths : List Text) : List UInt8 :=
  let buf := List.replicate 20 0
  -- pFiles: offset of the path list
  let buf := buf.set 0 20
  -- fWide: UTF-16
  let buf := buf.set 16 1
  buf ++ paths.flatMap (fun p => (utf16 p).flatMap toLe16 ++ toLe16 0) ++ toLe16 0

/-- The `u32` at an offset. -/
def le32At (bytes : List UInt8) (i : Nat) : Option UInt32 :=
  match bytes.drop i with
  | b₀ :: b₁ :: b₂ :: b₃ :: _ => some (fromLe32 b₀ b₁ b₂ b₃)
  | _ => none

/-- The paths of a DROPFILES structure, and the bytes after the list. -/
def readHdrop (bytes : List UInt8) : Option (List Text × List UInt8) :=
  (le32At bytes 0).bind fun offset => (le32At bytes 16).bind fun wide =>
    if wide = 0 then none else wideStrings bytes.length (bytes.drop offset.toNat)

/-- The header stands before a list of strings. -/
theorem buildHdrop_eq (paths : List Text) :
    buildHdrop paths = ((List.replicate 20 0).set 0 20).set 16 1 ++
      (paths.flatMap wideBytes ++ toLe16 0) := List.append_assoc _ _ _

/-- There are more bytes than paths. -/
theorem length_lt_buildHdrop (paths : List Text) : paths.length < (buildHdrop paths).length := by
  have hlen : paths.length ≤ (paths.flatMap wideBytes).length := by
    induction paths with
    | nil => exact Nat.zero_le _
    | cons p paths ih =>
        rw [List.flatMap_cons, List.length_append, List.length_cons, wideBytes, List.length_append,
          length_toLe16]
        omega
  rw [buildHdrop_eq, List.length_append, List.length_append, length_toLe16]
  omega

/-- Whatever comes after it, the list that was built is read, to its end. -/
theorem readHdrop_append {paths : List Text} (h : ∀ p ∈ paths, p ≠ [] ∧ '\x00' ∉ p)
    (bs : List UInt8) : readHdrop (buildHdrop paths ++ bs) = some (paths, bs) := by
  have hlen := length_lt_buildHdrop paths
  have hdrop : (buildHdrop paths ++ bs).drop 20 = paths.flatMap wideBytes ++ toLe16 0 ++ bs := by
    rw [buildHdrop_eq, List.append_assoc]
    exact List.drop_left' rfl
  have hoffset : le32At (buildHdrop paths ++ bs) 0 = some 20 := rfl
  have hwide : le32At (buildHdrop paths ++ bs) 16 = some 1 := rfl
  rw [readHdrop, hoffset, Option.bind_some, hwide, Option.bind_some, if_neg (by decide)]
  show wideStrings _ (List.drop 20 _) = _
  rw [hdrop, wideStrings_flatMap h]
  rw [List.length_append]
  omega

/-- The paths are read back in order, and nothing is left of the buffer. -/
theorem hdrop_read_back {paths : List Text} (h : ∀ p ∈ paths, p ≠ [] ∧ '\x00' ∉ p) :
    readHdrop (buildHdrop paths) = some (paths, []) := by
  rw [← List.append_nil (buildHdrop paths)]
  exact readHdrop_append h []

/-- A path with a character outside the BMP, and one without. -/
theorem hdrop_read_back_pair :
    readHdrop (buildHdrop [['a', Char.ofNat 0x1F600, 'b'], ['c']])
      = some ([['a', Char.ofNat 0x1F600, 'b'], ['c']], []) :=
  hdrop_read_back (by decide)

end Beaglewing.Agents.Windows
