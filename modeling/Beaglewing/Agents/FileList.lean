/-
# `Agents.FileList` — file lists on the Linux clipboard

`uri_to_path`, `path_to_uri` and `parse_file_list` of `clipboard.rs`: the
payload of an `x-special/gnome-copied-files` or `text/uri-list` selection,
one URI a line.
-/
import Beaglewing.Files.Tree

namespace Beaglewing.Agents

open Base Clipframe Files

/-- `char::is_whitespace`. -/
def isWhitespace (c : Char) : Bool :=
  let n := c.toNat
  (9 ≤ n && n ≤ 13) || n == 0x20 || n == 0x85 || n == 0xA0 || n == 0x1680 ||
    (0x2000 ≤ n && n ≤ 0x200A) || n == 0x2028 || n == 0x2029 || n == 0x202F || n == 0x205F ||
    n == 0x3000

/-- `str::trim`. -/
def trim (t : Text) : Text :=
  ((t.dropWhile isWhitespace).reverse.dropWhile isWhitespace).reverse

/-- `str::lines`. -/
def lines (t : Text) : List Text :=
  let parts := t.splitOn '\n'
  (parts.dropLast.map fun l => if l.getLast? = some '\r' then l.dropLast else l) ++
    parts.getLast?.toList.filter fun l => l ≠ []

def fileScheme : Text := ['f', 'i', 'l', 'e', ':', '/', '/']

def hexDigit (b : UInt8) : Option UInt8 :=
  if 0x30 ≤ b ∧ b ≤ 0x39 then some (b - 0x30)
  else if 0x41 ≤ b ∧ b ≤ 0x46 then some (b - 0x41 + 10)
  else if 0x61 ≤ b ∧ b ≤ 0x66 then some (b - 0x61 + 10)
  else none

/-- `u8::from_str_radix(hex, 16)` on two bytes; the first may be a plus sign. -/
def hexByte (b₁ b₂ : UInt8) : Option UInt8 :=
  if b₁ = 0x2B then hexDigit b₂
  else (hexDigit b₁).bind fun d₁ => (hexDigit b₂).map fun d₂ => 16 * d₁ + d₂

/-- The loop of `uri_to_path`: a percent sign with two bytes after it is an
escape. -/
def percentDecode : List UInt8 → Option (List UInt8)
  | 0x25 :: b₁ :: b₂ :: rest =>
      (hexByte b₁ b₂).bind fun b => (percentDecode rest).map fun out => b :: out
  | b :: rest => (percentDecode rest).map fun out => b :: out
  | [] => some []

def uriToPath (uri : Text) : Option Path :=
  let t := trim uri
  if fileScheme.isPrefixOf t then
    (percentDecode (utf8 (t.drop fileScheme.length))).map fun out => pathOf (fromUtf8Lossy out)
  else none

/-- The bytes a URI keeps. -/
def keeps (b : UInt8) : Bool :=
  (0x30 ≤ b && b ≤ 0x39) || (0x41 ≤ b && b ≤ 0x5A) || (0x61 ≤ b && b ≤ 0x7A) ||
    b == 0x2F || b == 0x2D || b == 0x5F || b == 0x2E || b == 0x7E

/-- An upper-case hexadecimal digit. -/
def hexChar (n : Nat) : Char := Char.ofNat (if n < 10 then 0x30 + n else 0x37 + n)

def pathToUri (p : Path) : Text :=
  fileScheme ++ (utf8 (pathText p)).flatMap fun b =>
    if keeps b then [Char.ofNat b.toNat] else ['%', hexChar (b.toNat / 16), hexChar (b.toNat % 16)]

/-- `parse_file_list`. -/
def parseFileList (data : List UInt8) : List Path :=
  ((lines (fromUtf8Lossy data)).filter fun l =>
    l ≠ [] && l.head? ≠ some '#' && l ≠ ['c', 'o', 'p', 'y'] && l ≠ ['c', 'u', 't']).filterMap
      uriToPath

/-- The list `handle_frame` publishes for a staged batch. -/
def copyList (staged : List Path) : List UInt8 :=
  utf8 (['c', 'o', 'p', 'y'] ++ staged.flatMap fun p => '\n' :: pathToUri p)

example : parseFileList (copyList [[.rootDir, .normal ['a', ' ', 'b']], [.rootDir, .normal ['%']]])
    = [[.rootDir, .normal ['a', ' ', 'b']], [.rootDir, .normal ['%']]] := by
  decide +kernel

end Beaglewing.Agents
