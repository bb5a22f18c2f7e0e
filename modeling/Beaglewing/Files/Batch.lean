/-
# `Files.Batch` — a file batch packed, and staged again

`pack` and `unpack_to_stage` of `protocol/clipframe/src/files.rs`.  The
archive is written and read by the `tar` crate, a parameter here (`TarCrate`):
which entries it appends for a path, the bytes of an archive, and what an
archive unpacks to, each of which can fail.  What the code relies on is named,
and assumed where a result needs it:

| | |
| :-- | :-- |
| `Archives` | what is appended for a tree is the entry of each file and directory in it, a directory before what is in it |
| `Sized` | a header of 512 bytes for each entry, contents padded to 512, and 1024 bytes at the end |
| `Unpacks` | the entries are unpacked in order, a later one over an earlier one of its name |

`pack` names its entries by basename, directories recurse under theirs.

## What it is not

Permissions and times of files, names too long for a header, and what is left
in the stage by an archive that was unpacked in part are not modelled.  Whether
the crate refuses a path (a socket, a file that cannot be read) is its own
affair: `append` says so with `none`, and no assumption excludes it.
-/
import Beaglewing.Base.Lists
import Beaglewing.Files.Tree

namespace Beaglewing.Files

open Base Agents

/-- An entry of an archive: a file with its contents, or a directory. -/
structure Entry where
  name : List Name
  contents : Option (List UInt8)
deriving DecidableEq

/-- `tar::Builder` and `tar::Archive`: the entries appended for what is found at a
path, under that name, if it is not refused; the archive of some entries; what
is in an empty directory after an archive is unpacked there, if it can be; and
the text of the errors. -/
structure TarCrate where
  append : List Name → Node → Option (List Entry)
  build : List Entry → List UInt8
  unpack : List UInt8 → Option Node
  error : String

/-- The 512-byte blocks of some contents. -/
def padded (n : Nat) : Nat := (n + 511) / 512 * 512

def entrySize (e : Entry) : Nat := 512 + padded (e.contents.getD []).length

mutual

/-- The entries of a tree: a directory, then what is in it.  A pipe or a device
is a header without contents. -/
def Node.archived (name : List Name) : Node → List Entry
  | .file bytes => [⟨name, some bytes⟩]
  | .dir entries => ⟨name, none⟩ :: archivedEntries name entries
  | .special => [⟨name, some []⟩]
  | .broken => []
termination_by structural x => x

def archivedEntries (name : List Name) : List (Name × Node) → List Entry
  | [] => []
  | e :: es => archivedEntry name e ++ archivedEntries name es
termination_by structural x => x

def archivedEntry (name : List Name) : Name × Node → List Entry
  | (n, node) => node.archived (name ++ [n])
termination_by structural x => x

end

/-- Change the entry of that name, an empty directory if there is none. -/
def alter (n : Name) (f : Node → Node) : List (Name × Node) → List (Name × Node)
  | [] => [(n, f (.dir []))]
  | (m, x) :: es => if m = n then (m, f x) :: es else (m, x) :: alter n f es

/-- An entry unpacked: a file replaces what has its name, a directory that is
there already is kept. -/
def Node.put (contents : Option (List UInt8)) : List Name → Node → Node
  | [], .dir es =>
      match contents with
      | some bytes => .file bytes
      | none => .dir es
  | [], _ =>
      match contents with
      | some bytes => .file bytes
      | none => .dir []
  | n :: rest, .dir es => .dir (alter n (put contents rest) es)
  | n :: rest, _ => .dir (alter n (put contents rest) [])

/-- Entries unpacked in order, a later one over an earlier one of its name. -/
def unpack (es : List Entry) (batch : Node) : Node :=
  es.foldl (fun dir e => dir.put e.contents e.name) batch

namespace TarCrate

def Archives (tar : TarCrate) : Prop :=
  ∀ name node es, tar.append name node = some es → es = node.archived name

def Sized (tar : TarCrate) : Prop :=
  ∀ es, (tar.build es).length = (es.map entrySize).sum + 1024

def Unpacks (tar : TarCrate) (es : List Entry) : Prop :=
  tar.unpack (tar.build es) = some (Files.unpack es (.dir []))

end TarCrate

/-! ## Packing -/

/-- The body of `for p in paths`: `append_dir_all` for a directory, and
`append_path_with_name` for the rest. -/
def appendPath (tar : TarCrate) (fs : Fs) (p : Path) : Except String (List Entry) :=
  match fileName p with
  | none => .error ("no basename for " ++ String.ofList (pathText p))
  | some name =>
      match tar.append [name] (fs p) with
      | none => .error (String.ofList (pathText p) ++ ": " ++ tar.error)
      | some es => .ok es

/-- The entries of a batch. -/
def batchEntries (tar : TarCrate) (fs : Fs) (paths : List Path) : Except String (List Entry) :=
  (paths.mapM (appendPath tar fs)).map List.flatten

def pack (tar : TarCrate) (fs : Fs) (paths : List Path) (cap : Nat) :
    Except String (List UInt8) :=
  match batchSignature fs paths with
  | none => .error "a path in the batch is unreadable"
  | some (_, total) =>
      if total > cap then
        .error ("batch is " ++ toString (total / (1024 * 1024)) ++ "MB, over the " ++
          toString (cap / (1024 * 1024)) ++ "MB channel cap")
      else (batchEntries tar fs paths).map tar.build

/-- What `pack` returns is the archive of the entries of its paths. -/
theorem pack_eq_ok {tar : TarCrate} {fs : Fs} {paths : List Path} {cap : Nat}
    {archive : List UInt8} (h : pack tar fs paths cap = .ok archive) :
    ∃ ess, batchEntries tar fs paths = .ok ess.flatten ∧
      List.Forall₂ (fun p es => appendPath tar fs p = .ok es) paths ess ∧
      archive = tar.build ess.flatten := by
  unfold pack at h
  split at h
  · cases h
  · split at h
    · cases h
    · cases hm : paths.mapM (appendPath tar fs) with
      | error e =>
          rw [batchEntries, hm] at h
          cases h
      | ok ess =>
          rw [batchEntries, hm] at h
          cases h
          exact ⟨ess, by rw [batchEntries, hm]; rfl, forall₂_of_mapM hm, rfl⟩

/-! ## Staging -/

/-- `read_dir`, for the names in it. -/
def Node.entries : Node → List (Name × Node)
  | .dir es => es
  | _ => []

/-- `stage_root.join(format!("bw-{ts}"))`. -/
def batchDir (stageRoot : Path) (ts : Nat) : Path :=
  stageRoot ++ [.normal (['b', 'w', '-'] ++ (toString ts).toList)]

/-- `unpack_to_stage` in an empty stage root: what is in the batch directory
afterwards, and the top-level staged paths. -/
def unpackToStage (tar : TarCrate) (stageRoot : Path) (ts : Nat) (bytes : List UInt8) :
    Except String (Node × List Path) :=
  match tar.unpack bytes with
  | none => .error ("unpack: " ++ tar.error)
  | some batch =>
      let tops := sortPaths (batch.entries.map fun e => batchDir stageRoot ts ++ [.normal e.1])
      if tops = [] then .error "received batch was empty" else .ok (batch, tops)

/-- What is found under a directory. -/
def below : Path → Node → Node
  | [], node => node
  | .normal name :: rest, .dir entries =>
      match entries.lookup name with
      | some node => below rest node
      | none => .broken
  | _ :: _, _ => .broken

/-- The file system once a batch is staged in its directory. -/
def mount (fs : Fs) (dir : Path) (batch : Node) : Fs := fun p =>
  if dir.isPrefixOf p then below (p.drop dir.length) batch else fs p

/-! ## One such crate

The archive format as far as the entries go: name, size and type of an entry
in its header, the other fields blank.  It refuses nothing. -/

/-- `n` in octal, eleven digits. -/
def octal (n : Nat) : List UInt8 :=
  (List.range 11).reverse.map fun i => UInt8.ofNat (48 + n / 8 ^ i % 8)

def fromOctal (ds : List UInt8) : Nat := ds.foldl (fun n d => 8 * n + (d.toNat - 48)) 0

/-- The bytes, and zeros up to `n` of them. -/
def pad (n : Nat) (bytes : List UInt8) : List UInt8 :=
  bytes.take n ++ List.replicate (n - bytes.length) 0

theorem length_pad (n : Nat) (bytes : List UInt8) : (pad n bytes).length = n := by
  simp only [pad, List.length_append, List.length_take, List.length_replicate]
  omega

def joinName (name : List Name) : List UInt8 := utf8 (List.intercalate ['/'] name)

def header (e : Entry) : List UInt8 :=
  pad 100 (joinName e.name) ++ List.replicate 24 0 ++ octal (e.contents.getD []).length ++
    List.replicate 21 0 ++ [if e.contents = none then 0x35 else 0x30] ++ List.replicate 355 0

def block (e : Entry) : List UInt8 :=
  header e ++ pad (padded (e.contents.getD []).length) (e.contents.getD [])

/-- The entries of at most `n` blocks, up to a block of zeros. -/
def readBlocks : Nat → List UInt8 → Option (List Entry)
  | 0, _ => none
  | n + 1, bytes =>
      if bytes.headD 0 = 0 then some []
      else
        let name := (fromUtf8Lossy ((bytes.take 100).takeWhile fun b => b ≠ 0)).splitOn '/'
        let size := fromOctal ((bytes.drop 124).take 11)
        let contents := if bytes.getD 156 0 = 0x35 then none else some ((bytes.drop 512).take size)
        (readBlocks n (bytes.drop (512 + padded size))).map fun es => ⟨name, contents⟩ :: es

def ustar : TarCrate where
  append name node := some (node.archived name)
  build es := es.flatMap block ++ List.replicate 1024 0
  unpack bytes := (readBlocks (bytes.length / 512) bytes).map fun es => unpack es (.dir [])
  error := "failed to read the archive"

theorem length_header (e : Entry) : (header e).length = 512 := by
  simp only [header, List.length_append, length_pad, List.length_replicate, octal, List.length_map,
    List.length_reverse, List.length_range, List.length_singleton]

theorem ustar_archives : ustar.Archives := by
  intro name node es h
  cases h
  rfl

theorem ustar_sized : ustar.Sized := by
  intro es
  show (es.flatMap block ++ List.replicate 1024 0).length = _
  rw [List.length_append, List.length_replicate]
  congr 1
  induction es with
  | nil => rfl
  | cons e es ih =>
      rw [List.flatMap_cons, List.length_append, ih, List.map_cons, List.sum_cons, block,
        List.length_append, length_header, length_pad]
      rfl

end Beaglewing.Files
