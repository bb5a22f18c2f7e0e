/-
# `Files.Tree` — paths, file trees and the change signature of a batch

The part of `protocol/clipframe/src/files.rs` that reads the file system:
`walk` and `batch_signature`, with `list_signature` of `lib.rs`.  A `Node` is
what `metadata` and `read_dir` find under a path, symbolic links followed; a
file system gives one for every path, `broken` where `metadata` fails.  The
signature is the FNV hash of the relative names and the sizes, the children
of a directory in the order of their names.
-/
import Beaglewing.Agents.Text

namespace Beaglewing.Files

open Base Agents

/-- One component of a path, in valid UTF-8. -/
abbrev Name : Type := Text

inductive Node where
  | file (bytes : List UInt8)
  | dir (entries : List (Name × Node))
  -- sockets, symlink oddities
  | special
  | broken

/-- `std::path::Component`, in its order. -/
inductive Component where
  | rootDir
  | curDir
  | parentDir
  | normal (name : Name)
deriving DecidableEq, Ord

abbrev Path : Type := List Component

/-- `Path::file_name`. -/
def fileName (p : Path) : Option Name :=
  match p.getLast? with
  | some (.normal name) => some name
  | _ => none

/-- `p.to_string_lossy()`, and `p.display()`. -/
def pathText (p : Path) : Text :=
  if p = [.rootDir] then ['/']
  else List.intercalate ['/'] (p.map fun
    | .rootDir => []
    | .curDir => ['.']
    | .parentDir => ['.', '.']
    | .normal name => name)

/-- `PathBuf::from`, as its components. -/
def pathOf (t : Text) : Path :=
  (if t.head? = some '/' then [.rootDir] else []) ++
    (t.splitOn '/').zipIdx.filterMap fun
      | ([], _) => none
      | (['.'], i) => if i = 0 then some .curDir else none
      | (['.', '.'], _) => some .parentDir
      | (name, _) => some (.normal name)

/-- What is found at each path. -/
abbrev Fs : Type := Path → Node

/-- `Vec<(String, u64)>`. -/
abbrev Items : Type := List (Text × Nat)

/-- `if prefix.is_empty() { name } else { format!("{prefix}/{name}") }`. -/
def rel (pre name : Text) : Text := if pre = [] then name else pre ++ '/' :: name

mutual

/-- `walk`, below the relative name `rel`: the items found and the bytes in all,
or nothing if something is unreadable. -/
def Node.walk (r : Text) : Node → Option (Items × Nat)
  | .file bytes => some ([(r, bytes.length)], bytes.length)
  | .dir entries =>
      (walkEntries r entries).map fun found =>
        let sorted := found.insertionSort fun a b => a.1 ≤ b.1
        (sorted.flatMap fun x => x.2.1, (sorted.map fun x => x.2.2).sum)
  | .special => some ([], 0)
  | .broken => none
termination_by structural x => x

def walkEntries (r : Text) : List (Name × Node) → Option (List (Name × Items × Nat))
  | [] => some []
  | e :: es => (walkEntry r e).bind fun x => (walkEntries r es).map fun xs => x :: xs
termination_by structural x => x

def walkEntry (r : Text) : Name × Node → Option (Name × Items × Nat)
  | (name, node) => (node.walk (rel r name)).map fun x => (name, x)
termination_by structural x => x

end

/-- `list_signature`: the bytes of a name, and its size. -/
def listSignature (items : Items) : UInt64 :=
  items.foldl (fun h x =>
    let h := (utf8 x.1).foldl (fun h b => fnvStep h b.toUInt64) h
    fnvStep h (UInt64.ofNat x.2)) fnvBasis

/-- `walk(p, &mut items, "")`. -/
def walkPath (fs : Fs) (p : Path) : Option (Items × Nat) :=
  (fs p).walk ((fileName p).getD [])

/-- `paths.to_vec()`, sorted. -/
def sortPaths (paths : List Path) : List Path :=
  paths.insertionSort fun p q => (compare p q).isLE = true

/-- `batch_signature`: the signature and the total size. -/
def batchSignature (fs : Fs) (paths : List Path) : Option (UInt64 × Nat) :=
  ((sortPaths paths).mapM (walkPath fs)).map fun found =>
    (listSignature (found.flatMap Prod.fst), (found.map Prod.snd).sum)

example : (Node.dir [(['b'], .file [1, 2]), (['a'], .file [1])]).walk ['x']
    = some ([(['x', '/', 'a'], 1), (['x', '/', 'b'], 2)], 3) := by
  decide

/-! ## Induction over a tree -/

mutual

/-- A property of a directory may rest on its entries. -/
theorem Node.induct {P : Node → Prop} (file : ∀ b, P (.file b))
    (dir : ∀ es : List (Name × Node), (∀ e ∈ es, P e.2) → P (.dir es)) (special : P .special)
    (broken : P .broken) : ∀ n, P n
  | .file b => file b
  | .dir es => dir es (Node.induct_entries file dir special broken es)
  | .special => special
  | .broken => broken

theorem Node.induct_entries {P : Node → Prop} (file : ∀ b, P (.file b))
    (dir : ∀ es : List (Name × Node), (∀ e ∈ es, P e.2) → P (.dir es)) (special : P .special)
    (broken : P .broken) : ∀ es : List (Name × Node), ∀ e ∈ es, P e.2
  | [], _, h => by cases h
  | (_, n) :: es, e, h => by
      rcases List.mem_cons.mp h with rfl | h
      · exact Node.induct file dir special broken n
      · exact Node.induct_entries file dir special broken es e h

end

end Beaglewing.Files
