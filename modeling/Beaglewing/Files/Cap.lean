/-
# `Files.Cap` — what the cap of a batch leaves to be sent

Receivers refuse a transfer over `maxTransfer`; senders are to refuse it "up
front".  `pack` compares the cap with the sizes of the files, and returns an
archive, which has a header for every file and directory, padding, and an end
(`Node.stored`).  What is accepted is a matter of the length of the archive
(`length_pack`), whatever agent sends it (`Agents.Cap`).
-/
import Beaglewing.Base.Lists
import Beaglewing.Clipframe.RoundTrip
import Beaglewing.Files.Batch

namespace Beaglewing.Files

open Base Clipframe

/-! ## The length of an archive -/

mutual

/-- What a tree takes in an archive; a pipe or a device, a header. -/
def Node.stored : Node → Nat
  | .file bytes => 512 + padded bytes.length
  | .dir entries => 512 + storedEntries entries
  | .special => 512
  | .broken => 0
termination_by structural x => x

def storedEntries : List (Name × Node) → Nat
  | [] => 0
  | e :: es => storedEntry e + storedEntries es
termination_by structural x => x

def storedEntry : Name × Node → Nat
  | (_, node) => node.stored
termination_by structural x => x

end

def archiveSize (fs : Fs) (paths : List Path) : Nat :=
  (paths.map fun p => (fs p).stored).sum + 1024

theorem entrySize_dir (name : List Name) : entrySize ⟨name, none⟩ = 512 := by
  simp [entrySize, padded]

/-- The entries of a tree take what the tree takes. -/
theorem stored_of_archived (node : Node) : ∀ name : List Name,
    ((node.archived name).map entrySize).sum = node.stored := by
  induction node using Node.induct with
  | file b =>
      intro name
      rfl
  | dir entries ih =>
      intro name
      rw [Node.archived, List.map_cons, List.sum_cons, Node.stored, entrySize_dir,
        Nat.add_left_cancel_iff]
      induction entries with
      | nil => rfl
      | cons e entries ihs =>
          obtain ⟨n, node⟩ := e
          rw [archivedEntries, List.map_append, List.sum_append, storedEntries,
            ihs fun e he => ih e (List.mem_cons_of_mem _ he)]
          congr 1
          exact ih (n, node) List.mem_cons_self (name ++ [n])
  | special =>
      intro name
      simp [Node.archived, Node.stored, entrySize, padded]
  | broken =>
      intro name
      rfl

theorem stored_of_appendPath {tar : TarCrate} (harch : tar.Archives) {fs : Fs} {p : Path}
    {es : List Entry} (h : appendPath tar fs p = .ok es) :
    (es.map entrySize).sum = (fs p).stored := by
  unfold appendPath at h
  split at h
  · cases h
  · split at h
    · cases h
    next name hname es' hes =>
      cases h
      rw [harch _ _ _ hes]
      exact stored_of_archived (fs p) _

/-- The length of what `pack` returns. -/
theorem length_pack {tar : TarCrate} (harch : tar.Archives) (hsized : tar.Sized) {fs : Fs}
    {paths : List Path} {cap : Nat} {archive : List UInt8}
    (h : pack tar fs paths cap = .ok archive) : archive.length = archiveSize fs paths := by
  obtain ⟨ess, -, hess, rfl⟩ := pack_eq_ok h
  rw [hsized, archiveSize, List.map_flatten, List.sum_flatten]
  congr 1
  clear h
  induction hess with
  | nil => rfl
  | cons hp _ ih =>
      simp only [List.map_cons, List.sum_cons]
      rw [ih, stored_of_appendPath harch hp]

/-! ## What receivers accept -/

/-- At most the cap, and not refused on START by any receiver. -/
def Accepted (kind : UInt8) (data : List UInt8) : Prop :=
  data.length ≤ maxTransfer.toNat ∧
    ∀ r : Reassembler, (r.feed (startFrame kind data)).2 = .none

theorem accepted_of_length {kind : UInt8} {data : List UInt8} :
    Accepted kind data ↔ data.length ≤ maxTransfer.toNat :=
  ⟨fun h => h.1, fun h => ⟨h, fun r => congrArg Prod.snd (feed_startFrame h r)⟩⟩

/-- A file within the cap is packed. -/
theorem pack_file {bytes : List UInt8} {cap : Nat} (h : bytes.length ≤ cap) :
    pack ustar (fun _ => .file bytes) [[.normal ['a']]] cap
      = .ok (ustar.build [⟨[['a']], some bytes⟩]) := by
  have hsig : batchSignature (fun _ => .file bytes) [[.normal ['a']]]
      = some (listSignature [(['a'], bytes.length)], bytes.length) := rfl
  simp only [pack, hsig]
  rw [if_neg (Nat.not_lt.mpr h)]
  rfl

end Beaglewing.Files
