/-
# `Files.Stage` — which batches survive packing and staging

An archive of a tree, unpacked into a directory without its name, is the
tree under that name (`unpack_archived`, by induction on the tree: the entries
of a directory are the entries of its children, under its name).  So a batch
is staged as it was, as long as no two of its paths have the same basename;
two that do share one name in the stage, and one of them is lost or both are
merged.  An archive of nothing is refused by the receiver.

    every path is staged as it was   iff   there is one, and the basenames differ   (`staged_iff`)

## What it is not

The batch is as it was up to contents and names; permissions and times are not
modelled (`Files.Batch`).  Its files do not change while they are packed.
-/
import Beaglewing.Files.Batch

namespace Beaglewing.Files

open Base Agents Clipframe

/-! ## Trees that can be staged -/

/-- Files and directories, no two of one name in a directory. -/
inductive Node.Regular : Node → Prop
  | file (bytes : List UInt8) : Regular (.file bytes)
  | dir {entries : List (Name × Node)} : (entries.map Prod.fst).Nodup →
      (∀ e ∈ entries, Regular e.2) → Regular (.dir entries)

/-- What is under a relative name: a file with its contents, a directory, or
nothing. -/
def Node.find : List Name → Node → Option (Option (List UInt8))
  | [], .file bytes => some (some bytes)
  | [], .dir _ => some none
  | [], _ => none
  | n :: rest, .dir entries => (entries.lookup n).bind (Node.find rest)
  | _ :: _, _ => none

/-- The same relative names and contents. -/
def Same (a b : Node) : Prop := ∀ names, a.find names = b.find names

/-- What is found at a staged path. -/
def stagedAt (batch : Node) (q : Path) : Node :=
  match fileName q with
  | some n => (batch.entries.lookup n).getD .broken
  | none => .broken

/-- The archive is unpacked to as many paths as were packed, and these
correspond to them, each staged as it was. -/
def RoundTrips (tar : TarCrate) (fs : Fs) (stageRoot : Path) (ts : Nat) (paths : List Path)
    (archive : List UInt8) : Prop :=
  ∃ batch tops, unpackToStage tar stageRoot ts archive = .ok (batch, tops) ∧
    tops.length = paths.length ∧
    ∃ staged : List Path, staged.Perm tops ∧
      List.Forall₂ (fun p q => fileName q = fileName p ∧ Same (stagedAt batch q) (fs p))
        paths staged

/-! ## Unpacking under a name -/

def Entry.under (n : Name) (e : Entry) : Entry := { e with name := n :: e.name }

theorem archived_under (node : Node) : ∀ (n : Name) (name : List Name),
    node.archived (n :: name) = (node.archived name).map (Entry.under n) := by
  induction node using Node.induct with
  | file b => exact fun _ _ => rfl
  | dir entries ih =>
      intro n name
      rw [Node.archived, Node.archived]
      have hentries : archivedEntries (n :: name) entries
          = (archivedEntries name entries).map (Entry.under n) := by
        induction entries with
        | nil => rfl
        | cons e entries ihs =>
            obtain ⟨m, node⟩ := e
            have he := ih (m, node) List.mem_cons_self n (name ++ [m])
            have hes := ihs fun e he => ih e (List.mem_cons_of_mem _ he)
            rw [archivedEntries, archivedEntries, archivedEntry, archivedEntry, List.map_append,
              ← hes, ← he]
            rfl
      rw [hentries]
      rfl
  | special => exact fun _ _ => rfl
  | broken => exact fun _ _ => rfl

theorem archivedEntries_under (n : Name) (entries : List (Name × Node)) :
    archivedEntries [n] entries = (archivedEntries [] entries).map (Entry.under n) := by
  have h := archived_under (.dir entries) n []
  rw [Node.archived, Node.archived] at h
  exact (List.cons.inj h).2

theorem alter_of_notMem {n : Name} {f : Node → Node} {es : List (Name × Node)}
    (h : n ∉ es.map Prod.fst) : alter n f es = es ++ [(n, f (.dir []))] := by
  induction es with
  | nil => rfl
  | cons e es ih =>
      rw [List.map_cons, List.mem_cons, not_or] at h
      rw [alter, if_neg (Ne.symm h.1), ih h.2]
      rfl

theorem alter_last {n : Name} {f : Node → Node} {es : List (Name × Node)} {x : Node}
    (h : n ∉ es.map Prod.fst) : alter n f (es ++ [(n, x)]) = es ++ [(n, f x)] := by
  induction es with
  | nil => simp [alter]
  | cons e es ih =>
      rw [List.map_cons, List.mem_cons, not_or] at h
      rw [List.cons_append, alter, if_neg (Ne.symm h.1), ih h.2]
      rfl

theorem alter_names (n : Name) (f : Node → Node) (es : List (Name × Node)) :
    (alter n f es).map Prod.fst
      = if n ∈ es.map Prod.fst then es.map Prod.fst else es.map Prod.fst ++ [n] := by
  induction es with
  | nil => rfl
  | cons e es ih =>
      obtain ⟨m, x⟩ := e
      by_cases h : m = n
      · simp [alter, h]
      · simp only [alter, if_neg h, List.map_cons, ih, List.mem_cons, Ne.symm h, false_or]
        split <;> rfl

/-- Entries under a name change what has that name. -/
theorem unpack_under {n : Name} {es : List (Name × Node)} (h : n ∉ es.map Prod.fst)
    (ents : List Entry) (x : Node) :
    unpack (ents.map (Entry.under n)) (.dir (es ++ [(n, x)]))
      = .dir (es ++ [(n, unpack ents x)]) := by
  induction ents generalizing x with
  | nil => rfl
  | cons e ents ih =>
      have hput : Node.put e.contents (n :: e.name) (.dir (es ++ [(n, x)]))
          = .dir (es ++ [(n, Node.put e.contents e.name x)]) := by
        rw [Node.put, alter_last h]
      show unpack (ents.map (Entry.under n)) (Node.put e.contents (n :: e.name) _) = _
      rw [hput, ih]
      rfl

theorem unpack_append_list (es es' : List Entry) (x : Node) :
    unpack (es ++ es') x = unpack es' (unpack es x) := List.foldl_append

/-- The entries of some trees, unpacked after others: the trees are there. -/
theorem unpack_entries {entries : List (Name × Node)}
    (hone : ∀ e ∈ entries, ∀ acc : List (Name × Node), e.1 ∉ acc.map Prod.fst →
      unpack (e.2.archived [e.1]) (.dir acc) = .dir (acc ++ [e])) :
    ∀ acc : List (Name × Node), ((acc ++ entries).map Prod.fst).Nodup →
      unpack (archivedEntries [] entries) (.dir acc) = .dir (acc ++ entries) := by
  induction entries with
  | nil =>
      intro acc _
      rw [List.append_nil]
      rfl
  | cons e entries ih =>
      intro acc hnodup
      obtain ⟨n, node⟩ := e
      have hnew : n ∉ acc.map Prod.fst := by
        rw [List.map_append, List.map_cons, List.nodup_append] at hnodup
        exact fun hmem => hnodup.2.2 n hmem n List.mem_cons_self rfl
      rw [archivedEntries, archivedEntry, unpack_append_list, List.nil_append,
        hone (n, node) List.mem_cons_self acc hnew,
        ih (fun e he => hone e (List.mem_cons_of_mem _ he)) (acc ++ [(n, node)])]
      · rw [List.append_assoc]
        rfl
      · rw [List.append_assoc]
        exact hnodup

/-- The entries of a tree unpack to the tree. -/
theorem unpack_archived {node : Node} (hreg : node.Regular) : ∀ {n : Name}
    {acc : List (Name × Node)}, n ∉ acc.map Prod.fst →
      unpack (node.archived [n]) (.dir acc) = .dir (acc ++ [(n, node)]) := by
  induction hreg with
  | file bytes =>
      intro n acc hn
      show Node.put (some bytes) [n] (.dir acc) = _
      rw [Node.put, alter_of_notMem hn]
      rfl
  | @dir entries hnodup _ ih =>
      intro n acc hn
      have hdir : Node.put none [n] (.dir acc) = .dir (acc ++ [(n, .dir [])]) := by
        rw [Node.put, alter_of_notMem hn]
        rfl
      rw [Node.archived, archivedEntries_under]
      show unpack ((archivedEntries [] entries).map (Entry.under n)) (Node.put none [n] (.dir acc))
        = _
      rw [hdir, unpack_under hn]
      have hchildren := unpack_entries (fun e he acc hn => ih e he hn) [] (by simpa using hnodup)
      rw [hchildren]
      rfl

/-! ## A batch -/

/-- The batch as the entries of one directory. -/
def batchOf (fs : Fs) (paths : List Path) : List (Name × Node) :=
  paths.map fun p => ((fileName p).getD [], fs p)

theorem appendPath_eq_ok {tar : TarCrate} (harch : tar.Archives) {fs : Fs} {p : Path}
    {es : List Entry} (h : appendPath tar fs p = .ok es) :
    ∃ n, fileName p = some n ∧ es = (fs p).archived [n] := by
  unfold appendPath at h
  split at h
  · cases h
  next n hn =>
    split at h
    · cases h
    next es' hes =>
      cases h
      exact ⟨n, hn, harch _ _ _ hes⟩

section Batch
variable {tar : TarCrate} (harch : tar.Archives) {fs : Fs} {paths : List Path}
  {ess : List (List Entry)}
  (hess : List.Forall₂ (fun p es => appendPath tar fs p = .ok es) paths ess)
include harch hess

theorem fileName_of_packed : ∀ p ∈ paths, fileName p = some ((fileName p).getD []) := by
  induction hess with
  | nil => exact fun p h => by cases h
  | cons hp _ ih =>
      intro p hmem
      rcases List.mem_cons.mp hmem with rfl | hmem
      · obtain ⟨n, hn, -⟩ := appendPath_eq_ok harch hp
        rw [hn]
        rfl
      · exact ih p hmem

theorem archivedEntries_batch : archivedEntries [] (batchOf fs paths) = ess.flatten := by
  induction hess with
  | nil => rfl
  | cons hp _ ih =>
      obtain ⟨n, hn, rfl⟩ := appendPath_eq_ok harch hp
      have ih' : archivedEntries [] (List.map (fun p => ((fileName p).getD [], fs p)) _) = _ := ih
      rw [batchOf, List.map_cons, archivedEntries, archivedEntry, hn, Option.getD_some,
        List.nil_append, ih', List.flatten_cons]

/-- Every entry is under the basename of a path. -/
theorem under_basename : ∀ e ∈ ess.flatten, ∃ n ∈ (batchOf fs paths).map Prod.fst, ∃ rest,
    e.name = n :: rest := by
  induction hess with
  | nil => exact fun e h => by cases h
  | @cons p es paths ess hp _ ih =>
      intro e he
      rw [List.flatten_cons] at he
      rcases List.mem_append.mp he with he | he
      · obtain ⟨n, hn, rfl⟩ := appendPath_eq_ok harch hp
        rw [archived_under] at he
        obtain ⟨e', -, rfl⟩ := List.mem_map.mp he
        exact ⟨n, by simp [batchOf, hn], e'.name, rfl⟩
      · obtain ⟨n, hn, hrest⟩ := ih e he
        exact ⟨n, List.mem_cons_of_mem _ hn, hrest⟩

end Batch

/-- What is in the stage has the names of the batch, each once. -/
theorem unpack_names {ns : List Name} {ents : List Entry}
    (hents : ∀ e ∈ ents, ∃ n ∈ ns, ∃ rest, e.name = n :: rest) :
    ∀ {es : List (Name × Node)}, (es.map Prod.fst).Nodup → es.map Prod.fst ⊆ ns →
      ∃ es', unpack ents (.dir es) = .dir es' ∧ (es'.map Prod.fst).Nodup ∧
        es'.map Prod.fst ⊆ ns := by
  induction ents with
  | nil => exact fun hnodup hsub => ⟨_, rfl, hnodup, hsub⟩
  | cons e ents ih =>
      intro es hnodup hsub
      obtain ⟨n, hn, rest, hname⟩ := hents e List.mem_cons_self
      have hput : unpack (e :: ents) (.dir es)
          = unpack ents (.dir (alter n (Node.put e.contents rest) es)) := by
        show unpack ents (Node.put e.contents e.name (.dir es)) = _
        rw [hname, Node.put]
      have hnames : (alter n (Node.put e.contents rest) es).map Prod.fst
          = if n ∈ es.map Prod.fst then es.map Prod.fst else es.map Prod.fst ++ [n] :=
        alter_names n _ es
      rw [hput]
      refine ih (fun e he => hents e (List.mem_cons_of_mem _ he)) ?_ ?_
      · rw [hnames]
        split
        · exact hnodup
        next hnew =>
          rw [List.nodup_append]
          refine ⟨hnodup, List.nodup_singleton n, ?_⟩
          intro a ha b hb hab
          rw [List.mem_singleton.mp hb] at hab
          exact hnew (hab ▸ ha)
      · rw [hnames]
        split
        · exact hsub
        · intro a ha
          rcases List.mem_append.mp ha with ha | ha
          · exact hsub ha
          · rw [List.mem_singleton.mp ha]
            exact hn

/-! ## Which batches survive -/

theorem lookup_of_mem {n : Name} {x : Node} {es : List (Name × Node)}
    (hnodup : (es.map Prod.fst).Nodup) (h : (n, x) ∈ es) : es.lookup n = some x := by
  induction es with
  | nil => cases h
  | cons e es ih =>
      rw [List.map_cons, List.nodup_cons] at hnodup
      rcases List.mem_cons.mp h with rfl | h
      · simp
      · have hne : (n == e.1) = false := by
          rw [beq_eq_false_iff_ne]
          rintro rfl
          exact hnodup.1 (List.mem_map.mpr ⟨_, h, rfl⟩)
        rw [List.lookup_cons, hne]
        exact ih hnodup.2 h

/-- The staged path of an entry of the batch directory. -/
def stagedPath (stageRoot : Path) (ts : Nat) (e : Name × Node) : Path :=
  batchDir stageRoot ts ++ [.normal e.1]

theorem fileName_stagedPath (stageRoot : Path) (ts : Nat) (e : Name × Node) :
    fileName (stagedPath stageRoot ts e) = some e.1 := by
  simp [fileName, stagedPath]

theorem perm_sortPaths (paths : List Path) : (sortPaths paths).Perm paths :=
  List.perm_insertionSort _ _

/-- `unpack_to_stage`, for an archive that is unpacked. -/
theorem unpackToStage_eq_ok {tar : TarCrate} {stageRoot : Path} {ts : Nat} {archive : List UInt8}
    {dir : Node} (hunpack : tar.unpack archive = some dir) {batch : Node} {tops : List Path} :
    unpackToStage tar stageRoot ts archive = .ok (batch, tops) ↔
      batch = dir ∧
        tops = sortPaths (batch.entries.map (stagedPath stageRoot ts)) ∧ tops ≠ [] := by
  simp only [unpackToStage, hunpack]
  split
  next hnil =>
    refine ⟨(fun h => by cases h), ?_⟩
    rintro ⟨rfl, rfl, hne⟩
    exact absurd hnil hne
  next hne =>
    constructor
    · intro h
      cases h
      exact ⟨rfl, rfl, hne⟩
    · rintro ⟨rfl, rfl, -⟩
      rfl

section Survive
variable {tar : TarCrate} {fs : Fs} {paths : List Path} {cap : Nat} {archive : List UInt8}

theorem nodup_batchOf (harch : tar.Archives) {ess : List (List Entry)}
    (hess : List.Forall₂ (fun p es => appendPath tar fs p = .ok es) paths ess) :
    (paths.map fileName).Nodup ↔ ((batchOf fs paths).map Prod.fst).Nodup := by
  have hmap : paths.map fileName = ((batchOf fs paths).map Prod.fst).map some := by
    simp only [batchOf, List.map_map]
    exact List.map_congr_left fun p hp => fileName_of_packed harch hess p hp
  rw [hmap, List.nodup_map_iff (Option.some_injective _)]

variable (harch : tar.Archives)
  (hback : ∀ es, batchEntries tar fs paths = .ok es → tar.Unpacks es)
  (hpack : pack tar fs paths cap = .ok archive) (stageRoot : Path) (ts : Nat)
include harch hback hpack

/-- As many names in the stage as paths in the batch are all of the
basenames. -/
theorem distinct_of_roundTrips (h : RoundTrips tar fs stageRoot ts paths archive) :
    paths ≠ [] ∧ (paths.map fileName).Nodup := by
  obtain ⟨ess, hbatch, hess, rfl⟩ := pack_eq_ok hpack
  have hparse := hback _ hbatch
  obtain ⟨batch, tops, hok, hlen, -⟩ := h
  obtain ⟨rfl, rfl, hne⟩ := (unpackToStage_eq_ok hparse).mp hok
  have hnil : (([] : List (Name × Node)).map Prod.fst).Nodup := List.nodup_nil
  obtain ⟨es, hes, hnodup, hsub⟩ :=
    unpack_names (under_basename harch hess) hnil (List.nil_subset _)
  rw [hes, (perm_sortPaths _).length_eq, List.length_map] at hlen
  constructor
  · rintro rfl
    refine hne ?_
    rw [hes, List.eq_nil_of_length_eq_zero (hlen : es.length = 0)]
    rfl
  · have hle : ((batchOf fs paths).map Prod.fst).length ≤ (es.map Prod.fst).length := by
      rw [List.length_map, List.length_map, batchOf, List.length_map]
      exact Nat.le_of_eq hlen.symm
    rw [nodup_batchOf harch hess]
    exact ((hnodup.subperm hsub).perm_of_length_le hle).nodup_iff.mp hnodup

theorem roundTrips_of_distinct (hreg : ∀ p ∈ paths, (fs p).Regular) (hne : paths ≠ [])
    (hdistinct : (paths.map fileName).Nodup) : RoundTrips tar fs stageRoot ts paths archive := by
  obtain ⟨ess, hbatch, hess, rfl⟩ := pack_eq_ok hpack
  have hparse := hback _ hbatch
  have hnodup := (nodup_batchOf harch hess).mp hdistinct
  have hunpack : unpack ess.flatten (.dir []) = .dir (batchOf fs paths) := by
    rw [← archivedEntries_batch harch hess]
    refine unpack_entries ?_ [] hnodup
    intro e he acc hn
    obtain ⟨p, hp, rfl⟩ := List.mem_map.mp he
    exact unpack_archived (hreg p hp) hn
  have hsort := perm_sortPaths ((batchOf fs paths).map (stagedPath stageRoot ts))
  refine ⟨_, _, (unpackToStage_eq_ok hparse).mpr ⟨rfl, rfl, ?_⟩, ?_, ?_⟩
  · rw [hunpack]
    intro h
    have hnil := hsort.length_eq
    rw [show sortPaths ((batchOf fs paths).map (stagedPath stageRoot ts)) = [] from h] at hnil
    rw [List.length_map, batchOf, List.length_map] at hnil
    exact hne (List.eq_nil_of_length_eq_zero hnil.symm)
  · rw [hunpack]
    exact hsort.length_eq.trans (by rw [List.length_map, batchOf, List.length_map])
  · rw [hunpack]
    refine ⟨_, hsort.symm, ?_⟩
    have hat : ∀ p ∈ paths, fileName (stagedPath stageRoot ts ((fileName p).getD [], fs p))
          = fileName p ∧
        stagedAt (.dir (batchOf fs paths)) (stagedPath stageRoot ts ((fileName p).getD [], fs p))
          = fs p := by
      intro p hp
      have hlookup : (batchOf fs paths).lookup ((fileName p).getD []) = some (fs p) :=
        lookup_of_mem hnodup (List.mem_map.mpr ⟨p, hp, rfl⟩)
      refine ⟨(fileName_stagedPath _ _ _).trans (fileName_of_packed harch hess p hp).symm, ?_⟩
      simp only [stagedAt, fileName_stagedPath, Node.entries, hlookup, Option.getD_some]
    rw [batchOf, List.map_map, List.forall₂_map_right_iff, List.forall₂_same]
    intro p hp
    refine ⟨(hat p hp).1, ?_⟩
    intro names
    exact congrArg (Node.find names) (hat p hp).2

end Survive

/-- **Which batches survive.** Every path of a batch is staged as it was exactly
when the batch is not empty and its basenames differ. -/
theorem staged_iff {tar : TarCrate} {fs : Fs} {paths : List Path} {cap : Nat}
    {archive : List UInt8} (harch : tar.Archives) (hreg : ∀ p ∈ paths, (fs p).Regular)
    (hback : ∀ es, batchEntries tar fs paths = .ok es → tar.Unpacks es)
    (hpack : pack tar fs paths cap = .ok archive) (stageRoot : Path) (ts : Nat) :
    RoundTrips tar fs stageRoot ts paths archive ↔ paths ≠ [] ∧ (paths.map fileName).Nodup :=
  ⟨distinct_of_roundTrips harch hback hpack stageRoot ts,
    fun h => roundTrips_of_distinct harch hback hpack stageRoot ts hreg h.1 h.2⟩

/-- Every path is a file that holds the names in it. -/
def smallFiles : Fs := fun p => .file (utf8 (p.flatMap fun
  | .normal n => n
  | _ => []))

/-- Two files of one directory. -/
def twoNames : List Path :=
  [[.rootDir, .normal ['a'], .normal ['x']], [.rootDir, .normal ['a'], .normal ['y']]]

/-- What the entries of some small files unpack to. -/
theorem ustar_unpacks {es : List Entry}
    (h : readBlocks ((ustar.build es).length / 512) (ustar.build es) = some es) :
    ustar.Unpacks es := by
  show (readBlocks ((ustar.build es).length / 512) (ustar.build es)).map _ = _
  rw [h]
  rfl

theorem unpacks_twoNames : ∀ es, batchEntries ustar smallFiles twoNames = .ok es →
    ustar.Unpacks es := by
  intro es h
  cases h
  exact ustar_unpacks (by decide +kernel)

theorem staged_iff_twoNames : ∃ archive, pack ustar smallFiles twoNames 1024 = .ok archive ∧
    RoundTrips ustar smallFiles [.rootDir] 0 twoNames archive := by
  obtain ⟨archive, hpack⟩ : ∃ archive, pack ustar smallFiles twoNames 1024 = .ok archive :=
    ⟨ustar.build [⟨[['x']], some (utf8 ['a', 'x'])⟩, ⟨[['y']], some (utf8 ['a', 'y'])⟩],
      by decide +kernel⟩
  exact ⟨archive, hpack, (staged_iff ustar_archives (fun _ _ => .file _) unpacks_twoNames hpack
    _ _).mpr ⟨by decide, by decide⟩⟩

/-- Files of the same name in two directories. -/
def oneName : List Path :=
  [[.rootDir, .normal ['a'], .normal ['x']], [.rootDir, .normal ['b'], .normal ['x']]]

/-- **A file lost.** Two files of the same name are one file in the stage. -/
theorem same_basename_lost :
    ¬ ∀ (tar : TarCrate) (fs : Fs) (paths : List Path) (cap : Nat) (archive : List UInt8)
      (stageRoot : Path) (ts : Nat), tar.Archives → paths.Nodup →
      (∀ p ∈ paths, (fs p).Regular) →
      (∀ es, batchEntries tar fs paths = .ok es → tar.Unpacks es) →
      pack tar fs paths cap = .ok archive → RoundTrips tar fs stageRoot ts paths archive := by
  intro h
  have hback : ∀ es, batchEntries ustar smallFiles oneName = .ok es → ustar.Unpacks es := by
    intro es h
    cases h
    exact ustar_unpacks (by decide +kernel)
  obtain ⟨archive, hpack⟩ : ∃ archive, pack ustar smallFiles oneName 1024 = .ok archive :=
    ⟨ustar.build [⟨[['x']], some (utf8 ['a', 'x'])⟩, ⟨[['x']], some (utf8 ['b', 'x'])⟩],
      by decide +kernel⟩
  have hround := h ustar smallFiles oneName 1024 archive [.rootDir] 0 ustar_archives (by decide)
    (fun _ _ => .file _) hback hpack
  exact absurd (distinct_of_roundTrips ustar_archives hback hpack _ _ hround).2 (by decide)

end Beaglewing.Files
