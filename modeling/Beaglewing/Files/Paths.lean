/-
# `Files.Paths` — absolute paths as text

A path is its components; its text puts slashes between them.  An absolute
path, one that `PathBuf::from` makes of a text that starts with a slash, is
read back from its own text (`pathOf_pathText`): the text may have lost
repeated slashes and dots, the components have not changed.
-/
import Beaglewing.Files.Tree

namespace Beaglewing.Files

open Base Agents

/-- An absolute path. -/
def Absolute (p : Path) : Prop := ∃ t : Text, p = pathOf ('/' :: t)

/-- The component that a part between slashes stands for, past the start. -/
def component : Name → Option Component
  | [] => none
  | ['.'] => none
  | ['.', '.'] => some .parentDir
  | name => some (.normal name)

/-- The text of a component. -/
def Component.text : Component → Name
  | .rootDir => []
  | .curDir => ['.']
  | .parentDir => ['.', '.']
  | .normal name => name

theorem text_of_component {x : Name} {c : Component} (h : component x = some c) : c.text = x := by
  unfold component at h
  split at h
  · cases h
  · cases h
  · cases h
    rfl
  · cases h
    rfl

/-- No part between separators has one in it. -/
theorem not_mem_of_mem_splitOn {α : Type} [DecidableEq α] {a : α} {l part : List α}
    (h : part ∈ l.splitOn a) : a ∉ part := by
  induction l generalizing part with
  | nil =>
      rw [List.splitOn_nil, List.mem_singleton] at h
      exact h ▸ List.not_mem_nil
  | cons x l ih =>
      rw [List.splitOn_cons_eq_if_modifyHead] at h
      split at h
      · rcases List.mem_cons.mp h with rfl | h
        · exact List.not_mem_nil
        · exact ih h
      · next hx =>
          obtain ⟨first, rest, hsplit⟩ := List.exists_cons_of_ne_nil (List.splitOn_ne_nil a l)
          rw [hsplit, List.modifyHead_cons] at h
          rw [hsplit] at ih
          rcases List.mem_cons.mp h with rfl | h
          · rw [List.mem_cons, not_or]
            exact ⟨fun heq => hx (by simp [heq]), ih List.mem_cons_self⟩
          · exact ih (List.mem_cons_of_mem _ h)

/-- What does not look at an index below `k`, from `k` on. -/
theorem filterMap_zipIdx {α β : Type} {f : α × Nat → Option β} {g : α → Option β} {k : Nat}
    (h : ∀ x i, k ≤ i → f (x, i) = g x) (l : List α) :
    (l.zipIdx k).filterMap f = l.filterMap g := by
  induction l generalizing k with
  | nil => rfl
  | cons x l ih =>
      rw [List.zipIdx_cons, List.filterMap_cons, List.filterMap_cons, h x k (Nat.le_refl k),
        ih fun y i hi => h y i (Nat.le_of_succ_le hi)]

/-- After the root, a dot is no component wherever it stands. -/
theorem pathOf_slash (t : Text) :
    pathOf ('/' :: t) = .rootDir :: (t.splitOn '/').filterMap component := by
  rw [pathOf, List.splitOn_cons_eq_if_modifyHead, if_pos List.head?_cons, if_pos (by decide),
    List.zipIdx_cons, List.filterMap_cons]
  refine congrArg _ (filterMap_zipIdx ?_ _)
  intro name i hi
  split
  · next heq =>
      cases heq
      rfl
  · next heq =>
      cases heq
      rw [if_neg (by omega)]
      rfl
  · next heq =>
      cases heq
      rfl
  · next h₁ h₂ h₃ heq =>
      cases heq
      exact (component.eq_4 _ h₁ h₂ h₃).symm

theorem pathText_rootDir (p : Path) :
    pathText (.rootDir :: p) = '/' :: List.intercalate ['/'] (p.map Component.text) := by
  cases p with
  | nil => rfl
  | cons c p =>
      have htext : (Component.rootDir :: c :: p).map (fun
          | .rootDir => []
          | .curDir => ['.']
          | .parentDir => ['.', '.']
          | .normal name => name) = [] :: (c :: p).map Component.text := by
        refine congrArg (List.cons []) (List.map_congr_left fun c _ => ?_)
        cases c <;> rfl
      rw [pathText, if_neg (by simp)]
      exact (congrArg _ htext).trans (by rw [List.map_cons, List.intercalate_cons_cons]; rfl)

/-- The components of an absolute path are those of its text. -/
theorem pathOf_pathText {p : Path} (h : Absolute p) : pathOf (pathText p) = p := by
  obtain ⟨t, rfl⟩ := h
  rw [pathOf_slash, pathText_rootDir, pathOf_slash]
  -- a component and its text determine each other, past the root
  have hback : ∀ c ∈ (t.splitOn '/').filterMap component,
      '/' ∉ c.text ∧ component c.text = some c := by
    intro c hc
    obtain ⟨part, hpart, hcomp⟩ := List.mem_filterMap.mp hc
    rw [text_of_component hcomp]
    exact ⟨not_mem_of_mem_splitOn hpart, hcomp⟩
  generalize (t.splitOn '/').filterMap component = cs at hback
  congr 1
  cases hcs : cs with
  | nil => rfl
  | cons c rest =>
      rw [← hcs, List.splitOn_intercalate, List.filterMap_map]
      · exact (List.filterMap_congr fun c hc => (hback c hc).2).trans List.filterMap_some
      · intro l hl
        obtain ⟨c, hc, rfl⟩ := List.mem_map.mp hl
        exact (hback c hc).1
      · rw [hcs]
        exact List.cons_ne_nil _ _

end Beaglewing.Files
