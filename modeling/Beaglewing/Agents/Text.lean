/-
# `Agents.Text` — the texts the agents exchange, and their hashes

Line endings and change hashes, shared by `clipboard.rs` and the Windows
helper.  Linux sets what it receives with LF (`lf`), Windows with CRLF
(`crlf`); a text that went through Windows comes back as it would have been
set on Linux in the first place (`lf_crlf`).
-/
import Beaglewing.Base.Fnv
import Beaglewing.Base.Utf8
import Beaglewing.Clipframe.Frame

namespace Beaglewing.Agents

open Base Clipframe

abbrev Text : Type := List Char

/-- `.replace("\r\n", "\n")`. -/
def lf : Text → Text
  | '\r' :: '\n' :: t => '\n' :: lf t
  | c :: t => c :: lf t
  | [] => []

/-- `.replace('\n', "\r\n")`. -/
def addCr (t : Text) : Text := t.flatMap fun c => if c = '\n' then ['\r', '\n'] else [c]

/-- `.replace("\r\n", "\n").replace('\n', "\r\n")`. -/
def crlf (t : Text) : Text := addCr (lf t)

/-- `fnv1a`, with `wrapping_mul`. -/
def fnv1a (data : List UInt8) : UInt64 :=
  data.foldl (fun h b => fnvStep h b.toUInt64) fnvBasis

def contentHash (kind : UInt8) (data : List UInt8) : UInt64 := fnv1a data ^^^ kind.toUInt64

/-- The change hash of a text. -/
def textHash (t : Text) : UInt64 := contentHash kindText (utf8 t)

/-- `addCr` starts no text with a line feed. -/
theorem addCr_ne_lf (t u : Text) : addCr t ≠ '\n' :: u := by
  cases t with
  | nil => exact fun h => nomatch h
  | cons c t =>
      simp only [addCr, List.flatMap_cons]
      split
      next => exact fun h => by simp at h
      next hc => exact fun h => hc (List.cons.inj h).1

theorem lf_cons {c : Char} {t : Text} (h : ∀ u, c :: t ≠ '\r' :: '\n' :: u) :
    lf (c :: t) = c :: lf t := by
  rw [lf.eq_2]
  exact fun u hc ht => h u (by rw [hc, ht])

theorem lf_addCr (t : Text) : lf (addCr t) = t := by
  induction t with
  | nil => rfl
  | cons c t ih =>
      have hcons : addCr (c :: t) = (if c = '\n' then ['\r', '\n'] else [c]) ++ addCr t := rfl
      rw [hcons]
      split
      next hc =>
        rw [hc]
        show '\n' :: lf (addCr t) = _
        rw [ih]
      next =>
        show lf (c :: addCr t) = _
        rw [lf_cons, ih]
        intro u h
        exact addCr_ne_lf t u (List.cons.inj h).2

/-- What Windows sets reads on Linux as what Linux would have set. -/
theorem lf_crlf (t : Text) : lf (crlf t) = lf t := lf_addCr (lf t)

end Beaglewing.Agents
