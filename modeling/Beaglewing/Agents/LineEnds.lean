/-
# `Agents.LineEnds` — line endings over any number of crossings

`lf` and `crlf` are what `str::replace` computes (`lf_eq_replace`,
`crlf_eq_replace`).  The two sides do not undo each other on every text: a CR
before a CRLF stays and may meet the LF that is left.  But each is stable on
what the other has set, and a text that is in the normal form of a machine
comes back to it unchanged, however often it crosses.
-/
import Beaglewing.Base.Replace
import Beaglewing.Agents.Text

namespace Beaglewing.Agents

open Base

theorem lf_eq_replace (t : Text) : lf t = replace ['\r', '\n'] ['\n'] t := by
  induction t using lf.induct with
  | case1 t ih =>
      show '\n' :: lf t = replace _ _ (['\r', '\n'] ++ t)
      rw [replace_append (by decide), ih]
      rfl
  | case2 c t hne ih =>
      have hcons : ∀ u, c :: t ≠ '\r' :: '\n' :: u := fun u heq =>
        hne u (List.cons.inj heq).1 (List.cons.inj heq).2
      rw [lf_cons hcons, replace_cons hcons, ih]
  | case3 => rfl

theorem addCr_eq_replace (t : Text) : addCr t = replace ['\n'] ['\r', '\n'] t := by
  induction t with
  | nil => rfl
  | cons c t ih =>
      rw [addCr, List.flatMap_cons, ← addCr, ih]
      split
      · next hc =>
          subst hc
          exact (replace_append (by decide) _ t).symm
      · next hc =>
          exact (replace_cons (fun u heq => hc (List.cons.inj heq).1) _).symm

theorem crlf_eq_replace (t : Text) :
    crlf t = replace ['\n'] ['\r', '\n'] (replace ['\r', '\n'] ['\n'] t) := by
  rw [crlf, addCr_eq_replace, lf_eq_replace]

/-- CR and LF occur only as the pair. -/
inductive Paired : Text → Prop
  | nil : Paired []
  | pair {t : Text} : Paired t → Paired ('\r' :: '\n' :: t)
  | other {c : Char} {t : Text} : c ≠ '\r' → c ≠ '\n' → Paired t → Paired (c :: t)

/-- Without a CR there is nothing to replace on the Linux side. -/
theorem lf_of_no_cr {t : Text} (h : '\r' ∉ t) : lf t = t := by
  induction t with
  | nil => rfl
  | cons c t ih =>
      rw [List.mem_cons, not_or] at h
      have hcons : ∀ u, c :: t ≠ '\r' :: '\n' :: u := fun u heq =>
        h.1 (List.cons.inj heq).1.symm
      rw [lf_cons hcons, ih h.2]

theorem crlf_of_paired {w : Text} (h : Paired w) : crlf w = w := by
  induction h with
  | nil => rfl
  | pair _ ih =>
      show addCr ('\n' :: lf _) = _
      rw [addCr, List.flatMap_cons, ← addCr, ← crlf, ih]
      rfl
  | other hr hn _ ih =>
      rw [crlf, lf_cons (fun u heq => hr (List.cons.inj heq).1), addCr, List.flatMap_cons, ← addCr,
        ← crlf, ih, if_neg hn]
      rfl

/-- What Linux makes of such a text has no CR left. -/
theorem no_cr_lf_of_paired {w : Text} (h : Paired w) : '\r' ∉ lf w := by
  induction h with
  | nil => exact List.not_mem_nil
  | pair _ ih =>
      show '\r' ∉ '\n' :: lf _
      rw [List.mem_cons, not_or]
      exact ⟨by decide, ih⟩
  | other hr _ _ ih =>
      rw [lf_cons (fun u heq => hr (List.cons.inj heq).1), List.mem_cons, not_or]
      exact ⟨fun heq => hr heq.symm, ih⟩

/-- What Windows has set stays as it is on Windows. -/
theorem crlf_crlf (t : Text) : crlf (crlf t) = crlf t := by
  rw [crlf, lf_crlf, ← crlf]

theorem lf_crlf_of_no_cr {t : Text} (h : '\r' ∉ t) : lf (crlf t) = t := by
  rw [lf_crlf, lf_of_no_cr h]

theorem crlf_lf_of_paired {w : Text} (h : Paired w) : crlf (lf w) = w := by
  rw [crlf, lf_of_no_cr (no_cr_lf_of_paired h), ← crlf, crlf_of_paired h]

/-- The two conversions are those of `str::replace`.  They settle after one
crossing, on every text; and a text in the normal form of either machine comes
back to it as it was, after any number of crossings. -/
theorem line_ends_stable :
    (∀ t, lf t = replace ['\r', '\n'] ['\n'] t ∧
      crlf t = replace ['\n'] ['\r', '\n'] (replace ['\r', '\n'] ['\n'] t)) ∧
      (∀ t, crlf (crlf t) = crlf t ∧ lf (crlf t) = lf t) ∧
      (∀ t, '\r' ∉ t → lf (crlf t) = t ∧ ∀ n, (lf ∘ crlf)^[n] t = t) ∧
      ∀ w, Paired w → crlf (lf w) = w ∧ ∀ n, (crlf ∘ lf)^[n] w = w := by
  refine ⟨fun t => ⟨lf_eq_replace t, crlf_eq_replace t⟩, fun t => ⟨crlf_crlf t, lf_crlf t⟩, ?_, ?_⟩
  · intro t h
    have hback := lf_crlf_of_no_cr h
    exact ⟨hback, fun n => Function.iterate_fixed hback n⟩
  · intro w h
    have hback := crlf_lf_of_paired h
    exact ⟨hback, fun n => Function.iterate_fixed hback n⟩

/-- On other texts a replacement can make a CRLF that was not there. -/
example : lf ['\r', '\r', '\n'] = ['\r', '\n'] := by decide

end Beaglewing.Agents
