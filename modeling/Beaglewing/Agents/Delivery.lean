/-
# `Agents.Delivery` — what a reported success says about delivery

A sender that returns success wrote every frame of its last attempt
(`wrote_of_done`); before that there can be an attempt that stalled, a
proper prefix of the transfer and perhaps an ABORT.  Nothing tells the
sender whether the last frames arrived: a loss that does not close the
window goes unseen.  So over a channel that may drop frames a success means
delivery exactly when the frames that arrived end with a whole transfer,

    complete ∈ outputs   iff   encodeTransfer kind data is a suffix of them   (`delivered_iff`)

The interesting half starts from the START that `InProgress` finds behind
END.  It may be the START of the first attempt, so that DATA of two attempts
were put together; but every block is full except the last of a transfer,
and the short one was never written twice (`eq_chunks`), so what was put
together is again the transfer, frame by frame (`eq_encodeData`).
-/
import Beaglewing.Agents.Send
import Beaglewing.Clipframe.RoundTrip

namespace Beaglewing.Agents

open Base Clipframe

/-- The frames written, in order. -/
def written (acts : List SendAct) : List Frame :=
  acts.filterMap fun
    | .write f true => some f
    | _ => none

theorem written_append (as bs : List SendAct) : written (as ++ bs) = written as ++ written bs :=
  List.filterMap_append

/-! ## The shape of a run -/

/-- What the attempts before attempt `k` wrote. -/
def Prior (frames : List Frame) : Nat → List Frame → Prop
  | 0, ws => ws = []
  | _ + 1, ws => ∃ i ab, 0 < i ∧ i < frames.length - 1 ∧ (ab = [] ∨ ab = [abortFrame]) ∧
      ws = frames.take i ++ ab

/-- What attempt `k` wrote, at each place. -/
def WroteAt (frames : List Frame) (k : Nat) (ws : List Frame) : Linux.Transfer → Prop
  | .entry => Prior frames k ws
  | .window i _ | .stall i _ =>
      windowed frames i = true ∧ ∃ prior, Prior frames k prior ∧ ws = prior ++ frames.take i
  | .write i _ => ∃ prior, Prior frames k prior ∧ ws = prior ++ frames.take i
  | .abort => ∃ i prior, windowed frames i = true ∧ Prior frames k prior ∧
      ws = prior ++ frames.take i
  | .ret _ => True

def Wrote (frames : List Frame) (ws : List Frame) : Linux.Retry → Prop
  | .running k p => WroteAt frames k ws p
  | .done (.ok ()) => ∃ k prior, Prior frames k prior ∧ ws = prior ++ frames
  | .done (.error _) => True

theorem wrote_atFrame {frames : List Frame} {k i : Nat} {prior : List Frame} {sent : UInt32}
    (hp : Prior frames k prior) :
    Wrote frames (prior ++ frames.take i) (Linux.afterAttempt k (Linux.atFrame frames i sent)) := by
  unfold Linux.atFrame
  split
  next =>
    split
    next hw => exact ⟨hw, prior, hp, rfl⟩
    next => exact ⟨prior, hp, rfl⟩
  next hi =>
    refine ⟨k, prior, hp, ?_⟩
    rw [List.take_of_length_le (Nat.not_lt.mp hi)]

theorem wrote_error {frames ws : List Frame} {k : Nat} {e : String}
    (hp : Prior frames (k + 1) ws ∨ e = "relay connection lost") :
    Wrote frames ws (Linux.afterAttempt k (.ret (.error e))) := by
  simp only [Linux.afterAttempt]
  split
  next => trivial
  next hne =>
    split
    next => exact hp.resolve_right hne
    next => trivial

/-- An attempt ends with ABORT when a window stays closed, and is retried
once. -/
theorem wrote_abort {frames ws : List Frame} {k : Nat} (ok : Bool)
    (h : WroteAt frames k ws .abort) :
    Wrote frames (ws ++ written [.write abortFrame ok])
      (Linux.afterAttempt k (.ret (.error "receiver stopped acking (helper not running?)"))) := by
  obtain ⟨i, prior, hw, hp, heq⟩ := h
  by_cases hk : k = 0
  · subst hk
    cases hp
    simp only [windowed, Bool.and_eq_true, decide_eq_true_eq] at hw
    refine wrote_error (Or.inl ⟨i, written [.write abortFrame ok], hw.1, hw.2, ?_, ?_⟩)
    · cases ok
      · exact Or.inl rfl
      · exact Or.inr rfl
    · rw [heq, List.nil_append]
  · simp only [Linux.afterAttempt]
    rw [if_neg (by decide), if_neg (by omega)]
    trivial

/-- A step that writes nothing keeps the account. -/
theorem wrote_quiet {frames ws : List Frame} {a : SendAct} {s s' : Linux.Retry}
    (h : Wrote frames ws s) (ha : ∀ f ok, a ≠ .write f ok)
    (hs : (Linux.sendWithRetry frames).step s a = some s') : Wrote frames ws s' := by
  cases a with
  | store =>
      obtain ⟨k, rfl, rfl⟩ := Linux.step_store hs
      have hat : Wrote frames (ws ++ frames.take 0)
          (Linux.afterAttempt k (Linux.atFrame frames 0 0)) := wrote_atFrame h
      simpa using hat
  | load v =>
      obtain ⟨k, i, sent, rfl, rfl⟩ := Linux.step_load hs
      obtain ⟨hw, prior, hp, heq⟩ := h
      split
      · exact ⟨hw, prior, hp, heq⟩
      · exact ⟨prior, hp, heq⟩
  | expired b =>
      obtain ⟨k, i, sent, rfl, rfl⟩ := Linux.step_expired hs
      obtain ⟨hw, prior, hp, heq⟩ := h
      cases b with
      | false => exact ⟨hw, prior, hp, heq⟩
      | true => exact ⟨i, prior, hw, hp, heq⟩
  | write f ok => exact absurd rfl (ha f ok)

/-- A write that worked adds its frame, an ABORT or not. -/
theorem wrote_write {frames ws ds : List Frame} {f : Frame} {ok : Bool} {s s' : Linux.Retry}
    (h : Wrote frames ws s) (hok : ok = true → ds = [f]) (hds : ds = [] ∨ ds = [f])
    (hs : (Linux.sendWithRetry frames).step s (.write f ok) = some s') :
    Wrote frames (ws ++ ds) s' := by
  rcases Linux.step_write hs with ⟨k, i, sent, rfl, hf, rfl⟩ | ⟨k, rfl, rfl, rfl⟩
  · obtain ⟨prior, hp, heq⟩ := h
    cases ok with
    | false => exact wrote_error (Or.inr rfl)
    | true =>
        have hws : ws ++ ds = prior ++ frames.take (i + 1) := by
          rw [heq, hok rfl, List.take_add_one, hf, List.append_assoc]
          rfl
        rw [hws]
        exact wrote_atFrame hp
  · rcases hds with rfl | rfl
    · exact wrote_abort false h
    · exact wrote_abort true h

/-- One step keeps the account of what was written. -/
theorem wrote_step (frames : List Frame) (as : List SendAct) (a : SendAct) (s s' : Linux.Retry)
    (h : Wrote frames (written as) s) (hs : (Linux.sendWithRetry frames).step s a = some s') :
    Wrote frames (written (as ++ [a])) s' := by
  rw [written_append]
  cases a with
  | write f ok =>
      cases ok with
      | true => exact wrote_write h (fun _ => rfl) (Or.inr rfl) hs
      | false => exact wrote_write h (fun h => by cases h) (Or.inl rfl) hs
  | _ =>
      have hq := wrote_quiet h (fun _ _ h => by cases h) hs
      simpa [written] using hq

/-- **Success.** The frames written are those of the transfer, after those of
an attempt that stalled, if there was one. -/
theorem wrote_of_done {frames : List Frame} {acts : List SendAct}
    (h : (Linux.sendWithRetry frames).exec Linux.start acts = some (.done (.ok ()))) :
    ∃ k prior, Prior frames k prior ∧ written acts = prior ++ frames := by
  have hinit : Wrote frames (written []) Linux.start := rfl
  exact (Linux.sendWithRetry frames).exec_induction (P := fun as s => Wrote frames (written as) s)
    hinit (fun as a s s' => wrote_step frames as a s s') h

/-! ## DATA frames, put together -/

theorem numbered_cons {s : UInt16} {p : Parsed} {ps : List Parsed} (h : Numbered s (p :: ps)) :
    p.seq = s + 1 ∧ Numbered (s + 1) ps := by
  refine ⟨h 0 (Nat.succ_pos _), ?_⟩
  intro i hi
  have := h (i + 1) (Nat.succ_lt_succ hi)
  rw [List.getElem_cons_succ] at this
  rw [this, UInt16.ofNat_add (i + 1) 1, UInt16.add_comm (UInt16.ofNat (i + 1)), ← UInt16.add_assoc]
  rfl

/-- DATA frames numbered from `s` are the DATA loop over their payloads. -/
theorem eq_encodeData {fs : List Frame} (hfs : ∀ f ∈ fs, ∃ s c, f = frame tData s c) {s : UInt16}
    (hnum : Numbered s (heard fs)) :
    fs = (encodeData s ((heard fs).map Parsed.payload)).1 := by
  induction fs generalizing s with
  | nil => rfl
  | cons f fs ih =>
      obtain ⟨seq, c, rfl⟩ := hfs f List.mem_cons_self
      rw [heard_frame_cons] at hnum
      obtain ⟨hseq, hrest⟩ := numbered_cons hnum
      have ih' := ih (fun g hg => hfs g (List.mem_cons_of_mem _ hg)) hrest
      simp only at hseq
      simp only [heard_frame_cons, List.map_cons, encodeData, ← ih', hseq]

/-- The blocks of DATA frames that are full but for the last, and numbered
from 0: these are the DATA frames of what they hold. -/
theorem eq_dataPart_of_numbered {fs : List Frame} (hfs : ∀ f ∈ fs, ∃ s c, f = frame tData s c)
    (hne : ∀ f ∈ fs, 0 < payloadSize f) (hfull : ∀ f ∈ fs.dropLast, payloadSize f = maxPayload)
    (hnum : Numbered 0 (heard fs)) : fs = dataPart (bytesOf (heard fs)) := by
  have hsize : fs.map payloadSize = ((heard fs).map Parsed.payload).map (fun c => c.val.length) := by
    clear hne hfull hnum
    induction fs with
    | nil => rfl
    | cons f fs ih =>
        obtain ⟨s, c, rfl⟩ := hfs f List.mem_cons_self
        simp only [List.map_cons, heard_frame_cons, payloadSize_frame,
          ih (fun g hg => hfs g (List.mem_cons_of_mem _ hg))]
  have hne' : ∀ c ∈ (heard fs).map Parsed.payload, c.val ≠ [] := by
    intro c hc
    have : c.val.length ∈ fs.map payloadSize := by
      rw [hsize]
      exact List.mem_map.mpr ⟨c, hc, rfl⟩
    obtain ⟨f, hf, hlen⟩ := List.mem_map.mp this
    exact List.length_pos_iff.mp (hlen ▸ hne f hf)
  have hfull' : ∀ c ∈ ((heard fs).map Parsed.payload).dropLast, c.val.length = maxPayload := by
    intro c hc
    have : c.val.length ∈ fs.dropLast.map payloadSize := by
      rw [List.map_dropLast, hsize, ← List.map_dropLast]
      exact List.mem_map.mpr ⟨c, hc, rfl⟩
    obtain ⟨f, hf, hlen⟩ := List.mem_map.mp this
    exact hlen ▸ hfull f hf
  have hchunks := eq_chunks (by decide) hne' hfull'
  have hbytes : (((heard fs).map Parsed.payload).map Subtype.val).flatten = bytesOf (heard fs) := by
    rw [List.map_map]
    rfl
  rw [hbytes] at hchunks
  calc fs = (encodeData 0 ((heard fs).map Parsed.payload)).1 := eq_encodeData hfs hnum
    _ = dataPart (bytesOf (heard fs)) := by rw [hchunks]; rfl

/-- Every DATA frame of a transfer but the last is full. -/
theorem payloadSize_dropLast_dataPart (data : List UInt8) :
    ∀ f ∈ (dataPart data).dropLast, payloadSize f = maxPayload := by
  suffices h : ∀ (cs : List Payload) (s : UInt16), (∀ c ∈ cs.dropLast, c.val.length = maxPayload) →
      ∀ f ∈ (encodeData s cs).1.dropLast, payloadSize f = maxPayload from
    h _ 0 (length_of_mem_dropLast_chunks (by decide))
  intro cs
  induction cs with
  | nil => exact fun _ _ f hf => nomatch hf
  | cons c cs ih =>
      intro s hcs f hf
      cases cs with
      | nil => cases hf
      | cons c' cs =>
          simp only [encodeData, List.dropLast_cons_cons] at hf ih
          rcases List.mem_cons.mp hf with rfl | hf
          · rw [payloadSize_frame]
            exact hcs c (by simp)
          · refine ih (s + 1) (fun d hd => hcs d ?_) f hf
            rw [List.dropLast_cons_cons]
            exact List.mem_cons_of_mem _ hd

/-! ## Delivery -/

section Delivery
variable {kind : UInt8} {data : List UInt8}

/-- An attempt that stalled wrote START, some DATA frames but not the last,
and perhaps ABORT. -/
theorem prior_encodeTransfer {k : Nat} {prior : List Frame}
    (h : Prior (encodeTransfer kind data) k prior) :
    prior = [] ∨ ∃ ds ab, ds.Sublist (dataPart data).dropLast ∧ (ab = [] ∨ ab = [abortFrame]) ∧
      prior = startFrame kind data :: (ds ++ ab) := by
  cases k with
  | zero => exact Or.inl h
  | succ k =>
      obtain ⟨i, ab, hi, hlast, hab, rfl⟩ := h
      have hlen : (encodeTransfer kind data).length = (dataPart data).length + 2 := by
        rw [encodeTransfer_eq]
        simp
      obtain ⟨j, rfl⟩ : ∃ j, i = j + 1 := ⟨i - 1, by omega⟩
      have hj : j < (dataPart data).length := by omega
      refine Or.inr ⟨(dataPart data).take j, ab, ?_, hab, ?_⟩
      · rw [List.dropLast_eq_take]
        exact List.take_sublist_take_left (by omega)
      · rw [encodeTransfer_eq, List.take_succ_cons, List.take_append_of_le_length (by omega)]
        rfl

/-- What was written before the END of the transfer. -/
theorem mem_before_end {k : Nat} {prior : List Frame}
    (h : Prior (encodeTransfer kind data) k prior) {f : Frame}
    (hf : f ∈ prior ++ startFrame kind data :: dataPart data) :
    f = startFrame kind data ∨ f = abortFrame ∨ f ∈ dataPart data := by
  rcases List.mem_append.mp hf with hf | hf
  · rcases prior_encodeTransfer h with rfl | ⟨ds, ab, hds, hab, rfl⟩
    · cases hf
    rcases List.mem_cons.mp hf with hf | hf
    · exact Or.inl hf
    rcases List.mem_append.mp hf with hf | hf
    · exact Or.inr (Or.inr (List.dropLast_subset _ (hds.subset hf)))
    · rcases hab with rfl | rfl
      · cases hf
      · exact Or.inr (Or.inl (List.mem_singleton.mp hf))
  · rcases List.mem_cons.mp hf with hf | hf
    · exact Or.inl hf
    · exact Or.inr (Or.inr hf)

/-- DATA frames taken from what was written before END, in order, are full but
for the last. -/
theorem full_of_written {k : Nat} {prior : List Frame}
    (h : Prior (encodeTransfer kind data) k prior) {fs : List Frame}
    (hsub : fs.Sublist (prior ++ startFrame kind data :: dataPart data))
    (hfs : ∀ f ∈ fs, f ∈ dataPart data) : ∀ f ∈ fs.dropLast, payloadSize f = maxPayload := by
  have hbyte : ∀ f ∈ dataPart data, decide (f.byte 0 = tData) = true := by
    intro f hf
    obtain ⟨s, c, rfl⟩ := dataPart_frames data f hf
    rfl
  have hkeep : fs.filter (fun f => f.byte 0 = tData) = fs :=
    List.filter_eq_self.mpr fun f hf => hbyte f (hfs f hf)
  have hall : (dataPart data).filter (fun f => f.byte 0 = tData) = dataPart data :=
    List.filter_eq_self.mpr hbyte
  have hstart : decide ((startFrame kind data).byte 0 = tData) = false := rfl
  have hsub' := hsub.filter (fun f => f.byte 0 = tData)
  rw [hkeep, List.filter_append, List.filter_cons_of_neg (by simp [hstart]), hall] at hsub'
  have hlast := payloadSize_dropLast_dataPart data
  obtain ⟨ds, hds, heq⟩ : ∃ ds, ds.Sublist (dataPart data).dropLast ∧
      prior.filter (fun f => f.byte 0 = tData) = ds := by
    rcases prior_encodeTransfer h with rfl | ⟨ds, ab, hds, hab, rfl⟩
    · exact ⟨[], List.nil_sublist _, rfl⟩
    · refine ⟨ds, hds, ?_⟩
      have hab' : ab.filter (fun f => f.byte 0 = tData) = [] := by
        rcases hab with rfl | rfl <;> rfl
      rw [List.filter_cons_of_neg (by simp [hstart]), List.filter_append, hab', List.append_nil]
      exact List.filter_eq_self.mpr fun f hf =>
        hbyte f (List.dropLast_subset _ (hds.subset hf))
  rw [heq] at hsub'
  refine dropLast_sublist hsub' ?_
  intro f hf
  rcases List.eq_nil_or_concat' (dataPart data) with hnil | ⟨l, a, hl⟩
  · rw [hnil] at hds hf
    rw [List.dropLast_nil, List.sublist_nil] at hds
    rw [hds] at hf
    cases hf
  · rw [List.dropLast_append_of_ne_nil (by rw [hl]; simp)] at hf
    rcases List.mem_append.mp hf with hf | hf
    · exact hlast f (hds.subset hf)
    · exact hlast f hf

/-- What an idle receiver completes, among frames written by a sender that
succeeds, ends with the frames of the transfer. -/
theorem suffix_of_complete {k : Nat} {prior : List Frame}
    (hprior : Prior (encodeTransfer kind data) k prior) {r : Reassembler}
    (hidle : r.active = none) {del : List Frame}
    (hdel : del.Sublist (prior ++ encodeTransfer kind data))
    (h : .complete kind data ∈ receiver.outputs r del) : encodeTransfer kind data <:+ del := by
  have hbefore : ∀ {fs : List Frame},
      fs.Sublist (prior ++ startFrame kind data :: dataPart data) →
        .complete kind data ∉ receiver.outputs r fs := by
    intro fs hfs
    refine not_complete_of_not_end ?_ r kind data
    intro f hf p hp
    rcases mem_before_end hprior (hfs.subset hf) with rfl | rfl | hf
    · cases (parse_frame _ _ _).symm.trans hp
      exact (by decide : tStart ≠ tEnd)
    · cases (parse_frame _ _ _).symm.trans hp
      exact (by decide : tAbort ≠ tEnd)
    · obtain ⟨s, c, rfl⟩ := dataPart_frames data f hf
      cases (parse_frame _ _ _).symm.trans hp
      exact (by decide : tData ≠ tEnd)
  have hsplit : prior ++ encodeTransfer kind data
      = (prior ++ startFrame kind data :: dataPart data) ++ [endFrame data] := by
    rw [encodeTransfer_eq]
    simp
  rw [hsplit] at hdel
  rcases sublist_snoc hdel with hfront | ⟨del', hfront, rfl⟩
  · exact absurd h (hbefore hfront)
  rw [Mealy.outputs_append, List.mem_append] at h
  have hend := List.mem_singleton.mp (h.resolve_left (hbefore hfront))
  obtain ⟨a, ha, -, -, -, hdata⟩ := complete_on_endFrame hend.symm
  -- the START behind END, and the frames after it
  obtain ⟨pre, st, mid, hheard, hst, -, -, hmid, hnum, -, hbytes, -⟩ :=
    (active_run_iff hidle del' a).mp ha
  obtain ⟨p₁, rest, rfl, -, hrest⟩ := List.filterMap_eq_append_iff.mp hheard
  obtain ⟨p₂, f, p₃, rfl, -, hf, hp₃⟩ := List.filterMap_eq_cons_iff.mp hrest
  have hsub₃ : (f :: p₃).Sublist (prior ++ startFrame kind data :: dataPart data) :=
    (List.sublist_append_right (p₁ ++ p₂) _).trans (by simpa using hfront)
  have hcut : ∀ g ∈ p₃, ∀ q, parse g = some q → ¬ q.Cuts := fun g hg q hq =>
    hmid q (hp₃ ▸ List.mem_filterMap.mpr ⟨g, hg, hq⟩)
  have hstart : f = startFrame kind data := by
    rcases mem_before_end hprior (hsub₃.subset List.mem_cons_self) with hf' | rfl | hf'
    · exact hf'
    · cases (parse_frame _ _ _).symm.trans hf
      exact absurd hst (by decide)
    · obtain ⟨s, c, rfl⟩ := dataPart_frames data f hf'
      cases (parse_frame _ _ _).symm.trans hf
      exact absurd hst (by decide : tData ≠ tStart)
  have hdata₃ : ∀ g ∈ p₃, g ∈ dataPart data := by
    intro g hg
    rcases mem_before_end hprior (hsub₃.subset (List.mem_cons_of_mem _ hg)) with rfl | rfl | hg'
    · exact absurd (Or.inl ⟨rfl, rfl⟩) (hcut _ hg _ (parse_frame _ _ _))
    · exact absurd (Or.inr (Or.inl rfl)) (hcut _ hg _ (parse_frame _ _ _))
    · exact hg'
  have hheard₃ : dataOf mid = heard p₃ := by
    rw [← hp₃]
    refine List.filter_eq_self.mpr ?_
    intro q hq
    obtain ⟨g, hg, hq⟩ := List.mem_filterMap.mp hq
    obtain ⟨s, c, rfl⟩ := dataPart_frames data g (hdata₃ g hg)
    cases (parse_frame _ _ _).symm.trans hq
    rfl
  have hseq : st.seq = 0 := by
    rw [hstart] at hf
    cases (parse_frame _ _ _).symm.trans hf
    rfl
  rw [hheard₃, hseq] at hnum
  rw [hheard₃, hdata] at hbytes
  have hall : p₃ = dataPart data := by
    rw [hbytes]
    exact eq_dataPart_of_numbered (fun g hg => dataPart_frames data g (hdata₃ g hg))
      (fun g hg => payloadSize_dataPart g (hdata₃ g hg))
      (full_of_written hprior ((List.sublist_cons_self f p₃).trans hsub₃) hdata₃) hnum
  refine ⟨p₁ ++ p₂, ?_⟩
  rw [hall, hstart, encodeTransfer_eq]
  simp

/-- **A reported success.** When the sender succeeds, the transfer is completed
at an idle receiver exactly when the frames that arrived end with all of
it. -/
theorem delivered_iff (hlen : data.length ≤ maxTransfer.toNat) {acts : List SendAct}
    (hok : (Linux.sendWithRetry (encodeTransfer kind data)).exec Linux.start acts
        = some (.done (.ok ())) ∨
      (Windows.sendFrames (encodeTransfer kind data)).exec Windows.start acts = some (.done true))
    {r : Reassembler} (hidle : r.active = none) {del : List Frame}
    (hdel : del.Sublist (written acts)) :
    .complete kind data ∈ receiver.outputs r del ↔ encodeTransfer kind data <:+ del := by
  have hdone : (Linux.sendWithRetry (encodeTransfer kind data)).exec Linux.start acts
      = some (.done (.ok ())) := by
    rcases hok with h | h
    · exact h
    · rw [exec_windows, Option.map_eq_some_iff] at h
      obtain ⟨s, hs, hdone⟩ := h
      rw [hs, toWindows_done_true.mp hdone]
  obtain ⟨k, prior, hprior, hwritten⟩ := wrote_of_done hdone
  constructor
  · exact suffix_of_complete hprior hidle (hwritten ▸ hdel)
  · rintro ⟨pre, rfl⟩
    rw [Mealy.outputs_append, outputs_encodeTransfer hlen]
    exact List.mem_append_right _ (List.mem_cons_of_mem _ (List.mem_append_right _
      List.mem_cons_self))

end Delivery

/-- A one-byte text, sent without a stall. -/
def sentText : List SendAct :=
  [.store, .write (startFrame kindText [7]) true, .load 0,
    .write (frame tData 1 (bytePayload 7)) true, .write (endFrame [7]) true]

theorem sentText_ok :
    (Linux.sendWithRetry (encodeTransfer kindText [7])).exec Linux.start sentText
      = some (.done (.ok ())) := by
  decide +kernel

theorem delivered_iff_sentText :
    .complete kindText [7] ∈ receiver.outputs ⟨none, 5⟩ (written sentText) ↔
      encodeTransfer kindText [7] <:+ written sentText :=
  delivered_iff (by decide) (Or.inl sentText_ok) rfl (List.Sublist.refl _)

/-- **A success that was not delivered.** The channel drops the one DATA frame;
the window never closes on it, and the sender reports success. -/
theorem success_not_delivered :
    ¬ ∀ (kind : UInt8) (data : List UInt8) (acts : List SendAct) (r : Reassembler)
      (del : List Frame), data.length ≤ maxTransfer.toNat →
      (Linux.sendWithRetry (encodeTransfer kind data)).exec Linux.start acts
        = some (.done (.ok ())) →
      r.active = none → del.Sublist (written acts) →
      .complete kind data ∈ receiver.outputs r del := by
  intro h
  have hsub : [startFrame kindText [7], endFrame [7]].Sublist (written sentText) :=
    List.Sublist.cons_cons _ (List.Sublist.cons _ (List.Sublist.refl _))
  have := h kindText [7] sentText .default _ (by decide) sentText_ok rfl hsub
  exact absurd this (by decide +kernel)

end Beaglewing.Agents
