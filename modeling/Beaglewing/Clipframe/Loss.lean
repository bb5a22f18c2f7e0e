/-
# `Clipframe.Loss` — several transfers over a channel that drops frames

Transfers sent one after another, some frames dropped, none reordered or
duplicated.  Each transfer numbers its frames from 0 again and carries no
identifier, so the receiver can tell two transfers apart by START only:

    START of j arrived   what END of j completes is transfer j               (`complete_of_lossy`)
    START of j was lost  END of j can complete what an earlier START opened,
                         if that announced the same length

The second line is not an integrity law, and there is none: `lossy_mixture`
has a text header completed by the bytes of an image.  The proof carries
`Opened`, the START behind whatever is in progress, from one transfer to
the next (`lossy_transfer`), and reads the first line off the lemmas of
`Clipframe.RoundTrip`.
-/
import Beaglewing.Clipframe.RoundTrip

namespace Beaglewing.Clipframe

open Base

/-- The frames of some transfers, each with the number of its transfer. -/
def sentFrom (n : Nat) : List (UInt8 × List UInt8) → List (Nat × Frame)
  | [] => []
  | t :: ts => (encodeTransfer t.1 t.2).map (fun f => (n, f)) ++ sentFrom (n + 1) ts

def sentFrames (ts : List (UInt8 × List UInt8)) : List (Nat × Frame) := sentFrom 0 ts

/-- The receiver on numbered frames, which reads the frame only. -/
def lossyReceiver : Mealy Reassembler (Nat × Frame) FeedResult := receiver.comap Prod.snd

theorem mem_trace_numbered {n : Nat} {fs : List Frame} {r : Reassembler} {x : Nat × Frame}
    {o : FeedResult} (h : (x, o) ∈ lossyReceiver.trace r (fs.map fun f => (n, f))) :
    x.1 = n ∧ ∃ pre post, fs = pre ++ x.2 :: post ∧
      o = (receiver.step (receiver.run r pre) x.2).2 := by
  obtain ⟨pre, post, hsplit, ho⟩ := (Mealy.mem_trace_iff _).mp h
  obtain ⟨pre', rest, rfl, rfl, hrest⟩ := List.map_eq_append_iff.mp hsplit
  obtain ⟨f, post', rfl, rfl, rfl⟩ := List.map_eq_cons_iff.mp hrest
  refine ⟨rfl, pre', post', rfl, ?_⟩
  rw [ho, lossyReceiver, Mealy.run_comap, List.map_map]
  show _ = (receiver.step (receiver.run r pre') f).2
  simp only [Mealy.comap_step, Function.comp_def, List.map_id']

theorem run_numbered (n : Nat) (fs : List Frame) (r : Reassembler) :
    lossyReceiver.run r (fs.map fun f => (n, f)) = receiver.run r fs := by
  rw [lossyReceiver, Mealy.run_comap, List.map_map]
  simp only [Function.comp_def, List.map_id']

theorem Reassembler.Reachable.run {r : Reassembler} (h : r.Reachable) (fs : List Frame) :
    (receiver.run r fs).Reachable := by
  obtain ⟨gs, rfl⟩ := h
  exact ⟨gs ++ fs, (Mealy.run_append _ _ _ _).symm⟩

section Lossy
variable (ts : List (UInt8 × List UInt8)) (del : List (Nat × Frame))

/-- Whatever is in progress was opened by the START of an earlier transfer,
which arrived. -/
def Opened (n : Nat) (r : Reassembler) : Prop :=
  ∀ a, r.active = some a → ∃ i u, i < n ∧ ts[i]? = some u ∧
    (i, startFrame u.1 u.2) ∈ del ∧ a.kind = u.1 ∧ a.total = UInt32.ofNat u.2.length

/-- What a completed transfer `(k, d)`, answered to frame `x`, has to do with
the transfers sent. -/
def Attributed (x : Nat × Frame) (k : UInt8) (d : List UInt8) : Prop :=
  ∃ t, ts[x.1]? = some t ∧ x.2 = endFrame t.2 ∧ d.length = t.2.length ∧
    ((x.1, startFrame t.1 t.2) ∈ del → (k, d) = t) ∧
    ((x.1, startFrame t.1 t.2) ∉ del → ∃ i u, i < x.1 ∧ ts[i]? = some u ∧
      (i, startFrame u.1 u.2) ∈ del ∧ k = u.1 ∧ d.length = u.2.length)

variable {ts del}

theorem Opened.mono {n m : Nat} {r : Reassembler} (h : Opened ts del n r) (hnm : n ≤ m) :
    Opened ts del m r := by
  intro a ha
  obtain ⟨i, u, hi, hrest⟩ := h a ha
  exact ⟨i, u, Nat.lt_of_lt_of_le hi hnm, hrest⟩

/-- DATA frames keep the START behind what is in progress. -/
theorem Opened.data {n : Nat} {r : Reassembler} (h : Opened ts del n r) {ds : List Frame}
    (hds : ∀ f ∈ ds, ∃ s c, f = frame tData s c) : Opened ts del n (receiver.run r ds) := by
  intro a' ha'
  obtain ⟨a, ha, hk, ht, -⟩ := active_of_data hds ha'
  obtain ⟨i, u, hi, hu, hmem, hku, htu⟩ := h a ha
  exact ⟨i, u, hi, hu, hmem, hk.trans hku, ht.trans htu⟩

/-- After END nothing is in progress. -/
theorem run_endFrame_active (r : Reassembler) (data : List UInt8) :
    (receiver.step r (endFrame data)).1.active = none := by
  show (Reassembler.feed r (endFrame data)).1.active = none
  rw [endFrame, Reassembler.feed_frame, Reassembler.feedParsed_end rfl, Reassembler.feedEnd_active]

/-- A completion is answered to END only. -/
theorem eq_endFrame_of_complete {data : List UInt8} {ds pre post : List Frame} {f : Frame}
    {r : Reassembler} {k : UInt8} {d : List UInt8} (hds : ∀ f ∈ ds, ∃ s c, f = frame tData s c)
    (hsplit : ds ++ [endFrame data] = pre ++ f :: post)
    (ho : .complete k d = (receiver.step (receiver.run r pre) f).2) :
    f = endFrame data ∧ pre = ds := by
  rcases snoc_eq_append_cons.mp hsplit with ⟨-, rfl, hf⟩ | ⟨post', -, rfl⟩
  · exact ⟨hf.symm, rfl⟩
  · refine absurd ?_ (not_complete_of_data hds r k d)
    rw [ho, Mealy.outputs_append, Mealy.outputs_cons]
    exact List.mem_append_right _ List.mem_cons_self

variable (hcap : ∀ t ∈ ts, t.2.length ≤ maxTransfer.toNat)
include hcap

/-- END without its START: what it completes was opened by an earlier START
that announced the same length. -/
theorem lossy_without_start {n : Nat} {t : UInt8 × List UInt8} (ht : ts[n]? = some t)
    {ds : List Frame} (hds : ds.Sublist (dataPart t.2))
    (hstart : (n, startFrame t.1 t.2) ∉ del) {r : Reassembler} (hr : r.Reachable)
    (hopen : Opened ts del n r) {k : UInt8} {d : List UInt8}
    (h : (receiver.step (receiver.run r ds) (endFrame t.2)).2 = .complete k d) :
    Attributed ts del (n, endFrame t.2) k d := by
  obtain ⟨a, ha, htot, hcast, rfl, rfl⟩ := complete_on_endFrame h
  obtain ⟨hle, hmax⟩ := (hr.run ds).bounds ha
  obtain ⟨i, u, hi, hu, hmem, hku, htu⟩ :=
    hopen.data (fun f hf => dataPart_frames t.2 f (hds.subset hf)) a ha
  have hlen : a.data.length = a.total.toNat := by
    rw [← hcast, toNat_ofNat_length (by omega)]
  have hlent : a.data.length = t.2.length := by
    rw [hlen, htot, toNat_length (hcap t (List.mem_of_getElem? ht))]
  have hlenu : a.data.length = u.2.length := by
    rw [hlen, htu, toNat_length (hcap u (List.mem_of_getElem? hu))]
  exact ⟨t, ht, rfl, hlent, fun hmem => absurd hmem hstart,
    fun _ => ⟨i, u, hi, hu, hmem, hku, hlenu⟩⟩

/-- END after its START: what it completes is the transfer. -/
theorem lossy_with_start {n : Nat} {t : UInt8 × List UInt8} (ht : ts[n]? = some t)
    {ds : List Frame} (hds : ds.Sublist (dataPart t.2))
    (hstart : (n, startFrame t.1 t.2) ∈ del) {r : Reassembler} {k : UInt8} {d : List UInt8}
    (h : (receiver.step (receiver.run r (startFrame t.1 t.2 :: ds)) (endFrame t.2)).2
      = .complete k d) :
    Attributed ts del (n, endFrame t.2) k d := by
  obtain ⟨-, rfl, rfl⟩ := complete_after_start (hcap t (List.mem_of_getElem? ht)) hds h
  exact ⟨t, ht, rfl, rfl, fun _ => rfl, fun hnot => absurd hstart hnot⟩

/-- One transfer: every completion among its frames is attributed, and what
its frames leave in progress has an arrived START behind it. -/
theorem lossy_transfer {n : Nat} {t : UInt8 × List UInt8} (ht : ts[n]? = some t)
    {fs : List Frame} (hfs : fs.Sublist (encodeTransfer t.1 t.2))
    (hstart : startFrame t.1 t.2 ∈ fs ↔ (n, startFrame t.1 t.2) ∈ del)
    {r : Reassembler} (hr : r.Reachable) (hopen : Opened ts del n r) :
    Opened ts del (n + 1) (receiver.run r fs) ∧
      ∀ pre post f k d, fs = pre ++ f :: post →
        .complete k d = (receiver.step (receiver.run r pre) f).2 →
        Attributed ts del (n, f) k d := by
  have htcap := hcap t (List.mem_of_getElem? ht)
  have hnoEnd : ∀ (ds : List Frame) (r : Reassembler), (∀ f ∈ ds, ∃ s c, f = frame tData s c) →
      ∀ pre post f k d, ds = pre ++ f :: post →
        .complete k d ≠ (receiver.step (receiver.run r pre) f).2 := by
    intro ds r hds pre post f k d hsplit ho
    refine not_complete_of_data hds r k d ?_
    rw [hsplit, ho, Mealy.outputs_append, Mealy.outputs_cons]
    exact List.mem_append_right _ List.mem_cons_self
  by_cases hmem : startFrame t.1 t.2 ∈ fs
  · have hdel := hstart.mp hmem
    obtain ⟨ds, hds, hcase⟩ := sublist_encodeTransfer hfs hmem
    have hdata := fun f hf => dataPart_frames t.2 f (hds.subset hf)
    have hopened : Opened ts del (n + 1) (receiver.step r (startFrame t.1 t.2)).1 := by
      intro a ha
      rw [feed_startFrame htcap] at ha
      cases ha
      exact ⟨n, t, Nat.lt_succ_self n, ht, hdel, rfl, rfl⟩
    have hhead : ∀ k d, .complete k d ≠ (receiver.step r (startFrame t.1 t.2)).2 := by
      intro k d h
      rw [feed_startFrame htcap] at h
      cases h
    rcases hcase with rfl | rfl
    · refine ⟨hopened.data hdata, ?_⟩
      intro pre post f k d hsplit ho
      rcases List.cons_eq_append_iff.mp hsplit with ⟨rfl, h⟩ | ⟨pre', rfl, h⟩
      · cases h
        exact absurd ho (hhead k d)
      · exact absurd ho (hnoEnd ds _ hdata pre' post f k d h)
    · constructor
      · intro a ha
        rw [← List.cons_append, Mealy.run_append, Mealy.run_cons, Mealy.run_nil,
          run_endFrame_active] at ha
        cases ha
      · intro pre post f k d hsplit ho
        rcases List.cons_eq_append_iff.mp hsplit with ⟨rfl, h⟩ | ⟨pre', rfl, h⟩
        · cases h
          exact absurd ho (hhead k d)
        · obtain ⟨rfl, rfl⟩ := eq_endFrame_of_complete hdata h ho
          exact lossy_with_start hcap ht hds hdel ho.symm
  · have hdel := fun h => hmem (hstart.mpr h)
    have hrest : fs.Sublist (dataPart t.2 ++ [endFrame t.2]) := by
      rw [encodeTransfer_eq] at hfs
      rcases List.sublist_cons_iff.mp hfs with h | ⟨rest, rfl, -⟩
      · exact h
      · exact absurd List.mem_cons_self hmem
    rcases sublist_snoc hrest with hds | ⟨ds, hds, rfl⟩
    · have hdata := fun f hf => dataPart_frames t.2 f (hds.subset hf)
      refine ⟨(hopen.mono (Nat.le_succ n)).data hdata, ?_⟩
      intro pre post f k d hsplit ho
      exact absurd ho (hnoEnd fs r hdata pre post f k d hsplit)
    · have hdata := fun f hf => dataPart_frames t.2 f (hds.subset hf)
      constructor
      · intro a ha
        rw [Mealy.run_append, Mealy.run_cons, Mealy.run_nil, run_endFrame_active] at ha
        cases ha
      · intro pre post f k d hsplit ho
        obtain ⟨rfl, rfl⟩ := eq_endFrame_of_complete hdata hsplit ho
        exact lossy_without_start hcap ht hds hdel hr hopen ho.symm

omit hcap in
theorem le_of_mem_sentFrom {us : List (UInt8 × List UInt8)} {n : Nat} {x : Nat × Frame}
    (h : x ∈ sentFrom n us) : n ≤ x.1 := by
  induction us generalizing n with
  | nil => cases h
  | cons u us ih =>
      rcases List.mem_append.mp h with h | h
      · obtain ⟨f, -, rfl⟩ := List.mem_map.mp h
        exact Nat.le_refl n
      · exact Nat.le_of_succ_le (ih h)

/-- The induction over the transfers still to come: `pre` has arrived. -/
theorem lossy_from :
    ∀ (us : List (UInt8 × List UInt8)) (n : Nat) (pre rest : List (Nat × Frame)),
      del = pre ++ rest → (∀ x ∈ pre, x.1 < n) → (∀ i, us[i]? = ts[n + i]?) →
      rest.Sublist (sentFrom n us) →
      ∀ r : Reassembler, r.Reachable → Opened ts del n r →
      ∀ x k d, (x, .complete k d) ∈ lossyReceiver.trace r rest → Attributed ts del x k d
  | [], n, pre, rest, _, _, _, hsub, r, _, _, x, k, d, h => by
      cases List.sublist_nil.mp hsub
      cases h
  | t :: us, n, pre, rest, hdel, hpre, hts, hsub, r, hr, hopen, x, k, d, h => by
      obtain ⟨part, rest', rfl, hpart, hrest⟩ := List.sublist_append_iff.mp hsub
      obtain ⟨fs, hfs, rfl⟩ := List.sublist_map_iff.mp hpart
      have ht : ts[n]? = some t := by
        have := hts 0
        simpa using this.symm
      have hstart : startFrame t.1 t.2 ∈ fs ↔ (n, startFrame t.1 t.2) ∈ del := by
        rw [hdel]
        constructor
        · intro h
          exact List.mem_append_right _ (List.mem_append_left _ (List.mem_map.mpr ⟨_, h, rfl⟩))
        · intro h
          rcases List.mem_append.mp h with h | h
          · exact absurd (hpre _ h) (Nat.lt_irrefl n)
          rcases List.mem_append.mp h with h | h
          · obtain ⟨f, hf, heq⟩ := List.mem_map.mp h
            cases heq
            exact hf
          · exact absurd (le_of_mem_sentFrom (hrest.subset h)) (Nat.not_succ_le_self n)
      obtain ⟨hopen', hattr⟩ := lossy_transfer hcap ht hfs hstart hr hopen
      rw [Mealy.trace_append] at h
      rcases List.mem_append.mp h with h | h
      · obtain ⟨hx, pre', post', hsplit, ho⟩ := mem_trace_numbered h
        have := hattr pre' post' x.2 k d hsplit ho
        rwa [← hx] at this
      · rw [run_numbered] at h
        refine lossy_from us (n + 1) (pre ++ fs.map fun f => (n, f)) rest' ?_ ?_ ?_ hrest _
          (hr.run fs) hopen' x k d h
        · rw [hdel, List.append_assoc]
        · intro y hy
          rcases List.mem_append.mp hy with hy | hy
          · exact Nat.lt_succ_of_lt (hpre y hy)
          · obtain ⟨f, -, rfl⟩ := List.mem_map.mp hy
            exact Nat.lt_succ_self n
        · intro i
          have := hts (i + 1)
          rw [List.getElem?_cons_succ] at this
          rw [this]
          congr 1
          omega

/-- **What arrives over a lossy channel.** Every transfer a default receiver
completes is answered to the END of some transfer and has its length; it is
that transfer when its START arrived, and otherwise has the kind and the
length of an earlier transfer whose START did. -/
theorem complete_of_lossy (hsub : del.Sublist (sentFrames ts)) {x : Nat × Frame} {k : UInt8}
    {d : List UInt8} (h : (x, .complete k d) ∈ lossyReceiver.trace .default del) :
    Attributed ts del x k d :=
  lossy_from hcap ts 0 [] del rfl (fun _ hx => nomatch hx) (fun i => by rw [Nat.zero_add]) hsub
    .default ⟨[], rfl⟩ (fun _ ha => nomatch ha) x k d h

end Lossy

/-- A text that lost its bytes and its END, then an image of the same length
that lost its START. -/
def lostStart : List (Nat × Frame) :=
  [(0, startFrame kindText [7]), (1, frame tData 1 (bytePayload 8)), (1, endFrame [8])]

theorem lostStart_sublist : lostStart.Sublist (sentFrames [(kindText, [7]), (kindPng, [8])]) := by
  refine List.Sublist.cons_cons _ (List.Sublist.cons _ (List.Sublist.cons _ ?_))
  exact List.Sublist.cons _ (List.Sublist.refl _)

theorem lostStart_completes :
    ((1, endFrame [8]), .complete kindText [8]) ∈ lossyReceiver.trace .default lostStart := by
  decide +kernel

theorem complete_of_lossy_lostStart :
    Attributed [(kindText, [7]), (kindPng, [8])] lostStart (1, endFrame [8]) kindText [8] :=
  complete_of_lossy (by decide) lostStart_sublist lostStart_completes

/-- **No integrity across transfers.** A completed transfer need not be one of
those sent: here the text header is completed by the bytes of the image. -/
theorem lossy_mixture :
    ¬ ∀ (ts : List (UInt8 × List UInt8)) (del : List (Nat × Frame)),
      (∀ t ∈ ts, t.2.length ≤ maxTransfer.toNat) → del.Sublist (sentFrames ts) →
      ∀ x k d, (x, .complete k d) ∈ lossyReceiver.trace .default del → (k, d) ∈ ts := by
  intro h
  have := h _ lostStart (by decide) lostStart_sublist _ _ _ lostStart_completes
  exact absurd this (by decide)

end Beaglewing.Clipframe
