/-
# `Clipframe.Grammar` — the transfers a receiver accepts

The incremental receiver against the grammar of a transfer, over every
history of arbitrary frames.  `InProgress ps a` describes the transfer that
a history `ps` of parsed frames leaves open: the last START that opened it,
what came after, and the bytes collected.  `active_iff` says the receiver
holds exactly that; it is an induction on the history from the right, one
lemma `inProgress_snoc_*` for each kind of last frame.  The law for a whole
transfer, `complete_iff`, reads END against it.

The length checks of the source are in `u32`; `InProgress` bounds the data
by the total and the total by `maxTransfer`, so no cast truncates.
-/
import Mathlib
import Beaglewing.Base.Lists
import Beaglewing.Clipframe.Reassembler

namespace Beaglewing.Clipframe

open Base

/-! ## Histories -/

/-- The frames of a history that parse. -/
def heard (fs : List Frame) : List Parsed := fs.filterMap parse

/-- A frame that ends or replaces the transfer before it: a START with a
five-byte payload, an ABORT, an END. -/
def Parsed.Cuts (p : Parsed) : Prop :=
  (p.t = tStart ∧ p.payload.val.length = 5) ∨ p.t = tAbort ∨ p.t = tEnd

/-- The DATA frames. -/
def dataOf (ps : List Parsed) : List Parsed := ps.filter (fun p => p.t = tData)

/-- The payloads, put together. -/
def bytesOf (ps : List Parsed) : List UInt8 := (ps.map (fun p => p.payload.val)).flatten

/-- The frames carry `s + 1`, `s + 2`, … modulo `2^16`. -/
def Numbered (s : UInt16) (ps : List Parsed) : Prop :=
  ∀ (i : Nat) (h : i < ps.length), ps[i].seq = s + UInt16.ofNat (i + 1)

/-- The history leaves the transfer `a` open. -/
def InProgress (ps : List Parsed) (a : Active) : Prop :=
  ∃ pre st mid, ps = pre ++ st :: mid ∧
    st.t = tStart ∧ st.payload = startPayload a.kind a.total ∧ a.total ≤ maxTransfer ∧
    (∀ p ∈ mid, ¬ p.Cuts) ∧ Numbered st.seq (dataOf mid) ∧
    a.lastSeq = st.seq + UInt16.ofNat (dataOf mid).length ∧
    a.data = bytesOf (dataOf mid) ∧ a.data.length ≤ a.total.toNat

/-- The frame `last`, after `fs`, ends a transfer of `d` under kind `k`. -/
def Ends (fs : List Frame) (last : Frame) (k : UInt8) (d : List UInt8) : Prop :=
  ∃ e, parse last = some e ∧ e.t = tEnd ∧
    e.payload = wordPayload (UInt32.ofNat d.length) ∧ d.length ≤ maxTransfer.toNat ∧
    ∃ pre st mid, heard fs = pre ++ st :: mid ∧
      st.t = tStart ∧ st.payload = startPayload k (UInt32.ofNat d.length) ∧
      (∀ p ∈ mid, ¬ p.Cuts) ∧ Numbered st.seq (dataOf mid) ∧
      e.seq = st.seq + UInt16.ofNat ((dataOf mid).length + 1) ∧ bytesOf (dataOf mid) = d

/-- The receiver on frames that parse. -/
def parsedReceiver : Mealy Reassembler Parsed FeedResult := ⟨Reassembler.feedParsed⟩

/-- Frames that do not parse leave no mark. -/
theorem run_heard (r : Reassembler) (fs : List Frame) :
    receiver.run r fs = parsedReceiver.run r (heard fs) := by
  induction fs generalizing r with
  | nil => rfl
  | cons f fs ih =>
      cases hp : parse f with
      | none =>
          have hf : (receiver.step r f).1 = r := by simp [receiver, Reassembler.feed, hp]
          rw [Mealy.run_cons, hf, heard, List.filterMap_cons_none hp]
          exact ih r
      | some p =>
          have hf : receiver.step r f = parsedReceiver.step r p := r.feed_of_parse hp
          rw [Mealy.run_cons, hf, heard, List.filterMap_cons_some hp]
          exact ih _

/-! ## Histories, frame by frame -/

@[simp] theorem heard_nil : heard [] = [] := rfl

@[simp] theorem heard_frame_cons (t : UInt8) (seq : UInt16) (p : Payload) (fs : List Frame) :
    heard (frame t seq p :: fs) = ⟨t, seq, p⟩ :: heard fs :=
  List.filterMap_cons_some (parse_frame t seq p)

theorem heard_append (fs gs : List Frame) : heard (fs ++ gs) = heard fs ++ heard gs :=
  List.filterMap_append

@[simp] theorem bytesOf_nil : bytesOf [] = [] := rfl

@[simp] theorem bytesOf_cons (p : Parsed) (ps : List Parsed) :
    bytesOf (p :: ps) = p.payload.val ++ bytesOf ps := rfl

theorem dataOf_snoc_of_data (ps : List Parsed) {p : Parsed} (h : p.t = tData) :
    dataOf (ps ++ [p]) = dataOf ps ++ [p] := by
  simp [dataOf, h]

theorem dataOf_snoc_of_not_data (ps : List Parsed) {p : Parsed} (h : p.t ≠ tData) :
    dataOf (ps ++ [p]) = dataOf ps := by
  simp [dataOf, h]

theorem bytesOf_append (ps qs : List Parsed) : bytesOf (ps ++ qs) = bytesOf ps ++ bytesOf qs := by
  simp [bytesOf]

theorem numbered_snoc {s : UInt16} {ps : List Parsed} {p : Parsed} :
    Numbered s (ps ++ [p]) ↔
      Numbered s ps ∧ p.seq = s + UInt16.ofNat (ps.length + 1) := by
  constructor
  · intro h
    constructor
    · intro i hi
      have := h i (by simp only [List.length_append, List.length_singleton]; omega)
      rwa [List.getElem_append_left hi] at this
    · have := h ps.length (by simp)
      rwa [List.getElem_concat_length rfl] at this
  · rintro ⟨hps, hp⟩ i hi
    rcases Nat.lt_or_ge i ps.length with hlt | hge
    · rw [List.getElem_append_left hlt]
      exact hps i hlt
    · have : i = ps.length := by
        simp only [List.length_append, List.length_singleton] at hi; omega
      subst this
      rw [List.getElem_concat_length rfl]
      exact hp

theorem add_ofNat_succ (s : UInt16) (n : Nat) :
    s + UInt16.ofNat (n + 1) = s + UInt16.ofNat n + 1 := by
  rw [UInt16.ofNat_add, UInt16.add_assoc]
  rfl

/-! ## One more frame -/

theorem length_startPayload (k : UInt8) (total : UInt32) :
    (startPayload k total).val.length = 5 := rfl

/-- A five-byte START payload is a kind and a total. -/
theorem exists_startPayload {p : Payload} (h : p.val.length = 5) :
    ∃ k total, p = startPayload k total := by
  match hp : p.val, h with
  | [k, b₁, b₂, b₃, b₄], _ =>
      refine ⟨k, fromLe32 b₁ b₂ b₃ b₄, Subtype.ext ?_⟩
      show p.val = k :: toLe32 (fromLe32 b₁ b₂ b₃ b₄)
      rw [toLe32_fromLe32, hp]

theorem startPayload_inj {k k' : UInt8} {total total' : UInt32} :
    startPayload k total = startPayload k' total' ↔ k = k' ∧ total = total' := by
  constructor
  · intro h
    have hv : k :: toLe32 total = k' :: toLe32 total' := congrArg Subtype.val h
    obtain ⟨hk, ht⟩ := List.cons.inj hv
    have hw : wordPayload total = wordPayload total' := Subtype.ext ht
    have := readWord_wordPayload total
    rw [hw, readWord_wordPayload, Option.some.injEq] at this
    exact ⟨hk, this.symm⟩
  · rintro ⟨rfl, rfl⟩
    rfl

/-- A frame that neither cuts nor is DATA changes nothing. -/
theorem inProgress_snoc_other {ps : List Parsed} {p : Parsed} {a : Active}
    (hcut : ¬ p.Cuts) (hd : p.t ≠ tData) : InProgress (ps ++ [p]) a ↔ InProgress ps a := by
  constructor
  · rintro ⟨pre, st, mid, hsplit, ht, hpay, htot, hmid, hrest⟩
    rcases snoc_eq_append_cons.mp hsplit with ⟨-, -, rfl⟩ | ⟨mid', rfl, hps⟩
    · exact absurd (Or.inl ⟨ht, hpay ▸ length_startPayload _ _⟩) hcut
    · rw [dataOf_snoc_of_not_data mid' hd] at hrest
      exact ⟨pre, st, mid', hps, ht, hpay, htot,
        fun q hq => hmid q (List.mem_append_left _ hq), hrest⟩
  · rintro ⟨pre, st, mid, rfl, ht, hpay, htot, hmid, hrest⟩
    refine ⟨pre, st, mid ++ [p], by simp, ht, hpay, htot, ?_, ?_⟩
    · intro q hq
      rcases List.mem_append.mp hq with hq | hq
      · exact hmid q hq
      · exact List.mem_singleton.mp hq ▸ hcut
    · rwa [dataOf_snoc_of_not_data mid hd]

/-- A DATA frame extends the transfer it continues, if the bytes fit. -/
theorem inProgress_snoc_data {ps : List Parsed} {p : Parsed} {a' : Active} (hd : p.t = tData) :
    InProgress (ps ++ [p]) a' ↔
      ∃ a, InProgress ps a ∧ p.seq = a.lastSeq + 1 ∧
        (a.data ++ p.payload.val).length ≤ a.total.toNat ∧
        a' = { a with lastSeq := p.seq, data := a.data ++ p.payload.val } := by
  have hcut : ¬ p.Cuts := by
    rintro (⟨h, -⟩ | h | h) <;> exact absurd (hd.symm.trans h) (by decide)
  constructor
  · rintro ⟨pre, st, mid, hsplit, ht, hpay, htot, hmid, hnum, hlast, hdata, hlen⟩
    rcases snoc_eq_append_cons.mp hsplit with ⟨-, -, rfl⟩ | ⟨mid', rfl, hps⟩
    · exact absurd (hd.symm.trans ht) (by decide)
    · rw [dataOf_snoc_of_data mid' hd] at hnum hlast hdata
      obtain ⟨hnum', hseq⟩ := numbered_snoc.mp hnum
      rw [bytesOf_append, bytesOf_cons, bytesOf_nil, List.append_nil] at hdata
      rw [hdata] at hlen
      refine ⟨⟨a'.kind, a'.total, st.seq + UInt16.ofNat (dataOf mid').length,
          bytesOf (dataOf mid')⟩,
        ⟨pre, st, mid', hps, ht, hpay, htot, fun q hq => hmid q (List.mem_append_left _ hq),
          hnum', rfl, rfl, ?_⟩, ?_, hlen, ?_⟩
      · rw [List.length_append] at hlen
        exact Nat.le_trans (Nat.le_add_right _ _) hlen
      · rw [hseq, add_ofNat_succ]
      · rw [List.length_append, List.length_singleton, ← hseq] at hlast
        rw [← hlast, ← hdata]
  · rintro ⟨a, ⟨pre, st, mid, rfl, ht, hpay, htot, hmid, hnum, hlast, hdata, -⟩, hseq, hlen, rfl⟩
    have hseq' : p.seq = st.seq + UInt16.ofNat ((dataOf mid).length + 1) := by
      rw [hseq, hlast, add_ofNat_succ]
    refine ⟨pre, st, mid ++ [p], by simp, ht, hpay, htot, ?_, ?_, ?_, ?_, hlen⟩
    · intro q hq
      rcases List.mem_append.mp hq with hq | hq
      · exact hmid q hq
      · exact List.mem_singleton.mp hq ▸ hcut
    · rw [dataOf_snoc_of_data mid hd]
      exact numbered_snoc.mpr ⟨hnum, hseq'⟩
    · rw [dataOf_snoc_of_data mid hd, List.length_append, List.length_singleton]
      exact hseq'
    · rw [dataOf_snoc_of_data mid hd, bytesOf_append, bytesOf_cons, bytesOf_nil, List.append_nil,
        ← hdata]

/-- After ABORT or END nothing is open. -/
theorem not_inProgress_snoc_close {ps : List Parsed} {p : Parsed} {a : Active}
    (h : p.t = tAbort ∨ p.t = tEnd) : ¬ InProgress (ps ++ [p]) a := by
  rintro ⟨pre, st, mid, hsplit, ht, -, -, hmid, -⟩
  rcases snoc_eq_append_cons.mp hsplit with ⟨-, -, rfl⟩ | ⟨mid', rfl, -⟩
  · rcases h with h | h <;> exact absurd (h.symm.trans ht) (by decide)
  · exact hmid p (List.mem_append_right _ List.mem_cons_self) (Or.inr h)

/-- After a START with a five-byte payload exactly its own transfer is open,
if the total is allowed. -/
theorem inProgress_snoc_start {ps : List Parsed} {p : Parsed} {a : Active} {k : UInt8}
    {total : UInt32} (hs : p.t = tStart) (hp : p.payload = startPayload k total) :
    InProgress (ps ++ [p]) a ↔ total ≤ maxTransfer ∧ a = ⟨k, total, p.seq, []⟩ := by
  have hcut : p.Cuts := Or.inl ⟨hs, hp ▸ length_startPayload _ _⟩
  constructor
  · rintro ⟨pre, st, mid, hsplit, -, hpay, htot, hmid, -, hlast, hdata, -⟩
    rcases snoc_eq_append_cons.mp hsplit with ⟨rfl, -, rfl⟩ | ⟨mid', rfl, -⟩
    · obtain ⟨rfl, rfl⟩ := startPayload_inj.mp (hp.symm.trans hpay)
      obtain ⟨ak, atot, alast, adata⟩ := a
      simp only [dataOf, List.filter_nil, List.length_nil, bytesOf, List.map_nil,
        List.flatten_nil] at hlast hdata
      exact ⟨htot, by simp [hlast, hdata]⟩
    · exact absurd hcut (hmid p (List.mem_append_right _ List.mem_cons_self))
  · rintro ⟨htot, rfl⟩
    exact ⟨ps, p, [], rfl, hs, hp, htot, (fun q hq => nomatch hq), (fun i hi => nomatch hi),
      by simp [dataOf], rfl, Nat.zero_le _⟩

theorem InProgress.bounds {ps : List Parsed} {a : Active} (h : InProgress ps a) :
    a.data.length ≤ a.total.toNat ∧ a.total.toNat ≤ maxTransfer.toNat := by
  obtain ⟨_, _, _, _, _, _, htot, _, _, _, _, hlen⟩ := h
  exact ⟨hlen, UInt32.le_iff_toNat_le.mp htot⟩

/-- A length within the cap plus one payload survives the cast to `u32`. -/
theorem toNat_ofNat_length {n : Nat} (h : n ≤ maxTransfer.toNat + maxPayload) :
    (UInt32.ofNat n).toNat = n := by
  have h₁ : maxTransfer.toNat = 67108864 := rfl
  have h₂ : maxPayload = 1018 := rfl
  simp only [UInt32.toNat_ofNat']
  omega

/-! ## The receiver holds what the history leaves open -/

/-- One step of the induction: a receiver that holds what `ps` leaves open
holds, after `p`, what `ps ++ [p]` leaves open. -/
theorem feedParsed_inProgress {ps : List Parsed} {r : Reassembler}
    (h : ∀ a, r.active = some a ↔ InProgress ps a) (p : Parsed) (a' : Active) :
    (r.feedParsed p).1.active = some a' ↔ InProgress (ps ++ [p]) a' := by
  by_cases hs : p.t = tStart
  · rw [Reassembler.feedParsed_start hs]
    by_cases h5 : p.payload.val.length = 5
    · obtain ⟨k, total, hpay⟩ := exists_startPayload h5
      rw [hpay, Reassembler.feedStart_startPayload, inProgress_snoc_start hs hpay]
      split
      next hbig => exact ⟨(fun h => nomatch h), fun h => absurd h.1 (UInt32.not_le.mpr hbig)⟩
      next hok =>
        rw [Option.some.injEq]
        exact ⟨fun h => ⟨UInt32.not_lt.mp hok, h.symm⟩, fun h => h.2.symm⟩
    · rw [Reassembler.feedStart_of_length_ne h5, h, inProgress_snoc_other _ (by rw [hs]; decide)]
      rintro (⟨-, hlen⟩ | h | h)
      · exact h5 hlen
      · exact absurd (hs.symm.trans h) (by decide)
      · exact absurd (hs.symm.trans h) (by decide)
  by_cases hd : p.t = tData
  · rw [inProgress_snoc_data hd, Reassembler.feedParsed_data hd, Reassembler.feedData_active]
    refine exists_congr ?_
    intro a
    rw [h]
    refine and_congr_right fun ha => and_congr_right fun _ => and_congr_left fun _ => ?_
    obtain ⟨hlen, htot⟩ := ha.bounds
    have hp := p.payload.property
    have hcast : (UInt32.ofNat (a.data ++ p.payload.val).length).toNat
        = (a.data ++ p.payload.val).length :=
      toNat_ofNat_length (by rw [List.length_append]; omega)
    rw [gt_iff_lt, UInt32.not_lt, UInt32.le_iff_toNat_le, hcast]
  by_cases hc : p.t = tAbort ∨ p.t = tEnd
  · have hnone : (r.feedParsed p).1.active = none := by
      rcases hc with hc | hc
      · rw [Reassembler.feedParsed_abort hc]
      · rw [Reassembler.feedParsed_end hc, Reassembler.feedEnd_active]
    rw [hnone]
    exact ⟨(fun h => nomatch h), fun h => absurd h (not_inProgress_snoc_close hc)⟩
  · rw [not_or] at hc
    rw [(r.feedParsed_of_other hs hd hc.2 hc.1).1, h, inProgress_snoc_other _ hd]
    rintro (⟨h, -⟩ | h | h)
    · exact hs h
    · exact hc.1 h
    · exact hc.2 h

/-- After any parsed frames an idle receiver holds exactly the transfer they
leave open. -/
theorem active_iff {r : Reassembler} (hr : r.active = none) (ps : List Parsed) :
    ∀ a, (parsedReceiver.run r ps).active = some a ↔ InProgress ps a := by
  induction ps using List.reverseRec with
  | nil =>
      intro a
      refine ⟨fun h => absurd (hr.symm.trans h) (fun h => nomatch h), ?_⟩
      rintro ⟨pre, st, mid, hsplit, -⟩
      exact absurd hsplit.symm (by simp)
  | append_singleton ps p ih =>
      intro a
      rw [Mealy.run_append]
      exact feedParsed_inProgress ih p a

/-- After any frames, well formed or not. -/
theorem active_run_iff {r : Reassembler} (hr : r.active = none) (fs : List Frame) (a : Active) :
    (receiver.run r fs).active = some a ↔ InProgress (heard fs) a := by
  rw [run_heard]
  exact active_iff hr (heard fs) a

/-- In every reachable state the data collected is within the total, and the
total within the cap. -/
theorem Reassembler.Reachable.bounds {r : Reassembler} (h : r.Reachable) {a : Active}
    (ha : r.active = some a) :
    a.data.length ≤ a.total.toNat ∧ a.total.toNat ≤ maxTransfer.toNat := by
  obtain ⟨fs, rfl⟩ := h
  exact ((active_run_iff (r := .default) rfl fs a).mp ha).bounds

/-! ## Acceptance -/

/-- Only an END completes a transfer. -/
theorem Reassembler.feedParsed_complete {r : Reassembler} {p : Parsed} {k : UInt8}
    {d : List UInt8} (h : (r.feedParsed p).2 = .complete k d) :
    p.t = tEnd ∧ (r.feedEnd p.seq p.payload).2 = .complete k d := by
  by_cases hs : p.t = tStart
  · rw [feedParsed_start hs] at h
    unfold feedStart at h
    split at h
    next => simp only at h; split at h <;> cases h
    next => cases h
  by_cases hd : p.t = tData
  · rw [feedParsed_data hd] at h
    exact absurd h (r.feedData_ne_complete p.seq p.payload k d)
  by_cases ha : p.t = tAbort
  · rw [feedParsed_abort ha] at h
    cases h
  by_cases he : p.t = tEnd
  · rw [feedParsed_end he] at h
    exact ⟨he, h⟩
  · exact absurd h ((r.feedParsed_of_other hs hd he ha).2.1 k d)

/-- **Exact acceptance.** After any frames fed to a default receiver, the
next frame completes the transfer of `d` under kind `k` if and only if it
ends one by the grammar. -/
theorem complete_iff (fs : List Frame) (last : Frame) (k : UInt8) (d : List UInt8) :
    ((receiver.run .default fs).feed last).2 = .complete k d ↔ Ends fs last k d := by
  constructor
  · intro h
    cases hp : parse last with
    | none => rw [Reassembler.feed, hp] at h; cases h
    | some e =>
        rw [Reassembler.feed_of_parse _ hp] at h
        obtain ⟨he, hend⟩ := Reassembler.feedParsed_complete h
        obtain ⟨a, ha, hseq, hpay, hlen, rfl, rfl⟩ := Reassembler.feedEnd_complete.mp hend
        have hin := (active_run_iff (r := .default) rfl fs a).mp ha
        have htot : a.data.length ≤ maxTransfer.toNat := Nat.le_trans hin.bounds.1 hin.bounds.2
        obtain ⟨pre, st, mid, hsplit, ht, hst, -, hmid, hnum, hlast, hdata, -⟩ := hin
        refine ⟨e, hp, he, hlen ▸ hpay, htot, pre, st, mid, hsplit, ht, hlen ▸ hst, hmid, hnum,
          ?_, hdata.symm⟩
        rw [hseq, hlast, add_ofNat_succ]
  · rintro ⟨e, hp, he, hpay, hcap, pre, st, mid, hsplit, ht, hst, hmid, hnum, hseq, hdata⟩
    have hcast : (UInt32.ofNat d.length).toNat = d.length :=
      toNat_ofNat_length (Nat.le_trans hcap (Nat.le_add_right _ _))
    have hin : InProgress (heard fs)
        ⟨k, UInt32.ofNat d.length, st.seq + UInt16.ofNat (dataOf mid).length, d⟩ :=
      ⟨pre, st, mid, hsplit, ht, hst, UInt32.le_iff_toNat_le.mpr (hcast.symm ▸ hcap), hmid, hnum,
        rfl, hdata.symm, Nat.le_of_eq hcast.symm⟩
    have ha := (active_run_iff (r := .default) rfl fs _).mpr hin
    rw [Reassembler.feed_of_parse _ hp]
    rw [Reassembler.feedParsed_end he, Reassembler.feedEnd_complete]
    exact ⟨_, ha, by rw [hseq, add_ofNat_succ], hpay, rfl, rfl, rfl⟩

end Beaglewing.Clipframe
