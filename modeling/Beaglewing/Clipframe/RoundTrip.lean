/-
# `Clipframe.RoundTrip` — one transfer, sent and received

What a receiver answers to the frames of one transfer, from any state it
may have been left in.

    all of them, control frames in between   none, progress 1 … n, complete   (`transfer_roundtrip`)
    a subsequence that keeps START           complete iff nothing was lost    (`loss_detected`)

The first is an induction on the DATA loop that carries the sequence, the
count and the bytes collected (`feed_encodeData`); the sequence wraps inside
the induction and needs no bound.  For the second the sequence check is not
even needed: a DATA frame that is refused leaves nothing in progress, one
that is accepted adds its bytes, and every DATA frame of a transfer carries
at least one, so whatever reaches END with the announced length lost none
(`active_of_data`, `eq_of_sublist_of_sum_eq`).
-/
import Beaglewing.Clipframe.Grammar

namespace Beaglewing.Clipframe

open Base

/-! ## The DATA loop, received -/

/-- The answers to `n` DATA frames in a row, after `m` of them. -/
def progressFrom (m : UInt32) (n : Nat) : List FeedResult :=
  (List.range n).map fun i => .progress (m + UInt32.ofNat (i + 1))

theorem progressFrom_succ (m : UInt32) (n : Nat) :
    progressFrom m (n + 1) = .progress (m + 1) :: progressFrom (m + 1) n := by
  simp only [progressFrom, List.range_succ_eq_map, List.map_cons, List.map_map]
  congr 1
  refine List.map_congr_left ?_
  intro i _
  show FeedResult.progress (m + UInt32.ofNat (i + 1 + 1)) = .progress (m + 1 + UInt32.ofNat (i + 1))
  rw [UInt32.ofNat_add (i + 1) 1, UInt32.add_comm _ (UInt32.ofNat 1), ← UInt32.add_assoc]
  rfl

/-- A receiver at the sequence the loop starts from takes every block, if
they fit: the answers count up and the bytes are appended. -/
theorem feed_encodeData (kind : UInt8) {total : UInt32} (htot : total ≤ maxTransfer) :
    ∀ (cs : List Payload) (seq : UInt16) (d : List UInt8) (m : UInt32),
      d.length + ((cs.map Subtype.val).flatten).length ≤ total.toNat →
      receiver.outputs ⟨some ⟨kind, total, seq, d⟩, m⟩ (encodeData seq cs).1
          = progressFrom m cs.length ∧
        receiver.run ⟨some ⟨kind, total, seq, d⟩, m⟩ (encodeData seq cs).1
          = ⟨some ⟨kind, total, (encodeData seq cs).2, d ++ (cs.map Subtype.val).flatten⟩,
              m + UInt32.ofNat cs.length⟩
  | [], seq, d, m, _ => by simp [encodeData, progressFrom]
  | c :: cs, seq, d, m, hlen => by
      rw [List.map_cons, List.flatten_cons, List.length_append] at hlen
      have hcap := UInt32.le_iff_toNat_le.mp htot
      have hc := c.property
      have hcast : (UInt32.ofNat (d ++ c.val).length).toNat = (d ++ c.val).length :=
        toNat_ofNat_length (by rw [List.length_append]; omega)
      have hfit : ¬ UInt32.ofNat (d ++ c.val).length > total := by
        rw [gt_iff_lt, UInt32.lt_iff_toNat_lt, hcast, List.length_append]
        omega
      have hstep : receiver.step ⟨some ⟨kind, total, seq, d⟩, m⟩ (frame tData (seq + 1) c)
          = (⟨some ⟨kind, total, seq + 1, d ++ c.val⟩, m + 1⟩, .progress (m + 1)) := by
        show Reassembler.feed _ _ = _
        rw [Reassembler.feed_frame, Reassembler.feedParsed_data rfl]
        simp only [Reassembler.feedData, ne_eq, not_true_eq_false, if_false, if_neg hfit]
      obtain ⟨hout, hrun⟩ := feed_encodeData kind htot cs (seq + 1) (d ++ c.val) (m + 1)
        (by rw [List.length_append]; omega)
      constructor
      · simp only [encodeData, Mealy.outputs_cons, hstep, hout, List.length_cons,
          progressFrom_succ]
      · simp only [encodeData, Mealy.run_cons, hstep, hrun, List.length_cons, List.map_cons,
          List.flatten_cons, List.append_assoc]
        rw [UInt32.ofNat_add, UInt32.add_comm _ (UInt32.ofNat 1), ← UInt32.add_assoc]
        rfl

section Transfer
variable {kind : UInt8} {data : List UInt8} (hlen : data.length ≤ maxTransfer.toNat)
include hlen

theorem toNat_length : (UInt32.ofNat data.length).toNat = data.length :=
  toNat_ofNat_length (Nat.le_trans hlen (Nat.le_add_right _ _))

theorem length_le_cap : UInt32.ofNat data.length ≤ maxTransfer := by
  rw [UInt32.le_iff_toNat_le, toNat_length hlen]
  exact hlen

/-- START opens the transfer, whatever was open before. -/
theorem feed_startFrame (r : Reassembler) :
    receiver.step r (startFrame kind data)
      = (⟨some ⟨kind, UInt32.ofNat data.length, 0, []⟩, 0⟩, .none) := by
  show Reassembler.feed _ _ = _
  rw [startFrame, Reassembler.feed_frame, Reassembler.feedParsed_start rfl,
    Reassembler.feedStart_startPayload, if_neg (UInt32.not_lt.mpr (length_le_cap hlen))]

/-- **Round trip.** From any state the frames of a transfer are answered by
nothing, the counts, and the transfer. -/
theorem outputs_encodeTransfer (r : Reassembler) :
    receiver.outputs r (encodeTransfer kind data)
      = .none :: (progressFrom 0 (chunks maxPayload data).length ++ [.complete kind data]) := by
  have hflat : ((chunks maxPayload data).map Subtype.val).flatten = data :=
    flatten_chunks (by decide) data
  obtain ⟨hout, hrun⟩ := feed_encodeData kind (length_le_cap hlen)
    (chunks maxPayload data) 0 [] 0
    (by rw [hflat, toNat_length hlen, List.length_nil]; omega)
  rw [hflat] at hrun
  rw [encodeTransfer_eq, Mealy.outputs_cons, feed_startFrame hlen, Mealy.outputs_append, dataPart,
    hout, hrun]
  simp only [Mealy.outputs_cons, Mealy.outputs_nil, List.nil_append]
  congr 3
  show (Reassembler.feed _ _).2 = _
  rw [endFrame, Reassembler.feed_frame, Reassembler.feedParsed_end rfl,
    Reassembler.feedEnd_complete]
  exact ⟨_, rfl, rfl, rfl, rfl, rfl, rfl⟩

end Transfer

/-! ## Among other frames

An interleaving is a list of frames, each marked as one of the transfer
(`true`) or not (`false`). -/

/-- The answers to the marked frames are those of the transfer alone. -/
theorem outputs_marked {fs : List (Bool × Frame)} (hother : ∀ f, (false, f) ∈ fs → NonTransfer f)
    (r : Reassembler) :
    (((receiver.comap Prod.snd).trace r fs).filter (fun x => x.1.1)).map Prod.snd
      = receiver.outputs r ((fs.filter (fun x => x.1)).map Prod.snd) := by
  have hsilent : ∀ x ∈ fs, x.1 = false → (receiver.comap Prod.snd).Silent x := by
    rintro ⟨b, f⟩ hx hb r
    cases hb
    exact (hother f hx).silent r
  rw [Mealy.trace_filter _ hsilent]
  exact receiver.outputs_comap Prod.snd r _

/-- **Transfer round trip.** From any state, with any non-transfer frames in
between: the frames of the transfer are answered by nothing, the counts and
the transfer itself, on END; the others complete nothing, and OFFER and
PULL frames are read back. -/
theorem transfer_roundtrip {kind : UInt8} {data : List UInt8}
    (hlen : data.length ≤ maxTransfer.toNat) {fs : List (Bool × Frame)}
    (hxfer : (fs.filter (fun x => x.1)).map Prod.snd = encodeTransfer kind data)
    (hother : ∀ f, (false, f) ∈ fs → NonTransfer f) (r : Reassembler) :
    (((receiver.comap Prod.snd).trace r fs).filter (fun x => x.1.1)).map Prod.snd
        = .none :: (progressFrom 0 (chunks maxPayload data).length ++ [.complete kind data]) ∧
      ∀ f o, ((false, f), o) ∈ (receiver.comap Prod.snd).trace r fs →
        (∀ k d, o ≠ .complete k d) ∧
          (∀ q, f = offerFrame q → o = .offer q) ∧ (∀ id, f = pullFrame id → o = .pull id) := by
  constructor
  · rw [outputs_marked hother, hxfer, outputs_encodeTransfer hlen]
  · intro f o h
    obtain ⟨pre, post, rfl, rfl⟩ := (Mealy.mem_trace_iff _).mp h
    have hf := hother f (List.mem_append_right _ List.mem_cons_self)
    refine ⟨fun k d => (hf.feed_eq _).2 k d, ?_, ?_⟩
    · rintro q rfl
      exact congrArg Prod.snd (feed_offerFrame _ q)
    · rintro id rfl
      exact congrArg Prod.snd (feed_pullFrame _ id)

/-- A one-byte text with a PING before it and an OFFER inside. -/
def mixedText : List (Bool × Frame) :=
  [(false, frame tPing 0 ⟨[], Nat.zero_le _⟩), (true, startFrame kindText [7]),
    (false, offerFrame ⟨kindTar, 20000000, 2, 0xdeadbeef⟩),
    (true, frame tData 1 (bytePayload 7)), (true, endFrame [7])]

theorem transfer_roundtrip_mixedText :
    (((receiver.comap Prod.snd).trace ⟨some ⟨kindPng, 9, 4, [1]⟩, 3⟩ mixedText).filter
      (fun x => x.1.1)).map Prod.snd = [.none, .progress 1, .complete kindText [7]] := by
  have hlen : ([7] : List UInt8).length ≤ maxTransfer.toNat := by decide
  refine (transfer_roundtrip hlen rfl ?_ _).1
  intro f hf
  simp only [mixedText, List.mem_cons, Prod.mk.injEq, Bool.false_eq_true, false_and, true_and,
    List.not_mem_nil, or_false, false_or] at hf
  rcases hf with rfl | rfl
  · exact nonTransfer_frame _ _ (by decide)
  · exact nonTransfer_offerFrame _

/-! ## Loss inside one transfer -/

/-- What DATA frames, in any order, leave in progress: all of their bytes
after those that were there, or nothing. -/
theorem active_of_data {fs : List Frame} (hfs : ∀ f ∈ fs, ∃ s c, f = frame tData s c)
    {r : Reassembler} {a' : Active} (ha : (receiver.run r fs).active = some a') :
    ∃ a, r.active = some a ∧ a'.kind = a.kind ∧ a'.total = a.total ∧
      a'.data = a.data ++ bytesOf (heard fs) := by
  induction fs generalizing r with
  | nil => exact ⟨a', ha, rfl, rfl, by simp [heard, bytesOf]⟩
  | cons f fs ih =>
      obtain ⟨s, c, rfl⟩ := hfs f List.mem_cons_self
      obtain ⟨a₁, ha₁, hk₁, ht₁, hd₁⟩ := ih (fun g hg => hfs g (List.mem_cons_of_mem _ hg)) ha
      have hstep : (receiver.step r (frame tData s c)).1 = (r.feedData s c).1 := by
        show (Reassembler.feed _ _).1 = _
        rw [Reassembler.feed_frame, Reassembler.feedParsed_data rfl]
      rw [hstep, Reassembler.feedData_active] at ha₁
      obtain ⟨a, ha, -, -, rfl⟩ := ha₁
      refine ⟨a, ha, hk₁, ht₁, ?_⟩
      rw [hd₁, heard_frame_cons, bytesOf_cons, List.append_assoc]

/-- Frames none of which is an END complete nothing. -/
theorem not_complete_of_not_end {fs : List Frame}
    (hfs : ∀ f ∈ fs, ∀ p, parse f = some p → p.t ≠ tEnd) (r : Reassembler) (k : UInt8)
    (d : List UInt8) : .complete k d ∉ receiver.outputs r fs := by
  intro h
  obtain ⟨⟨f, o⟩, hx, rfl⟩ := List.mem_map.mp h
  obtain ⟨pre, post, rfl, ho⟩ := (Mealy.mem_trace_iff _).mp hx
  have ho' : ((receiver.run r pre).feed f).2 = .complete k d := ho.symm
  cases hp : parse f with
  | none => rw [Reassembler.feed, hp] at ho'; cases ho'
  | some p =>
      rw [Reassembler.feed_of_parse _ hp] at ho'
      exact hfs f (List.mem_append_right _ List.mem_cons_self) p hp
        (Reassembler.feedParsed_complete ho').1

/-- DATA frames complete nothing. -/
theorem not_complete_of_data {fs : List Frame} (hfs : ∀ f ∈ fs, ∃ s c, f = frame tData s c)
    (r : Reassembler) (k : UInt8) (d : List UInt8) : .complete k d ∉ receiver.outputs r fs := by
  refine not_complete_of_not_end ?_ r k d
  intro f hf p hp
  obtain ⟨s, c, rfl⟩ := hfs f hf
  rw [parse_frame, Option.some.injEq] at hp
  subst hp
  exact (by decide : tData ≠ tEnd)

theorem dataPart_frames (data : List UInt8) :
    ∀ f ∈ dataPart data, ∃ s c, f = frame tData s c := by
  intro f hf
  obtain ⟨s, c, -, rfl⟩ := exists_of_mem_encodeData hf
  exact ⟨s, c, rfl⟩

theorem length_dataPart (data : List UInt8) :
    (dataPart data).length = (data.length + (maxPayload - 1)) / maxPayload := by
  rw [dataPart, length_encodeData, length_chunks (by decide)]

/-- The bytes a frame carries. -/
def payloadSize (f : Frame) : Nat := (bytesOf (heard [f])).length

theorem payloadSize_frame (t : UInt8) (s : UInt16) (c : Payload) :
    payloadSize (frame t s c) = c.val.length := by
  simp [payloadSize]

theorem length_bytesOf_heard (fs : List Frame) :
    (bytesOf (heard fs)).length = (fs.map payloadSize).sum := by
  induction fs with
  | nil => rfl
  | cons f fs ih =>
      have : f :: fs = [f] ++ fs := rfl
      rw [this, heard_append, bytesOf_append, List.length_append, ih, List.map_append,
        List.sum_append]
      rfl

theorem bytesOf_heard_encodeData (seq : UInt16) (cs : List Payload) :
    bytesOf (heard (encodeData seq cs).1) = (cs.map Subtype.val).flatten := by
  induction cs generalizing seq with
  | nil => rfl
  | cons c cs ih =>
      simp only [encodeData, heard_frame_cons, bytesOf_cons, ih, List.map_cons, List.flatten_cons]

/-- Together the DATA frames of a transfer carry its data. -/
theorem bytesOf_heard_dataPart (data : List UInt8) : bytesOf (heard (dataPart data)) = data := by
  rw [dataPart, bytesOf_heard_encodeData]
  exact flatten_chunks (by decide) data

/-- Every DATA frame of a transfer carries at least one byte. -/
theorem payloadSize_dataPart {data : List UInt8} : ∀ f ∈ dataPart data, 0 < payloadSize f := by
  intro f hf
  obtain ⟨s, c, hc, rfl⟩ := exists_of_mem_encodeData hf
  rw [payloadSize_frame]
  exact List.length_pos_iff.mpr (ne_nil_of_mem_chunks (by decide) c hc)

/-- DATA frames of a transfer that carry as many bytes as the transfer are
all of them. -/
theorem eq_dataPart {data : List UInt8} {fs : List Frame} (h : fs.Sublist (dataPart data))
    (hlen : (bytesOf (heard fs)).length = data.length) : fs = dataPart data := by
  refine eq_of_sublist_of_sum_eq h payloadSize_dataPart ?_
  rw [← length_bytesOf_heard, ← length_bytesOf_heard, hlen, bytesOf_heard_dataPart]

/-- The first frame of a transfer occurs in it once, at its head. -/
theorem startFrame_not_mem (kind : UInt8) (data : List UInt8) :
    startFrame kind data ∉ dataPart data ++ [endFrame data] := by
  intro h
  rcases List.mem_append.mp h with h | h
  · obtain ⟨s, c, hf⟩ := dataPart_frames data _ h
    have := congrArg (fun f => Frame.byte f 0) hf
    simp only [startFrame, frame_byte_type] at this
    exact absurd this (by decide)
  · have := congrArg (fun f => Frame.byte f 0) (List.mem_singleton.mp h)
    simp only [startFrame, endFrame, frame_byte_type] at this
    exact absurd this (by decide)

/-- END completes only what has the length it announces, which is then in
progress under the announced total. -/
theorem complete_on_endFrame {data : List UInt8} {r : Reassembler} {k : UInt8} {d : List UInt8}
    (h : (receiver.step r (endFrame data)).2 = .complete k d) :
    ∃ a, r.active = some a ∧ a.total = UInt32.ofNat data.length ∧
      UInt32.ofNat a.data.length = a.total ∧ a.kind = k ∧ a.data = d := by
  have h' : (Reassembler.feed r (endFrame data)).2 = .complete k d := h
  rw [endFrame, Reassembler.feed_frame, Reassembler.feedParsed_end rfl,
    Reassembler.feedEnd_complete] at h'
  obtain ⟨a, ha, -, hpay, htot, hk, hd⟩ := h'
  have : a.total = UInt32.ofNat data.length := by
    have := congrArg readWord hpay
    rw [readWord_wordPayload, readWord_wordPayload, Option.some.injEq] at this
    exact this.symm
  exact ⟨a, ha, this, htot, hk, hd⟩

/-- A subsequence of a transfer that keeps START is START, some DATA frames,
and END or not. -/
theorem sublist_encodeTransfer {kind : UInt8} {data : List UInt8} {fs : List Frame}
    (hsub : fs.Sublist (encodeTransfer kind data)) (hstart : startFrame kind data ∈ fs) :
    ∃ ds, ds.Sublist (dataPart data) ∧
      (fs = startFrame kind data :: ds ∨ fs = startFrame kind data :: (ds ++ [endFrame data])) := by
  rw [encodeTransfer_eq] at hsub
  rcases List.sublist_cons_iff.mp hsub with h | ⟨rest, rfl, h⟩
  · exact absurd (h.subset hstart) (startFrame_not_mem kind data)
  · rcases sublist_snoc h with hds | ⟨ds, hds, rfl⟩
    · exact ⟨rest, hds, Or.inl rfl⟩
    · exact ⟨ds, hds, Or.inr rfl⟩

/-- The transfer completed after START and some of its DATA frames is the
whole transfer, and none of them is missing. -/
theorem complete_after_start {kind : UInt8} {data : List UInt8}
    (hlen : data.length ≤ maxTransfer.toNat) {ds : List Frame} (hds : ds.Sublist (dataPart data))
    {r : Reassembler} {k : UInt8} {d : List UInt8}
    (h : (receiver.step (receiver.run r (startFrame kind data :: ds)) (endFrame data)).2
      = .complete k d) :
    ds = dataPart data ∧ k = kind ∧ d = data := by
  obtain ⟨a', ha', htot, hcast, rfl, rfl⟩ := complete_on_endFrame h
  rw [Mealy.run_cons, feed_startFrame hlen] at ha'
  obtain ⟨a, ha, hk, -, hd⟩ := active_of_data
    (fun f hf => dataPart_frames data f (hds.subset hf)) ha'
  cases ha
  have hle : (bytesOf (heard ds)).length ≤ data.length := by
    have hsum := sum_map_le_of_sublist (w := payloadSize) hds
    rwa [← length_bytesOf_heard, ← length_bytesOf_heard, bytesOf_heard_dataPart] at hsum
  have heq : (bytesOf (heard ds)).length = data.length := by
    have := congrArg UInt32.toNat (hcast.trans htot)
    rw [hd, List.nil_append, toNat_length hlen, toNat_ofNat_length (by omega)] at this
    exact this
  have hall := eq_dataPart hds heq
  exact ⟨hall, hk, by rw [hd, hall, List.nil_append, bytesOf_heard_dataPart]⟩

/-- **Loss inside one transfer is detected.** From any state, a subsequence
of a transfer that keeps START completes something exactly when nothing was
dropped; the answers are then those of the round trip. -/
theorem loss_detected {kind : UInt8} {data : List UInt8} (hlen : data.length ≤ maxTransfer.toNat)
    {fs : List Frame} (hsub : fs.Sublist (encodeTransfer kind data))
    (hstart : startFrame kind data ∈ fs) (r : Reassembler) :
    ((∃ k d, .complete k d ∈ receiver.outputs r fs) ↔ fs = encodeTransfer kind data) ∧
      (fs = encodeTransfer kind data → receiver.outputs r fs
        = .none :: (progressFrom 0 (chunks maxPayload data).length ++ [.complete kind data])) := by
  refine ⟨⟨?_, ?_⟩, fun h => h ▸ outputs_encodeTransfer hlen r⟩
  · rintro ⟨k, d, h⟩
    obtain ⟨ds, hds, hfs⟩ := sublist_encodeTransfer hsub hstart
    have hdata := fun f hf => dataPart_frames data f (hds.subset hf)
    have hnot : .complete k d ∉ receiver.outputs r (startFrame kind data :: ds) := by
      rw [Mealy.outputs_cons, feed_startFrame hlen]
      intro h
      rcases List.mem_cons.mp h with h | h
      · cases h
      · exact not_complete_of_data hdata _ k d h
    rcases hfs with rfl | rfl
    · exact absurd h hnot
    · rw [← List.cons_append, Mealy.outputs_append] at h
      have hend := (List.mem_append.mp h).resolve_left hnot
      rw [Mealy.outputs_cons, Mealy.outputs_nil, List.mem_singleton] at hend
      obtain ⟨rfl, -, -⟩ := complete_after_start hlen hds hend.symm
      rfl
  · rintro rfl
    refine ⟨kind, data, ?_⟩
    rw [outputs_encodeTransfer hlen]
    simp

/-- A two-byte text that lost its DATA frame. -/
theorem loss_detected_text :
    ¬ ∃ k d, .complete k d ∈ receiver.outputs .default
      [startFrame kindText [7, 8], endFrame [7, 8]] := by
  have hsub : [startFrame kindText [7, 8], endFrame [7, 8]].Sublist
      (encodeTransfer kindText [7, 8]) :=
    (List.sublist_append_right _ _).cons_cons _
  intro h
  have := (loss_detected (by decide) hsub List.mem_cons_self _).1.mp h
  exact absurd (congrArg List.length this) (by decide)

end Beaglewing.Clipframe
