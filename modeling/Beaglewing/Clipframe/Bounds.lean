/-
# `Clipframe.Bounds` — what a peer can make the receiver hold and count

The receiver takes any frames, in any order.  Two resources of it depend on
what they are: the buffer of the transfer in progress and the counter of DATA
frames.

| | |
| :-- | :-- |
| `reassembly_bounded` | the buffer stays within the cap, and one payload more while DATA is checked |
| `data_frames_counted` | the counter is the number of DATA frames accepted, and as many of them as carry bytes are paid for by the buffer |
| `empty_data_counted` | DATA without bytes is accepted and counted, without end |
-/
import Beaglewing.Clipframe.RoundTrip

namespace Beaglewing.Clipframe

open Base

/-! ## The buffer -/

/-- How full the buffer gets while `feed` handles a frame: DATA that is numbered
right is appended before it is checked. -/
def Reassembler.fullest (r : Reassembler) (f : Frame) : Nat :=
  match r.active, parse f with
  | some a, some p =>
      if p.t = tData ∧ p.seq = a.lastSeq + 1 then (a.data ++ p.payload.val).length
      else a.data.length
  | some a, none => a.data.length
  | none, _ => 0

theorem Reassembler.fullest_le {r : Reassembler} (hr : r.Reachable) (f : Frame) :
    r.fullest f ≤ maxTransfer.toNat + maxPayload := by
  unfold fullest
  split
  · next a p ha _ =>
      obtain ⟨hdata, htotal⟩ := hr.bounds ha
      have hp := p.payload.property
      split
      · rw [List.length_append]
        omega
      · omega
  · next a ha _ =>
      obtain ⟨hdata, htotal⟩ := hr.bounds ha
      omega
  · exact Nat.zero_le _

/-- After any frames the next one, whatever it is, keeps the buffer within the
cap and one payload; what is in progress is within its total and that within
the cap; and the lengths that the overrun check and END cast to `u32` are what
they were. -/
theorem reassembly_bounded (fs : List Frame) :
    (∀ f, (receiver.run .default fs).fullest f ≤ maxTransfer.toNat + maxPayload) ∧
      ∀ a, (receiver.run .default fs).active = some a →
        a.data.length ≤ a.total.toNat ∧ a.total.toNat ≤ maxTransfer.toNat ∧
        (∀ p : Payload, (UInt32.ofNat (a.data ++ p.val).length).toNat =
          (a.data ++ p.val).length) ∧
        (UInt32.ofNat a.data.length).toNat = a.data.length := by
  have hr : (receiver.run .default fs).Reachable := ⟨fs, rfl⟩
  refine ⟨Reassembler.fullest_le hr, ?_⟩
  intro a ha
  obtain ⟨hdata, htotal⟩ := hr.bounds ha
  refine ⟨hdata, htotal, ?_, ?_⟩
  · intro p
    have hp := p.property
    exact toNat_ofNat_length (by rw [List.length_append]; omega)
  · exact toNat_ofNat_length (by omega)

/-! ## The counter -/

instance (p : Parsed) : Decidable p.Cuts :=
  inferInstanceAs (Decidable ((_ ∧ _) ∨ _ ∨ _))

/-- A frame that ends or replaces the transfer before it. -/
def Frame.cuts (f : Frame) : Bool := (parse f).any fun p => decide p.Cuts

/-- The answer to a DATA frame that is accepted. -/
def FeedResult.isProgress : FeedResult → Bool
  | .progress _ => true
  | _ => false

/-- The frames accepted in the transfer in progress: those answered with
progress since the frame that opened it. -/
def accepted (fs : List Frame) : List Frame :=
  (((receiver.trace .default fs).rtakeWhile fun x => !x.1.cuts).filter
    fun x => x.2.isProgress).map Prod.fst

theorem Frame.cuts_of_parse {f : Frame} {p : Parsed} (h : parse f = some p) :
    f.cuts = decide p.Cuts := by
  rw [Frame.cuts, h]
  rfl

/-- What one frame does to a transfer: it leaves none, opens one, is accepted as
DATA of the one in progress, or moves nothing. -/
theorem Reassembler.feed_cases (r : Reassembler) (f : Frame) :
    (r.feed f).1.active = none ∨
    (f.cuts = true ∧ ∃ a, a.data = [] ∧ (r.feed f).1 = ⟨some a, 0⟩) ∨
    (f.cuts = false ∧ ∃ a p, parse f = some p ∧ r.active = some a ∧
      r.feed f = (⟨some { a with lastSeq := p.seq, data := a.data ++ p.payload.val },
        r.dataFrames + 1⟩, .progress (r.dataFrames + 1))) ∨
    (f.cuts = false ∧ (r.feed f).1 = r ∧ (r.feed f).2.isProgress = false) := by
  cases hp : parse f with
  | none =>
      have hcuts : f.cuts = false := by rw [Frame.cuts, hp]; rfl
      have hfeed : r.feed f = (r, .error "unparseable frame") := by rw [feed, hp]
      exact .inr (.inr (.inr ⟨hcuts, by rw [hfeed], by rw [hfeed]; rfl⟩))
  | some p =>
      rw [r.feed_of_parse hp, f.cuts_of_parse hp]
      by_cases hs : p.t = tStart
      · rw [feedParsed_start hs]
        by_cases h5 : p.payload.val.length = 5
        · obtain ⟨k, total, hpay⟩ := exists_startPayload h5
          rw [hpay, feedStart_startPayload]
          split
          · exact .inl rfl
          · refine .inr (.inl ⟨decide_eq_true (.inl ⟨hs, h5⟩), ⟨k, total, p.seq, []⟩, rfl, rfl⟩)
        · have hcuts : ¬ p.Cuts := by
            rintro (⟨-, hlen⟩ | h | h)
            · exact h5 hlen
            · exact absurd (hs.symm.trans h) (by decide)
            · exact absurd (hs.symm.trans h) (by decide)
          have hfeed := feedStart_of_length_ne h5 r p.seq
          exact .inr (.inr (.inr ⟨decide_eq_false hcuts, by rw [hfeed], by rw [hfeed]; rfl⟩))
      by_cases hc : p.t = tAbort ∨ p.t = tEnd
      · refine .inl ?_
        rcases hc with hc | hc
        · rw [feedParsed_abort hc]
        · rw [feedParsed_end hc, feedEnd_active]
      rw [not_or] at hc
      have hcuts : ¬ p.Cuts := by
        rintro (⟨h, -⟩ | h | h)
        · exact hs h
        · exact hc.1 h
        · exact hc.2 h
      by_cases hd : p.t = tData
      · rw [feedParsed_data hd]
        cases ha : r.active with
        | none =>
            refine .inl ?_
            rw [feedData, ha]
            exact ha
        | some a =>
            rw [feedData, ha]
            simp only
            split
            · exact .inl rfl
            · split
              · exact .inl rfl
              · exact .inr (.inr (.inl ⟨decide_eq_false hcuts, a, p, rfl, rfl, rfl⟩))
      · obtain ⟨hsame, -, hno⟩ := r.feedParsed_of_other hs hd hc.2 hc.1
        refine .inr (.inr (.inr ⟨decide_eq_false hcuts, hsame, ?_⟩))
        cases hres : (r.feedParsed p).2 with
        | progress n => exact absurd hres (hno n)
        | _ => rfl

/-! ## What is accepted, frame by frame -/

theorem accepted_snoc_of_cuts (fs : List Frame) {f : Frame} (h : f.cuts = true) :
    accepted (fs ++ [f]) = [] := by
  rw [accepted, Mealy.trace_append, Mealy.trace_cons, Mealy.trace_nil,
    List.rtakeWhile_concat_neg _ _ _ (by simp [h])]
  rfl

theorem accepted_snoc_of_progress (fs : List Frame) {f : Frame} (hcuts : f.cuts = false)
    (h : ((receiver.run .default fs).feed f).2.isProgress = true) :
    accepted (fs ++ [f]) = accepted fs ++ [f] := by
  have h : (receiver.step (receiver.run .default fs) f).2.isProgress = true := h
  rw [accepted, Mealy.trace_append, Mealy.trace_cons, Mealy.trace_nil,
    List.rtakeWhile_concat_pos _ _ _ (by simp [hcuts]), List.filter_append, List.map_append,
    List.filter_cons, if_pos h]
  rfl

theorem accepted_snoc_of_other (fs : List Frame) {f : Frame} (hcuts : f.cuts = false)
    (h : ((receiver.run .default fs).feed f).2.isProgress = false) :
    accepted (fs ++ [f]) = accepted fs := by
  have h : ¬ (receiver.step (receiver.run .default fs) f).2.isProgress = true := by
    rw [Bool.not_eq_true]
    exact h
  rw [accepted, Mealy.trace_append, Mealy.trace_cons, Mealy.trace_nil,
    List.rtakeWhile_concat_pos _ _ _ (by simp [hcuts]), List.filter_append, List.filter_cons,
    if_neg h, List.filter_nil, List.append_nil]
  rfl

/-- The counter counts what was accepted, modulo `2 ^ 32`, and the buffer holds
what that carried. -/
structure Counted (fs : List Frame) (r : Reassembler) : Prop where
  count : ∀ a, r.active = some a → r.dataFrames = UInt32.ofNat (accepted fs).length
  bytes : ∀ a, r.active = some a → a.data.length = ((accepted fs).map payloadSize).sum

theorem counted_of_idle {fs : List Frame} {r : Reassembler} (h : r.active = none) :
    Counted fs r where
  count a ha := by rw [h] at ha; cases ha
  bytes a ha := by rw [h] at ha; cases ha

theorem counted_of_active {fs : List Frame} {a : Active} {n : UInt32}
    (hcount : n = UInt32.ofNat (accepted fs).length)
    (hbytes : a.data.length = ((accepted fs).map payloadSize).sum) : Counted fs ⟨some a, n⟩ where
  count a' ha := hcount
  bytes a' ha := by cases ha; exact hbytes

theorem counted_run (fs : List Frame) : Counted fs (receiver.run .default fs) := by
  induction fs using List.reverseRec with
  | nil => exact counted_of_idle rfl
  | append_singleton fs f ih =>
      rw [Mealy.run_append, Mealy.run_cons, Mealy.run_nil]
      show Counted (fs ++ [f]) ((receiver.run .default fs).feed f).1
      rcases (receiver.run .default fs).feed_cases f with
        hidle | ⟨hcuts, a, hdata, hopen⟩ | ⟨hcuts, a, p, hp, ha, hfeed⟩ | ⟨hcuts, hsame, hno⟩
      · exact counted_of_idle hidle
      · have hnil := accepted_snoc_of_cuts fs hcuts
        rw [hopen]
        exact counted_of_active (by rw [hnil]; rfl) (by rw [hnil, hdata]; rfl)
      · have hsnoc := accepted_snoc_of_progress fs hcuts (by rw [hfeed]; rfl)
        have hsize : payloadSize f = p.payload.val.length := by
          rw [payloadSize, heard, List.filterMap_cons_some hp, bytesOf_cons]
          simp
        rw [hfeed]
        refine counted_of_active ?_ ?_
        · rw [hsnoc, ih.count a ha, List.length_append, UInt32.ofNat_add]
          rfl
        · simp only [List.length_append, ih.bytes a ha, hsnoc, List.map_append, List.sum_append,
            List.map_cons, List.map_nil, List.sum_cons, List.sum_nil, hsize, Nat.add_zero]
      · rw [hsame]
        have hsnoc := accepted_snoc_of_other fs hcuts hno
        exact ⟨fun a ha => hsnoc ▸ ih.count a ha, fun a ha => hsnoc ▸ ih.bytes a ha⟩

/-! ## Progress -/

/-- While a transfer is in progress the counter is the number of DATA frames
accepted in it, modulo `2 ^ 32`.  Those that carry bytes are no more than the
bytes collected, which are within the total and the cap; so where all of them
do, the counter is within the cap too and its next step does not wrap. -/
theorem data_frames_counted (fs : List Frame) {a : Active}
    (ha : (receiver.run .default fs).active = some a) :
    (receiver.run .default fs).dataFrames = UInt32.ofNat (accepted fs).length ∧
      (accepted fs).countP (fun f => 0 < payloadSize f) ≤ a.data.length ∧
      a.data.length ≤ a.total.toNat ∧ a.total.toNat ≤ maxTransfer.toNat ∧
      ((∀ f ∈ accepted fs, 0 < payloadSize f) →
        (receiver.run .default fs).dataFrames.toNat = (accepted fs).length ∧
        (accepted fs).length ≤ a.data.length ∧
        ((receiver.run .default fs).dataFrames + 1).toNat = (accepted fs).length + 1) := by
  have hcounted := counted_run fs
  have hr : (receiver.run .default fs).Reachable := ⟨fs, rfl⟩
  obtain ⟨hdata, htotal⟩ := hr.bounds ha
  have hcount := hcounted.count a ha
  have hpaid : (accepted fs).countP (fun f => 0 < payloadSize f) ≤ a.data.length := by
    rw [hcounted.bytes a ha]
    exact countP_pos_le_sum payloadSize (accepted fs)
  refine ⟨hcount, hpaid, hdata, htotal, ?_⟩
  intro hall
  have hle : (accepted fs).length ≤ a.data.length := by
    rwa [List.countP_eq_length.mpr fun f hf => decide_eq_true (hall f hf)] at hpaid
  have hnat := toNat_ofNat_length (n := (accepted fs).length) (by omega)
  have hcap : maxTransfer.toNat = 67108864 := rfl
  refine ⟨hcount ▸ hnat, hle, ?_⟩
  rw [hcount, UInt32.toNat_add, hnat]
  exact Nat.mod_eq_of_lt (by change (accepted fs).length + 1 < 4294967296; omega)

theorem data_frames_counted_text :
    ((receiver.run .default [startFrame kindText [7, 8], frame tData 1 (bytePayload 7)]).dataFrames +
      1).toNat = 2 := by
  have hall : ∀ f ∈ accepted [startFrame kindText [7, 8], frame tData 1 (bytePayload 7)],
      0 < payloadSize f := by
    decide
  exact ((@data_frames_counted [startFrame kindText [7, 8], frame tData 1 (bytePayload 7)]
    ⟨kindText, 2, 1, [7]⟩ (by decide)).2.2.2.2 hall).2.2

/-- A DATA frame that carries nothing. -/
def emptyData (seq : UInt16) : Frame := frame tData seq ⟨[], Nat.zero_le _⟩

/-- A START of no bytes and `n` DATA frames without any. -/
def emptyTransfer (n : Nat) : List Frame :=
  frame tStart 0 (startPayload kindText 0) ::
    (List.range n).map fun i => emptyData (UInt16.ofNat (i + 1))

theorem emptyTransfer_succ (n : Nat) :
    emptyTransfer (n + 1) = emptyTransfer n ++ [emptyData (UInt16.ofNat (n + 1))] := by
  rw [emptyTransfer, List.range_succ, List.map_append]
  rfl

/-- The receiver accepts all of them. -/
theorem run_emptyTransfer (n : Nat) :
    receiver.run .default (emptyTransfer n) =
        ⟨some ⟨kindText, 0, UInt16.ofNat n, []⟩, UInt32.ofNat n⟩ ∧
      (accepted (emptyTransfer n)).length = n := by
  induction n with
  | zero => decide
  | succ n ih =>
      obtain ⟨hrun, hlen⟩ := ih
      have hfeed : (receiver.run .default (emptyTransfer n)).feed
          (emptyData (UInt16.ofNat (n + 1))) =
          (⟨some ⟨kindText, 0, UInt16.ofNat (n + 1), []⟩, UInt32.ofNat (n + 1)⟩,
            .progress (UInt32.ofNat (n + 1))) := by
        rw [hrun, emptyData, Reassembler.feed_frame, Reassembler.feedParsed_data rfl,
          Reassembler.feedData]
        simp only
        rw [if_neg (by rw [UInt16.ofNat_add]; exact fun h => h rfl), if_neg (by decide),
          UInt32.ofNat_add]
        rfl
      rw [emptyTransfer_succ]
      constructor
      · rw [Mealy.run_append, Mealy.run_cons, Mealy.run_nil]
        exact congrArg Prod.fst hfeed
      · rw [accepted_snoc_of_progress _ _ (by rw [hfeed]; rfl), List.length_append, hlen]
        · rfl
        · rw [emptyData, Frame.cuts_of_parse (parse_frame _ _ _)]
          rfl

/-- A transfer of no bytes with one DATA frame accepted; and one in which the
counter is back at zero after `2 ^ 32` of them. -/
theorem empty_data_counted :
    (∃ a, (receiver.run .default (emptyTransfer 1)).active = some a ∧ a.total = 0 ∧
      a.data.length < (receiver.run .default (emptyTransfer 1)).dataFrames.toNat ∧
      a.total.toNat < (accepted (emptyTransfer 1)).length) ∧
    ∃ fs, (accepted fs).length = 2 ^ 32 ∧ (receiver.run .default fs).dataFrames = 0 := by
  constructor
  · obtain ⟨hrun, hlen⟩ := run_emptyTransfer 1
    rw [hrun, hlen]
    exact ⟨_, rfl, rfl, by decide, by decide⟩
  · obtain ⟨hrun, hlen⟩ := run_emptyTransfer (2 ^ 32)
    refine ⟨emptyTransfer (2 ^ 32), hlen, ?_⟩
    rw [hrun]
    rfl

end Beaglewing.Clipframe
