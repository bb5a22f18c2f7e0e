/-
# `Agents.Once` — one call of a sender, at most one delivery

The retry sends the whole transfer again, so that a receiver could complete
it twice if the attempt that stalled had reached its END.  It has not: the
last frame of an attempt is under no window, and the call returns after it,
whether the write worked or not (`ended_step`).  What reaches the peer of
one call is

    any channel that keeps the order    at most one END, so at most one Complete
    a lossless one, `Ok`                the transfer, once
    a lossless one, `Err(false)`        nothing

from whatever state the receiver was left in (`at_most_once`).  The Windows
helper returns `false` for a device that failed as well; then END may be the
frame whose write failed, and nothing is completed if that frame did not
arrive.

## What it is not

One call sends one transfer.  A copy that was not delivered may be sent by
another call later (`Agents.Failure`), and then as often as it is called.
-/
import Beaglewing.Agents.Delivery
import Beaglewing.Agents.Lane

namespace Beaglewing.Agents

open Base Clipframe

/-- The frames given to the connection, whether the write worked or not. -/
def tried (acts : List SendAct) : List Frame :=
  acts.filterMap fun
    | .write f _ => some f
    | _ => none

theorem tried_append (as bs : List SendAct) : tried (as ++ bs) = tried as ++ tried bs :=
  List.filterMap_append

/-- What a lossless channel delivers: the frames of the writes that worked,
and perhaps those of writes that failed. -/
def Arrives : List SendAct → List Frame → Prop
  | [], del => del = []
  | .write f true :: as, del => ∃ d, del = f :: d ∧ Arrives as d
  | .write f false :: as, del => Arrives as del ∨ ∃ d, del = f :: d ∧ Arrives as d
  | .store :: as, del => Arrives as del
  | .load _ :: as, del => Arrives as del
  | .expired _ :: as, del => Arrives as del

theorem arrives_append {as bs : List SendAct} {del : List Frame} (h : Arrives (as ++ bs) del) :
    ∃ d e, del = d ++ e ∧ Arrives as d ∧ Arrives bs e := by
  induction as generalizing del with
  | nil => exact ⟨[], del, rfl, rfl, h⟩
  | cons a as ih =>
      cases a with
      | write f ok =>
          cases ok with
          | true =>
              obtain ⟨d, rfl, h⟩ := h
              obtain ⟨d, e, rfl, hd, he⟩ := ih h
              exact ⟨f :: d, e, rfl, ⟨d, rfl, hd⟩, he⟩
          | false =>
              rcases h with h | ⟨d, rfl, h⟩
              · obtain ⟨d, e, rfl, hd, he⟩ := ih h
                exact ⟨d, e, rfl, Or.inl hd, he⟩
              · obtain ⟨d, e, rfl, hd, he⟩ := ih h
                exact ⟨f :: d, e, rfl, Or.inr ⟨d, rfl, hd⟩, he⟩
      | store => exact ih h
      | load v => exact ih h
      | expired b => exact ih h

theorem Arrives.sublist {acts : List SendAct} {del : List Frame} (h : Arrives acts del) :
    del.Sublist (tried acts) := by
  induction acts generalizing del with
  | nil =>
      cases h
      exact List.Sublist.refl _
  | cons a as ih =>
      cases a with
      | write f ok =>
          cases ok with
          | true =>
              obtain ⟨d, rfl, h⟩ := h
              exact (ih h).cons_cons f
          | false =>
              rcases h with h | ⟨d, rfl, h⟩
              · exact (ih h).cons f
              · exact (ih h).cons_cons f
      | store => exact ih h
      | load v => exact ih h
      | expired b => exact ih h

/-! ## The END of a call -/

/-- `f[0] == T_END`. -/
def isEnd (f : Frame) : Bool := f.byte 0 = tEnd

/-- Only the last of the frames is an END. -/
def EndsLast (frames : List Frame) : Prop :=
  ∀ i f, frames[i]? = some f → isEnd f = true → i + 1 = frames.length

/-- How many ENDs were given to the connection, at each place. -/
def Ended (acts : List SendAct) : Linux.Retry → Prop
  | .running _ _ | .done (.error false) => (tried acts).countP isEnd = 0
  | .done (.ok ()) => (tried acts).countP isEnd ≤ 1
  | .done (.error true) => (tried acts).countP isEnd ≤ 1 ∧ (written acts).countP isEnd = 0

theorem written_sublist (acts : List SendAct) : (written acts).Sublist (tried acts) := by
  induction acts with
  | nil => exact List.Sublist.refl _
  | cons a as ih =>
      cases a with
      | write f ok =>
          cases ok with
          | true => exact ih.cons_cons f
          | false => exact ih.cons f
      | store => exact ih
      | load v => exact ih
      | expired b => exact ih

theorem countP_written {acts : List SendAct} (h : (tried acts).countP isEnd = 0) :
    (written acts).countP isEnd = 0 :=
  Nat.le_zero.mp (h ▸ (written_sublist acts).countP_le)

theorem ended_of_none {acts : List SendAct} (h : (tried acts).countP isEnd = 0)
    (s : Linux.Retry) : Ended acts s := by
  match s with
  | .running _ _ => exact h
  | .done (.error false) => exact h
  | .done (.ok ()) => exact Nat.le_trans (Nat.le_of_eq h) (Nat.zero_le 1)
  | .done (.error true) =>
      exact ⟨Nat.le_trans (Nat.le_of_eq h) (Nat.zero_le 1), countP_written h⟩

theorem countP_tried_quiet {acts : List SendAct} {a : SendAct} (h : tried [a] = []) :
    (tried (acts ++ [a])).countP isEnd = (tried acts).countP isEnd := by
  rw [tried_append, h, List.append_nil]

/-- After the last frame the call returns. -/
theorem afterAttempt_last {frames : List Frame} {i : Nat} (h : i + 1 = frames.length) (k : Nat)
    (sent : UInt32) :
    Linux.afterAttempt k (Linux.atFrame frames (i + 1) sent) = .done (.ok ()) := by
  rw [Linux.atFrame, if_neg (by omega)]
  rfl

theorem ended_step {frames : List Frame} (hlast : EndsLast frames) (as : List SendAct)
    (a : SendAct) (s s' : Linux.Retry) (h : Ended as s)
    (hs : (Linux.sendWithRetry frames).step s a = some s') : Ended (as ++ [a]) s' := by
  cases a with
  | store =>
      obtain ⟨k, rfl, -⟩ := Linux.step_store hs
      exact ended_of_none ((countP_tried_quiet rfl).trans h) s'
  | load v =>
      obtain ⟨k, i, sent, rfl, -⟩ := Linux.step_load hs
      exact ended_of_none ((countP_tried_quiet rfl).trans h) s'
  | expired b =>
      obtain ⟨k, i, sent, rfl, -⟩ := Linux.step_expired hs
      exact ended_of_none ((countP_tried_quiet rfl).trans h) s'
  | write f ok =>
      have htried : tried (as ++ [.write f ok]) = tried as ++ [f] := tried_append as _
      rcases Linux.step_write hs with ⟨k, i, sent, rfl, hf, rfl⟩ | ⟨k, rfl, rfl, -⟩
      · have hnone : (tried as).countP isEnd = 0 := h
        cases hend : isEnd f with
        | false =>
            refine ended_of_none ?_ _
            rw [htried, List.countP_append, hnone]
            simp [hend]
        | true =>
            have hone : (tried (as ++ [.write f ok])).countP isEnd ≤ 1 := by
              rw [htried, List.countP_append, hnone]
              simp [hend]
            cases ok with
            | true =>
                rw [if_pos rfl, afterAttempt_last (hlast i f hf hend)]
                exact hone
            | false =>
                refine ⟨hone, ?_⟩
                rw [written_append]
                exact (congrArg _ (List.append_nil _)).trans (countP_written hnone)
      · refine ended_of_none ?_ s'
        have hnone : (tried as).countP isEnd = 0 := h
        rw [htried, List.countP_append, hnone]
        rfl

theorem ended_of_run {frames : List Frame} (hlast : EndsLast frames) {acts : List SendAct}
    {s : Linux.Retry} (h : (Linux.sendWithRetry frames).exec Linux.start acts = some s) :
    Ended acts s := by
  have hinit : Ended [] Linux.start := rfl
  exact (Linux.sendWithRetry frames).exec_induction hinit (ended_step hlast) h

theorem endsLast_encodeTransfer (kind : UInt8) (data : List UInt8) :
    EndsLast (encodeTransfer kind data) := by
  intro i f hf hend
  rw [encodeTransfer_eq] at hf ⊢
  cases i with
  | zero =>
      cases hf
      exact absurd hend (by decide : ¬ decide (tStart = tEnd) = true)
  | succ i =>
      rw [List.getElem?_cons_succ] at hf
      rcases Nat.lt_or_ge i (dataPart data).length with hi | hi
      · rw [List.getElem?_append_left hi] at hf
        obtain ⟨s, c, rfl⟩ := dataPart_frames data f (List.mem_of_getElem? hf)
        exact absurd hend (by decide : ¬ decide (tData = tEnd) = true)
      · rw [List.getElem?_append_right hi] at hf
        have hlt := (List.getElem?_eq_some_iff.mp hf).1
        simp only [List.length_singleton] at hlt
        simp only [List.length_cons, List.length_append, List.length_nil]
        omega

/-! ## What the peer completes -/

/-- A receiver completes a transfer on an END only. -/
theorem length_completions_le (r : Reassembler) (fs : List Frame) :
    (completions (receiver.outputs r fs)).length ≤ fs.countP isEnd := by
  induction fs generalizing r with
  | nil => exact Nat.le_refl 0
  | cons f fs ih =>
      have hone : (completions [(r.feed f).2]).length ≤ if isEnd f then 1 else 0 := by
        cases ho : (r.feed f).2 with
        | complete k d =>
            cases hp : parse f with
            | none =>
                rw [Reassembler.feed, hp] at ho
                cases ho
            | some p =>
                rw [Reassembler.feed_of_parse _ hp] at ho
                have ht := (Reassembler.feedParsed_complete ho).1
                rw [type_of_parse hp] at ht
                rw [if_pos (by simp [isEnd, ht])]
                exact Nat.le_refl 1
        | _ => exact Nat.zero_le _
      have hsplit : receiver.outputs r (f :: fs)
          = [(r.feed f).2] ++ receiver.outputs (r.feed f).1 fs := rfl
      rw [hsplit, completions_append, List.length_append, List.countP_cons, Nat.add_comm]
      exact Nat.add_le_add (ih _) hone

theorem completions_eq_nil {r : Reassembler} {fs : List Frame} (h : fs.countP isEnd = 0) :
    completions (receiver.outputs r fs) = [] :=
  List.eq_nil_of_length_eq_zero
    (Nat.le_zero.mp (h ▸ length_completions_le r fs))

/-- What a lossless channel delivers meets the account of what was written. -/
theorem wrote_of_arrives {frames : List Frame} {acts : List SendAct} {s : Linux.Retry}
    (h : (Linux.sendWithRetry frames).exec Linux.start acts = some s) {del : List Frame}
    (hdel : Arrives acts del) : Wrote frames del s := by
  refine (Linux.sendWithRetry frames).exec_induction
    (P := fun as s => ∀ del, Arrives as del → Wrote frames del s) ?_ ?_ h del hdel
  · rintro del rfl
    rfl
  · intro as a s s' ih hs del hdel
    obtain ⟨d, e, rfl, hd, he⟩ := arrives_append hdel
    have hw := ih d hd
    cases a with
    | write f ok =>
        cases ok with
        | true =>
            obtain ⟨_, rfl, rfl⟩ := he
            exact wrote_write hw (fun _ => rfl) (Or.inr rfl) hs
        | false =>
            rcases he with rfl | ⟨_, rfl, rfl⟩
            · exact wrote_write hw (fun h => by cases h) (Or.inl rfl) hs
            · exact wrote_write hw (fun h => by cases h) (Or.inr rfl) hs
    | _ =>
        cases he
        rw [List.append_nil]
        exact wrote_quiet hw (fun _ _ h => by cases h) hs

/-- An attempt that stalled wrote no END. -/
theorem countP_prior {kind : UInt8} {data : List UInt8} {k : Nat} {prior : List Frame}
    (h : Prior (encodeTransfer kind data) k prior) : prior.countP isEnd = 0 := by
  rw [List.countP_eq_zero]
  intro f hf
  rcases mem_before_end h (List.mem_append_left _ hf) with rfl | rfl | hf
  · exact (by decide : ¬ decide (tStart = tEnd) = true)
  · exact (by decide : ¬ decide (tAbort = tEnd) = true)
  · obtain ⟨s, c, rfl⟩ := dataPart_frames data f hf
    exact (by decide : ¬ decide (tData = tEnd) = true)

/-! ## One call -/

/-- At most one END, so at most one completion over a channel that keeps the
order. -/
def AtMostOnce (acts : List SendAct) : Prop :=
  (tried acts).countP isEnd ≤ 1 ∧
    ∀ (r : Reassembler) (del : List Frame), del.Sublist (tried acts) →
      (completions (receiver.outputs r del)).length ≤ 1

/-- Over a lossless channel the peer completes exactly these transfers. -/
def Completes (acts : List SendAct) (ts : List (UInt8 × List UInt8)) : Prop :=
  ∀ (r : Reassembler) (del : List Frame), Arrives acts del →
    completions (receiver.outputs r del) = ts

theorem Ended.atMostOnce {acts : List SendAct} {s : Linux.Retry} (h : Ended acts s) :
    AtMostOnce acts := by
  have hone : (tried acts).countP isEnd ≤ 1 := by
    match s, h with
    | .running _ _, h => exact Nat.le_trans (Nat.le_of_eq h) (Nat.zero_le 1)
    | .done (.error false), h => exact Nat.le_trans (Nat.le_of_eq h) (Nat.zero_le 1)
    | .done (.ok ()), h => exact h
    | .done (.error true), h => exact h.1
  refine ⟨hone, ?_⟩
  intro r del hdel
  exact Nat.le_trans (length_completions_le r del)
    (Nat.le_trans (hdel.countP_le) hone)

section Call
variable {kind : UInt8} {data : List UInt8} {acts : List SendAct}

theorem completes_of_ok (hlen : data.length ≤ maxTransfer.toNat)
    (h : (Linux.sendWithRetry (encodeTransfer kind data)).exec Linux.start acts
      = some (.done (.ok ()))) : Completes acts [(kind, data)] := by
  intro r del hdel
  obtain ⟨k, prior, hprior, rfl⟩ := wrote_of_arrives h hdel
  rw [Mealy.outputs_append, completions_append, completions_eq_nil (countP_prior hprior),
    completions_encodeTransfer hlen]
  rfl

theorem completes_of_abandoned
    (h : (Linux.sendWithRetry (encodeTransfer kind data)).exec Linux.start acts
      = some (.done (.error false))) : Completes acts [] := by
  intro r del hdel
  have hnone : (tried acts).countP isEnd = 0 :=
    ended_of_run (endsLast_encodeTransfer kind data) h
  exact completions_eq_nil (Nat.le_zero.mp (hnone ▸ hdel.sublist.countP_le))

/-- The helper returns `false`: the frame whose write failed is END at worst,
and END was not written. -/
theorem completions_of_failed {s : Linux.Retry}
    (h : (Linux.sendWithRetry (encodeTransfer kind data)).exec Linux.start acts = some s)
    (hs : toWindows s = .done false) {del : List Frame} (hdel : del.Sublist (written acts))
    (r : Reassembler) : completions (receiver.outputs r del) = [] := by
  have hended := ended_of_run (endsLast_encodeTransfer kind data) h
  have hnone : (written acts).countP isEnd = 0 := by
    match s, hended, hs with
    | .running _ _, hended, _ => exact countP_written hended
    | .done (.error false), hended, _ => exact countP_written hended
    | .done (.error true), hended, _ => exact hended.2
    | .done (.ok ()), _, hs => cases hs
  exact completions_eq_nil (Nat.le_zero.mp (hnone ▸ hdel.countP_le))

end Call

/-- **At most once.** Whatever the schedule of ACKs, stalls, timeouts and write
failures, one call writes at most one END, and the peer completes at most one
transfer of it, in whatever state it was; over a lossless channel, the
transfer once on success, and none when the sender gave up. -/
theorem at_most_once (kind : UInt8) (data : List UInt8) (acts : List SendAct) :
    (∀ s, (Linux.sendWithRetry (encodeTransfer kind data)).exec Linux.start acts = some s →
      AtMostOnce acts ∧ (data.length ≤ maxTransfer.toNat →
        (s = .done (.ok ()) → Completes acts [(kind, data)]) ∧
        (s = .done (.error false) → Completes acts []))) ∧
    (∀ s, (Windows.sendFrames (encodeTransfer kind data)).exec Windows.start acts = some s →
      AtMostOnce acts ∧ (data.length ≤ maxTransfer.toNat →
        (s = .done true → Completes acts [(kind, data)]) ∧
        (s = .done false → ∀ (r : Reassembler) (del : List Frame), del.Sublist (written acts) →
          completions (receiver.outputs r del) = []))) := by
  constructor
  · intro s h
    refine ⟨(ended_of_run (endsLast_encodeTransfer kind data) h).atMostOnce, fun hlen => ⟨?_, ?_⟩⟩
    · rintro rfl
      exact completes_of_ok hlen h
    · rintro rfl
      exact completes_of_abandoned h
  · intro t h
    rw [exec_windows, Option.map_eq_some_iff] at h
    obtain ⟨s, h, rfl⟩ := h
    refine ⟨(ended_of_run (endsLast_encodeTransfer kind data) h).atMostOnce, fun hlen => ⟨?_, ?_⟩⟩
    · intro ht
      rw [toWindows_done_true.mp ht] at h
      exact completes_of_ok hlen h
    · intro ht r del hdel
      exact completions_of_failed h ht hdel r

/-! ## A call that stalls, and sends again -/

section Stall
variable (data : List UInt8)

/-- Nothing is acknowledged until the stall clock runs out. -/
def stalled : List SendAct :=
  [.store, .write (startFrame kindText data) true] ++
    Linux.passes 0 ((dataPart data).take 256) ++
    [.load 0, .expired true, .write abortFrame true]

/-- The second attempt gets one ACK on the way. -/
def again : List SendAct :=
  [.store, .write (startFrame kindText data) true] ++
    (Linux.passes 0 ((dataPart data).take 128) ++ Linux.passes 128 ((dataPart data).drop 128)) ++
    [.write (endFrame data) true]

variable {data}

/-- The window is closed, the stall clock has run out, and the first attempt is
aborted. -/
theorem exec_abort {frames : List Frame} {i : Nat} {sent v : UInt32}
    (hclosed : windowClosed sent v = true) :
    (Linux.sendWithRetry frames).exec (.running 0 (.window i sent))
      [.load v, .expired true, .write abortFrame true] = some (.running 1 .entry) := by
  have hload : (Linux.sendWithRetry frames).step (.running 0 (.window i sent)) (.load v) =
      some (.running 0 (.stall i sent)) := by
    simp only [Linux.sendWithRetry, Linux.sendTransfer, hclosed, if_true, Option.map_some]
    rfl
  have hexpired : (Linux.sendWithRetry frames).step (.running 0 (.stall i sent)) (.expired true) =
      some (.running 0 .abort) := rfl
  have habort : (Linux.sendWithRetry frames).step (.running 0 .abort) (.write abortFrame true) =
      some (.running 1 .entry) := by
    simp only [Linux.sendWithRetry, Linux.sendTransfer, if_true, Option.map_some]
    rfl
  rw [Lts.exec_cons, hload, Option.bind_some, Lts.exec_cons, hexpired, Option.bind_some,
    Lts.exec_cons, habort, Option.bind_some, Lts.exec_nil]

theorem exec_stalled (hcount : (dataPart data).length = 300) :
    (Linux.sendWithRetry (encodeTransfer kindText data)).exec Linux.start (stalled data) =
      some (.running 1 .entry) := by
  have hsplit : dataPart data = [] ++ ((dataPart data).take 256 ++ (dataPart data).drop 256) :=
    (List.take_append_drop 256 _).symm
  have htake : ((dataPart data).take 256).length = 256 := by
    rw [List.length_take, hcount]
    rfl
  obtain ⟨sent, hsent, hexec⟩ := Linux.exec_data kindText data 0 (v := 0) hsplit
    (rfl : (0 : UInt32).toNat = _) (by rw [htake]; decide) (by rw [hcount]; decide)
  rw [List.length_nil, htake, Nat.zero_add, Nat.zero_add] at hexec
  rw [List.length_nil, htake] at hsent
  have hlen := Linux.length_frames kindText data
  have hat : Linux.atFrame (encodeTransfer kindText data) 257 sent = .window 257 sent := by
    rw [Linux.atFrame, if_pos (by omega), if_pos]
    simp [windowed, hlen, hcount]
  have hclosed : windowClosed sent 0 = true := by
    refine Bool.not_eq_false _ ▸ ?_
    rw [windowClosed_eq_false, hsent]
    decide
  rw [hat] at hexec
  exact Lts.exec_trans _ (Lts.exec_trans _ (Linux.exec_begin kindText data 0) hexec)
    (exec_abort hclosed)

theorem exec_again (hcount : (dataPart data).length = 300) :
    (Linux.sendWithRetry (encodeTransfer kindText data)).exec (.running 1 .entry) (again data) =
      some (.done (.ok ())) := by
  have htake : ((dataPart data).take 128).length = 128 := by
    rw [List.length_take, hcount]
    rfl
  have hdrop : ((dataPart data).drop 128).length = 172 := by
    rw [List.length_drop, hcount]
  have hfirst : dataPart data = [] ++ ((dataPart data).take 128 ++ (dataPart data).drop 128) :=
    (List.take_append_drop 128 _).symm
  have hsecond : dataPart data = (dataPart data).take 128 ++ ((dataPart data).drop 128 ++ []) := by
    rw [List.append_nil, List.take_append_drop]
  obtain ⟨sent₁, hsent₁, h₁⟩ := Linux.exec_data kindText data 1 (v := 0) hfirst
    (rfl : (0 : UInt32).toNat = _) (by rw [htake]; decide) (by rw [hcount]; decide)
  rw [List.length_nil, Nat.zero_add, Nat.zero_add] at h₁
  obtain ⟨sent₂, -, h₂⟩ := Linux.exec_data kindText data 1 (v := 128) hsecond
    (hsent₁.trans (Nat.zero_add _)) (by rw [htake, hdrop]; decide) (by rw [hcount]; decide)
  have hend : ((dataPart data).take 128).length + ((dataPart data).drop 128).length =
      (dataPart data).length := by
    rw [htake, hdrop, hcount]
  rw [hend] at h₂
  exact Lts.exec_trans _ (Lts.exec_trans _ (Linux.exec_begin kindText data 1)
    (Lts.exec_trans _ h₁ h₂)) (Linux.exec_finish kindText data 1 sent₂)

end Stall

/-- A text of 305400 bytes: the first attempt is aborted, the second goes
through, and the peer gets it once. -/
theorem at_most_once_again : ∃ data : List UInt8, data.length = 305400 ∧
    .write abortFrame true ∈ stalled data ∧ AtMostOnce (stalled data ++ again data) ∧
      Completes (stalled data ++ again data) [(kindText, data)] := by
  obtain ⟨data, hlen⟩ : ∃ data : List UInt8, data.length = 305400 :=
    ⟨List.replicate 305400 0, List.length_replicate⟩
  have hcount : (dataPart data).length = 300 := by
    rw [length_dataPart, hlen]
    rfl
  have hrun := Lts.exec_trans _ (exec_stalled hcount) (exec_again hcount)
  obtain ⟨hmost, hcompletes⟩ := (at_most_once kindText data (stalled data ++ again data)).1 _ hrun
  exact ⟨data, hlen, by simp [stalled], hmost, (hcompletes (by rw [hlen]; decide)).1 rfl⟩

end Beaglewing.Agents
