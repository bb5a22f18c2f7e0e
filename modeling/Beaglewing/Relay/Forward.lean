/-
# `Relay.Forward` — what gets through the relay to the host

The other direction of `Relay.Align`.  The accept loop cuts what an agent
sends into frames, answers the PINGs, and writes the rest to the HID node; a
frame that the host does not take in time, or whose write fails, is dropped.
The connections are served one after the other, in the order they arrived.

| result | what it says |
|---|---|
| `forwarded` | the host's frames are those of the connections in that order, PINGs taken out, but for frames dropped |
| `completes_attributed` | a transfer that the host completes is one an agent sent, as far as `Clipframe.Loss` can tell on any lossy channel |

The proof keeps a log of the frames read, each with its connection
(`Forward`).

## What it is not

A connection is read to the end of what came on it, so nothing is said of bytes
that a reset connection loses on the way.  The second result is of transfers
that the receiver's limit allows (`maxTransfer`): the agents do not always keep
to it (`Agents.Cap`).
-/
import Beaglewing.Base.Lists
import Beaglewing.Clipframe.Loss
import Beaglewing.Gadget.Descriptors
import Beaglewing.Relay.Replace

namespace Beaglewing.Relay

open Base Clipframe
open Base.HidReport (width said)
open Gadget (hidData fields_data said_data width_input)

/-- What an agent sent on a connection. -/
def sentOn (c : Nat) : List Act → List UInt8
  | [] => []
  | .send d bytes :: as => if d = c then bytes ++ sentOn c as else sentOn c as
  | _ :: as => sentOn c as

/-- Frames on a stream. -/
def stream (fs : List Frame) : List UInt8 := fs.flatMap Frame.bytes

/-- The frames of one connection. -/
def readOn (c : Nat) (log : List (Nat × Frame)) : List Frame :=
  (log.filter fun x => x.1 = c).map Prod.snd

/-- All but the PINGs. -/
def passed (log : List (Nat × Frame)) : List Frame :=
  (log.map Prod.snd).filter fun f => f.byte 0 ≠ 0x01

/-- The frame that is being written to the HID node. -/
def Main.inHand : Main → List Frame
  | .hid _ f => [f]
  | _ => []

theorem sentOn_append (c : Nat) (as bs : List Act) :
    sentOn c (as ++ bs) = sentOn c as ++ sentOn c bs := by
  induction as with
  | nil => rfl
  | cons a as ih =>
      cases a with
      | send d bytes =>
          simp only [List.cons_append, sentOn, ih]
          split
          · rw [List.append_assoc]
          · rfl
      | _ => exact ih

theorem readOn_snoc (c : Nat) (log : List (Nat × Frame)) (x : Nat × Frame) :
    readOn c (log ++ [x]) = readOn c log ++ if x.1 = c then [x.2] else [] := by
  rw [readOn, readOn, List.filter_append, List.map_append, List.filter_singleton]
  by_cases hx : x.1 = c
  · simp [hx]
  · simp [hx]

theorem passed_snoc (log : List (Nat × Frame)) (x : Nat × Frame) :
    passed (log ++ [x]) = passed log ++ if x.2.byte 0 = 0x01 then [] else [x.2] := by
  rw [passed, passed, List.map_append, List.filter_append]
  by_cases hx : x.2.byte 0 = 0x01
  · simp [hx]
  · simp [hx]

theorem stream_append (fs gs : List Frame) : stream (fs ++ gs) = stream fs ++ stream gs :=
  List.flatMap_append

theorem readFrame_eq_some {input rest : List UInt8} {f : Frame}
    (h : readFrame input = some (f, rest)) : input = f.bytes ++ rest := by
  rw [readFrame] at h
  split at h
  · cases h
    exact (List.take_append_drop _ _).symm
  · cases h

theorem readFrame_eq_none {input : List UInt8} (h : readFrame input = none) :
    input.length < frameLen := by
  rw [readFrame] at h
  split at h
  · cases h
  · rename_i hlt
    exact Nat.lt_of_not_le hlt

/-- A frame fills a report of the data function, and the host reads its bytes in
it, one after the other. -/
theorem reads_frame (f : Frame) :
    (HidReport.fields hidData.reportDesc).map (width · .input) = some (8 * f.bytes.length) ∧
      (HidReport.fields hidData.reportDesc).map (said · f.bytes) =
        some (f.bytes.map Gadget.Data.byte) := by
  have hlength : f.bytes.length = hidData.reportLength := f.size
  refine ⟨?_, ?_⟩
  · rw [hlength]
    exact width_input hidData (by simp)
  · rw [fields_data, Option.map_some, said_data hlength]

/-! ## The log of the frames read -/

/-- No PONG to the connection fails. -/
def Answered (c : Nat) (as : List Act) : Prop :=
  relay.Meets (fun s a => a = .pongFail → c ∉ s.main.served) .init as

/-- The log goes with the run so far and the state. -/
structure Forward (as : List Act) (s : State) (log : List (Nat × Frame)) : Prop where
  order : (log.map Prod.fst ++ s.line).Pairwise (· ≤ ·)
  arrived : ∀ c ∈ log.map Prod.fst ++ s.line, c < s.arrived
  sent : ∀ c, stream (readOn c log) ++ (s.conns c).input = sentOn c as
  host : (s.toHost ++ s.main.inHand).Sublist (passed log)
  kept : (∀ a ∈ as, a ≠ .writeFrame false) → s.toHost ++ s.main.inHand = passed log
  left : ∀ c < s.arrived, Answered c as → c ∉ s.line ∨ s.main = .ended c →
    (s.conns c).eof = true ∧ (s.conns c).input.length < frameLen

/-- The steps that neither bring bytes nor take a frame. -/
def Quiet : Act → Prop
  | .send _ _ | .readExact | .writeFrame _ => False
  | _ => True

/-- What such a step leaves alone. -/
structure Same (s : State) (a : Act) (s' : State) : Prop where
  input : ∀ c, (s'.conns c).input = (s.conns c).input
  toHost : s'.toHost = s.toHost
  inHand : s'.main.inHand = s.main.inHand
  arrived : s'.arrived = s.arrived ∨ a = .connect
  ended : ∀ c, s'.main = .ended c → s.main = .ended c ∨ a = .pongFail ∧ c ∈ s.main.served

theorem same_of_quiet {s s' : State} {a : Act} (ha : Quiet a) (h : relay.step s a = some s') :
    Same s a s' := by
  cases a with
  | send | readExact | writeFrame => exact ha.elim
  | connect =>
      cases h
      exact ⟨fun _ => rfl, rfl, rfl, .inr rfl, fun _ => .inl⟩
  | close c =>
      cases h
      exact ⟨s.setConn_keeps c Conn.input rfl, rfl, rfl, .inl rfl, fun _ => .inl⟩
  | accept =>
      obtain ⟨c, rest, hm, -, rfl⟩ := accept_eq_some h
      exact ⟨fun _ => rfl, rfl, by rw [hm]; rfl, .inl rfl, fun _ h => by cases h⟩
  | setCurrent =>
      obtain ⟨c, hm, -, rfl⟩ := setCurrent_eq_some h
      exact ⟨fun _ => rfl, rfl, by rw [hm]; rfl, .inl rfl, fun _ h => by cases h⟩
  | pongPart n =>
      obtain ⟨c, rest, hm, -, -, -, rfl⟩ := pongPart_eq_some h
      refine ⟨s.setConn_keeps c Conn.input rfl, rfl, ?_, .inl rfl, ?_⟩
      · rw [hm]
        simp only [State.afterPong]
        split <;> rfl
      · intro d hd
        simp only [State.afterPong] at hd
        split at hd <;> cases hd
  | pongFail =>
      obtain ⟨c, rest, hm, -, rfl⟩ := pongFail_eq_some h
      refine ⟨s.setConn_keeps c Conn.input rfl, rfl, by rw [hm]; rfl, .inl rfl, ?_⟩
      rintro d ⟨⟩
      exact .inr ⟨rfl, by rw [hm]; exact List.mem_cons_self⟩
  | clear known =>
      obtain ⟨c, hm, -, rfl⟩ := clear_eq_some h
      exact ⟨fun _ => rfl, rfl, by rw [hm]; rfl, .inl rfl, fun _ h => by cases h⟩
  | report f =>
      obtain ⟨-, rfl⟩ := report_eq_some h
      exact ⟨fun _ => rfl, rfl, rfl, .inl rfl, fun _ => .inl⟩
  | lock =>
      obtain ⟨f, -, rfl⟩ := lock_eq_some h
      rw [State.lock]
      split <;> exact ⟨fun _ => rfl, rfl, rfl, .inl rfl, fun _ => .inl⟩
  | pumpPart n =>
      obtain ⟨c, rest, -, -, -, -, rfl⟩ := pumpPart_eq_some h
      exact ⟨s.setConn_keeps c Conn.input rfl, rfl, rfl, .inl rfl, fun _ => .inl⟩
  | pumpFail =>
      obtain ⟨c, rest, -, -, rfl⟩ := pumpFail_eq_some h
      exact ⟨s.setConn_keeps c Conn.input rfl, rfl, rfl, .inl rfl, fun _ => .inl⟩

namespace Forward
variable {as : List Act} {s s' : State} {a : Act} {log : List (Nat × Frame)}

theorem init : Forward [] .init [] where
  order := List.Pairwise.nil
  arrived _ h := by cases h
  sent _ := rfl
  host := List.Sublist.refl _
  kept _ := rfl
  left _ h := absurd h (Nat.not_lt_zero _)

/-- The order of the connections is kept, and what waits has arrived. -/
theorem line (h : Forward as s log) (hst : relay.step s a = some s') :
    (log.map Prod.fst ++ s'.line).Pairwise (· ≤ ·) ∧
      ∀ c ∈ log.map Prod.fst ++ s'.line, c < s'.arrived := by
  have he := step_effect hst
  obtain hline | ⟨hline, harrived, -⟩ | ⟨c, -, hline⟩ := he.line
  · rw [hline]
    exact ⟨h.order, fun c hc => Nat.lt_of_lt_of_le (h.arrived c hc) he.arrived⟩
  · rw [hline, ← List.append_assoc]
    refine ⟨List.pairwise_append.mpr ⟨h.order, List.pairwise_singleton _ _, ?_⟩, ?_⟩
    · intro c hc d hd
      rw [List.mem_singleton.mp hd]
      exact Nat.le_of_lt (h.arrived c hc)
    · intro c hc
      rw [harrived]
      rcases List.mem_append.mp hc with hc | hc
      · exact Nat.lt_succ_of_lt (h.arrived c hc)
      · rw [List.mem_singleton.mp hc]
        exact Nat.lt_succ_self _
  · have hsub : (log.map Prod.fst ++ s'.line).Sublist (log.map Prod.fst ++ s.line) := by
      rw [hline]
      exact (List.sublist_cons_self c _).append_left _
    exact ⟨h.order.sublist hsub,
      fun d hd => Nat.lt_of_lt_of_le (h.arrived d (hsub.subset hd)) he.arrived⟩

/-- Who had been left is left, and who is left now was in the line. -/
theorem left_step (h : Forward as s log) (hst : relay.step s a = some s') {c : Nat}
    (hno : Answered c as) (harrived : s'.arrived = s.arrived ∨ a = .connect)
    (hinput : ∀ c, (s.conns c).eof = true →
      (s'.conns c).input.length ≤ (s.conns c).input.length)
    (hended : s'.main = .ended c → s.main = .ended c ∨
      (s'.conns c).eof = true ∧ (s'.conns c).input.length < frameLen)
    (hc : c < s'.arrived) (hgone : c ∉ s'.line ∨ s'.main = .ended c) :
    (s'.conns c).eof = true ∧ (s'.conns c).input.length < frameLen := by
  have he := step_effect hst
  have hkeep : c < s.arrived → c ∉ s.line ∨ s.main = .ended c →
      (s'.conns c).eof = true ∧ (s'.conns c).input.length < frameLen := by
    intro hc hgone
    obtain ⟨heof, hlen⟩ := h.left c hc hno hgone
    exact ⟨he.eof c heof, Nat.lt_of_le_of_lt (hinput c heof) hlen⟩
  have hline_lt : ∀ d ∈ s'.line, d < s'.arrived := fun d hd =>
    (h.line hst).2 d (List.mem_append_right _ hd)
  rcases hgone with hgone | hgone
  · have hlt : c < s.arrived := by
      rcases harrived with harrived | rfl
      · rwa [← harrived]
      · cases hst
        refine Nat.lt_of_le_of_ne (Nat.le_of_lt_succ hc) ?_
        rintro rfl
        exact hgone (by simp [State.line])
    obtain hline | ⟨hline, -⟩ | ⟨d, hd, hline⟩ := he.line
    · exact hkeep hlt (.inl (hline ▸ hgone))
    · refine hkeep hlt (.inl fun hmem => hgone ?_)
      rw [hline]
      exact List.mem_append_left _ hmem
    · by_cases hcd : c = d
      · exact hkeep hlt (.inr (hcd ▸ hd))
      · refine hkeep hlt (.inl fun hmem => ?_)
        rw [hline] at hmem
        exact (List.mem_cons.mp hmem).elim hcd hgone
  · obtain hwas | hnow := hended hgone
    · have hmem : c ∈ s.line := by simp [State.line, hwas, Main.served]
      exact hkeep (h.arrived c (List.mem_append_right _ hmem)) (.inr hwas)
    · exact hnow

theorem sentOn_snoc (c : Nat) (ha : ∀ d bytes, a ≠ .send d bytes) :
    sentOn c (as ++ [a]) = sentOn c as := by
  rw [sentOn_append]
  cases a with
  | send d bytes => exact absurd rfl (ha d bytes)
  | _ => exact List.append_nil _

/-- A frame more for the connection that is served. -/
theorem line_snoc (f : Frame) {c : Nat} {rest : List Nat}
    (horder : (log.map Prod.fst ++ c :: rest).Pairwise (· ≤ ·)) :
    ((log ++ [(c, f)]).map Prod.fst ++ c :: rest).Pairwise (· ≤ ·) := by
  obtain ⟨hlog, hrest, hcross⟩ := List.pairwise_append.mp horder
  rw [List.map_append, List.append_assoc]
  refine List.pairwise_append.mpr ⟨hlog, List.pairwise_cons.mpr ⟨?_, hrest⟩, ?_⟩
  · intro d hd
    rcases List.mem_cons.mp hd with rfl | hd
    · exact Nat.le_refl _
    · exact (List.pairwise_cons.mp hrest).1 d hd
  · intro d hd e he
    rcases List.mem_cons.mp he with rfl | he
    · exact hcross d hd _ List.mem_cons_self
    · exact hcross d hd e he

theorem quiet (h : Forward as s log) (ha : Quiet a) (hexec : relay.exec .init as = some s)
    (hst : relay.step s a = some s') :
    Forward (as ++ [a]) s' log := by
  have hsame := same_of_quiet ha hst
  obtain ⟨horder, harrived⟩ := h.line hst
  refine ⟨horder, harrived, ?_, ?_, ?_, ?_⟩
  · intro c
    rw [hsame.input, sentOn_snoc c (by rintro d bytes rfl; exact ha)]
    exact h.sent c
  · rw [hsame.toHost, hsame.inHand]
    exact h.host
  · intro hno
    rw [hsame.toHost, hsame.inHand]
    exact h.kept fun b hb => hno b (List.mem_append_left _ hb)
  · intro c hc hno hgone
    obtain ⟨hbefore, hnow⟩ := relay.meets_snoc hno hexec
    refine h.left_step hst hbefore hsame.arrived (fun d _ => by rw [hsame.input]) ?_ hc hgone
    intro hd
    exact (hsame.ended c hd).imp_right fun ⟨hfail, hserved⟩ => absurd hserved (hnow hfail)

theorem send (h : Forward as s log) {c : Nat} {bytes : List UInt8}
    (hexec : relay.exec .init as = some s) (hst : relay.step s (.send c bytes) = some s') :
    Forward (as ++ [.send c bytes]) s' log := by
  obtain ⟨horder, harrived⟩ := h.line hst
  have hopen : (s.conns c).eof = false := by
    simp only [relay] at hst
    split at hst
    · cases hst
    · rename_i heof
      exact Bool.eq_false_iff.mpr heof
  have heq := send_eq_some hst
  have hinput : ∀ d, (s'.conns d).input =
      (s.conns d).input ++ if c = d then bytes else [] := by
    intro d
    rw [heq, State.setConn_conns]
    by_cases hd : d = c
    · simp [hd]
    · simp [hd, Ne.symm hd]
  refine ⟨horder, harrived, ?_, ?_, ?_, ?_⟩
  · intro d
    rw [hinput, ← List.append_assoc, h.sent, sentOn_append]
    by_cases hd : c = d
    · simp [sentOn, hd]
    · simp [sentOn, hd]
  · rw [heq]
    exact h.host
  · intro hno
    rw [heq]
    exact h.kept fun b hb => hno b (List.mem_append_left _ hb)
  · intro d hd hno hgone
    refine h.left_step hst (relay.meets_snoc hno hexec).1 (.inl (by rw [heq]; rfl)) ?_
      (fun he => .inl ?_) hd hgone
    · intro e he
      have hne : c ≠ e := by
        rintro rfl
        rw [hopen] at he
        cases he
      rw [hinput, if_neg hne, List.append_nil]
    · rw [heq] at he
      exact he

theorem writeFrame (h : Forward as s log) {written : Bool}
    (hexec : relay.exec .init as = some s) (hst : relay.step s (.writeFrame written) = some s') :
    Forward (as ++ [.writeFrame written]) s' log := by
  obtain ⟨horder, harrived⟩ := h.line hst
  obtain ⟨c, f, hm, rfl⟩ := writeFrame_eq_some hst
  have hhand : s.main.inHand = [f] := by rw [hm]; rfl
  have hhost := h.host
  rw [hhand] at hhost
  refine ⟨horder, harrived, ?_, ?_, ?_, ?_⟩
  · intro d
    rw [sentOn_snoc d (by rintro e bytes heq; cases heq)]
    exact h.sent d
  · simp only [Main.inHand, List.append_nil]
    split
    · exact hhost
    · exact (List.sublist_append_left _ _).trans hhost
  · intro hno
    have hwritten : written = true := by
      have := hno _ (List.mem_append_right _ List.mem_cons_self)
      simpa using this
    have hkept := h.kept fun b hb => hno b (List.mem_append_left _ hb)
    simp only [hwritten, Main.inHand, List.append_nil, if_true]
    rw [← hkept, hhand]
  · intro d hd hno hgone
    exact h.left_step hst (relay.meets_snoc hno hexec).1 (.inl rfl) (fun _ _ => Nat.le_refl _)
      (fun he => by cases he) hd hgone

/-- A frame is read: it is the log's next. -/
theorem readExact (h : Forward as s log) (hexec : relay.exec .init as = some s)
    (hst : relay.step s .readExact = some s') :
    ∃ log', Forward (as ++ [.readExact]) s' log' := by
  obtain ⟨horder, harrived⟩ := h.line hst
  obtain ⟨c, hm, hread⟩ := readExact_eq_some hst
  have hhand : s.main.inHand = [] := by rw [hm]; rfl
  have hhost := h.host
  rw [hhand, List.append_nil] at hhost
  have hnosend : ∀ d (bytes : List UInt8), Act.readExact ≠ .send d bytes :=
    fun d bytes heq => by cases heq
  rcases hread with ⟨f, rest, hf, rfl⟩ | ⟨heof, hnone, rfl⟩
  · have hinput : ∀ d, ((s.setConn c { s.conns c with input := rest }).conns d).input =
        if d = c then rest else (s.conns d).input := by
      intro d
      rw [State.setConn_conns]
      split <;> rfl
    have hline : s.line = c :: s.backlog := by rw [State.line, hm]; rfl
    have hserved : (if f.byte 0 = 0x01 then Main.pong c pong.bytes else .hid c f).served = [c] := by
      split <;> rfl
    have hcut := readFrame_eq_some hf
    have hhand' : (if f.byte 0 = 0x01 then Main.pong c pong.bytes else .hid c f).inHand =
        if f.byte 0 = 0x01 then [] else [f] := by
      split <;> rfl
    refine ⟨log ++ [(c, f)], ?_, ?_, ?_, ?_, ?_, ?_⟩
    · rw [State.line, hserved]
      have hbefore := h.order
      rw [hline] at hbefore
      exact line_snoc f hbefore
    · intro d hd
      refine harrived d ?_
      simp only [State.line, hserved, List.map_append, List.mem_append] at hd ⊢
      rcases hd with (hd | hd) | hd
      · exact .inl hd
      · exact .inr (.inl hd)
      · exact .inr hd
    · intro d
      rw [sentOn_snoc d hnosend, ← h.sent d, readOn_snoc, stream_append, hinput]
      by_cases hd : c = d
      · simp [hd.symm, hcut, stream]
      · simp [hd, Ne.symm hd, stream]
    · rw [hhand', passed_snoc]
      exact hhost.append_right _
    · intro hno
      have hkept := h.kept fun b hb => hno b (List.mem_append_left _ hb)
      rw [hhand, List.append_nil] at hkept
      rw [hhand', passed_snoc, ← hkept]
      rfl
    · intro d hd hno hgone
      refine h.left_step hst (relay.meets_snoc hno hexec).1 (.inl rfl) ?_ ?_ hd hgone
      · intro e he
        rw [hinput]
        split
        · rename_i hec
          rw [hec, hcut, List.length_append]
          exact Nat.le_add_left _ _
        · exact Nat.le_refl _
      · intro he
        split at he <;> cases he
  · refine ⟨log, horder, harrived, ?_, ?_, ?_, ?_⟩
    · intro d
      rw [sentOn_snoc d hnosend]
      exact h.sent d
    · simpa [Main.inHand] using hhost
    · intro hno
      have hkept := h.kept fun b hb => hno b (List.mem_append_left _ hb)
      rwa [hhand] at hkept
    · intro d hd hno hgone
      refine h.left_step hst (relay.meets_snoc hno hexec).1 (.inl rfl) (fun _ _ => Nat.le_refl _)
        ?_ hd hgone
      intro he
      cases he
      exact .inr ⟨heof, readFrame_eq_none hnone⟩

theorem step (h : Forward as s log) (hexec : relay.exec .init as = some s)
    (hst : relay.step s a = some s') : ∃ log', Forward (as ++ [a]) s' log' := by
  cases a with
  | send c bytes => exact ⟨log, h.send hexec hst⟩
  | readExact => exact h.readExact hexec hst
  | writeFrame written => exact ⟨log, h.writeFrame hexec hst⟩
  | _ => exact ⟨log, h.quiet trivial hexec hst⟩

end Forward

theorem forward_run {as : List Act} {s : State} (h : relay.exec .init as = some s) :
    ∃ log, Forward as s log := by
  refine relay.exec_induction_of_all (Q := fun _ => True)
    (P := fun as s => ∃ log, Forward as s log) ⟨[], .init⟩ ?_ h (fun _ _ => trivial)
  rintro as a s s' hexec ⟨log, hlog⟩ - hst
  exact hlog.step hexec hst

/-- **What the host is sent.** In every run there is a log of frames, each
read from the connection it is marked with, in the order of the connections;
the host was sent those that are no PINGs, all of them unless a write to it
failed or it left a frame lying for 10 s.  In each of them it reads the bytes
that were sent.  Of a connection that was left, and that did not fail itself
under a PONG, all whole frames are in the log. -/
theorem forwarded {as : List Act} {s : State} (h : relay.exec .init as = some s) :
    ∃ log : List (Nat × Frame), (log.map Prod.fst).Pairwise (· ≤ ·) ∧
      (∀ c, stream (readOn c log) <+: sentOn c as) ∧ s.toHost.Sublist (passed log) ∧
      ((∀ a ∈ as, a ≠ .writeFrame false) → s.toHost ++ s.main.inHand = passed log) ∧
      (∀ f ∈ s.toHost,
        (HidReport.fields hidData.reportDesc).map (width · .input) = some (8 * f.bytes.length) ∧
          (HidReport.fields hidData.reportDesc).map (said · f.bytes) =
            some (f.bytes.map Gadget.Data.byte)) ∧
      ∀ c < s.arrived, c ∉ s.line → Answered c as →
        ∃ rest, sentOn c as = stream (readOn c log) ++ rest ∧ rest.length < frameLen := by
  obtain ⟨log, hlog⟩ := forward_run h
  refine ⟨log, (List.pairwise_append.mp hlog.order).1, ?_, ?_, hlog.kept,
    fun f _ => reads_frame f, ?_⟩
  · intro c
    exact ⟨_, hlog.sent c⟩
  · exact (List.sublist_append_left _ _).trans hlog.host
  · intro c hc hgone hno
    exact ⟨_, (hlog.sent c).symm, (hlog.left c hc hno (.inl hgone)).2⟩

/-- An agent asks for a PONG and is gone; the next one sends an image. -/
def failedRun : List Act :=
  [.connect, .accept, .setCurrent, .send 0 (frame tPing 0 ⟨[], Nat.zero_le _⟩).bytes, .readExact,
    .close 0, .pongFail, .clear true, .connect, .send 1 (stream (encodeTransfer kindPng [8])),
    .accept, .setCurrent, .readExact, .writeFrame true, .readExact, .writeFrame true, .readExact,
    .writeFrame true, .close 1, .readExact, .clear true]

theorem exec_failedRun : ∃ s, relay.exec .init failedRun = some s ∧ s.arrived = 2 ∧ s.line = [] := by
  have h : (relay.exec .init failedRun).map (fun s => (s.arrived, s.line)) = some (2, []) := by
    decide +kernel
  obtain ⟨s, hs, heq⟩ := Option.map_eq_some_iff.mp h
  obtain ⟨harrived, hline⟩ := Prod.mk.inj heq
  exact ⟨s, hs, harrived, hline⟩

theorem forwarded_failed :
    ∃ s log rest, relay.exec .init failedRun = some s ∧ ¬ Answered 0 failedRun ∧
      s.toHost ++ s.main.inHand = passed log ∧
      stream (encodeTransfer kindPng [8]) = stream (readOn 1 log) ++ rest ∧
      rest.length < frameLen := by
  obtain ⟨s, hs, harrived, hline⟩ := exec_failedRun
  obtain ⟨log, -, -, -, hkept, -, hleft⟩ := forwarded hs
  have hfirst : ¬ Answered 0 failedRun := by
    rw [Answered]
    decide +kernel
  have hsecond : Answered 1 failedRun := by
    rw [Answered]
    decide +kernel
  obtain ⟨rest, hrest, hshort⟩ := hleft 1 (by rw [harrived]; decide) (by rw [hline]; simp) hsecond
  have hsent : sentOn 1 failedRun = stream (encodeTransfer kindPng [8]) := by
    simp [failedRun, sentOn]
  exact ⟨s, log, rest, hs, hfirst, hkept (by decide +kernel), hsent ▸ hrest, hshort⟩

/-! ## Transfers through the relay -/

/-- The beginning of a stream of frames that is frames itself is the beginning
of those. -/
theorem frames_of_stream {fs gs : List Frame} (h : stream fs <+: stream gs) : fs <+: gs := by
  induction fs generalizing gs with
  | nil => exact List.nil_prefix
  | cons f fs ih =>
      rcases gs with _ | ⟨g, gs⟩
      · have hlen := h.length_le
        simp only [stream, List.flatMap_cons, List.length_append, f.size] at hlen
        simp [frameLen] at hlen
      · obtain ⟨rest, hrest⟩ := h
        simp only [stream, List.flatMap_cons, List.append_assoc] at hrest
        obtain ⟨hfg, htail⟩ := List.append_inj hrest (by rw [f.size, g.size])
        have : f = g := by
          cases f
          cases g
          cases hfg
          rfl
        rw [this]
        exact (List.prefix_cons_inj g).mpr (ih ⟨rest, htail⟩)

/-- A frame that moves a transfer. -/
def transferring (f : Frame) : Bool :=
  match parse f with
  | none => false
  | some p => p.t = tStart ∨ p.t = tData ∨ p.t = tEnd ∨ p.t = tAbort

theorem nonTransfer_of_not {f : Frame} (h : transferring f = false) : NonTransfer f := by
  intro p hp
  simp only [transferring, hp, decide_eq_false_iff_not, not_or] at h
  exact h

/-- No PING does. -/
theorem transferring_of_ping {f : Frame} (h : f.byte 0 = 0x01) : transferring f = false := by
  rw [transferring]
  cases hp : parse f with
  | none => rfl
  | some p =>
      have ht : p.t = 0x01 := (type_of_parse hp).trans h
      simp [ht, tStart, tData, tEnd, tAbort]

theorem filter_passed (log : List (Nat × Frame)) :
    (passed log).filter transferring = (log.map Prod.snd).filter transferring := by
  rw [passed, List.filter_filter]
  refine List.filter_congr fun f _ => ?_
  by_cases hf : f.byte 0 = 0x01
  · simp [transferring_of_ping hf]
  · simp [hf]

/-- The receiver completes what it completes without the other frames. -/
theorem completes_filter {fs : List Frame} {f : Frame} {k : UInt8} {d : List UInt8}
    (h : (f, .complete k d) ∈ receiver.trace .default fs) :
    (f, .complete k d) ∈ receiver.trace .default (fs.filter transferring) := by
  have hsilent : ∀ g ∈ fs, transferring g = false → receiver.Silent g :=
    fun g _ hg => (nonTransfer_of_not hg).silent
  rw [← Mealy.trace_filter _ hsilent, List.mem_filter]
  refine ⟨h, ?_⟩
  by_contra hf
  rw [Bool.not_eq_true] at hf
  obtain ⟨pre, post, -, hout⟩ := (Mealy.mem_trace_iff _).mp h
  exact ((nonTransfer_of_not hf).feed_eq _).2 k d hout.symm

/-- What the receiver completes on frames it completes on the same frames with
numbers. -/
theorem completes_numbered {del : List (Nat × Frame)} {f : Frame} {o : FeedResult}
    (h : (f, o) ∈ receiver.trace .default (del.map Prod.snd)) :
    ∃ n, ((n, f), o) ∈ lossyReceiver.trace .default del := by
  obtain ⟨pre, post, hsplit, hout⟩ := (Mealy.mem_trace_iff _).mp h
  obtain ⟨pre', rest, rfl, rfl, hrest⟩ := List.map_eq_append_iff.mp hsplit
  obtain ⟨x, post', rfl, rfl, rfl⟩ := List.map_eq_cons_iff.mp hrest
  refine ⟨x.1, (Mealy.mem_trace_iff _).mpr ⟨pre', post', rfl, ?_⟩⟩
  rw [hout, lossyReceiver, Mealy.run_comap]
  rfl

/-- **Transfers through the relay.** Agents that send whole frames on each
connection, the transfers one after the other and any of them cut short, with
any other frames in between; a host that reads some of what it is sent, in
that order.  What it completes is what `Clipframe.Loss` says of a channel that
only loses frames: the transfer whose END it got, if it got the START. -/
theorem completes_attributed {as : List Act} {s : State} (h : relay.exec .init as = some s)
    {sent : Nat → List Frame} (hsent : ∀ c, sentOn c as <+: stream (sent c))
    {ts : List (UInt8 × List UInt8)} (hcap : ∀ t ∈ ts, t.2.length ≤ maxTransfer.toNat)
    (hts : (((List.range s.arrived).flatMap sent).filter transferring).Sublist
      ((sentFrames ts).map Prod.snd))
    {host : List Frame} (hhost : host.Sublist s.toHost) :
    ∃ del : List (Nat × Frame), del.Sublist (sentFrames ts) ∧
      host.filter transferring = del.map Prod.snd ∧
      ∀ f k d, (f, .complete k d) ∈ receiver.trace .default host →
        ∃ n, Attributed ts del (n, f) k d := by
  obtain ⟨log, hlog⟩ := forward_run h
  obtain ⟨horder, -, -⟩ := List.pairwise_append.mp hlog.order
  have hread : ∀ c, (readOn c log).Sublist (sent c) := by
    intro c
    refine (frames_of_stream (List.IsPrefix.trans ⟨_, hlog.sent c⟩ (hsent c))).sublist
  have hall : (log.map Prod.snd).Sublist ((List.range s.arrived).flatMap sent) := by
    rw [map_snd_by_key horder fun c hc => hlog.arrived c (List.mem_append_left _ hc)]
    exact List.Sublist.flatMap_right _ fun c _ => hread c
  have hgot : (host.filter transferring).Sublist ((sentFrames ts).map Prod.snd) := by
    have hpassed : host.Sublist (passed log) :=
      hhost.trans ((List.sublist_append_left _ _).trans hlog.host)
    refine (hpassed.filter transferring).trans ?_
    rw [filter_passed]
    exact (hall.filter transferring).trans hts
  obtain ⟨del, hdel, heq⟩ := List.sublist_map_iff.mp hgot
  refine ⟨del, hdel, heq, ?_⟩
  intro f k d hf
  have hcomplete := completes_filter hf
  rw [heq] at hcomplete
  obtain ⟨n, hn⟩ := completes_numbered hcomplete
  exact ⟨n, complete_of_lossy hcap hdel hn⟩

/-! ## A transfer cut short, and one that gets through -/

/-- The agent's connection fails when two frames of the text are sent; it
connects again and sends an image, with a PING before it. -/
def cutSent : Nat → List Frame
  | 0 => [startFrame kindText [7], frame tData 1 (bytePayload 7)]
  | 1 => frame tPing 0 ⟨[], Nat.zero_le _⟩ :: encodeTransfer kindPng [8]
  | _ => []

/-- The host is asleep when the bytes of the text come. -/
def cutRun : List Act :=
  [.connect, .accept, .setCurrent, .send 0 (stream (cutSent 0)), .readExact, .writeFrame true,
    .readExact, .writeFrame false, .close 0, .connect, .readExact, .clear true, .accept,
    .setCurrent, .send 1 (stream (cutSent 1)), .readExact, .pongPart 1000, .pongPart 24,
    .readExact, .writeFrame true, .readExact, .writeFrame true, .readExact, .writeFrame true]

theorem exec_cutRun : ∃ s, relay.exec .init cutRun = some s ∧ s.arrived = 2 := by
  have h : (relay.exec .init cutRun).map State.arrived = some 2 := by decide +kernel
  exact Option.map_eq_some_iff.mp h

theorem cutRun_sent (c : Nat) : sentOn c cutRun <+: stream (cutSent c) := by
  match c with
  | 0 => simp [cutRun, sentOn]
  | 1 => simp [cutRun, sentOn]
  | c + 2 => simp [cutRun, sentOn]

theorem completes_attributed_cut :
    ∃ s del, relay.exec .init cutRun = some s ∧
      del.Sublist (sentFrames [(kindText, [7]), (kindPng, [8])]) ∧
      ∀ f k d, (f, .complete k d) ∈ receiver.trace .default s.toHost →
        ∃ n, Attributed [(kindText, [7]), (kindPng, [8])] del (n, f) k d := by
  obtain ⟨s, hs, harrived⟩ := exec_cutRun
  have hts : (((List.range s.arrived).flatMap cutSent).filter transferring).Sublist
      ((sentFrames [(kindText, [7]), (kindPng, [8])]).map Prod.snd) := by
    rw [harrived]
    decide +kernel
  obtain ⟨del, hdel, -, hcomplete⟩ := completes_attributed hs cutRun_sent (by decide) hts
    (List.Sublist.refl _)
  exact ⟨s, del, hs, hdel, hcomplete⟩

end Beaglewing.Relay
