/-
# `Input.SendTest` — what `send-test` finds out

`cmd_send_test` of `main.rs`: it moves the pointer, clicks perhaps, types a
line, releases everything, and asks the bridge for its status.  It panics at
a call that fails, at a status in which something is held, and at a status
whose `hid_ok` is false.

| verdict | when |
|---|---|
| `notClean` | never |
| `failing` | the host did not take the last report, one of the pointer's |
| `complete` | it took that one, whatever came of all the others |

Both ends are in `send_test_verdict`, with the bytes between them cut in any
way, and whatever the daemon did before.
-/
import Beaglewing.Bridge.Coalesce
import Beaglewing.Bridge.Daemon
import Beaglewing.Input.Wire

namespace Beaglewing.Input

open Base Bridge

/-! ## The program -/

def diamond : List (UInt16 × UInt16) :=
  [(32768, 32768), (16384, 32768), (32768, 16384), (49152, 32768), (32768, 49152), (32768, 32768)]

/-- "router ok\n" as HID usages. -/
def routerOk : List UInt8 := [0x15, 0x12, 0x18, 0x17, 0x08, 0x15, 0x2c, 0x12, 0x0e, 0x28]

/-- The calls, and what their `expect` says. -/
def sendTestMessages (click : Bool) : List (Message × String) :=
  diamond.map (fun p => (.pointerAbs p.1 p.2, "pointer_abs")) ++
    (if click then [(.pointerButton 0x01, "button down"), (.pointerButton 0x00, "button up")]
    else []) ++
    routerOk.flatMap (fun usage => [(.keyDown usage, "key_down"), (.keyUp usage, "key_up")]) ++
    [(.releaseAll, "release_all")]

/-- How the program ends. -/
inductive Verdict where
  | cannotConnect
  | expected (call : String)
  /-- "state not clean" -/
  | notClean
  /-- "bridge reports HID writes failing" -/
  | failing
  | complete (st : Status)
deriving DecidableEq

/-- Calls one after the other, up to one that fails. -/
def BridgeClient.expects (c : BridgeClient) :
    List (Message × String) → BridgeClient × Option String
  | [] => (c, none)
  | (m, call) :: rest =>
      if (c.sendMessage m).2 then (c.sendMessage m).1.expects rest
      else ((c.sendMessage m).1, some call)

/-- The two assertions. -/
def Status.judge (st : Status) : Verdict :=
  if st.modifiers = 0 ∧ st.heldKeys = 0 ∧ st.buttons = 0 then
    if st.hidOk then .complete st else .failing
  else .notClean

/-- The connection, if there was one, and the verdict. -/
def sendTest (click : Bool) : Dial → Option BridgeClient × Verdict
  | .refused => (none, .cannotConnect)
  | .opened room reply =>
      match BridgeClient.connect (.opened room reply) with
      | none => (none, .cannotConnect)
      | some c =>
          match c.expects (sendTestMessages click) with
          | (c, some call) => (some c, .expected call)
          | (c, none) =>
              match c.status (((BridgeClient.recvRest reply).map Prod.snd).getD []) with
              | none => (some (c.send Protocol.msgGetStatus []).1, .expected "status")
              | some (c, st, _) => (some c, st.judge)

/-! ## Its calls -/

/-- All that it asks of the bridge. -/
def sendTestCalls (click : Bool) : List Call :=
  (sendTestMessages click).map (fun x => .message x.1) ++ [.status]

theorem calls_of_expects {c c' : BridgeClient} {msgs : List (Message × String)}
    (h : c.expects msgs = (c', none)) (replies : List UInt8) (rest : List Call) :
    c.calls replies (msgs.map (fun x => .message x.1) ++ rest) = c'.calls replies rest := by
  induction msgs generalizing c with
  | nil =>
      cases h
      rfl
  | cons x msgs ih =>
      rw [BridgeClient.expects] at h
      split at h
      next hok =>
        rw [List.map_cons, List.cons_append, BridgeClient.calls, if_pos hok]
        exact ih h
      next => cases h

/-- An answer that is read is a STATUS message. -/
theorem answer_of_status {c c' : BridgeClient} {replies rest : List UInt8} {st : Status}
    (h : c.status replies = some (c', st, rest)) :
    ∃ p, BridgeClient.recvRest replies = some ((Protocol.msgStatus, p), rest) ∧
      st = ⟨p.getD 0 0, p.getD 1 0, p.getD 2 0, decide (p.getD 3 0 ≠ 0)⟩ := by
  simp only [BridgeClient.status] at h
  split at h
  · split at h
    next t p rest' hrecv =>
      split at h
      next => cases h
      next hshape =>
        cases h
        refine ⟨p, ?_, rfl⟩
        rw [hrecv, not_not.mp fun ht => hshape (.inl ht)]
    next => cases h
  · cases h

/-- A program that comes to its assertions has made all its calls, and has got
an answer. -/
theorem calls_of_sendTest {click : Bool} {room : Option Nat} {reply : List UInt8}
    {c' : BridgeClient} {verdict : Verdict}
    (h : sendTest click (.opened room reply) = (some c', verdict))
    (hend : ∀ call, verdict ≠ .expected call) :
    ∃ c replies st rest, BridgeClient.connect (.opened room reply) = some c ∧
      replies = ((BridgeClient.recvRest reply).map Prod.snd).getD [] ∧
      c.calls replies (sendTestCalls click) = some (c', [st]) ∧
      (∃ p, BridgeClient.recvRest replies = some ((Protocol.msgStatus, p), rest) ∧
        st = ⟨p.getD 0 0, p.getD 1 0, p.getD 2 0, decide (p.getD 3 0 ≠ 0)⟩) ∧
      verdict = st.judge := by
  simp only [sendTest] at h
  split at h
  next => cases h
  next c hconnect =>
    split at h
    next c₁ call hexpects =>
      cases h
      exact absurd rfl (hend call)
    next c₁ hexpects =>
      split at h
      next =>
        cases h
        exact absurd rfl (hend "status")
      next c₂ st rest hstatus =>
        cases h
        refine ⟨c, _, st, rest, hconnect, rfl, ?_, answer_of_status hstatus, rfl⟩
        rw [sendTestCalls, calls_of_expects hexpects, BridgeClient.calls, hstatus]
        rfl

/-! ## The bridge after the last calls -/

/-- Nothing is held, no position waits, and the last report was one of the
pointer's. -/
structure AtRest (c : Client) : Prop where
  released : c.hid.Released
  pending : c.pendingAbs = none
  last : ∃ report, c.hid.reports.getLast? = some ⟨.ptr, report, c.hid.hidOk⟩

theorem AtRest.flushAbs {c : Client} (h : AtRest c) : AtRest c.flushAbs := by
  rw [flushAbs_none h.pending]
  exact h

/-- A question is answered, and nothing else is done. -/
theorem send_of_status {c c' : Client} {p : List UInt8} (hg : c.greeted = true)
    (h : c.act (Bridge.msgGetStatus, p) = .go c') :
    (c.send msgStatus c.status).2 = true ∧ c' = (c.send msgStatus c.status).1 := by
  have hflush : Client.needsFlush Bridge.msgGetStatus = false := by decide
  rw [Client.act, if_pos hg] at h
  simp only [hflush, Bool.false_eq_true, if_false] at h
  rw [dispatch_status] at h
  split at h
  next hok =>
    cases h
    exact ⟨hok, rfl⟩
  next => cases h

/-- RELEASE_ALL, whatever came before it. -/
theorem atRest_led {c₀ c : Client} {ms : List Item}
    (h : Led Client.act Client.flushAbs c₀ (ms ++ [Message.releaseAll.item]) c) : AtRest c := by
  refine led_snoc (Q := AtRest) (fun _ => AtRest.flushAbs) ?_ h
  intro c c' _ hact
  have hmeaning := meaning_of_act hact
  cases hmeaning
  refine ⟨Hid.released_releaseAll _, pendingAbs_flushAbs c, ?_⟩
  exact ⟨_, List.getLast?_concat⟩

theorem held_of_atRest {c : Client} (h : AtRest c) : held c = ⟨0, 0, 0, c.hid.hidOk⟩ := by
  obtain ⟨hmodifiers, hkeys, hbuttons⟩ := h.released
  have hcount : c.hid.heldKeyCount = 0 := by
    rw [Hid.heldKeyCount, List.countP_eq_zero.mpr]
    · rfl
    · intro k hk
      obtain ⟨i, rfl⟩ := List.mem_ofFn.mp hk
      simp [hkeys i]
  rw [held, hmodifiers, hcount, hbuttons]

/-- The answer to GET_STATUS behind it. -/
theorem answered_led {c₀ : Client} {ms : List Item} {p : Client × List (Item × Status)}
    (h : Led (logged heldAt Client.act) flushLogged (c₀, [])
      (ms ++ [Message.releaseAll.item] ++ [Call.status.item]) p) :
    AtRest p.1 ∧ ∃ log, p.2 = log ++ [(Call.status.item, ⟨0, 0, 0, p.1.hid.hidOk⟩)] := by
  refine led_snoc (Q := fun p => AtRest p.1 ∧
    ∃ log, p.2 = log ++ [(Call.status.item, ⟨0, 0, 0, p.1.hid.hidOk⟩)]) ?_ ?_ h
  · rintro ⟨c, log⟩ ⟨hrest, hlog⟩
    have hsame : flushLogged (c, log) = (c, log) := by
      rw [flushLogged, Prod.map_apply, flushAbs_none hrest.pending]
      rfl
    rw [hsame]
    exact ⟨hrest, hlog⟩
  · rintro p p' hled hact
    have hrest := atRest_led hled.fst
    obtain ⟨c', hc', rfl⟩ := Flow.map_eq_go.mp hact
    have hheldAt : heldAt p.1 Call.status.item = [(Call.status.item, held p.1)] := by
      rw [heldAt, hc']
    have hhid : c'.hid = p.1.hid ∧ c'.pendingAbs = p.1.pendingAbs := by
      obtain ⟨-, rfl⟩ := send_of_status (greeted_of_go hc' (by decide)) hc'
      exact ⟨rfl, rfl⟩
    refine ⟨⟨hhid.1 ▸ hrest.released, hhid.2.trans hrest.pending, hhid.1 ▸ hrest.last⟩, p.2, ?_⟩
    rw [hheldAt, held_of_atRest hrest]
    show _ = p.2 ++ [(Call.status.item, ⟨0, 0, 0, c'.hid.hidOk⟩)]
    rw [hhid.1]

/-- A session that goes on has written its replies. -/
theorem unbroken_led {hid : Hid} {room : Option Nat} {ms : List Item} {c : Client}
    (h : Led Client.act Client.flushAbs (Session.new hid room).client ms c) :
    c.stream.broken = false := by
  have hsend : ∀ (c : Client) (t : UInt8) (p : List UInt8), (c.send t p).2 = true →
      (c.send t p).1.stream.broken = false := by
    intro c t p hok
    rcases c.stream.writeAll_cases (t :: UInt8.ofNat p.length :: p) with
      ⟨room, -, heq⟩ | ⟨sent, room, -, heq⟩
    · simp only [Client.send, heq]
    · simp only [Client.send, heq] at hok
      cases hok
  induction h with
  | start => rfl
  | tidy _ ih => rwa [stream_flushAbs]
  | @act ms m c c' _ hact ih =>
      by_cases hg : c.greeted = true
      · by_cases hm : m.1 = Bridge.msgGetStatus
        · obtain ⟨t, payload⟩ := m
          obtain rfl : t = Bridge.msgGetStatus := hm
          obtain ⟨hok, rfl⟩ := send_of_status hg hact
          exact hsend c _ _ hok
        · rwa [stream_act hg hm hact]
      · rw [Client.act, if_neg hg] at hact
        obtain ⟨-, hok, rfl⟩ := greet_go hact
        exact hsend c _ _ hok

/-! ## Both ends -/

theorem recvRest_append {bytes rest : List UInt8} {x : UInt8 × List UInt8}
    (h : BridgeClient.recvRest bytes = some (x, rest)) (more : List UInt8) :
    BridgeClient.recvRest (bytes ++ more) = some (x, rest ++ more) := by
  rcases bytes with _ | ⟨t, _ | ⟨len, bytes⟩⟩
  · cases h
  · cases h
  · rw [BridgeClient.recvRest] at h
    split at h
    next hlen =>
      cases h
      show BridgeClient.recvRest (t :: len :: (bytes ++ more)) = _
      rw [BridgeClient.recvRest, if_pos (by rw [List.length_append]; omega),
        List.take_append_of_le_length hlen, List.drop_append_of_le_length hlen]
    next => cases h

/-- The answer comes last, to a bridge at rest. -/
theorem sendTestCalls_eq (click : Bool) : ∃ calls, (∀ call ∈ calls, call ≠ Call.status) ∧
    sendTestCalls click = calls ++ [.message .releaseAll] ++ [.status] := by
  refine ⟨((sendTestMessages click).dropLast).map fun x => .message x.1, ?_, ?_⟩
  · intro call hcall
    obtain ⟨x, -, rfl⟩ := List.mem_map.mp hcall
    exact nofun
  · rw [sendTestCalls, sendTestMessages, List.dropLast_concat, List.map_append]
    rfl

theorem answers_of_no_question {log : List (Item × Status)}
    (h : ∀ m ∈ log.map Prod.fst, m.1 ≠ Protocol.msgGetStatus) : answers log = [] := by
  rw [answers, List.filter_eq_nil_iff.mpr]
  · rfl
  · intro e he
    simpa using h e.1 (List.mem_map_of_mem he)

/-- **What `send-test` finds out.** Against a bridge that has read what the
program has written so far, and has answered what the program reads, however
both are cut: it never finds anything held, and it completes, or says that the
HID writes fail, as the host has taken the last report or not, which was one of
the pointer's. -/
theorem send_test_verdict {click ready : Bool} {dialRoom room : Option Nat} {reply : List UInt8}
    {c' : BridgeClient} {verdict : Verdict} {hid : Hid} {turns : List Turn} {s : Session}
    (hrun : sendTest click (.opened dialRoom reply) = (some c', verdict))
    (hsession : daemon.exec (.listening hid) (.accept ready room :: turns.map .turn) =
      some (.serving s))
    (hread : turns.flatMap Turn.received <+: c'.stream.written)
    (hreply : reply <+: s.client.stream.written) (hend : ∀ call, verdict ≠ .expected call) :
    s.client.hid.Released ∧ ∃ report ok, s.client.hid.reports.getLast? = some ⟨.ptr, report, ok⟩ ∧
      verdict = if ok then .complete ⟨0, 0, 0, true⟩ else .failing := by
  obtain ⟨c, replies, st, rest, hconnect, hreplies, hcalls, ⟨p, hrecv, hst⟩, hverdict⟩ :=
    calls_of_sendTest hrun hend
  obtain ⟨calls, hquestions, heq⟩ := sendTestCalls_eq click
  -- What the bridge has acted on is a beginning of what the program asked.
  obtain ⟨ms, hparses, -, hled⟩ := tracks_session hsession
  obtain ⟨more, hmore⟩ := hread
  rw [written_connect hconnect hcalls] at hmore
  obtain ⟨ms', hms, -⟩ := (parses_calls (sendTestCalls click)).rest (hmore ▸ hparses.append more)
  obtain ⟨log, hlog⟩ := hled.logged heldAt
  have hitems : callItems (sendTestCalls click) =
      (helloV1 :: calls.map Call.item) ++ [Message.releaseAll.item] ++ [Call.status.item] := by
    rw [heq, callItems, List.map_append, List.map_append]
    rfl
  have hbefore : ∀ m ∈ (helloV1 :: calls.map Call.item) ++ [Message.releaseAll.item],
      m.1 ≠ Protocol.msgGetStatus := by
    intro m hm
    rcases List.mem_append.mp hm with hm | hm
    · rcases List.mem_cons.mp hm with rfl | hm
      · decide
      · obtain ⟨call, hcall, rfl⟩ := List.mem_map.mp hm
        cases call with
        | message m => exact msgType_ne_getStatus m
        | status => exact absurd rfl (hquestions _ hcall)
    · rw [List.mem_singleton.mp hm]
      decide
  -- What the program reads is the answers, and there is one.
  obtain ⟨more₂, hmore₂⟩ := hreply
  have hread : ∃ x, BridgeClient.recvRest reply = some (x, replies) := by
    cases hx : BridgeClient.recvRest reply with
    | none =>
        rw [hreplies, hx] at hrecv
        cases hrecv
    | some x =>
        rw [hx] at hreplies
        exact ⟨x.1, by rw [hreplies]; rfl⟩
  obtain ⟨x, hx⟩ := hread
  rcases led_heldAt hlog with ⟨-, hstart⟩ | ⟨-, hfst, hwritten⟩
  · obtain ⟨hclient, -⟩ := Prod.mk.inj hstart
    rw [hclient] at hmore₂
    rw [(List.append_eq_nil_iff.mp hmore₂).1] at hx
    cases hx
  have hwritten := hwritten (unbroken_led hled)
  dsimp only at hfst hwritten
  have hanswers : replies ++ more₂ = (answers log).flatMap Status.bytes := by
    have hfull := recvRest_append hx more₂
    rw [hmore₂, hwritten, ackBytes, recvRest_frame (by decide)] at hfull
    exact (Prod.mk.inj (Option.some.inj hfull)).2.symm
  have hanswer := recvRest_append hrecv more₂
  rw [hanswers] at hanswer
  rw [hitems] at hms
  rcases List.eq_nil_or_concat ms' with rfl | ⟨ms₁, y, rfl⟩
  · rw [List.append_nil] at hms
    rw [← hms] at hlog
    obtain ⟨hrest, log', hlog'⟩ := answered_led hlog
    dsimp only at hrest hlog'
    obtain ⟨report, hreport⟩ := hrest.last
    refine ⟨hrest.released, report, s.client.hid.hidOk, hreport, ?_⟩
    have hnone : answers log' = [] := by
      refine answers_of_no_question fun m hm => hbefore m ?_
      rw [hlog', List.map_append, ← hms] at hfst
      rwa [List.append_cancel_right hfst] at hm
    have hall : answers log = [⟨0, 0, 0, s.client.hid.hidOk⟩] := by
      rw [hlog', answers_snoc, hnone]
      rfl
    rw [hall, List.flatMap_cons, List.flatMap_nil, Status.bytes, recvRest_frame (by simp)]
      at hanswer
    obtain ⟨hpayload, -⟩ := Prod.mk.inj (Option.some.inj hanswer)
    obtain ⟨-, rfl⟩ := Prod.mk.inj hpayload
    rw [hverdict, hst]
    cases s.client.hid.hidOk <;> rfl
  · -- The question has not come to the bridge.
    have hprefix : ms ++ ms₁ = (helloV1 :: calls.map Call.item) ++ [Message.releaseAll.item] := by
      rw [List.concat_eq_append, ← List.append_assoc] at hms
      exact (List.append_inj' hms rfl).1.symm
    have hnone : answers log = [] := by
      refine answers_of_no_question fun m hm => hbefore m ?_
      rw [← hprefix]
      rw [hfst] at hm
      exact List.mem_append_left _ hm
    rw [hnone] at hanswer
    cases hanswer

/-! ## A host that takes one report -/

/-- The replies that the program reads. -/
def cleanReplies : List UInt8 := ackBytes ++ Status.bytes ⟨0, 0, 0, true⟩

/-- The program completes, although the host took only the last of the reports. -/
theorem send_test_verdict_deaf : ∃ (c' : BridgeClient) (s : Session),
    sendTest false (.opened none cleanReplies) = (some c', .complete ⟨0, 0, 0, true⟩) ∧
      daemon.exec (.listening (.open fun n => decide (n = 27)))
        (.accept true none :: (c'.stream.written.map Turn.one).map .turn) = some (.serving s) ∧
      s.client.hid.reports.countP Report.ok = 1 ∧ s.client.hid.Released := by
  have hrun : (sendTest false (.opened none cleanReplies)).1.isSome ∧
      (sendTest false (.opened none cleanReplies)).2 = .complete ⟨0, 0, 0, true⟩ := by
    decide +kernel
  obtain ⟨hsome, hverdict⟩ := hrun
  obtain ⟨c', hc'⟩ := Option.isSome_iff_exists.mp hsome
  have hsend : sendTest false (.opened none cleanReplies) =
      (some c', .complete ⟨0, 0, 0, true⟩) := Prod.ext hc' hverdict
  have hdaemon : ((sendTest false (.opened none cleanReplies)).1.bind fun c' =>
      (daemon.exec (.listening (.open fun n => decide (n = 27)))
        (.accept true none :: (c'.stream.written.map Turn.one).map .turn)).bind fun d =>
          match d with
          | .serving s => some (s.client.hid.reports.countP Report.ok, s.client.stream.written)
          | _ => none) = some (1, cleanReplies) := by
    decide +kernel
  rw [hc', Option.bind_some] at hdaemon
  obtain ⟨d, hd, hstate⟩ := Option.bind_eq_some_iff.mp hdaemon
  cases d with
  | listening hid => cases hstate
  | exited hid => cases hstate
  | serving s =>
      obtain ⟨hcount, hreplies⟩ := Prod.mk.inj (Option.some.inj hstate)
      obtain ⟨hreleased, -⟩ :=
        send_test_verdict hsend hd (by rw [received_one]) (by rw [hreplies]) nofun
      exact ⟨c', s, hsend, hd, hcount, hreleased⟩

end Beaglewing.Input
