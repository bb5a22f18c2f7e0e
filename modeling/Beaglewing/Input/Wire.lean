/-
# `Input.Wire` — client and bridge agree on the wire

The two crates keep their own constants and their own idea of how long each
message is.  A client makes calls after `connect`; `Call.meaning` is what
each of them is meant to do at the bridge, with the arguments as they were
given.  The bytes of any calls, cut in any way, are acted on as exactly these
calls, and the replies are read as what the bridge held.

| direction | statement | lemma |
|---|---|---|
| to the bridge | a call is parsed as its message | `parses_calls` |
| to the bridge | the message does what the call means | `act_item` |
| back | the replies are HELLO_ACK and a STATUS for each question | `led_heldAt` |
| back | the client reads them as what was held | `calls_replies` |
-/
import Beaglewing.Bridge.Prefix
import Beaglewing.Input.Release

namespace Beaglewing.Input

open Base Bridge

namespace Protocol

def msgGetStatus : UInt8 := 0x40
def msgStatus : UInt8 := 0x41

end Protocol

structure Status where
  modifiers : UInt8
  heldKeys : UInt8
  buttons : UInt8
  hidOk : Bool
  deriving DecidableEq

/-- A call after `connect`. -/
inductive Call where
  | message (m : Message)
  | status

namespace BridgeClient

/-- Read one message off the bytes that come in, and leave the rest. -/
def recvRest : List UInt8 → Option ((UInt8 × List UInt8) × List UInt8)
  | t :: len :: rest =>
      if len.toNat ≤ rest.length then some ((t, rest.take len.toNat), rest.drop len.toNat)
      else none
  | _ => none

theorem recv_eq (bytes : List UInt8) : recv bytes = (recvRest bytes).map Prod.fst := by
  rcases bytes with _ | ⟨t, _ | ⟨len, rest⟩⟩
  · rfl
  · rfl
  · simp only [recv, recvRest]
    split <;> rfl

/-- The call for each message. -/
def sendMessage (c : BridgeClient) : Message → BridgeClient × Bool
  | .keepalive => c.keepalive
  | .keyDown usage => c.keyDown usage
  | .keyUp usage => c.keyUp usage
  | .pointerAbs x y => c.pointerAbs x y
  | .pointerButton buttons => c.pointerButton buttons
  | .pointerWheel detents => c.pointerWheel detents
  | .releaseAll => c.releaseAll

/-- Ask for the status; `replies` is what comes in. -/
def status (c : BridgeClient) (replies : List UInt8) :
    Option (BridgeClient × Status × List UInt8) :=
  let (c, ok) := c.send Protocol.msgGetStatus []
  if ok then
    match recvRest replies with
    | some ((t, p), rest) =>
        if t ≠ Protocol.msgStatus ∨ p.length ≠ 4 then none
        else
          some (c,
            { modifiers := p.getD 0 0
              heldKeys := p.getD 1 0
              buttons := p.getD 2 0
              hidOk := p.getD 3 0 ≠ 0 }, rest)
    | none => none
  else none

/-- Calls one after the other, none of which fails, and the answers. -/
def calls (c : BridgeClient) (replies : List UInt8) :
    List Call → Option (BridgeClient × List Status)
  | [] => some (c, [])
  | .message m :: rest =>
      if (c.sendMessage m).2 then (c.sendMessage m).1.calls replies rest else none
  | .status :: rest =>
      match c.status replies with
      | some (c, answer, replies) =>
          (c.calls replies rest).map fun r => (r.1, answer :: r.2)
      | none => none

end BridgeClient

/-! ## To the bridge -/

namespace Call

/-- The message, as the bridge's parser hands it over. -/
def item : Call → Item
  | .message m => m.item
  | .status => (Protocol.msgGetStatus, [])

/-- What a call is meant to do at the bridge. -/
def meaning : Call → Client → Flow Client
  | .message .keepalive, c => .go c
  | .message (.keyDown usage), c => .go { c with hid := c.hid.keyEvent usage true }
  | .message (.keyUp usage), c => .go { c with hid := c.hid.keyEvent usage false }
  | .message (.pointerAbs x y), c => .go { c with pendingAbs := some (x, y) }
  | .message (.pointerButton buttons), c =>
      let c := c.flushAbs
      .go { c with hid := { c.hid with buttons := buttons &&& 0x07 }.flushPtr 0 }
  | .message (.pointerWheel detents), c =>
      let c := c.flushAbs
      .go { c with hid := c.hid.flushPtr detents }
  | .message .releaseAll, c =>
      let c := c.flushAbs
      .go { c with hid := c.hid.releaseAll }
  | .status, c =>
      let (c, ok) := c.send Protocol.msgStatus
        [c.hid.modifiers, c.hid.heldKeyCount, c.hid.buttons, if c.hid.hidOk then 1 else 0]
      if ok then .go c else .stop c

end Call

theorem wellFormed_item (call : Call) : WellFormed call.item := by
  cases call with
  | message m => exact expectedLen_msgType m
  | status => rfl

/-- The bridge does with a message what the call means, arguments and all. -/
theorem act_item {c : Client} (h : c.greeted = true) (call : Call) :
    c.act call.item = call.meaning c := by
  rw [Client.act, if_pos h]
  cases call with
  | status => rfl
  | message m =>
      cases m with
      | keepalive => rfl
      | keyDown usage => rfl
      | keyUp usage => rfl
      | pointerAbs x y =>
          show Flow.go { c with
            pendingAbs := some
              (fromLe16 ((toLe16 x ++ toLe16 y).getD 0 0) ((toLe16 x ++ toLe16 y).getD 1 0),
                fromLe16 ((toLe16 x ++ toLe16 y).getD 2 0) ((toLe16 x ++ toLe16 y).getD 3 0)) } = _
          have hx : fromLe16 ((toLe16 x ++ toLe16 y).getD 0 0) ((toLe16 x ++ toLe16 y).getD 1 0) = x :=
            fromLe16_toLe16 x
          have hy : fromLe16 ((toLe16 x ++ toLe16 y).getD 2 0) ((toLe16 x ++ toLe16 y).getD 3 0) = y :=
            fromLe16_toLe16 y
          rw [hx, hy]
          rfl
      | pointerButton buttons => rfl
      | pointerWheel detents =>
          show Flow.go { c.flushAbs with hid := c.flushAbs.hid.flushPtr detents.toUInt8.toInt8 } = _
          rw [Int8.toInt8_toUInt8]
          rfl
      | releaseAll => rfl

/-- The first message is HELLO. -/
theorem greeted_of_go {c c' : Client} {m : Item} (h : c.act m = .go c')
    (hm : m.1 ≠ Bridge.msgHello) : c.greeted = true := by
  by_contra hnot
  rw [Client.act, if_neg hnot] at h
  exact hm (greet_go h).1

/-- So does a session that goes on with a message. -/
theorem meaning_of_act {c c' : Client} {m : Message} (hact : c.act m.item = .go c') :
    (Call.message m).meaning c = .go c' := by
  have hne : m.item.1 ≠ Bridge.msgHello := by
    cases m <;> simp only [Message.item, Message.msgType] <;> decide
  exact (act_item (greeted_of_go hact hne) (.message m)).symm.trans hact

/-- What a client sends for some calls. -/
def sent (calls : List Call) : List UInt8 :=
  Protocol.frame Protocol.msgHello (toLe16 Protocol.version) ++
    (calls.map Call.item).flatMap encode

/-- HELLO and the calls after it, as the bridge's parser hands them over. -/
def callItems (calls : List Call) : List Item := helloV1 :: calls.map Call.item

theorem wellFormed_callItems (calls : List Call) : ∀ m ∈ callItems calls, WellFormed m := by
  refine List.forall_mem_cons.mpr ⟨rfl, ?_⟩
  intro m hm
  obtain ⟨call, -, rfl⟩ := List.mem_map.mp hm
  exact wellFormed_item call

theorem parses_calls (calls : List Call) : framing.Parses (sent calls) (callItems calls) [] :=
  parses_iff.mpr ⟨wellFormed_callItems calls, (List.append_nil _).symm⟩

theorem written_of_send {c : BridgeClient} {t : UInt8} {p : List UInt8}
    (h : (c.send t p).2 = true) :
    (c.send t p).1.stream.written = c.stream.written ++ Protocol.frame t p :=
  TcpStream.written_of_writeAll h

theorem written_sendMessage {c : BridgeClient} {m : Message} (h : (c.sendMessage m).2 = true) :
    (c.sendMessage m).1.stream.written = c.stream.written ++ encode m.item := by
  have hsend : c.sendMessage m = c.send m.msgType m.payload := by cases m <;> rfl
  rw [hsend] at h ⊢
  exact written_of_send h

theorem written_status {c c' : BridgeClient} {replies rest : List UInt8} {answer : Status}
    (h : c.status replies = some (c', answer, rest)) :
    c'.stream.written = c.stream.written ++ encode Call.status.item := by
  simp only [BridgeClient.status] at h
  split at h
  · next hok =>
      split at h
      · split at h
        · cases h
        · cases h
          exact written_of_send hok
      · cases h
  · cases h

/-- Calls that do not fail have sent their messages. -/
theorem written_calls {c c' : BridgeClient} {replies : List UInt8} {calls : List Call}
    {answers : List Status} (h : c.calls replies calls = some (c', answers)) :
    c'.stream.written = c.stream.written ++ (calls.map Call.item).flatMap encode := by
  induction calls generalizing c replies answers with
  | nil =>
      cases h
      simp
  | cons call calls ih =>
      cases call with
      | message m =>
          simp only [BridgeClient.calls] at h
          split at h
          · next hok =>
              rw [ih h, written_sendMessage hok]
              simp [Call.item]
          · cases h
      | status =>
          simp only [BridgeClient.calls] at h
          split at h
          · next hstatus =>
              obtain ⟨r, hr, heq⟩ := Option.map_eq_some_iff.mp h
              cases heq
              rw [ih hr, written_status hstatus]
              simp
          · cases h

/-- A client that has connected and made calls has sent HELLO and these. -/
theorem written_connect {d : Dial} {c c' : BridgeClient} {replies : List UInt8}
    {calls : List Call} {answers : List Status} (hconnect : BridgeClient.connect d = some c)
    (h : c.calls replies calls = some (c', answers)) : c'.stream.written = sent calls := by
  have hc : c.stream.written = Protocol.frame Protocol.msgHello (toLe16 Protocol.version) := by
    cases d with
    | refused => cases hconnect
    | opened room reply =>
        simp only [BridgeClient.connect] at hconnect
        split at hconnect
        · next hok =>
            split at hconnect
            · split at hconnect
              · cases hconnect
              · cases hconnect
                exact written_of_send hok
            · cases hconnect
        · cases hconnect
  rw [written_calls h, hc]
  rfl

/-! ## And back -/

/-- What the bridge holds. -/
def held (c : Client) : Status where
  modifiers := c.hid.modifiers
  heldKeys := c.hid.heldKeyCount
  buttons := c.hid.buttons
  hidOk := c.hid.hidOk

/-- A message that is acted on, and what the bridge holds then. -/
def heldAt (c : Client) (m : Item) : List (Item × Status) :=
  match c.act m with
  | .go _ => [(m, held c)]
  | .stop _ => []

/-- The answers to the questions among the messages. -/
def answers (log : List (Item × Status)) : List Status :=
  (log.filter fun e => e.1.1 = Protocol.msgGetStatus).map Prod.snd

/-- A STATUS reply. -/
def Status.bytes (s : Status) : List UInt8 :=
  Protocol.frame Protocol.msgStatus
    [s.modifiers, s.heldKeys, s.buttons, if s.hidOk then 1 else 0]

def ackBytes : List UInt8 := Protocol.frame Protocol.msgHelloAck (toLe16 Protocol.version)

theorem written_reply {c : Client} {t : UInt8} {p : List UInt8} (h : (c.send t p).2 = true) :
    (c.send t p).1.stream.written = c.stream.written ++ Protocol.frame t p :=
  TcpStream.written_of_writeAll h

/-- Only a question is replied to. -/
theorem stream_dispatch {c c' : Client} {t : UInt8} {p : List UInt8}
    (ht : t ≠ Bridge.msgGetStatus) (h : c.dispatch t p = .go c') : c'.stream = c.stream := by
  simp only [Client.dispatch, ht, if_false] at h
  split_ifs at h <;> cases h <;> rfl

theorem stream_act {c c' : Client} {m : Item} (hg : c.greeted = true)
    (hm : m.1 ≠ Bridge.msgGetStatus) (h : c.act m = .go c') : c'.stream = c.stream := by
  rw [Client.act, if_pos hg] at h
  rw [stream_dispatch hm h]
  split
  · exact stream_flushAbs c
  · rfl

/-- A client is greeted by HELLO, and told so. -/
theorem greet_eq_go {c c' : Client} {t : UInt8} {p : List UInt8} (h : c.greet t p = .go c') :
    t = Bridge.msgHello ∧ c'.greeted = true ∧
      c'.stream.written = c.stream.written ++ ackBytes := by
  obtain ⟨ht, hok, rfl⟩ := greet_go h
  exact ⟨ht, rfl, written_reply hok⟩

/-- A question is answered with what is held. -/
theorem written_answer {c c' : Client} {p : List UInt8} (hg : c.greeted = true)
    (h : c.act (Bridge.msgGetStatus, p) = .go c') (hb : c'.stream.broken = false) :
    c.stream.broken = false ∧ c'.stream.written = c.stream.written ++ (held c).bytes := by
  have hflush : Client.needsFlush Bridge.msgGetStatus = false := by decide
  rw [Client.act, if_pos hg] at h
  simp only [hflush, Bool.false_eq_true, if_false] at h
  rw [dispatch_status] at h
  split at h
  · cases h
    exact TcpStream.written_writeAll hb
  · cases h

theorem answers_snoc (log : List (Item × Status)) (m : Item) (s : Status) :
    answers (log ++ [(m, s)]) =
      answers log ++ if m.1 = Protocol.msgGetStatus then [s] else [] := by
  by_cases hm : m.1 = Protocol.msgGetStatus <;> simp [answers, hm]

/-- What a session that has acted on messages has replied. -/
theorem led_heldAt {hid : Hid} {room : Option Nat} {ms : List Item}
    {p : Client × List (Item × Status)}
    (h : Led (logged heldAt Client.act) flushLogged ((Session.new hid room).client, []) ms p) :
    (ms = [] ∧ p = ((Session.new hid room).client, [])) ∨
      (p.1.greeted = true ∧ p.2.map Prod.fst = ms ∧
        (p.1.stream.broken = false →
          p.1.stream.written = ackBytes ++ (answers p.2).flatMap Status.bytes)) := by
  induction h with
  | start => exact .inl ⟨rfl, rfl⟩
  | tidy _ ih =>
      rcases ih with ⟨hms, rfl⟩ | ⟨hg, hlog, hwritten⟩
      · exact .inl ⟨hms, rfl⟩
      · refine .inr ⟨(greeted_flushAbs _).trans hg, hlog, ?_⟩
        intro hb
        simp only [flushLogged, Prod.map_fst, stream_flushAbs] at hb ⊢
        exact hwritten hb
  | @act ms m p p' _ hact ih =>
      obtain ⟨c', hc', rfl⟩ := Flow.map_eq_go.mp hact
      have hheldAt : heldAt p.1 m = [(m, held p.1)] := by rw [heldAt, hc']
      rw [hheldAt]
      right
      rcases ih with ⟨rfl, rfl⟩ | ⟨hg, hlog, hwritten⟩
      · obtain ⟨hhello, hg', hw⟩ := greet_eq_go (t := m.1) (p := m.2) hc'
        refine ⟨hg', rfl, ?_⟩
        intro _
        have hnone : answers ([] ++ [(m, held (Session.new hid room).client)]) = [] := by
          rw [answers_snoc, if_neg (by rw [hhello]; decide)]
          rfl
        rw [hnone]
        exact hw
      · have hg' : c'.greeted = true := by
          rcases act_greeted hg m with ⟨c₁, hgo, hg'⟩ | ⟨c₁, hstop, -⟩
          · rw [hgo] at hc'
            cases hc'
            exact hg'
          · rw [hstop] at hc'
            cases hc'
        refine ⟨hg', by rw [List.map_append, hlog]; rfl, ?_⟩
        intro hb
        rw [answers_snoc]
        by_cases hm : m.1 = Protocol.msgGetStatus
        · obtain ⟨t, payload⟩ := m
          obtain rfl : t = Protocol.msgGetStatus := hm
          obtain ⟨hb', hw⟩ := written_answer hg hc' hb
          rw [if_pos rfl, List.flatMap_append, ← List.append_assoc, ← hwritten hb',
            List.flatMap_cons, List.flatMap_nil, List.append_nil]
          exact hw
        · rw [if_neg hm, List.append_nil]
          have hstream := stream_act hg hm hc'
          rw [hstream] at hb ⊢
          exact hwritten hb

theorem recvRest_frame {t : UInt8} {p : List UInt8} (hp : p.length < 256) (rest : List UInt8) :
    BridgeClient.recvRest (Protocol.frame t p ++ rest) = some ((t, p), rest) := by
  have hlen : (UInt8.ofNat p.length).toNat = p.length := by
    rw [UInt8.toNat_ofNat']
    omega
  show BridgeClient.recvRest (t :: UInt8.ofNat p.length :: (p ++ rest)) = _
  simp only [BridgeClient.recvRest, hlen, List.length_append]
  rw [if_pos (by omega), List.take_left' rfl, List.drop_left' rfl]

/-- A connection that takes everything. -/
def Open (c : BridgeClient) : Prop := c.stream.room = none ∧ c.stream.broken = false

theorem send_of_open {c : BridgeClient} (h : Open c) (t : UInt8) (p : List UInt8) :
    (c.send t p).2 = true ∧ Open (c.send t p).1 := by
  obtain ⟨hroom, hbroken⟩ := h
  simp [BridgeClient.send, TcpStream.writeAll, Open, hroom, hbroken]

theorem sendMessage_of_open {c : BridgeClient} (h : Open c) (m : Message) :
    (c.sendMessage m).2 = true ∧ Open (c.sendMessage m).1 := by
  cases m <;> exact send_of_open h _ _

theorem status_bytes {c : BridgeClient} (h : Open c) (s : Status) (rest : List UInt8) :
    ∃ c', c.status (s.bytes ++ rest) = some (c', s, rest) ∧ Open c' := by
  obtain ⟨hok, hopen⟩ := send_of_open h Protocol.msgGetStatus []
  refine ⟨(c.send Protocol.msgGetStatus []).1, ?_, hopen⟩
  have hrecv : BridgeClient.recvRest (s.bytes ++ rest) = some ((Protocol.msgStatus, _), rest) :=
    recvRest_frame (by simp) rest
  simp only [BridgeClient.status, hok, if_true, hrecv]
  cases s with
  | mk modifiers heldKeys buttons hidOk => cases hidOk <;> simp

theorem msgType_ne_getStatus (m : Message) : m.msgType ≠ Protocol.msgGetStatus := by
  cases m <;> simp only [Message.msgType] <;> decide

/-- The client reads the replies to its calls as what the bridge held. -/
theorem calls_replies {c : BridgeClient} (h : Open c) (calls : List Call)
    (log : List (Item × Status)) (hlog : log.map Prod.fst = calls.map Call.item) :
    ∃ c', c.calls ((answers log).flatMap Status.bytes) calls = some (c', answers log) := by
  induction calls generalizing c log with
  | nil =>
      cases log with
      | nil => exact ⟨c, rfl⟩
      | cons e log => cases hlog
  | cons call calls ih =>
      cases log with
      | nil => cases hlog
      | cons e log =>
          rw [List.map_cons, List.map_cons, List.cons.injEq] at hlog
          obtain ⟨he, hlog⟩ := hlog
          cases call with
          | message m =>
              obtain ⟨hok, hopen⟩ := sendMessage_of_open h m
              have hm : e.1.1 ≠ Protocol.msgGetStatus := by
                rw [he]
                exact msgType_ne_getStatus m
              have hanswers : answers (e :: log) = answers log := by simp [answers, hm]
              obtain ⟨c', hc'⟩ := ih hopen log hlog
              refine ⟨c', ?_⟩
              rw [hanswers, BridgeClient.calls, if_pos hok]
              exact hc'
          | status =>
              have hm : e.1.1 = Protocol.msgGetStatus := congrArg Prod.fst he
              have hanswers : answers (e :: log) = e.2 :: answers log := by simp [answers, hm]
              obtain ⟨c₁, hc₁, hopen⟩ :=
                status_bytes h e.2 ((answers log).flatMap Status.bytes)
              obtain ⟨c', hc'⟩ := ih hopen log hlog
              refine ⟨c', ?_⟩
              rw [hanswers, List.flatMap_cons, BridgeClient.calls, hc₁]
              simp only [hc', Option.map_some]

/-- HELLO_ACK is accepted. -/
theorem connect_ack (rest : List UInt8) :
    ∃ c, BridgeClient.connect (.opened none (ackBytes ++ rest)) = some c ∧ Open c := by
  have hopened : Open { stream := .opened none } := ⟨rfl, rfl⟩
  obtain ⟨hok, hopen⟩ := send_of_open hopened Protocol.msgHello (toLe16 Protocol.version)
  refine ⟨_, ?_, hopen⟩
  have hrecv : BridgeClient.recv (ackBytes ++ rest) =
      some (Protocol.msgHelloAck, toLe16 Protocol.version) := by
    rw [BridgeClient.recv_eq, ackBytes, recvRest_frame (by decide)]
    rfl
  simp only [BridgeClient.connect, hok, if_true, hrecv]
  rw [if_neg (by simp)]

/-! ## Both -/

/-- A session that has been sent whole well-formed messages, HELLO of
version 1 first, goes on, unless a reply could not be written. -/
theorem feed_whole {ω : Type} (obs : Client → Item → List ω) {hid : Hid} {room : Option Nat}
    {ms : List Item} {turns : List Turn} (hund : ∀ t ∈ turns, t.Undisturbed)
    (hwf : ∀ m ∈ ms, WellFormed m)
    (hms : framing.Parses (turns.flatMap Turn.received) (helloV1 :: ms) [])
    (hreplies : (acts Session.turn (.new hid room) turns).state.client.stream.broken = false) :
    ∃ p, (Session.new hid room).feed obs turns = .go p := by
  have hacted := feed_state Client.acted (.new hid room) turns
  have hobs := feed_state obs (.new hid room) turns
  cases hout : (Session.new hid room).feed Client.acted turns with
  | go p =>
      rw [hacted, hout] at hobs
      obtain ⟨q, hq, -⟩ := Flow.map_eq_go.mp hobs.symm
      exact ⟨q, hq⟩
  | stop p =>
      rw [hacted, hout] at hreplies
      obtain ⟨ns, rest, q, rest', hparses, hled, hhalts⟩ := ends_feed hund hout
      obtain ⟨ns', hns, hrest⟩ := hms.rest hparses
      have hwf' : ∀ m ∈ ns ++ ns', WellFormed m :=
        hns ▸ List.forall_mem_cons.mpr ⟨rfl, hwf⟩
      generalize hp : (p.1.client, p.2) = p' at hhalts
      cases hhalts with
      | bad hbad =>
          cases hrest with
          | nil =>
              rw [framing.next_nil] at hbad
              cases hbad
          | cons hnext _ => simp [hbad] at hnext
      | @item m rest' _ hnext hact =>
          obtain ⟨c', hc', heq⟩ := Flow.map_eq_stop.mp hact
          rw [← hp, Prod.mk.injEq] at heq
          obtain ⟨rfl, -⟩ := heq
          obtain ⟨rfl, hm, -, -⟩ := refused_of_stop
            (fun m hm => hwf' m (List.mem_append_left _ hm)) (wellFormed_of_item hnext).1 hled hc'
            hreplies
          cases hrest with
          | nil =>
              rw [framing.next_nil] at hnext
              cases hnext
          | cons hnext' _ =>
              rw [hnext, Next.item.injEq] at hnext'
              rw [List.nil_append, List.cons.injEq] at hns
              exact absurd (hnext'.1.trans hns.1.symm) hm

/-- Whatever calls a client makes after `connect`, and however TCP cuts what
it sends: the bridge does not judge it malformed, acts on HELLO and exactly
these calls, and does with each what the call means; and the client accepts
the replies, and reads from them what the bridge held at each question. -/
theorem wire_agrees (dial : Dial) (c c' : BridgeClient) (replies : List UInt8)
    (calls : List Call) (statuses : List Status) (hid : Hid) (room : Option Nat)
    (turns : List Turn) (hconnect : BridgeClient.connect dial = some c)
    (hcalls : c.calls replies calls = some (c', statuses))
    (hundisturbed : ∀ t ∈ turns, t.Undisturbed)
    (hread : turns.flatMap Turn.received = c'.stream.written)
    (hreplies : (acts Session.turn (.new hid room) turns).state.client.stream.broken = false) :
    ∃ s log, (Session.new hid room).feed heldAt turns = .go (s, log) ∧ s.buf = [] ∧
      log.map Prod.fst = (msgHello, toLe16 protocolVersion) :: calls.map Call.item ∧
      (∀ client : Client, client.greeted = true → ∀ call ∈ calls,
        client.act call.item = call.meaning client) ∧
      ∃ c₁ c₂ rest, s.client.stream.written = ackBytes ++ rest ∧
        BridgeClient.connect (.opened none s.client.stream.written) = some c₁ ∧
        c₁.calls rest calls = some (c₂, answers log) := by
  have hparses : framing.Parses (turns.flatMap Turn.received) (callItems calls) [] := by
    rw [hread, written_connect hconnect hcalls]
    exact parses_calls calls
  have hwf : ∀ m ∈ calls.map Call.item, WellFormed m :=
    (List.forall_mem_cons.mp (wellFormed_callItems calls)).2
  obtain ⟨⟨s, log⟩, hgo⟩ := feed_whole heldAt hundisturbed hwf hparses hreplies
  have htracks := tracks_feed hundisturbed hgo
  have hled := framing.tracks_whole htracks hparses
  have hbuf : s.buf = [] := by
    obtain ⟨ns, hparses', hmore, -⟩ := htracks
    exact (hparses'.unique hparses hmore framing.next_nil).2
  have hbroken : s.client.stream.broken = false := by
    rw [feed_state heldAt, hgo] at hreplies
    exact hreplies
  rcases led_heldAt hled with ⟨hnil, -⟩ | ⟨-, hlog, hwritten⟩
  · cases hnil
  · refine ⟨s, log, hgo, hbuf, hlog, fun client hg call _ => act_item hg call, ?_⟩
    cases log with
    | nil => cases hlog
    | cons e log =>
        obtain ⟨he, hlog'⟩ := List.cons.inj hlog
        -- HELLO is not a question.
        have hhello : answers (e :: log) = answers log := by
          have hm : e.1.1 ≠ Protocol.msgGetStatus := by
            rw [he]
            decide
          simp [answers, hm]
        have hw := hwritten hbroken
        dsimp only at hw
        rw [hhello] at hw
        obtain ⟨c₁, hc₁, hopen⟩ := connect_ack ((answers log).flatMap Status.bytes)
        obtain ⟨c₂, hc₂⟩ := calls_replies hopen calls log hlog'
        refine ⟨c₁, c₂, _, hw, by rw [hw]; exact hc₁, ?_⟩
        rw [hhello]
        exact hc₂

/-- A position, a detent down and a question for the status. -/
def pointThenAsk : List Call :=
  [.message (.pointerAbs 258 0), .message (.pointerWheel (-1)), .status]

/-- The bridge reads the calls byte by byte. -/
theorem wire_agrees_ask :
    ∃ (c c' : BridgeClient) (s : Session) (log : List (Item × Status)),
      BridgeClient.connect (.opened none ackBytes) = some c ∧
        (c.calls (Status.bytes ⟨0, 0, 0, true⟩) pointThenAsk).map Prod.fst = some c' ∧
        (Session.new (.open fun _ => true) none).feed heldAt (c'.stream.written.map .one) =
          .go (s, log) ∧
        log.map Prod.fst = (msgHello, toLe16 protocolVersion) :: pointThenAsk.map Call.item := by
  obtain ⟨c, hc, hopen⟩ := connect_ack []
  rw [List.append_nil] at hc
  obtain ⟨c', hc'⟩ := calls_replies hopen pointThenAsk
    [((msgPointerAbs, [2, 1, 0, 0]), ⟨0, 0, 0, true⟩), ((msgPointerWheel, [255]), ⟨0, 0, 0, true⟩),
      ((msgGetStatus, []), ⟨0, 0, 0, true⟩)] (by decide)
  have hbroken : (acts Session.turn (.new (.open fun _ => true) none)
      (c'.stream.written.map .one)).state.client.stream.broken = false := by
    rw [written_connect hc hc']
    decide +kernel
  obtain ⟨s, log, hgo, -, hlog, -⟩ :=
    wire_agrees _ c c' _ _ _ _ none _ hc hc' (undisturbed_one _) (received_one _) hbroken
  exact ⟨c, c', s, log, hc, congrArg (Option.map Prod.fst) hc', hgo, hlog⟩

end Beaglewing.Input
