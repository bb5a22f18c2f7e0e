/-
# `Bridge.Prefix` — the bridge acts on the well-formed prefix

What a stream of bytes means to the bridge, said without its parser: the
longest run of frames at its front whose lengths are those of their types
(`Longest`).  If the first of them is HELLO of version 1, the session acts
on exactly these; otherwise on none.

| the stream, behind its frames | the session |
|---|---|
| part of a frame (`Waiting`) | goes on, and reads again |
| two bytes that no frame starts with (`InvalidHeader`) | ends |
| or its first frame is another than HELLO of version 1 | ends |

A reply that cannot be written ends a session as well; such a session does
not come this far.
-/
import Beaglewing.Bridge.Feed

namespace Beaglewing.Bridge

open Base

/-- A frame whose length is the one its type has. -/
def WellFormed (m : Item) : Prop := expectedLen m.1 = some m.2.length

instance (m : Item) : Decidable (WellFormed m) := inferInstanceAs (Decidable (_ = _))

/-- The bytes `[type, len, payload]`. -/
def encode (m : Item) : List UInt8 := m.1 :: UInt8.ofNat m.2.length :: m.2

/-- The stream starts with well-formed frames, and then comes the rest. -/
structure Decomposes (stream : List UInt8) (ms : List Item) (rest : List UInt8) : Prop where
  wellFormed : ∀ m ∈ ms, WellFormed m
  eq : stream = ms.flatMap encode ++ rest

/-- The longest such prefix of the stream. -/
structure Longest (stream : List UInt8) (ms : List Item) (rest : List UInt8) : Prop extends
    Decomposes stream ms rest where
  longest : ∀ ms' rest', Decomposes stream ms' rest' → ms' <+: ms

def helloV1 : Item := (msgHello, [1, 0])

/-- Two bytes that no well-formed frame starts with. -/
def InvalidHeader (bs : List UInt8) : Prop :=
  ∃ t len rest, bs = t :: len :: rest ∧ expectedLen t ≠ some len.toNat

/-- A proper prefix of a well-formed frame, or one byte whose length byte is
still to come. -/
def Waiting (bs : List UInt8) : Prop :=
  (∃ m, WellFormed m ∧ bs <+: encode m ∧ bs ≠ encode m) ∨ ∃ t, bs = [t]

/-! ## The parser and the frames -/

theorem expectedLen_le {t : UInt8} {n : Nat} (h : expectedLen t = some n) : n ≤ maxPayload := by
  simp only [expectedLen] at h
  split at h
  · cases h
    decide
  · split at h
    · cases h
      decide
    · split at h
      · cases h
        decide
      · split at h
        · cases h
          decide
        · split at h
          · cases h
            decide
          · cases h

theorem next_encode {m : Item} (h : WellFormed m) (rest : List UInt8) :
    framing.next (encode m ++ rest) = .item m rest := by
  have hle : m.2.length ≤ maxPayload := expectedLen_le h
  have hlen : (UInt8.ofNat m.2.length).toNat = m.2.length := by
    rw [UInt8.toNat_ofNat']
    simp only [maxPayload] at hle
    omega
  show nextFrame (m.1 :: UInt8.ofNat m.2.length :: (m.2 ++ rest)) = _
  have h' : expectedLen m.1 = some m.2.length := h
  simp only [nextFrame, hlen, h', hle, and_self, if_true, List.length_append]
  rw [if_neg (by omega), List.take_left' rfl, List.drop_left' rfl]

theorem next_cases (bs : List UInt8) :
    (∃ m rest, framing.next bs = .item m rest ∧ WellFormed m ∧ bs = encode m ++ rest) ∨
    (framing.next bs = .bad ∧ InvalidHeader bs) ∨ (framing.next bs = .more ∧ Waiting bs) := by
  rcases bs with _ | ⟨t, _ | ⟨len, rest⟩⟩
  · have hwf : WellFormed (msgKeepalive, []) := rfl
    exact .inr (.inr ⟨rfl, .inl ⟨_, hwf, List.nil_prefix, (List.cons_ne_nil _ _).symm⟩⟩)
  · exact .inr (.inr ⟨rfl, .inr ⟨t, rfl⟩⟩)
  · show (∃ m rest', nextFrame (t :: len :: rest) = .item m rest' ∧ _) ∨
      (nextFrame (t :: len :: rest) = .bad ∧ _) ∨ (nextFrame (t :: len :: rest) = .more ∧ _)
    by_cases hlen : expectedLen t = some len.toNat
    · have hle := expectedLen_le hlen
      simp only [nextFrame, hlen, hle, and_self, if_true]
      by_cases hshort : rest.length < len.toNat
      · rw [if_pos hshort]
        -- Any bytes complete the payload.
        let pad := List.replicate (len.toNat - rest.length) (0 : UInt8)
        have hpad : (rest ++ pad).length = len.toNat := by
          simp only [pad, List.length_append, List.length_replicate]
          omega
        have henc : encode (t, rest ++ pad) = (t :: len :: rest) ++ pad := by
          simp only [encode, hpad, UInt8.ofNat_toNat, List.cons_append]
        refine .inr (.inr ⟨rfl, .inl ⟨(t, rest ++ pad), ?_, ?_, ?_⟩⟩)
        · exact hlen.trans (congrArg some hpad.symm)
        · exact ⟨pad, henc.symm⟩
        · intro heq
          have := congrArg List.length heq
          simp only [encode, List.length_cons, hpad] at this
          omega
      · rw [if_neg hshort]
        have htake : (rest.take len.toNat).length = len.toNat := by
          rw [List.length_take]
          omega
        refine .inl ⟨_, _, rfl, hlen.trans (congrArg some htake.symm), ?_⟩
        simp only [encode, htake, UInt8.ofNat_toNat, List.cons_append, List.take_append_drop]
    · simp only [nextFrame, hlen, false_and, if_false]
      exact .inr (.inl ⟨trivial, t, len, rest, rfl, hlen⟩)

theorem invalidHeader_iff {bs : List UInt8} : InvalidHeader bs ↔ framing.next bs = .bad := by
  constructor
  · rintro ⟨t, len, rest, rfl, hlen⟩
    show nextFrame (t :: len :: rest) = .bad
    simp only [nextFrame, hlen, false_and, if_false]
  · intro h
    rcases next_cases bs with ⟨m, rest, hnext, -⟩ | ⟨-, hbad⟩ | ⟨hnext, -⟩
    · simp [h] at hnext
    · exact hbad
    · simp [h] at hnext

theorem waiting_of_more {bs : List UInt8} (h : framing.next bs = .more) : Waiting bs := by
  rcases next_cases bs with ⟨m, rest, hnext, -⟩ | ⟨hnext, -⟩ | ⟨-, hwaiting⟩
  · simp [h] at hnext
  · simp [h] at hnext
  · exact hwaiting

theorem wellFormed_of_item {bs rest : List UInt8} {m : Item}
    (h : framing.next bs = .item m rest) : WellFormed m ∧ bs = encode m ++ rest := by
  rcases next_cases bs with ⟨m', rest', hnext, hwf, heq⟩ | ⟨hnext, -⟩ | ⟨hnext, -⟩
  · rw [h, Next.item.injEq] at hnext
    obtain ⟨rfl, rfl⟩ := hnext
    exact ⟨hwf, heq⟩
  · simp [h] at hnext
  · simp [h] at hnext

/-- What the parser takes off a stream is what the stream decomposes into. -/
theorem parses_iff {stream rest : List UInt8} {ms : List Item} :
    framing.Parses stream ms rest ↔ Decomposes stream ms rest := by
  constructor
  · intro h
    induction h with
    | nil bs => exact ⟨by simp, rfl⟩
    | @cons bs rest rest' m ms hnext _ ih =>
        obtain ⟨hwf, rfl⟩ := wellFormed_of_item hnext
        refine ⟨List.forall_mem_cons.mpr ⟨hwf, ih.wellFormed⟩, ?_⟩
        rw [List.flatMap_cons, List.append_assoc, ← ih.eq]
  · rintro ⟨hwf, rfl⟩
    induction ms with
    | nil => exact .nil rest
    | cons m ms ih =>
        obtain ⟨hm, hms⟩ := List.forall_mem_cons.mp hwf
        rw [List.flatMap_cons, List.append_assoc]
        exact .cons (next_encode hm _) (ih hms)

theorem longest_of_parses {stream rest : List UInt8} {ms : List Item}
    (h : framing.Parses stream ms rest) (hend : ∀ m rest', framing.next rest ≠ .item m rest') :
    Longest stream ms rest :=
  { parses_iff.mp h with
    longest := fun _ _ h' => h.prefix hend (parses_iff.mpr h') }

/-! ## The messages a session acts on -/

/-- A message that is acted on, with the reports written before it. -/
def Client.acted (c : Client) (m : Item) : List (Item × List Report) :=
  match c.act m with
  | .go _ => [(m, c.hid.reports)]
  | .stop _ => []

theorem broken_send {c : Client} {t : UInt8} {p : List UInt8} (h : (c.send t p).2 = false) :
    (c.send t p).1.stream.broken = true :=
  TcpStream.broken_writeAll h

/-- The version in a HELLO is 1. -/
theorem version_eq_iff {p : List UInt8} (hlen : p.length = 2) :
    fromLe16 (p.getD 0 0) (p.getD 1 0) = protocolVersion ↔ p = [1, 0] := by
  match p, hlen with
  | [a, b], _ =>
      show fromLe16 a b = 1 ↔ [a, b] = [1, 0]
      constructor
      · intro h
        have hnat := congrArg UInt16.toNat h
        have ha := a.toNat_lt
        have hb := b.toNat_lt
        simp only [fromLe16, UInt16.toNat_ofNat', UInt16.toNat_one] at hnat
        have ha1 : a = 1 := UInt8.toNat_inj.mp (by rw [UInt8.toNat_one]; omega)
        have hb0 : b = 0 := UInt8.toNat_inj.mp (by rw [UInt8.toNat_zero]; omega)
        rw [ha1, hb0]
      · intro h
        cases h
        rfl

/-- A client is greeted by HELLO of version 1, and otherwise turned away. -/
theorem greet_eq {c : Client} {m : Item} (hwf : WellFormed m) :
    c.greet m.1 m.2 =
      if m = helloV1 then
        if (c.send msgHelloAck (toLe16 protocolVersion)).2 then
          .go { (c.send msgHelloAck (toLe16 protocolVersion)).1 with greeted := true }
        else .stop (c.send msgHelloAck (toLe16 protocolVersion)).1
      else .stop c := by
  obtain ⟨t, p⟩ := m
  rw [Client.greet]
  by_cases ht : t = msgHello
  · subst ht
    have hver := version_eq_iff (p := p) (Option.some.inj hwf).symm
    rw [if_neg (not_not_intro rfl)]
    by_cases hp : p = [1, 0]
    · subst hp
      rw [if_neg (not_not_intro (hver.mpr rfl)), if_pos (show (msgHello, [1, 0]) = helloV1 from rfl)]
    · rw [if_pos (mt hver.mp hp), if_neg (mt (congrArg Prod.snd) hp)]
  · rw [if_pos ht, if_neg (mt (congrArg Prod.fst) ht)]

@[simp] theorem greeted_flushAbs (c : Client) : c.flushAbs.greeted = c.greeted := by
  rw [Client.flushAbs]
  split <;> rfl

@[simp] theorem stream_flushAbs (c : Client) : c.flushAbs.stream = c.stream := by
  rw [Client.flushAbs]
  split <;> rfl

/-- The payload of a STATUS reply. -/
def Client.status (c : Client) : List UInt8 :=
  [c.hid.modifiers, c.hid.heldKeyCount, c.hid.buttons, if c.hid.hidOk then 1 else 0]

theorem dispatch_status (c : Client) (p : List UInt8) :
    c.dispatch msgGetStatus p =
      if (c.send msgStatus c.status).2 then .go (c.send msgStatus c.status).1
      else .stop (c.send msgStatus c.status).1 :=
  rfl

/-- A greeted client's message ends the session only where a reply cannot be
written. -/
theorem dispatch_cases (c : Client) (t : UInt8) (p : List UInt8) :
    (∃ c', c.dispatch t p = .go c' ∧ c'.greeted = c.greeted) ∨
      ∃ c', c.dispatch t p = .stop c' ∧ c'.stream.broken = true := by
  by_cases hstatus : t = msgGetStatus
  · subst hstatus
    rw [dispatch_status]
    cases hok : (c.send msgStatus c.status).2 with
    | true => exact .inl ⟨_, rfl, rfl⟩
    | false => exact .inr ⟨_, rfl, broken_send hok⟩
  · left
    simp only [Client.dispatch, hstatus, if_false]
    split_ifs <;> exact ⟨_, rfl, rfl⟩

theorem act_greeted {c : Client} (h : c.greeted = true) (m : Item) :
    (∃ c', c.act m = .go c' ∧ c'.greeted = true) ∨
      ∃ c', c.act m = .stop c' ∧ c'.stream.broken = true := by
  rw [Client.act, if_pos h]
  rcases dispatch_cases (if Client.needsFlush m.1 then c.flushAbs else c) m.1 m.2 with
    ⟨c', hgo, hgreeted⟩ | hstop
  · refine .inl ⟨c', hgo, hgreeted.trans ?_⟩
    split
    · rw [greeted_flushAbs, h]
    · exact h
  · exact .inr hstop

/-- A session that has acted on something has been greeted, by the first
message and before any report. -/
theorem led_cases {hid : Hid} {room : Option Nat} {ms : List Item}
    {p : Client × List (Item × List Report)} (hwf : ∀ m ∈ ms, WellFormed m)
    (h : Led (logged Client.acted Client.act) flushLogged ((Session.new hid room).client, []) ms p) :
    (ms = [] ∧ p = ((Session.new hid room).client, [])) ∨
      ∃ ms' l, ms = helloV1 :: ms' ∧ p.1.greeted = true ∧
        p.2 = (helloV1, hid.reports) :: l ∧ l.map Prod.fst = ms' := by
  induction h with
  | start => exact .inl ⟨rfl, rfl⟩
  | tidy _ ih =>
      rcases ih hwf with ⟨hms, rfl⟩ | ⟨ms', l, hms, hgreeted, hlog, hl⟩
      · exact .inl ⟨hms, rfl⟩
      · exact .inr ⟨ms', l, hms, (greeted_flushAbs _).trans hgreeted, hlog, hl⟩
  | @act ms m p p' _ hact ih =>
      obtain ⟨c', hc', rfl⟩ := Flow.map_eq_go.mp hact
      have hm : WellFormed m := hwf m (by simp)
      have hacted : p.1.acted m = [(m, p.1.hid.reports)] := by rw [Client.acted, hc']
      rcases ih fun m hm => hwf m (by simp [hm]) with
        ⟨rfl, rfl⟩ | ⟨ms', l, rfl, hgreeted, hlog, hl⟩
      · have hgreet : (Session.new hid room).client.greet m.1 m.2 = .go c' := hc'
        rw [greet_eq hm] at hgreet
        split at hgreet
        · next hhello =>
            subst hhello
            split at hgreet
            · cases hgreet
              exact .inr ⟨[], [], rfl, rfl, hacted, rfl⟩
            · cases hgreet
        · cases hgreet
      · rcases act_greeted hgreeted m with ⟨c₁, hgo, hgreeted'⟩ | ⟨c₁, hstop, -⟩
        · rw [hgo] at hc'
          cases hc'
          refine .inr ⟨ms' ++ [m], l ++ [(m, p.1.hid.reports)], rfl, hgreeted', ?_, ?_⟩
          · rw [hacted, hlog]
            rfl
          · rw [List.map_append, hl]
            rfl
        · rw [hstop] at hc'
          cases hc'

/-- A message that ends a session whose replies are written is the first, and
not HELLO of version 1. -/
theorem refused_of_stop {hid : Hid} {room : Option Nat} {ms : List Item} {m : Item} {c' : Client}
    {p : Client × List (Item × List Report)} (hwf : ∀ m ∈ ms, WellFormed m) (hm : WellFormed m)
    (h : Led (logged Client.acted Client.act) flushLogged ((Session.new hid room).client, []) ms p)
    (hstop : p.1.act m = .stop c') (hbroken : c'.stream.broken = false) :
    ms = [] ∧ m ≠ helloV1 ∧ p = ((Session.new hid room).client, []) ∧ c' = p.1 := by
  rcases led_cases hwf h with ⟨rfl, rfl⟩ | ⟨ms', l, rfl, hgreeted, -, -⟩
  · have hgreet : (Session.new hid room).client.greet m.1 m.2 = .stop c' := hstop
    rw [greet_eq hm] at hgreet
    split at hgreet
    · split at hgreet
      · cases hgreet
      · next hok =>
          cases hgreet
          rw [Bool.not_eq_true] at hok
          rw [broken_send hok] at hbroken
          cases hbroken
    · next hhello =>
        cases hgreet
        exact ⟨rfl, hhello, rfl, rfl⟩
  · rcases act_greeted hgreeted m with ⟨c₁, hgo, -⟩ | ⟨c₁, hst, hb⟩
    · rw [hgo] at hstop
      cases hstop
    · rw [hst] at hstop
      cases hstop
      rw [hb] at hbroken
      cases hbroken

/-- What the session has acted on, when it has not been halted by a message. -/
theorem log_of_led {hid : Hid} {room : Option Nat} {ms : List Item}
    {p : Client × List (Item × List Report)} (hwf : ∀ m ∈ ms, WellFormed m)
    (h : Led (logged Client.acted Client.act) flushLogged ((Session.new hid room).client, []) ms p) :
    p.2.map Prod.fst = (if ms.head? = some helloV1 then ms else []) ∧
      (¬ ∃ m, ms.head? = some m ∧ m ≠ helloV1) ∧
      (∀ e, p.2.head? = some e → e.2 = hid.reports) ∧
      (p.2 = [] → p.1.hid = hid ∧ p.1.stream.written = []) := by
  rcases led_cases hwf h with ⟨rfl, rfl⟩ | ⟨ms', l, rfl, -, hlog, hl⟩
  · exact ⟨rfl, by simp, by simp, fun _ => ⟨rfl, rfl⟩⟩
  · rw [hlog]
    refine ⟨?_, by simp, ?_, by simp⟩
    · simp [hl]
    · intro e he
      cases he
      rfl

/-- However a stream is cut into reads, the session acts on its longest
well-formed prefix, if that starts with HELLO of version 1, and on nothing
otherwise.  Nothing is reported before the HELLO; the session ends exactly
at an invalid header or another first message, and no byte behind that has
an effect; and while it goes on, it keeps part of one frame. -/
theorem acts_on_prefix (hid : Hid) (room : Option Nat) (turns : List Turn)
    (out : Flow (Session × List (Item × List Report)))
    (hout : (Session.new hid room).feed Client.acted turns = out)
    (hundisturbed : ∀ t ∈ turns, t.Undisturbed)
    (hreplies : out.state.1.client.stream.broken = false) :
    (∃ ms rest, Longest (turns.flatMap Turn.received) ms rest ∧
        out.state.2.map Prod.fst = (if ms.head? = some helloV1 then ms else []) ∧
        ((∃ p, out = .stop p) ↔ InvalidHeader rest ∨ ∃ m, ms.head? = some m ∧ m ≠ helloV1)) ∧
      (∀ e, out.state.2.head? = some e → e.2 = hid.reports) ∧
      (out.state.2 = [] →
        out.state.1.client.hid = hid ∧ out.state.1.client.stream.written = []) ∧
      (∀ p, out = .go p → Waiting p.1.buf) ∧
      (∀ before chunk chunk' more, turns = before ++ [.reads chunk] → (∃ p, out = .stop p) →
        chunk.bytes <+: chunk'.bytes →
          ((Session.new hid room).feed Client.acted
              (before ++ .reads chunk' :: more)).state.1.client = out.state.1.client) := by
  have hbehind : ∀ before chunk chunk' more, turns = before ++ [.reads chunk] →
      (∃ p, out = .stop p) → chunk.bytes <+: chunk'.bytes →
        ((Session.new hid room).feed Client.acted
            (before ++ .reads chunk' :: more)).state.1.client = out.state.1.client := by
    rintro before chunk chunk' more rfl ⟨p, rfl⟩ hchunk
    obtain ⟨p', hp', hclient, -⟩ := feed_append hchunk hout more
    rw [hp']
    exact hclient
  cases out with
  | go p =>
      obtain ⟨ms, hparses, hmore, hled⟩ := tracks_feed hundisturbed hout
      have hwf := (parses_iff.mp hparses).wellFormed
      obtain ⟨hlog, hhead, hreports, hnone⟩ := log_of_led hwf hled
      have hend : ∀ m rest', framing.next p.1.buf ≠ .item m rest' := by simp [hmore]
      refine ⟨⟨ms, p.1.buf, longest_of_parses hparses hend, hlog, ?_⟩, hreports, hnone, ?_,
        hbehind⟩
      · constructor
        · rintro ⟨p', hp'⟩
          cases hp'
        · rintro (hbad | hfirst)
          · rw [invalidHeader_iff, hmore] at hbad
            cases hbad
          · exact absurd hfirst hhead
      · rintro p' hp'
        cases hp'
        exact waiting_of_more hmore
  | stop p =>
      obtain ⟨ms, rest, q, rest', hparses, hled, hhalts⟩ := ends_feed hundisturbed hout
      have hwf := (parses_iff.mp hparses).wellFormed
      have hwaiting : ∀ p', Flow.stop p = .go p' → Waiting p'.1.buf := by
        intro p' hp'
        cases hp'
      generalize hq : (p.1.client, p.2) = q' at hhalts
      cases hhalts with
      | bad hbad =>
          subst hq
          obtain ⟨hlog, -, hreports, hnone⟩ := log_of_led hwf hled
          have hend : ∀ m rest', framing.next rest ≠ .item m rest' := by simp [hbad]
          refine ⟨⟨ms, rest, longest_of_parses hparses hend, hlog, ?_⟩, hreports, hnone, hwaiting,
            hbehind⟩
          exact ⟨fun _ => .inl (invalidHeader_iff.mpr hbad), fun _ => ⟨p, rfl⟩⟩
      | @item m rest' _ hnext hact =>
          obtain ⟨c', hc', hpair⟩ := Flow.map_eq_stop.mp hact
          rw [← hq, Prod.mk.injEq] at hpair
          obtain ⟨rfl, hlog⟩ := hpair
          have hacted : q.1.acted m = [] := by rw [Client.acted, hc']
          obtain ⟨rfl, hhello, rfl, hclient⟩ :=
            refused_of_stop hwf (wellFormed_of_item hnext).1 hled hc' hreplies
          -- The rest starts with the message that was refused.
          obtain ⟨ns, rest₁, hparses₁, hend⟩ := framing.exists_parses rest'
          rw [hacted] at hlog
          have hnil : p.2 = [] := hlog.symm
          refine ⟨⟨m :: ns, rest₁, ?_, ?_, ?_⟩, ?_, ?_, hwaiting, hbehind⟩
          · exact longest_of_parses (hparses.trans (.cons hnext hparses₁)) hend
          · simp [Flow.state, hnil, hhello]
          · exact ⟨fun _ => .inr ⟨m, rfl, hhello⟩, fun _ => ⟨p, rfl⟩⟩
          · simp [Flow.state, hnil]
          · intro _
            rw [Flow.state, hclient]
            exact ⟨rfl, rfl⟩

/-- HELLO and a key, and then a type that does not exist. -/
def keyThenJunk : List UInt8 := [0x01, 0x02, 0x01, 0x00, 0x10, 0x01, 0x04, 0xff, 0x00, 0x30, 0x00]

/-- Byte by byte: the key goes down, and the session ends at the two bytes
`0xff 0x00`. -/
theorem acts_on_prefix_key :
    ∃ out, (Session.new (.open fun _ => true) none).feed Client.acted (keyThenJunk.map .one) = out ∧
      out.state.2.map Prod.fst = [helloV1, (msgKeyDown, [4])] ∧ (∃ p, out = .stop p) ∧
      ∃ ms rest, Longest keyThenJunk ms rest ∧ ms = [helloV1, (msgKeyDown, [4])] ∧
        InvalidHeader rest := by
  have hlog : ((Session.new (.open fun _ => true) none).feed Client.acted
      (keyThenJunk.map .one)).state.2.map Prod.fst = [helloV1, (msgKeyDown, [4])] := by
    decide +kernel
  have hbroken : ((Session.new (.open fun _ => true) none).feed Client.acted
      (keyThenJunk.map .one)).state.1.client.stream.broken = false := by
    decide +kernel
  obtain ⟨⟨ms, rest, hlongest, hms, hstop⟩, -⟩ :=
    acts_on_prefix _ none _ _ rfl (undisturbed_one keyThenJunk) hbroken
  rw [received_one] at hlongest
  rw [hlog] at hms
  have hms' : ms = [helloV1, (msgKeyDown, [4])] := by
    split at hms
    · exact hms.symm
    · cases hms
  subst hms'
  have hrest : [0xff, 0x00, 0x30, 0x00] = rest :=
    congrArg (List.drop 7) hlongest.eq
  have hbad : InvalidHeader rest := hrest ▸ ⟨0xff, 0x00, [0x30, 0x00], rfl, by decide⟩
  exact ⟨_, rfl, hlog, hstop.mpr (.inl hbad), _, rest, hlongest, rfl, hbad⟩

end Beaglewing.Bridge
