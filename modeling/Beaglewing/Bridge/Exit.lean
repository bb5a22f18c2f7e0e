/-
# `Bridge.Exit` — where the pointer is when a session ends

`main` releases everything when `handle_client` returns, with a pointer
report at the position of the `Hid`.  A position is held back until the batch
ends or a pointer action comes, and what is held back is lost with the
session:

| how the session ends | the report |
|---|---|
| between two reads | is at the position of the last POINTER_ABS |
| inside a batch | is at that of the last one that was flushed |

The second is the first if nothing was held back, or what was held back is
the same in 15 bits (`released_at_last_iff`).
-/
import Beaglewing.Bridge.Keyboard

namespace Beaglewing.Bridge

open Base

/-- The position that a message carries. -/
def Item.position (m : Item) : Option (UInt16 × UInt16) :=
  if m.1 = msgPointerAbs then
    some (fromLe16 (m.2.getD 0 0) (m.2.getD 1 0), fromLe16 (m.2.getD 2 0) (m.2.getD 3 0))
  else none

/-- The position of the last POINTER_ABS, or the one before the messages. -/
def lastPosition (xy : UInt16 × UInt16) (ms : List Item) : UInt16 × UInt16 :=
  ((ms.filterMap Item.position).getLast?).getD xy

/-- The messages up to the last that needs a flush. -/
def flushed (ms : List Item) : List Item := ms.rdropWhile fun m => !Client.needsFlush m.1

/-- The messages behind it. -/
def unflushed (ms : List Item) : List Item := ms.rtakeWhile fun m => !Client.needsFlush m.1

/-- A position as the report has it. -/
def scaled (xy : UInt16 × UInt16) : UInt16 × UInt16 := (xy.1 >>> 1, xy.2 >>> 1)

/-- The messages of a greeted client. -/
def Client.heard (c : Client) (m : Item) : List Item := if c.greeted then [m] else []

section Positions
variable (xy : UInt16 × UInt16) (ms ns : List Item) (m : Item)

theorem lastPosition_append :
    lastPosition xy (ms ++ ns) = lastPosition (lastPosition xy ms) ns := by
  rw [lastPosition, lastPosition, List.filterMap_append, List.getLast?_append]
  cases (ns.filterMap Item.position).getLast? <;> rfl

theorem flushed_append_unflushed : flushed ms ++ unflushed ms = ms :=
  List.rdropWhile_append_rtakeWhile ..

variable {m}

theorem flushed_snoc (h : Client.needsFlush m.1 = true) : flushed (ms ++ [m]) = ms ++ [m] :=
  List.rdropWhile_concat_neg _ _ _ (by simp [h])

theorem unflushed_snoc (h : Client.needsFlush m.1 = true) : unflushed (ms ++ [m]) = [] :=
  List.rtakeWhile_concat_neg _ _ _ (by simp [h])

theorem flushed_snoc_of_not (h : Client.needsFlush m.1 = false) :
    flushed (ms ++ [m]) = flushed ms :=
  List.rdropWhile_concat_pos _ _ _ (by simp [h])

theorem unflushed_snoc_of_not (h : Client.needsFlush m.1 = false) :
    unflushed (ms ++ [m]) = unflushed ms ++ [m] :=
  List.rtakeWhile_concat_pos _ _ _ (by simp [h])

theorem position_of_needsFlush (h : Client.needsFlush m.1 = true) : m.position = none := by
  rw [Item.position, if_neg]
  intro habs
  rw [habs] at h
  exact absurd h (by decide)

end Positions

/-! ## Inside a batch -/

/-- Behind the messages `ms` of a batch: the flushed ones are in the position,
the last of the others is held back. -/
structure Batch (xy : UInt16 × UInt16) (ms : List Item) (c : Client) : Prop where
  position : (c.hid.x, c.hid.y) = lastPosition xy (flushed ms)
  pending : c.pendingAbs = ((unflushed ms).filterMap Item.position).getLast?

theorem batch_start {c : Client} (h : c.pendingAbs = none) : Batch (c.hid.x, c.hid.y) [] c :=
  ⟨rfl, h⟩

/-- A flush catches up with the messages. -/
theorem position_flush {xy : UInt16 × UInt16} {ms : List Item} {c : Client} (h : Batch xy ms c) :
    (c.flushAbs.hid.x, c.flushAbs.hid.y) = lastPosition xy ms := by
  rw [position_flushAbs, h.pending, h.position]
  exact (lastPosition_append xy (flushed ms) (unflushed ms)).symm.trans
    (congrArg (lastPosition xy) (flushed_append_unflushed ms))

theorem position_keyEvent (h : Hid) (usage : UInt8) (down : Bool) :
    (h.keyEvent usage down).x = h.x ∧ (h.keyEvent usage down).y = h.y := by
  obtain ⟨f, hf⟩ := keyEvent_eq usage down
  rw [hf, Hid.updateKeys]
  split <;> exact ⟨rfl, rfl⟩

/-- A message that goes past the greeting holds its position back, and moves
nothing. -/
theorem dispatch_position (c : Client) (m : Item) :
    ((c.dispatch m.1 m.2).state.hid.x = c.hid.x ∧ (c.dispatch m.1 m.2).state.hid.y = c.hid.y) ∧
      (c.dispatch m.1 m.2).state.pendingAbs = m.position.or c.pendingAbs := by
  obtain ⟨t, p⟩ := m
  by_cases hdown : t = msgKeyDown
  · subst hdown
    exact ⟨position_keyEvent c.hid (p.getD 0 0) true, rfl⟩
  by_cases hup : t = msgKeyUp
  · subst hup
    exact ⟨position_keyEvent c.hid (p.getD 0 0) false, rfl⟩
  by_cases habs : t = msgPointerAbs
  · subst habs
    exact ⟨⟨rfl, rfl⟩, rfl⟩
  by_cases hstatus : t = msgGetStatus
  · subst hstatus
    rw [dispatch_status]
    split <;> exact ⟨⟨rfl, rfl⟩, rfl⟩
  · simp only [Client.dispatch, hdown, hup, habs, hstatus, if_false, Item.position, Option.none_or]
    split_ifs <;> exact ⟨⟨rfl, rfl⟩, rfl⟩

/-- Turning a client away, or greeting it, moves nothing. -/
theorem greet_position (c : Client) (m : Item) :
    (c.greet m.1 m.2).state.hid = c.hid ∧ (c.greet m.1 m.2).state.pendingAbs = c.pendingAbs := by
  rcases greet_cases c m.1 m.2 with h | ⟨-, c', rfl, ⟨-, h⟩ | h⟩ <;>
    · rw [h]
      exact ⟨rfl, rfl⟩

theorem batch_act {xy : UInt16 × UInt16} {ms : List Item} {c : Client} (h : Batch xy ms c)
    (m : Item) : Batch xy (ms ++ c.heard m) (c.act m).state := by
  rw [Client.heard, Client.act]
  by_cases hg : c.greeted = true
  · rw [if_pos hg, if_pos hg]
    cases hflush : Client.needsFlush m.1 with
    | true =>
        obtain ⟨⟨hx, hy⟩, hpending⟩ := dispatch_position c.flushAbs m
        rw [position_of_needsFlush hflush, Option.none_or, pendingAbs_flushAbs] at hpending
        refine ⟨?_, ?_⟩
        · have hm : lastPosition (lastPosition xy ms) [m] = lastPosition xy ms := by
            simp [lastPosition, position_of_needsFlush hflush]
          rw [flushed_snoc ms hflush, if_pos rfl, hx, hy, position_flush h, lastPosition_append, hm]
        · rw [unflushed_snoc ms hflush]
          exact hpending
    | false =>
        obtain ⟨⟨hx, hy⟩, hpending⟩ := dispatch_position c m
        refine ⟨?_, ?_⟩
        · rw [flushed_snoc_of_not ms hflush]
          exact (Prod.ext hx hy).trans h.position
        · rw [unflushed_snoc_of_not ms hflush, List.filterMap_append, List.getLast?_append,
            ← h.pending]
          exact hpending.trans (by cases hm : m.position <;> simp [hm])
  · rw [if_neg hg, if_neg hg, List.append_nil]
    obtain ⟨hhid, hpending⟩ := greet_position c m
    exact ⟨by rw [hhid]; exact h.position, hpending.trans h.pending⟩

theorem batch_logged {xy : UInt16 × UInt16} {p : Client × List Item} (h : Batch xy p.2 p.1)
    (m : Item) :
    Batch xy (logged Client.heard Client.act p m).state.2
      (logged Client.heard Client.act p m).state.1 := by
  have hact := batch_act h m
  rw [logged]
  cases hm : p.1.act m with
  | go c =>
      rw [hm] at hact
      exact hact
  | stop c =>
      rw [hm] at hact
      exact hact

theorem batch_acts {xy : UInt16 × UInt16} {p q : Client × List Item} {ms : List Item}
    (h : Batch xy p.2 p.1) (hacts : acts (logged Client.heard Client.act) p ms = .go q) :
    Batch xy q.2 q.1 := by
  induction ms generalizing p with
  | nil =>
      cases hacts
      exact h
  | cons m ms ih =>
      have hm := batch_logged h m
      rw [acts] at hacts
      cases hact : logged Client.heard Client.act p m with
      | go p' =>
          rw [hact] at hacts hm
          exact ih hm hacts
      | stop p' =>
          rw [hact] at hacts
          cases hacts

/-- Wherever the loop over a batch gets to, and however it ends there. -/
theorem batch_drain {xy : UInt16 × UInt16} {p : Client × List Item} (h : Batch xy p.2 p.1)
    (bs : List UInt8) :
    Batch xy (framing.drain (logged Client.heard Client.act) p bs).state.1.2
      (framing.drain (logged Client.heard Client.act) p bs).state.1.1 := by
  cases hdrain : framing.drain (logged Client.heard Client.act) p bs with
  | go r =>
      obtain ⟨ms, -, -, hacts⟩ := framing.drain_go_iff.mp hdrain
      exact batch_acts h hacts
  | stop r =>
      obtain ⟨ms, rest, q, -, hacts, hhalts⟩ := framing.drain_stop_iff.mp hdrain
      have hq := batch_acts h hacts
      cases hhalts with
      | bad _ => exact hq
      | @item m _ _ _ hact =>
          have hm := batch_logged hq m
          rw [hact] at hm
          exact hm

/-- The batch that a read starts. -/
theorem batch_log {c : Client} (h : c.pendingAbs = none) (bs : List UInt8) :
    Batch (c.hid.x, c.hid.y) (framing.log Client.heard Client.act c bs)
      (framing.drain Client.act c bs).state.1 := by
  have hbatch := batch_drain (p := (c, [])) (batch_start h) bs
  rw [framing.drain_logged] at hbatch
  cases hdrain : framing.drain Client.act c bs with
  | go r =>
      rw [hdrain] at hbatch
      exact hbatch
  | stop r =>
      rw [hdrain] at hbatch
      exact hbatch

/-! ## Between two reads -/

/-- Nothing is held back, and the position is that of the messages. -/
structure Settled (xy : UInt16 × UInt16) (ms : List Item) (c : Client) : Prop where
  pending : c.pendingAbs = none
  position : (c.hid.x, c.hid.y) = lastPosition xy ms

/-- A turn is undisturbed, or ends the session with nothing read. -/
theorem turn_cases (s : Session) (t : Turn) :
    t.Undisturbed ∨ s.turn t = .stop s ∧ s.seen Client.heard t = [] := by
  obtain ⟨shutdown, stale, read⟩ := t
  cases shutdown with
  | true =>
      refine .inr ⟨rfl, ?_⟩
      cases read <;> rfl
  | false =>
      cases stale with
      | true =>
          refine .inr ⟨rfl, ?_⟩
          cases read <;> rfl
      | false =>
          cases read with
          | eof => exact .inr ⟨rfl, rfl⟩
          | error => exact .inr ⟨rfl, rfl⟩
          | bytes chunk => exact .inl (undisturbed_reads chunk)
          | wouldBlock => exact .inl ⟨rfl, rfl, trivial⟩

theorem seen_reads (s : Session) (chunk : Chunk) :
    s.seen Client.heard (.reads chunk) =
      framing.log Client.heard Client.act s.client (s.buf ++ chunk.bytes) := by
  simp only [Session.seen, Turn.reads]
  exact if_neg (by simp)

theorem settled_turn {xy : UInt16 × UInt16} {ms : List Item} {s s' : Session} {t : Turn}
    (h : Settled xy ms s.client) (ht : s.turn t = .go s') :
    Settled xy (ms ++ s.seen Client.heard t) s'.client := by
  rcases turn_cases s t with hund | ⟨hstop, -⟩
  · rcases hund.cases with ⟨chunk, rfl⟩ | rfl
    · have hbatch := batch_log h.pending (s.buf ++ chunk.bytes)
      rw [turn_reads] at ht
      cases hdrain : framing.drain Client.act s.client (s.buf ++ chunk.bytes) with
      | go r =>
          rw [hdrain] at ht hbatch
          cases ht
          refine ⟨pendingAbs_flushAbs r.1, ?_⟩
          rw [seen_reads, lastPosition_append, ← h.position]
          exact position_flush hbatch
      | stop r =>
          rw [hdrain] at ht
          cases ht
    · rw [turn_wouldBlock] at ht
      cases ht
      rw [Session.seen, List.append_nil]
      exact h
  · rw [ht] at hstop
    cases hstop

theorem settled_feed {xy : UInt16 × UInt16} {ms : List Item} {s : Session} {turns : List Turn}
    {p : Session × List Item} (h : Settled xy ms s.client)
    (hrun : acts (logged (Session.seen Client.heard) Session.turn) (s, ms) turns = .go p) :
    Settled xy p.2 p.1.client := by
  induction turns generalizing s ms with
  | nil =>
      cases hrun
      exact h
  | cons t turns ih =>
      rw [acts, logged] at hrun
      cases ht : s.turn t with
      | go s' =>
          rw [ht] at hrun
          exact ih (settled_turn h ht) hrun
      | stop s' =>
          rw [ht] at hrun
          cases hrun

/-! ## The release at the end -/

theorem lastWritten_releaseAll_ptr (h : Hid) :
    h.releaseAll.lastWritten .ptr = some (Hid.ptrReport 0 h.x h.y 0) := by
  rw [Hid.lastWritten, Hid.releaseAll, Hid.sent_flushPtr_ptr, List.getLast?_concat]
  rfl

/-- A report is of a position up to its lowest bit. -/
theorem ptrReport_eq_iff (xy xy' : UInt16 × UInt16) :
    Hid.ptrReport 0 xy.1 xy.2 0 = Hid.ptrReport 0 xy'.1 xy'.2 0 ↔ scaled xy = scaled xy' := by
  constructor
  · intro h
    simp only [Hid.ptrReport, List.cons.injEq] at h
    obtain ⟨-, hlx, hhx, hly, hhy, -⟩ := h
    have hx := low_add_high (xy.1 >>> 1)
    have hy := low_add_high (xy.2 >>> 1)
    rw [hlx, hhx, low_add_high] at hx
    rw [hly, hhy, low_add_high] at hy
    exact Prod.ext (UInt16.toNat_inj.mp hx.symm) (UInt16.toNat_inj.mp hy.symm)
  · intro h
    rw [scaled, scaled, Prod.mk.injEq] at h
    rw [Hid.ptrReport, Hid.ptrReport, h.1, h.2]

/-- Where a session ends, the position is that of the messages that were
flushed. -/
theorem position_of_stop {xy : UInt16 × UInt16} {ms : List Item} {s s' : Session} {t : Turn}
    (h : Settled xy ms s.client) (ht : s.turn t = .stop s') :
    (s'.client.hid.x, s'.client.hid.y) =
      lastPosition xy (ms ++ flushed (s.seen Client.heard t)) := by
  rcases turn_cases s t with hund | ⟨hstop, hseen⟩
  · rcases hund.cases with ⟨chunk, rfl⟩ | rfl
    · have hbatch := batch_log h.pending (s.buf ++ chunk.bytes)
      rw [turn_reads] at ht
      cases hdrain : framing.drain Client.act s.client (s.buf ++ chunk.bytes) with
      | go r =>
          rw [hdrain] at ht
          cases ht
      | stop r =>
          rw [hdrain] at ht hbatch
          cases ht
          rw [seen_reads, lastPosition_append, ← h.position]
          exact hbatch.position
    · rw [turn_wouldBlock] at ht
      cases ht
  · rw [ht, Flow.stop.injEq] at hstop
    rw [hstop, hseen]
    exact h.position.trans (congrArg (lastPosition xy) (List.append_nil ms).symm)

/-- The pointer report of the release after a session has the position of the
last POINTER_ABS exactly if the one that was flushed last, before the end of
the last batch was reached, is the same in 15 bits. -/
theorem released_at_last_iff (hid : Hid) (room : Option Nat) (before : List Turn) (t : Turn)
    {s s' : Session} {ms : List Item}
    (hbefore : (Session.new hid room).feed Client.heard before = .go (s, ms))
    (hstop : s.turn t = .stop s') :
    s'.client.hid.releaseAll.lastWritten .ptr =
        some (Hid.ptrReport 0 (lastPosition (hid.x, hid.y) (ms ++ s.seen Client.heard t)).1
          (lastPosition (hid.x, hid.y) (ms ++ s.seen Client.heard t)).2 0) ↔
      scaled (lastPosition (hid.x, hid.y) (ms ++ flushed (s.seen Client.heard t))) =
        scaled (lastPosition (hid.x, hid.y) (ms ++ s.seen Client.heard t)) := by
  have hnew : Settled (hid.x, hid.y) [] (Session.new hid room).client := ⟨rfl, rfl⟩
  have hposition := position_of_stop (settled_feed hnew hbefore) hstop
  rw [lastWritten_releaseAll_ptr, Option.some.injEq, ← hposition]
  exact ptrReport_eq_iff (s'.client.hid.x, s'.client.hid.y) _

/-- HELLO, a position, a button, and another position; then a frame of no
known type. -/
def dragThenJunk : Chunk where
  bytes := [0x01, 0x02, 0x01, 0x00, 0x20, 0x04, 0x00, 0x10, 0x00, 0x10, 0x21, 0x01, 0x01,
    0x20, 0x04, 0xff, 0xff, 0xff, 0xff, 0xff, 0x00]
  nonempty := by decide
  le_chunk := by decide

/-- The button is released where it was pressed, not where the last position
has it. -/
theorem position_lost :
    ∃ s', (Session.new (.open fun _ => true) none).turn (.reads dragThenJunk) = .stop s' ∧
      (Session.new (.open fun _ => true) none).seen Client.heard (.reads dragThenJunk) =
        [(msgPointerAbs, [0x00, 0x10, 0x00, 0x10]), (msgPointerButton, [0x01]),
          (msgPointerAbs, [0xff, 0xff, 0xff, 0xff])] ∧
      s'.client.hid.releaseAll.lastWritten .ptr = some (Hid.ptrReport 0 0x1000 0x1000 0) ∧
      Hid.ptrReport 0 0x1000 0x1000 0 ≠ Hid.ptrReport 0 0xffff 0xffff 0 :=
  ⟨_, rfl, by decide +kernel, by decide +kernel, by decide⟩

/-- The same bytes in two reads. -/
theorem released_at_last_iff_twoReads :
    ∃ s s' ms, (Session.new (.open fun _ => true) none).feed Client.heard
        [.reads ⟨dragThenJunk.bytes.take 19, by decide, by decide⟩] = .go (s, ms) ∧
      s.turn (.reads ⟨[0xff, 0x00], by decide, by decide⟩) = .stop s' ∧
      s'.client.hid.releaseAll.lastWritten .ptr =
        some (Hid.ptrReport 0
          (lastPosition (pointerCenter, pointerCenter) (ms ++ s.seen Client.heard
            (.reads ⟨[0xff, 0x00], by decide, by decide⟩))).1
          (lastPosition (pointerCenter, pointerCenter) (ms ++ s.seen Client.heard
            (.reads ⟨[0xff, 0x00], by decide, by decide⟩))).2 0) := by
  refine ⟨_, _, _, rfl, rfl, ?_⟩
  exact (released_at_last_iff (.open fun _ => true) none
    [.reads ⟨dragThenJunk.bytes.take 19, by decide, by decide⟩]
    (.reads ⟨[0xff, 0x00], by decide, by decide⟩) rfl rfl).mpr (by decide +kernel)

end Beaglewing.Bridge
