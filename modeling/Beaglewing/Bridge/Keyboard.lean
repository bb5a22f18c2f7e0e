/-
# `Bridge.Keyboard` — presses and releases, and the board they stand for

What KEY_DOWN, KEY_UP, KEY_STATE and RELEASE_ALL leave behind in the modifier
byte and the six slots.  With presses, releases and RELEASE_ALL alone the two
are a set of modifiers and a set of at most six other usages (`Board`,
`keyboard_refines`): the slots are distinct, however they were reused, and
the last report is the current state.

KEY_STATE loads the slots as they come.  A usage from 0xE0 to 0xE7 in a slot
is out of KEY_UP's reach, which toggles the modifier bit for it, and stays
until the slots are loaded again (`keyUp_report`).
-/
import Beaglewing.Bridge.Coalesce

namespace Beaglewing.Bridge

open Base

/-- The usages that are bits of the modifier byte. -/
def Modifier (usage : UInt8) : Prop := 0xe0 ≤ usage ∧ usage ≤ 0xe7

instance (usage : UInt8) : Decidable (Modifier usage) :=
  inferInstanceAs (Decidable (_ ∧ _))

/-- Whether the bit of a modifier usage is set. -/
def bitOf (modifiers usage : UInt8) : Bool := modifiers.toNat.testBit (usage.toNat - 0xe0)

theorem Modifier.toNat_mem {u : UInt8} (h : Modifier u) : 0xe0 ≤ u.toNat ∧ u.toNat ≤ 0xe7 :=
  ⟨UInt8.le_iff_toNat_le.mp h.1, UInt8.le_iff_toNat_le.mp h.2⟩

theorem not_modifier_zero : ¬ Modifier 0 := by decide

/-! ## The modifier byte -/

theorem toNat_bit {u : UInt8} (h : Modifier u) :
    ((1 : UInt8) <<< (u - 0xe0)).toNat = 2 ^ (u.toNat - 0xe0) := by
  have hu := h.toNat_mem
  have hsub : (u - 0xe0).toNat = u.toNat - 0xe0 := UInt8.toNat_sub_of_le _ _ h.1
  rw [UInt8.toNat_shiftLeft, hsub, Nat.mod_eq_of_lt (a := u.toNat - 0xe0) (by omega),
    Nat.shiftLeft_eq, UInt8.toNat_one, one_mul]
  exact Nat.mod_eq_of_lt (Nat.pow_lt_pow_right (by decide) (by omega))

theorem bitOf_bit {u v : UInt8} (hu : Modifier u) (hv : Modifier v) :
    bitOf ((1 : UInt8) <<< (u - 0xe0)) v = decide (v = u) := by
  have hu' := hu.toNat_mem
  have hv' := hv.toNat_mem
  unfold bitOf
  rw [toNat_bit hu, Nat.testBit_two_pow, decide_eq_decide, ← UInt8.toNat_inj]
  omega

theorem bitOf_or (m n u : UInt8) : bitOf (m ||| n) u = (bitOf m u || bitOf n u) := by
  rw [bitOf, UInt8.toNat_or, Nat.testBit_or]
  rfl

theorem bitOf_and (m n u : UInt8) : bitOf (m &&& n) u = (bitOf m u && bitOf n u) := by
  rw [bitOf, UInt8.toNat_and, Nat.testBit_and]
  rfl

theorem bitOf_not (m : UInt8) {u : UInt8} (hu : Modifier u) : bitOf (~~~m) u = !bitOf m u := by
  have hu' := hu.toNat_mem
  have h := BitVec.getLsbD_not (x := m.toBitVec) (i := u.toNat - 0xe0)
  rw [decide_eq_true (show u.toNat - 0xe0 < 8 by omega), Bool.true_and] at h
  exact h

theorem bitOf_zero (u : UInt8) : bitOf 0 u = false := Nat.zero_testBit _

/-- A press sets the usage's bit and no other. -/
theorem bitOf_press (m : UInt8) {u v : UInt8} (hu : Modifier u) (hv : Modifier v) :
    bitOf (m ||| (1 : UInt8) <<< (u - 0xe0)) v = true ↔ v = u ∨ bitOf m v = true := by
  rw [bitOf_or, bitOf_bit hu hv, Bool.or_eq_true, decide_eq_true_eq, or_comm]

theorem bitOf_release (m : UInt8) {u v : UInt8} (hu : Modifier u) (hv : Modifier v) :
    bitOf (m &&& ~~~((1 : UInt8) <<< (u - 0xe0))) v = true ↔ v ≠ u ∧ bitOf m v = true := by
  rw [bitOf_and, bitOf_not _ hv, bitOf_bit hu hv, Bool.and_eq_true, Bool.not_eq_true',
    decide_eq_false_iff_not, and_comm]

/-! ## Reports -/

namespace Hid

/-- The keyboard report of the current state. -/
def kbdReport (h : Hid) : List UInt8 := h.modifiers :: 0 :: List.ofFn h.keys

/-- The last report written to the device, taken or refused. -/
def lastWritten (h : Hid) (which : Which) : Option (List UInt8) := (h.sent which).getLast?

theorem lastWritten_flushKbd (h : Hid) : h.flushKbd.lastWritten .kbd = some h.kbdReport := by
  rw [lastWritten, sent_flushKbd_kbd, List.getLast?_concat]
  rfl

theorem lastWritten_releaseAll (h : Hid) :
    h.releaseAll.lastWritten .kbd = some h.releaseAll.kbdReport := by
  rw [lastWritten, releaseAll, sent_flushPtr_kbd]
  exact lastWritten_flushKbd _

/-! ## The branches of a key event -/

theorem keyEvent_modifier (h : Hid) {u : UInt8} (hu : Modifier u) (down : Bool) :
    h.keyEvent u down =
      { h with
        modifiers := if down then h.modifiers ||| 1 <<< (u - 0xe0)
          else h.modifiers &&& ~~~(1 <<< (u - 0xe0)) }.flushKbd :=
  if_pos hu

theorem keyEvent_up (h : Hid) {u : UInt8} (hu : ¬ Modifier u) :
    h.keyEvent u false =
      { h with keys := fun i => if h.keys i = u then 0 else h.keys i }.flushKbd :=
  (if_neg hu).trans (if_neg Bool.false_ne_true)

/-- A press is already there, goes to a free slot, or is dropped. -/
theorem keyEvent_down_cases (h : Hid) {u : UInt8} (hu : ¬ Modifier u) :
    ((∃ i, h.keys i = u) ∧ h.keyEvent u true = h) ∨
      (∀ i, h.keys i ≠ u) ∧
        ((∃ slot, h.keys slot = 0 ∧
            h.keyEvent u true = { h with keys := Function.update h.keys slot u }.flushKbd) ∨
          (∀ i, h.keys i ≠ 0) ∧ h.keyEvent u true = h) := by
  have hrange : ¬ (0xe0 ≤ u ∧ u ≤ 0xe7) := hu
  by_cases hheld : ∃ i, h.keys i = u
  · refine .inl ⟨hheld, ?_⟩
    rw [keyEvent, if_neg hrange, if_pos rfl, if_pos hheld]
  · refine .inr ⟨not_exists.mp hheld, ?_⟩
    rw [keyEvent, if_neg hrange, if_pos rfl, if_neg hheld]
    cases hfind : (List.finRange 6).find? fun i => h.keys i = 0 with
    | some slot => exact .inl ⟨slot, by simpa using List.find?_some hfind, rfl⟩
    | none =>
        refine .inr ⟨?_, rfl⟩
        intro i
        simpa using List.find?_eq_none.mp hfind i (List.mem_finRange i)

/-- A key event that is not ignored is reported. -/
theorem keyEvent_fresh (h : Hid) (u : UInt8) (down : Bool) :
    h.keyEvent u down = h ∨
      (h.keyEvent u down).lastWritten .kbd = some (h.keyEvent u down).kbdReport := by
  by_cases hu : Modifier u
  · rw [keyEvent_modifier h hu]
    exact .inr (lastWritten_flushKbd _)
  · cases down with
    | false =>
        rw [keyEvent_up h hu]
        exact .inr (lastWritten_flushKbd _)
    | true =>
        rcases keyEvent_down_cases h hu with ⟨-, heq⟩ | ⟨-, ⟨slot, -, heq⟩ | ⟨-, heq⟩⟩
        · exact .inl heq
        · rw [heq]
          exact .inr (lastWritten_flushKbd _)
        · exact .inl heq

/-- A modifier usage in a slot stays there. -/
theorem mem_keys_keyEvent (h : Hid) {u : UInt8} (hu : Modifier u) (v : UInt8) (down : Bool) :
    (∃ i, (h.keyEvent v down).keys i = u) ↔ ∃ i, h.keys i = u := by
  have hu0 : u ≠ 0 := by
    rintro rfl
    exact not_modifier_zero hu
  by_cases hv : Modifier v
  · rw [keyEvent_modifier h hv]
    rfl
  · have hne : v ≠ u := by
      rintro rfl
      exact hv hu
    cases down with
    | false =>
        rw [keyEvent_up h hv]
        refine exists_congr fun i => ?_
        change (if h.keys i = v then 0 else h.keys i) = u ↔ _
        split
        · next hi => simp [hi, hne, hu0.symm]
        · exact Iff.rfl
    | true =>
        rcases keyEvent_down_cases h hv with ⟨-, heq⟩ | ⟨-, ⟨slot, hslot, heq⟩ | ⟨-, heq⟩⟩
        · rw [heq]
        · rw [heq]
          refine exists_congr fun i => ?_
          change Function.update h.keys slot v i = u ↔ _
          by_cases hi : i = slot
          · subst hi
            simp [hslot, hne, hu0.symm]
          · rw [Function.update_of_ne hi]
        · rw [heq]

end Hid

/-! ## KEY_UP -/

/-- What a keyboard report says is held. -/
def Asserts (report : List UInt8) (usage : UInt8) : Prop :=
  usage ∈ report.drop 2 ∨ Modifier usage ∧ bitOf (report.getD 0 0) usage = true

instance (report : List UInt8) (usage : UInt8) : Decidable (Asserts report usage) :=
  inferInstanceAs (Decidable (_ ∨ _))

/-- The slots, if KEY_STATE and RELEASE_ALL alone changed them. -/
def loads (slots : Fin 6 → UInt8) (m : Item) : Fin 6 → UInt8 :=
  if m.1 = msgKeyState then fun i => m.2.getD (1 + i) 0
  else if m.1 = msgReleaseAll then fun _ => 0
  else slots

/-- What the last KEY_STATE or RELEASE_ALL has loaded the slots with. -/
def loaded (ms : List Item) : Fin 6 → UInt8 := ms.foldl loads fun _ => 0

theorem loads_greet {c c' : Client} {m : Item} (h : c.greet m.1 m.2 = .go c')
    (slots : Fin 6 → UInt8) : loads slots m = slots ∧ c'.hid = c.hid := by
  obtain ⟨ht, -, rfl⟩ := greet_go h
  refine ⟨?_, rfl⟩
  rw [loads, ht, if_neg (by decide), if_neg (by decide)]

/-- One message does to the modifier usages in the slots what it loads. -/
theorem mem_keys_dispatch {c c' : Client} {m : Item} {u : UInt8} (hu : Modifier u)
    (h : c.dispatch m.1 m.2 = .go c') {slots : Fin 6 → UInt8}
    (hslots : (∃ i, c.hid.keys i = u) ↔ ∃ i, slots i = u) :
    (∃ i, c'.hid.keys i = u) ↔ ∃ i, loads slots m i = u := by
  obtain ⟨t, p⟩ := m
  by_cases hdown : t = msgKeyDown
  · subst hdown
    cases h
    exact (Hid.mem_keys_keyEvent c.hid hu (p.getD 0 0) true).trans hslots
  by_cases hup : t = msgKeyUp
  · subst hup
    cases h
    exact (Hid.mem_keys_keyEvent c.hid hu (p.getD 0 0) false).trans hslots
  by_cases hstate : t = msgKeyState
  · subst hstate
    cases h
    exact Iff.rfl
  by_cases hrelease : t = msgReleaseAll
  · subst hrelease
    cases h
    exact Iff.rfl
  · have hloads : loads slots (t, p) = slots := by
      rw [loads, if_neg hstate, if_neg hrelease]
    rw [hloads]
    -- The other messages do not touch the keys.
    simp only [Client.dispatch, hdown, hup, hstate, hrelease, if_false] at h
    split_ifs at h <;> cases h <;> exact hslots

theorem mem_keys_act {c c' : Client} {m : Item} {u : UInt8} (hu : Modifier u)
    (h : c.act m = .go c') {slots : Fin 6 → UInt8}
    (hslots : (∃ i, c.hid.keys i = u) ↔ ∃ i, slots i = u) :
    (∃ i, c'.hid.keys i = u) ↔ ∃ i, loads slots m i = u := by
  rw [Client.act] at h
  by_cases hg : c.greeted = true
  · rw [if_pos hg] at h
    refine mem_keys_dispatch hu h ?_
    split
    · rw [keys_flushAbs]
      exact hslots
    · exact hslots
  · rw [if_neg hg] at h
    obtain ⟨hloads, hhid⟩ := loads_greet h slots
    rw [hloads, hhid]
    exact hslots

theorem mem_keys_led {hid : Hid} (hr : hid.Released) {room : Option Nat} {ms : List Item}
    {c : Client} {u : UInt8} (hu : Modifier u)
    (h : Led Client.act Client.flushAbs (Session.new hid room).client ms c) :
    (∃ i, c.hid.keys i = u) ↔ ∃ i, loaded ms i = u := by
  induction h with
  | start =>
      refine exists_congr fun i => ?_
      rw [show (Session.new hid room).client.hid.keys i = 0 from hr.keys i]
      rfl
  | act _ hact ih =>
      rw [loaded, List.foldl_append]
      exact mem_keys_act hu hact ih
  | tidy _ ih =>
      rw [keys_flushAbs]
      exact ih

theorem act_keyUp {c : Client} (hg : c.greeted = true) (u : UInt8) :
    c.act (msgKeyUp, [u]) = .go { c with hid := c.hid.keyEvent u false } :=
  (if_pos hg).trans rfl

theorem reports_keyUp (h : Hid) (u : UInt8) :
    (h.keyEvent u false).reports =
      h.reports ++ [⟨.kbd, (h.keyEvent u false).kbdReport, h.takes h.reports.length⟩] := by
  by_cases hu : Modifier u
  · rw [Hid.keyEvent_modifier _ hu]
    rfl
  · rw [Hid.keyEvent_up _ hu]
    rfl

theorem mem_slots_iff {h : Hid} {u : UInt8} : u ∈ h.kbdReport.drop 2 ↔ ∃ i, h.keys i = u :=
  List.mem_ofFn

/-- KEY_UP writes one report.  A usage that is no modifier is not in it, and
the bit of one that is is clear; a modifier usage is in a slot exactly if the
last KEY_STATE or RELEASE_ALL put it there. -/
theorem keyUp_report {hid : Hid} (hr : hid.Released) {room : Option Nat} {ms : List Item}
    {c : Client} (hled : Led Client.act Client.flushAbs (Session.new hid room).client ms c)
    (hg : c.greeted = true) {u : UInt8} (hu : u ≠ 0) :
    ∃ c' report ok, c.act (msgKeyUp, [u]) = .go c' ∧
      c'.hid.reports = c.hid.reports ++ [⟨.kbd, report, ok⟩] ∧
      (¬ Modifier u → ¬ Asserts report u) ∧
      (Modifier u → bitOf (report.getD 0 0) u = false ∧
        (u ∈ report.drop 2 ↔ ∃ i, loaded ms i = u)) := by
  refine ⟨_, _, _, act_keyUp hg u, reports_keyUp c.hid u, ?_, ?_⟩
  · intro hm
    rw [Asserts, mem_slots_iff, Hid.keyEvent_up _ hm]
    rintro (⟨i, hi⟩ | ⟨hm', -⟩)
    · change (if c.hid.keys i = u then 0 else c.hid.keys i) = u at hi
      split at hi
      · exact hu hi.symm
      · next hne => exact hne hi
    · exact hm hm'
  · intro hm
    constructor
    · rw [Hid.keyEvent_modifier _ hm, ← Bool.not_eq_true]
      intro hbit
      exact ((bitOf_release c.hid.modifiers hm hm).mp hbit).1 rfl
    · rw [mem_slots_iff, Hid.mem_keys_keyEvent _ hm, mem_keys_led hr hm hled]

theorem keyUp_report_afterState :
    ∃ c : Client, acts Client.act (Session.new (.open fun _ => true) none).client
        [helloV1, (msgKeyState, [0x02, 0x04, 0xe1, 0, 0, 0, 0])] = .go c ∧
      ∃ c' report ok, c.act (msgKeyUp, [0x04]) = .go c' ∧
        c'.hid.reports = c.hid.reports ++ [⟨.kbd, report, ok⟩] ∧ ¬ Asserts report 0x04 := by
  refine ⟨_, rfl, ?_⟩
  obtain ⟨c', report, ok, hact, hreports, hplain, -⟩ :=
    @keyUp_report _ (Hid.released_open fun _ => true) none _ _
      (led_acts .start (rfl : acts Client.act _
        [helloV1, (msgKeyState, [0x02, 0x04, 0xe1, 0, 0, 0, 0])] = .go _)) rfl 0x04 (by decide)
  exact ⟨c', report, ok, hact, hreports, hplain (by decide)⟩

/-- KEY_STATE puts left control into a slot, and KEY_UP leaves it there. -/
theorem keyUp_keeps_slot :
    ∃ c c', acts Client.act (Session.new (.open fun _ => true) none).client
        [helloV1, (msgKeyState, [0, 0xe0, 0, 0, 0, 0, 0])] = .go c ∧
      c.act (msgKeyUp, [0xe0]) = .go c' ∧
      c'.hid.reports = c.hid.reports ++ [⟨.kbd, [0, 0, 0xe0, 0, 0, 0, 0, 0], true⟩] ∧
      Asserts [0, 0, 0xe0, 0, 0, 0, 0, 0] 0xe0 :=
  ⟨_, _, rfl, rfl, rfl, by decide⟩

/-! ## The board that presses and releases stand for -/

/-- The modifiers and the other usages that are held. -/
structure Board where
  modifiers : Finset UInt8
  held : Finset UInt8
  deriving DecidableEq

inductive Press where
  | down (usage : UInt8)
  | up (usage : UInt8)
  | releaseAll

/-- The message of a press. -/
def Press.item : Press → Item
  | .down usage => (msgKeyDown, [usage])
  | .up usage => (msgKeyUp, [usage])
  | .releaseAll => (msgReleaseAll, [])

namespace Board

def empty : Board := ⟨∅, ∅⟩

/-- At most six usages are held; a seventh is not. -/
def press (b : Board) : Press → Board
  | .down u =>
      if Modifier u then { b with modifiers := insert u b.modifiers }
      else if u = 0 ∨ u ∈ b.held ∨ b.held.card = 6 then b
      else { b with held := insert u b.held }
  | .up u =>
      if Modifier u then { b with modifiers := b.modifiers.erase u }
      else { b with held := b.held.erase u }
  | .releaseAll => empty

def presses (ps : List Press) : Board := ps.foldl press empty

theorem presses_snoc (ps : List Press) (p : Press) :
    presses (ps ++ [p]) = (presses ps).press p := by
  rw [presses, List.foldl_append]
  rfl

end Board

/-- The modifier byte and the slots hold the board. -/
structure Represents (b : Board) (h : Hid) : Prop where
  distinct : ∀ i j, h.keys i ≠ 0 → h.keys i = h.keys j → i = j
  held : ∀ u, u ∈ b.held ↔ u ≠ 0 ∧ ∃ i, h.keys i = u
  plain : ∀ i, ¬ Modifier (h.keys i)
  modifiers : ∀ u, u ∈ b.modifiers ↔ Modifier u ∧ bitOf h.modifiers u = true

namespace Represents
variable {b b' : Board} {h h' : Hid}

/-- A state stands for one board. -/
theorem unique (hb : Represents b h) (hb' : Represents b' h) : b = b' := by
  obtain ⟨m, s⟩ := b
  obtain ⟨m', s'⟩ := b'
  have hm : m = m' := Finset.ext fun u => (hb.modifiers u).trans (hb'.modifiers u).symm
  have hs : s = s' := Finset.ext fun u => (hb.held u).trans (hb'.held u).symm
  rw [hm, hs]

/-- Only the modifier byte and the slots count. -/
theorem congr (hb : Represents b h) (hm : h'.modifiers = h.modifiers) (hk : h'.keys = h.keys) :
    Represents b h' := by
  refine ⟨?_, ?_, ?_, ?_⟩
  · rw [hk]
    exact hb.distinct
  · rw [hk]
    exact hb.held
  · rw [hk]
    exact hb.plain
  · rw [hm]
    exact hb.modifiers

/-- As many slots are taken as usages are held. -/
theorem card (hb : Represents b h) :
    (Finset.univ.filter fun i => h.keys i ≠ 0).card = b.held.card := by
  refine Finset.card_nbij h.keys ?_ ?_ ?_
  · intro i hi
    exact (hb.held _).mpr ⟨(Finset.mem_filter.mp hi).2, i, rfl⟩
  · intro i hi j _ hij
    exact hb.distinct i j (Finset.mem_filter.mp hi).2 hij
  · intro u hu
    obtain ⟨hu0, i, rfl⟩ := (hb.held u).mp hu
    exact ⟨i, Finset.mem_coe.mpr (Finset.mem_filter.mpr ⟨Finset.mem_univ i, hu0⟩), rfl⟩

theorem card_le (hb : Represents b h) : b.held.card ≤ 6 := by
  rw [← hb.card]
  exact (Finset.card_le_univ _).trans_eq (Fintype.card_fin 6)

/-- All slots are taken exactly if six usages are held. -/
theorem full_iff (hb : Represents b h) : b.held.card = 6 ↔ ∀ i, h.keys i ≠ 0 := by
  have hcard := Finset.card_eq_iff_eq_univ (Finset.univ.filter fun i => h.keys i ≠ 0)
  rw [Fintype.card_fin] at hcard
  rw [← hb.card, hcard, Finset.filter_eq_self]
  exact ⟨fun hall i => hall i (Finset.mem_univ i), fun hall i _ => hall i⟩

theorem heldKeyCount (hb : Represents b h) : h.heldKeyCount.toNat = b.held.card := by
  have hcount : (List.ofFn h.keys).countP (fun k => k ≠ 0) = b.held.card := by
    rw [← hb.card, List.ofFn_eq_map, List.countP_map, List.countP_eq_length_filter]
    rfl
  have := hb.card_le
  rw [Hid.heldKeyCount, hcount, UInt8.toNat_ofNat']
  omega

theorem empty (hr : h.Released) : Represents .empty h where
  distinct i _ hi _ := absurd (hr.keys i) hi
  held u := by
    refine ⟨fun hu => absurd hu (Finset.notMem_empty u), ?_⟩
    rintro ⟨hu0, i, rfl⟩
    exact absurd (hr.keys i) hu0
  plain i := by
    rw [hr.keys i]
    exact not_modifier_zero
  modifiers u := by
    refine ⟨fun hu => absurd hu (Finset.notMem_empty u), ?_⟩
    rintro ⟨-, hbit⟩
    rw [hr.modifiers, bitOf_zero] at hbit
    cases hbit

/-! One lemma per branch of a press. -/

theorem down_modifier (hb : Represents b h) {u : UInt8} (hu : Modifier u) :
    Represents { b with modifiers := insert u b.modifiers } (h.keyEvent u true) := by
  rw [Hid.keyEvent_modifier h hu]
  refine ⟨hb.distinct, hb.held, hb.plain, ?_⟩
  intro v
  change v ∈ insert u b.modifiers ↔
    Modifier v ∧ bitOf (h.modifiers ||| 1 <<< (u - 0xe0)) v = true
  rw [Finset.mem_insert, hb.modifiers]
  constructor
  · rintro (rfl | ⟨hv, hbit⟩)
    · exact ⟨hu, (bitOf_press _ hu hu).mpr (.inl rfl)⟩
    · exact ⟨hv, (bitOf_press _ hu hv).mpr (.inr hbit)⟩
  · rintro ⟨hv, hbit⟩
    exact ((bitOf_press _ hu hv).mp hbit).imp_right fun h => ⟨hv, h⟩

theorem up_modifier (hb : Represents b h) {u : UInt8} (hu : Modifier u) :
    Represents { b with modifiers := b.modifiers.erase u } (h.keyEvent u false) := by
  rw [Hid.keyEvent_modifier h hu]
  refine ⟨hb.distinct, hb.held, hb.plain, ?_⟩
  intro v
  change v ∈ b.modifiers.erase u ↔
    Modifier v ∧ bitOf (h.modifiers &&& ~~~(1 <<< (u - 0xe0))) v = true
  rw [Finset.mem_erase, hb.modifiers]
  constructor
  · rintro ⟨hne, hv, hbit⟩
    exact ⟨hv, (bitOf_release _ hu hv).mpr ⟨hne, hbit⟩⟩
  · rintro ⟨hv, hbit⟩
    obtain ⟨hne, hbit⟩ := (bitOf_release _ hu hv).mp hbit
    exact ⟨hne, hv, hbit⟩

/-- A usage that is not held yet goes to a free slot. -/
theorem down_slot (hb : Represents b h) {u : UInt8} (hu : ¬ Modifier u) (hu0 : u ≠ 0)
    (hfree : ∀ i, h.keys i ≠ u) {slot : Fin 6} (hslot : h.keys slot = 0) :
    Represents { b with held := insert u b.held }
      { h with keys := Function.update h.keys slot u }.flushKbd := by
  refine ⟨?_, ?_, ?_, hb.modifiers⟩
  · intro i j
    change Function.update h.keys slot u i ≠ 0 →
      Function.update h.keys slot u i = Function.update h.keys slot u j → i = j
    intro hi hij
    by_cases his : i = slot
    · subst his
      by_cases hjs : j = i
      · exact hjs.symm
      · rw [Function.update_self, Function.update_of_ne hjs] at hij
        exact absurd hij.symm (hfree j)
    · rw [Function.update_of_ne his] at hi hij
      by_cases hjs : j = slot
      · subst hjs
        rw [Function.update_self] at hij
        exact absurd hij (hfree i)
      · rw [Function.update_of_ne hjs] at hij
        exact hb.distinct i j hi hij
  · intro v
    change v ∈ insert u b.held ↔ v ≠ 0 ∧ ∃ i, Function.update h.keys slot u i = v
    rw [Finset.mem_insert, hb.held]
    constructor
    · rintro (rfl | ⟨hv0, i, rfl⟩)
      · exact ⟨hu0, slot, Function.update_self ..⟩
      · refine ⟨hv0, i, Function.update_of_ne ?_ ..⟩
        rintro rfl
        exact hv0 hslot
    · rintro ⟨hv0, i, hi⟩
      by_cases his : i = slot
      · subst his
        rw [Function.update_self] at hi
        exact .inl hi.symm
      · rw [Function.update_of_ne his] at hi
        exact .inr ⟨hv0, i, hi⟩
  · intro i
    change ¬ Modifier (Function.update h.keys slot u i)
    by_cases his : i = slot
    · subst his
      rwa [Function.update_self]
    · rw [Function.update_of_ne his]
      exact hb.plain i

theorem up_slot (hb : Represents b h) {u : UInt8} (hu : ¬ Modifier u) :
    Represents { b with held := b.held.erase u } (h.keyEvent u false) := by
  rw [Hid.keyEvent_up h hu]
  refine ⟨?_, ?_, ?_, hb.modifiers⟩
  · intro i j
    change (if h.keys i = u then 0 else h.keys i) ≠ 0 →
      (if h.keys i = u then 0 else h.keys i) = (if h.keys j = u then 0 else h.keys j) → i = j
    intro hi hij
    split at hi
    · exact absurd rfl hi
    · next hne =>
        rw [if_neg hne] at hij
        split at hij
        · exact absurd hij hi
        · exact hb.distinct i j hi hij
  · intro v
    change v ∈ b.held.erase u ↔ v ≠ 0 ∧ ∃ i, (if h.keys i = u then 0 else h.keys i) = v
    rw [Finset.mem_erase, hb.held]
    constructor
    · rintro ⟨hne, hv0, i, rfl⟩
      exact ⟨hv0, i, if_neg hne⟩
    · rintro ⟨hv0, i, hi⟩
      split at hi
      · exact absurd hi.symm hv0
      · next hne =>
          subst hi
          exact ⟨hne, hv0, i, rfl⟩
  · intro i
    change ¬ Modifier (if h.keys i = u then 0 else h.keys i)
    split
    · exact not_modifier_zero
    · exact hb.plain i

/-- A press that the code ignores is one that the board ignores. -/
theorem down (hb : Represents b h) (u : UInt8) :
    Represents (b.press (.down u)) (h.keyEvent u true) := by
  rw [Board.press]
  by_cases hu : Modifier u
  · rw [if_pos hu]
    exact hb.down_modifier hu
  · rw [if_neg hu]
    rcases Hid.keyEvent_down_cases h hu with ⟨⟨i, hi⟩, heq⟩ | ⟨hfree, hrest⟩
    · have hignored : u = 0 ∨ u ∈ b.held ∨ b.held.card = 6 := by
        by_cases hu0 : u = 0
        · exact .inl hu0
        · exact .inr (.inl ((hb.held u).mpr ⟨hu0, i, hi⟩))
      rw [if_pos hignored, heq]
      exact hb
    · have hnew : u ∉ b.held := fun hmem =>
        have ⟨i, hi⟩ := ((hb.held u).mp hmem).2
        hfree i hi
      rcases hrest with ⟨slot, hslot, heq⟩ | ⟨hfull, heq⟩
      · have hu0 : u ≠ 0 := by
          rintro rfl
          exact hfree slot hslot
        have hroom : ¬ (u = 0 ∨ u ∈ b.held ∨ b.held.card = 6) := by
          rintro (h0 | hmem | hcard)
          · exact hu0 h0
          · exact hnew hmem
          · exact hb.full_iff.mp hcard slot hslot
        rw [if_neg hroom, heq]
        exact hb.down_slot hu hu0 hfree hslot
      · rw [if_pos (.inr (.inr (hb.full_iff.mpr hfull))), heq]
        exact hb

theorem up (hb : Represents b h) (u : UInt8) :
    Represents (b.press (.up u)) (h.keyEvent u false) := by
  rw [Board.press]
  by_cases hu : Modifier u
  · rw [if_pos hu]
    exact hb.up_modifier hu
  · rw [if_neg hu]
    exact hb.up_slot hu

end Represents

/-! ## Every history of presses -/

/-- The last keyboard report is the current state. -/
def Hid.Fresh (h : Hid) : Prop := h.lastWritten .kbd = some h.kbdReport

theorem fresh_flushAbs {c : Client} (h : c.hid.Fresh) : c.flushAbs.hid.Fresh := by
  rw [Hid.Fresh, Hid.lastWritten, Hid.kbdReport] at h ⊢
  rw [kbd_flushAbs, modifiers_flushAbs, keys_flushAbs, h]

theorem represents_flushAbs {b : Board} {c : Client} (hb : Represents b c.hid) :
    Represents b c.flushAbs.hid :=
  hb.congr (modifiers_flushAbs c) (keys_flushAbs c)

/-- A key event that changes the board is reported, and one that does not
leaves a current report current. -/
theorem fresh_keyEvent {b b' : Board} {h : Hid} {u : UInt8} {down : Bool} (hb : Represents b h)
    (hb' : Represents b' (h.keyEvent u down)) (hchanged : b' ≠ b ∨ h.Fresh) :
    (h.keyEvent u down).Fresh := by
  rcases h.keyEvent_fresh u down with heq | hfresh
  · rw [heq] at hb' ⊢
    exact hchanged.resolve_left (not_not_intro (hb'.unique hb))
  · exact hfresh

/-- What one message of the three kinds does. -/
theorem act_press {b : Board} {c : Client} (hg : c.greeted = true) (hb : Represents b c.hid)
    (p : Press) :
    ∃ c', c.act p.item = .go c' ∧ c'.greeted = true ∧ Represents (b.press p) c'.hid ∧
      (b.press p ≠ b ∨ c.hid.Fresh → c'.hid.Fresh) := by
  cases p with
  | down u =>
      exact ⟨{ c with hid := c.hid.keyEvent u true }, (if_pos hg).trans rfl, hg, hb.down u,
        fresh_keyEvent hb (hb.down u)⟩
  | up u => exact ⟨_, act_keyUp hg u, hg, hb.up u, fresh_keyEvent hb (hb.up u)⟩
  | releaseAll =>
      exact ⟨{ c.flushAbs with hid := c.flushAbs.hid.releaseAll }, (if_pos hg).trans rfl,
        (greeted_flushAbs c).trans hg, Represents.empty (Hid.released_releaseAll _),
        fun _ => Hid.lastWritten_releaseAll _⟩

/-- One of the presses changed the board. -/
def Changed (ps : List Press) : Prop :=
  ∃ qs p, qs ++ [p] <+: ps ∧ Board.presses (qs ++ [p]) ≠ Board.presses qs

theorem changed_snoc {ps : List Press} {p : Press} (h : Changed (ps ++ [p])) :
    (Board.presses ps).press p ≠ Board.presses ps ∨ Changed ps := by
  obtain ⟨qs, q, hpre, hne⟩ := h
  rcases List.prefix_concat_iff.mp hpre with heq | hpre
  · obtain ⟨rfl, hq⟩ := List.append_inj' heq rfl
    cases hq
    rw [Board.presses_snoc] at hne
    exact .inl hne
  · exact .inr ⟨qs, q, hpre, hne⟩

/-- What holds after the presses. -/
structure Boarded (ps : List Press) (c : Client) : Prop where
  greeted : c.greeted = true
  represents : Represents (Board.presses ps) c.hid
  fresh : Changed ps → c.hid.Fresh

theorem boarded_act {ps : List Press} {c : Client} (h : Boarded ps c) (p : Press) :
    ∃ c', c.act p.item = .go c' ∧ Boarded (ps ++ [p]) c' := by
  obtain ⟨c', hact, hg, hb, hfresh⟩ := act_press h.greeted h.represents p
  refine ⟨c', hact, hg, ?_, ?_⟩
  · rwa [Board.presses_snoc]
  · intro hchanged
    exact hfresh ((changed_snoc hchanged).imp_right h.fresh)

theorem boarded_flushAbs {ps : List Press} {c : Client} (h : Boarded ps c) :
    Boarded ps c.flushAbs :=
  ⟨(greeted_flushAbs c).trans h.greeted, represents_flushAbs h.represents,
    fun hchanged => fresh_flushAbs (h.fresh hchanged)⟩

theorem boarded_start {c : Client} (hg : c.greeted = true) (hr : c.hid.Released) :
    Boarded [] c := by
  refine ⟨hg, .empty hr, ?_⟩
  rintro ⟨qs, p, hpre, -⟩
  exact absurd (List.prefix_nil.mp hpre) (by simp)

theorem boarded_led {c₀ c : Client} (hg : c₀.greeted = true) (hr : c₀.hid.Released)
    {ps : List Press} (h : Led Client.act Client.flushAbs c₀ (ps.map Press.item) c) :
    Boarded ps c := by
  generalize hms : ps.map Press.item = ms at h
  induction h generalizing ps with
  | start =>
      rw [List.map_eq_nil_iff.mp hms]
      exact boarded_start hg hr
  | @act ms m s s' _ hact ih =>
      obtain ⟨qs, q, rfl, rfl, hq⟩ := List.map_eq_append_iff.mp hms
      obtain ⟨p, rfl, rfl⟩ := List.map_eq_singleton_iff.mp hq
      obtain ⟨c', hact', hc'⟩ := boarded_act (ih rfl) p
      rw [hact, Flow.go.injEq] at hact'
      exact hact' ▸ hc'
  | tidy _ ih => exact boarded_flushAbs (ih hms)

theorem acts_presses {ps qs : List Press} {c : Client} (h : Boarded ps c) :
    ∃ c', acts Client.act c (qs.map Press.item) = .go c' := by
  induction qs generalizing ps c with
  | nil => exact ⟨c, rfl⟩
  | cons q qs ih =>
      obtain ⟨c', hact, hc'⟩ := boarded_act h q
      simp only [List.map_cons, acts, hact]
      exact ih hc'

/-- After any presses, releases and RELEASE_ALL from the released state, with
batches ending anywhere between them, the state is that of the board; and from
the first message that changes the board on, the last keyboard report is the
current state. -/
theorem keyboard_refines {c₀ : Client} (hg : c₀.greeted = true) (hr : c₀.hid.Released)
    (ps : List Press) :
    (∃ c, acts Client.act c₀ (ps.map Press.item) = .go c) ∧
      ∀ c, Led Client.act Client.flushAbs c₀ (ps.map Press.item) c →
        Represents (Board.presses ps) c.hid ∧ (Board.presses ps).held.card ≤ 6 ∧
        c.hid.heldKeyCount.toNat = (Board.presses ps).held.card ∧
        (Changed ps → c.hid.lastWritten .kbd =
          some (c.hid.modifiers :: 0 :: List.ofFn c.hid.keys)) := by
  refine ⟨acts_presses (boarded_start hg hr), ?_⟩
  intro c hled
  obtain ⟨-, hb, hfresh⟩ := boarded_led hg hr hled
  exact ⟨hb, hb.card_le, hb.heldKeyCount, hfresh⟩

theorem keyboard_refines_reused :
    ∃ c c' : Client, c.greeted = true ∧ c.hid.Released ∧
      acts Client.act c ([Press.down 4, .down 5, .up 4, .down 6].map Press.item) = .go c' ∧
      Represents (Board.presses [.down 4, .down 5, .up 4, .down 6]) c'.hid := by
  let c : Client :=
    { hid := .open fun _ => true, stream := .opened none, greeted := true, pendingAbs := none }
  have h := @keyboard_refines c rfl (Hid.released_open _)
    [.down 4, .down 5, .up 4, .down 6]
  obtain ⟨c', hgo⟩ := h.1
  exact ⟨c, c', rfl, Hid.released_open _, hgo, (h.2 c' (led_acts .start hgo)).1⟩

/-! ## The board and what is down -/

/-- The usages that are down after a press. -/
def Press.move (downs : Finset UInt8) : Press → Finset UInt8
  | .down u => insert u downs
  | .up u => downs.erase u
  | .releaseAll => ∅

/-- The board has the modifiers that are down. -/
theorem press_modifiers {b : Board} {s : Finset UInt8}
    (h : ∀ v, v ∈ b.modifiers ↔ Modifier v ∧ v ∈ s) (p : Press) (v : UInt8) :
    v ∈ (b.press p).modifiers ↔ Modifier v ∧ v ∈ p.move s := by
  cases p with
  | down u =>
      have hu : v = u → (Modifier v ↔ Modifier u) := fun hvu => hvu ▸ Iff.rfl
      by_cases hmod : Modifier u
      · simp only [Board.press, if_pos hmod, Press.move, Finset.mem_insert, h]
        tauto
      · have hsame : (b.press (.down u)).modifiers = b.modifiers := by
          rw [Board.press, if_neg hmod]
          split <;> rfl
        rw [hsame, h, Press.move, Finset.mem_insert]
        tauto
  | up u =>
      have hu : v = u → (Modifier v ↔ Modifier u) := fun hvu => hvu ▸ Iff.rfl
      by_cases hmod : Modifier u
      · simp only [Board.press, if_pos hmod, Press.move, Finset.mem_erase, h]
        tauto
      · simp only [Board.press, if_neg hmod, Press.move, Finset.mem_erase, h]
        tauto
  | releaseAll => simp [Board.press, Board.empty, Press.move]

/-- It has no other usage that is not down. -/
theorem press_held {b : Board} {s : Finset UInt8}
    (h : ∀ v ∈ b.held, ¬ Modifier v ∧ v ∈ s) (p : Press) :
    ∀ v ∈ (b.press p).held, ¬ Modifier v ∧ v ∈ p.move s := by
  intro v hv
  have hb := h v
  cases p with
  | down u =>
      rw [Press.move, Finset.mem_insert]
      by_cases hmod : Modifier u
      · rw [Board.press, if_pos hmod] at hv
        exact ⟨(hb hv).1, .inr (hb hv).2⟩
      · rw [Board.press, if_neg hmod] at hv
        split at hv
        · exact ⟨(hb hv).1, .inr (hb hv).2⟩
        · rcases Finset.mem_insert.mp hv with rfl | hv
          · exact ⟨hmod, .inl rfl⟩
          · exact ⟨(hb hv).1, .inr (hb hv).2⟩
  | up u =>
      rw [Press.move, Finset.mem_erase]
      by_cases hmod : Modifier u
      · rw [Board.press, if_pos hmod] at hv
        refine ⟨(hb hv).1, ?_, (hb hv).2⟩
        rintro rfl
        exact (hb hv).1 hmod
      · rw [Board.press, if_neg hmod] at hv
        obtain ⟨hne, hv⟩ := Finset.mem_erase.mp hv
        exact ⟨(hb hv).1, hne, (hb hv).2⟩
  | releaseAll => exact absurd hv (Finset.notMem_empty v)

/-- While no more than six are down, it has them all. -/
theorem press_all {b : Board} {s : Finset UInt8} {p : Press}
    (h : ∀ v, v ∈ b.held ↔ ¬ Modifier v ∧ v ∈ s) (h0 : ∀ u, p = .down u → u ≠ 0)
    (hsix : ((p.move s).filter fun v => ¬ Modifier v).card ≤ 6) (v : UInt8) :
    v ∈ (b.press p).held ↔ ¬ Modifier v ∧ v ∈ p.move s := by
  have hheld : b.held = s.filter fun v => ¬ Modifier v := by
    ext v
    rw [h, Finset.mem_filter, and_comm]
  cases p with
  | down u =>
      have hu : v = u → (Modifier v ↔ Modifier u) := fun hvu => hvu ▸ Iff.rfl
      rw [Press.move, Finset.mem_insert]
      by_cases hmod : Modifier u
      · rw [Board.press, if_pos hmod, h]
        tauto
      · rw [Board.press, if_neg hmod]
        by_cases hmem : u ∈ b.held
        · rw [if_pos (.inr (.inl hmem)), h]
          have := (h u).mp hmem
          constructor
          · exact fun hv => ⟨hv.1, .inr hv.2⟩
          · rintro ⟨hv, rfl | hs⟩
            · exact this
            · exact ⟨hv, hs⟩
        · have hroom : b.held.card ≠ 6 := by
            rw [Press.move, Finset.filter_insert, if_pos hmod, ← hheld,
              Finset.card_insert_of_notMem hmem] at hsix
            omega
          rw [if_neg (by simp [h0 u rfl, hmem, hroom])]
          simp only [Finset.mem_insert, h]
          tauto
  | up u =>
      have hu : v = u → (Modifier v ↔ Modifier u) := fun hvu => hvu ▸ Iff.rfl
      rw [Press.move, Finset.mem_erase]
      by_cases hmod : Modifier u
      · rw [Board.press, if_pos hmod, h]
        tauto
      · simp only [Board.press, if_neg hmod, Finset.mem_erase, h]
        tauto
  | releaseAll => simp [Board.press, Board.empty, Press.move]

end Beaglewing.Bridge
