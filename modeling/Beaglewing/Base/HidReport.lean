/-
# `Base.HidReport` — report descriptors, and what a report says under one

A HID device describes its reports by a little program of short items.
Globals and locals are set as the items come; a main item lays out a field
with what is set then, behind the fields before it (`Parse.item`).  The host
reads a report against that layout: a field of variables gives each of its
usages a value, a field of an array names the usages that are on, and a
number outside the logical range says nothing (`Field.entry`).

| item | type, tag | here |
|---|---|---|
| Input, Output, Collection, End Collection | 0: 8, 9, 10, 12 | lays out, opens, closes |
| Usage Page, Logical Minimum and Maximum, Report Size and Count | 1: 0, 1, 2, 7, 9 | sets a global |
| Usage, Usage Minimum and Maximum | 2: 0, 1, 2 | adds usages |
| the others, and long items | | the descriptor is not read |

Below the definitions: where a field lies on byte bounds, or inside one byte,
what it says is a matter of those bytes alone.
-/
import Mathlib

namespace Base.HidReport

/-! ## Items -/

/-- The number that some bytes are, low byte first. -/
def number (bytes : List UInt8) : Nat := Nat.ofDigits 256 (bytes.map UInt8.toNat)

/-- A number of `size` bits, as a signed one. -/
def signed (size n : Nat) : Int := if 2 ^ size ≤ 2 * n then (n : Int) - 2 ^ size else n

/-- A short item. -/
structure Item where
  type : Nat
  tag : Nat
  data : List UInt8
  deriving DecidableEq

/-- The item at the front.  Two bits of the first byte count the data bytes;
three stands for four. -/
def nextItem : List UInt8 → Option (Item × List UInt8)
  | [] => none
  | b :: rest =>
      let size := if b.toNat % 4 = 3 then 4 else b.toNat % 4
      if rest.length < size then none
      else some (⟨b.toNat / 4 % 4, b.toNat / 16, rest.take size⟩, rest.drop size)

/-- The items of a descriptor, on a counter that bounds their number. -/
def itemsUpTo : Nat → List UInt8 → Option (List Item)
  | _, [] => some []
  | 0, _ :: _ => none
  | fuel + 1, b :: bs =>
      (nextItem (b :: bs)).bind fun (item, rest) => (itemsUpTo fuel rest).map (item :: ·)

/-- An item takes at least one byte, so the counter does not run out. -/
def items (bytes : List UInt8) : Option (List Item) := itemsUpTo bytes.length bytes

/-! ## Fields -/

inductive Direction where
  | input
  | output
  deriving DecidableEq

structure Globals where
  usagePage : Nat
  logicalMin : Int
  logicalMax : Int
  reportSize : Nat
  reportCount : Nat
  deriving DecidableEq

structure Locals where
  usages : List Nat
  usageMin : Nat
  deriving DecidableEq

/-- A field of the report: `count` numbers of `size` bits from bit `offset`
on. -/
structure Field where
  direction : Direction
  constant : Bool
  array : Bool
  page : Nat
  usages : List Nat
  logicalMin : Int
  logicalMax : Int
  size : Nat
  count : Nat
  offset : Nat
  /-- The page and the usage of the outermost collection. -/
  application : Nat × Nat
  deriving DecidableEq

/-- The bits of a report in one direction. -/
def width (fields : List Field) (direction : Direction) : Nat :=
  ((fields.filter (·.direction = direction)).map fun f => f.size * f.count).sum

structure Parse where
  globals : Globals
  locals : Locals
  collections : List (Nat × Nat)
  fields : List Field

namespace Parse

def start : Parse where
  globals := ⟨0, 0, 0, 0, 0⟩
  locals := ⟨[], 0⟩
  collections := []
  fields := []

/-- Lay out a field with what is set.  The locals are used up. -/
def layOut (p : Parse) (direction : Direction) (flags : Nat) : Parse :=
  { p with
    locals := ⟨[], 0⟩
    fields := p.fields ++ [{
      direction := direction
      constant := flags.testBit 0
      array := !flags.testBit 1
      page := p.globals.usagePage
      usages := p.locals.usages
      logicalMin := p.globals.logicalMin
      logicalMax := p.globals.logicalMax
      size := p.globals.reportSize
      count := p.globals.reportCount
      offset := width p.fields direction
      application := p.collections.getLast?.getD (0, 0) }] }

def item (p : Parse) (i : Item) : Option Parse :=
  match i.type, i.tag with
  | 0, 8 => some (p.layOut .input (number i.data))
  | 0, 9 => some (p.layOut .output (number i.data))
  | 0, 10 =>
      some { p with
        locals := ⟨[], 0⟩
        collections := (p.globals.usagePage, p.locals.usages.headD 0) :: p.collections }
  | 0, 12 =>
      match p.collections with
      | [] => none
      | _ :: outer => some { p with locals := ⟨[], 0⟩, collections := outer }
  | 1, 0 => some { p with globals := { p.globals with usagePage := number i.data } }
  | 1, 1 =>
      some { p with
        globals := { p.globals with logicalMin := signed (8 * i.data.length) (number i.data) } }
  | 1, 2 =>
      some { p with
        globals := { p.globals with logicalMax := signed (8 * i.data.length) (number i.data) } }
  | 1, 7 => some { p with globals := { p.globals with reportSize := number i.data } }
  | 1, 9 => some { p with globals := { p.globals with reportCount := number i.data } }
  | 2, 0 =>
      some { p with locals := { p.locals with usages := p.locals.usages ++ [number i.data] } }
  | 2, 1 => some { p with locals := { p.locals with usageMin := number i.data } }
  | 2, 2 =>
      some { p with
        locals := { p.locals with
          usages := p.locals.usages ++
            List.range' p.locals.usageMin (number i.data + 1 - p.locals.usageMin) } }
  | _, _ => none

end Parse

/-- The fields of a descriptor, if all its collections are closed. -/
def fields (descriptor : List UInt8) : Option (List Field) :=
  (items descriptor).bind fun is =>
    (is.foldlM Parse.item .start).bind fun p => if p.collections = [] then some p.fields else none

/-! ## Reports -/

/-- The number of `size` bits from bit `offset` on. -/
def bits (report : List UInt8) (offset size : Nat) : Nat :=
  number report / 2 ^ offset % 2 ^ size

/-- What a report says about a usage of a page. -/
structure Entry where
  page : Nat
  usage : Nat
  value : Int
  deriving DecidableEq

namespace Field

/-- The number at a place of the field. -/
def value (f : Field) (report : List UInt8) (i : Nat) : Int :=
  let n := bits report (f.offset + f.size * i) f.size
  if f.logicalMin < 0 then signed f.size n else n

/-- What the number at a place says.  A variable without a usage of its own
has the last one. -/
def entry (f : Field) (report : List UInt8) (i : Nat) : Option Entry :=
  let v := f.value report i
  if f.constant ∨ v < f.logicalMin ∨ f.logicalMax < v then none
  else if f.array then (f.usages[(v - f.logicalMin).toNat]?).map (⟨f.page, ·, 1⟩)
  else (f.usages[min i (f.usages.length - 1)]?).map (⟨f.page, ·, v⟩)

/-- One of the field's places says it. -/
def Says (f : Field) (report : List UInt8) (e : Entry) : Prop :=
  ∃ i < f.count, f.entry report i = some e

instance (f : Field) (report : List UInt8) (e : Entry) : Decidable (f.Says report e) :=
  inferInstanceAs (Decidable (∃ i < f.count, _))

end Field

/-- An input report says it. -/
def Says (fs : List Field) (report : List UInt8) (e : Entry) : Prop :=
  ∃ f ∈ fs, f.direction = .input ∧ f.Says report e

instance (fs : List Field) (report : List UInt8) (e : Entry) : Decidable (Says fs report e) :=
  inferInstanceAs (Decidable (∃ f ∈ fs, _))

/-- What an input report says, in the order of its fields. -/
def said (fs : List Field) (report : List UInt8) : List Entry :=
  fs.flatMap fun f =>
    if f.direction = .input then (List.range f.count).filterMap (f.entry report) else []

/-- The value of a usage. -/
def look (fs : List Field) (report : List UInt8) (page usage : Nat) : Option Int :=
  ((said fs report).find? fun e => e.page = page ∧ e.usage = usage).map Entry.value

theorem mem_said {fs : List Field} {report : List UInt8} {e : Entry} :
    e ∈ said fs report ↔ Says fs report e := by
  rw [said, List.mem_flatMap, Says]
  refine exists_congr fun f => and_congr_right fun _ => ?_
  split
  · next hf => simp [hf, Field.Says, List.mem_filterMap]
  · next hf => simp [hf]

/-- Where a report says one value of a usage, that is the one. -/
theorem look_eq {fs : List Field} {report : List UInt8} {page usage : Nat} {v : Int}
    (h : ∀ w, Says fs report ⟨page, usage, w⟩ ↔ w = v) : look fs report page usage = some v := by
  have hmem := mem_said.mpr ((h v).mpr rfl)
  cases hfind : (said fs report).find? fun e => e.page = page ∧ e.usage = usage with
  | none =>
      have hnot := List.find?_eq_none.mp hfind _ hmem
      exact absurd (by simp) hnot
  | some e =>
      obtain ⟨hpage, husage⟩ : e.page = page ∧ e.usage = usage := by
        simpa using List.find?_some hfind
      have hsays := mem_said.mp (List.mem_of_find?_eq_some hfind)
      subst hpage husage
      rw [look, hfind, Option.map_some, (h e.value).mp hsays]

theorem look_eq_none {fs : List Field} {report : List UInt8} {page usage : Nat}
    (h : ∀ w, ¬ Says fs report ⟨page, usage, w⟩) : look fs report page usage = none := by
  rw [look, Option.map_eq_none_iff, List.find?_eq_none]
  intro e he heq
  obtain ⟨rfl, rfl⟩ : e.page = page ∧ e.usage = usage := by simpa using heq
  exact h e.value (mem_said.mp he)

/-! ## Bits and bytes -/

theorem number_cons (b : UInt8) (bytes : List UInt8) :
    number (b :: bytes) = b.toNat + 256 * number bytes := by
  simp [number, Nat.ofDigits_cons]

/-- Whole bytes before the field do not matter. -/
theorem bits_drop (report : List UInt8) (k offset size : Nat) :
    bits report (8 * k + offset) size = bits (report.drop k) offset size := by
  have hdigits : ∀ l ∈ report.map UInt8.toNat, l < 256 := by
    intro l hl
    obtain ⟨b, -, rfl⟩ := List.mem_map.mp hl
    exact b.toNat_lt
  have hdrop : number report / 2 ^ (8 * k) = number (report.drop k) := by
    rw [number, number, List.map_drop,
      ← Nat.ofDigits_div_pow_eq_ofDigits_drop k (by decide) _ hdigits, pow_mul,
      show (2 : Nat) ^ 8 = 256 from rfl]
  rw [bits, bits, pow_add, ← Nat.div_div_eq_div_mul, hdrop]

/-- Bits inside the first byte. -/
theorem bits_cons (b : UInt8) (report : List UInt8) {offset size : Nat} (h : offset + size ≤ 8) :
    bits (b :: report) offset size = b.toNat / 2 ^ offset % 2 ^ size := by
  obtain ⟨rest, hrest⟩ := Nat.exists_eq_add_of_le h
  have hpow : 256 = 2 ^ offset * (2 ^ size * 2 ^ rest) := by
    rw [← pow_add, ← pow_add, ← Nat.add_assoc, ← hrest]
    rfl
  rw [bits, number_cons, hpow, Nat.mul_assoc, Nat.add_mul_div_left _ _ (by positivity),
    Nat.mul_assoc, Nat.add_mul_mod_self_left]

/-- Bits inside one byte. -/
theorem bits_of_byte (report : List UInt8) {k offset size : Nat} (h : offset + size ≤ 8) :
    bits report (8 * k + offset) size = (report.getD k 0).toNat / 2 ^ offset % 2 ^ size := by
  rw [bits_drop]
  rcases Nat.lt_or_ge k report.length with hk | hk
  · rw [List.drop_eq_getElem_cons hk, bits_cons _ _ h, List.getD_eq_getElem _ _ hk]
  · rw [List.drop_of_length_le hk, List.getD_eq_default _ _ hk]
    simp [bits, number]

/-- A byte of the report. -/
theorem bits_byte (report : List UInt8) (k : Nat) :
    bits report (8 * k) 8 = (report.getD k 0).toNat := by
  have hlt := (report.getD k 0).toNat_lt
  have h := bits_of_byte report (k := k) (show 0 + 8 ≤ 8 by decide)
  rw [Nat.add_zero, pow_zero, Nat.div_one] at h
  rw [h]
  exact Nat.mod_eq_of_lt hlt

/-- A bit of a byte. -/
theorem bits_bit (report : List UInt8) (k : Nat) {j : Nat} (hj : j < 8) :
    bits report (8 * k + j) 1 = ((report.getD k 0).toNat.testBit j).toNat := by
  rw [bits_of_byte report (by omega), Nat.toNat_testBit, pow_one]

/-- Two bytes of the report. -/
theorem bits_word (report : List UInt8) (k : Nat) :
    bits report (8 * k) 16 = (report.getD k 0).toNat + 256 * (report.getD (k + 1) 0).toNat := by
  have hlow := (report.getD k 0).toNat_lt
  have hbyte := bits_byte report k
  have hnext := bits_byte report (k + 1)
  have hsplit : bits report (8 * k) 16 =
      bits report (8 * k) 8 + 256 * bits report (8 * (k + 1)) 8 := by
    simp only [bits, Nat.mul_add, Nat.mul_one, pow_add, ← Nat.div_div_eq_div_mul]
    generalize number report / 2 ^ (8 * k) = n
    omega
  rw [hsplit, hbyte, hnext]

/-- A byte as a signed number. -/
theorem toInt_toInt8 (b : UInt8) : b.toInt8.toInt = signed 8 b.toNat := by
  change b.toBitVec.toInt = signed 8 b.toBitVec.toNat
  rw [BitVec.toInt, signed]
  split <;> split <;> first | rfl | omega

/-! ## Fields on byte bounds -/

namespace Field
variable {f : Field} {report : List UInt8} {e : Entry}

/-- Unsigned bytes that name the usages that are on. -/
theorem says_array (hconst : f.constant = false) (harray : f.array = true) (hsize : f.size = 8)
    (hmin : f.logicalMin = 0) {n : Nat} (hmax : f.logicalMax = n)
    (husages : f.usages = List.range' 0 (n + 1)) {k : Nat} (hoffset : f.offset = 8 * k) :
    f.Says report e ↔
      ∃ i < f.count, (report.getD (k + i) 0).toNat ≤ n ∧
        e = ⟨f.page, (report.getD (k + i) 0).toNat, 1⟩ := by
  refine exists_congr fun i => and_congr_right fun _ => ?_
  have hbits : bits report (f.offset + f.size * i) f.size = (report.getD (k + i) 0).toNat := by
    rw [hoffset, hsize, ← Nat.mul_add, bits_byte]
  simp only [entry, value, hbits, hconst, harray, hmin, hmax, husages]
  generalize (report.getD (k + i) 0).toNat = b
  by_cases hb : b ≤ n
  · simp [hb, eq_comm]
  · simp [hb]

/-- Flags inside one byte. -/
theorem says_flags (hconst : f.constant = false) (harray : f.array = false) (hsize : f.size = 1)
    (hmin : f.logicalMin = 0) (hmax : f.logicalMax = 1) {first : Nat}
    (husages : f.usages = List.range' first f.count) {k : Nat} (hoffset : f.offset = 8 * k)
    (hcount : f.count ≤ 8) :
    f.Says report e ↔
      ∃ i < f.count, e = ⟨f.page, first + i, ((report.getD k 0).toNat.testBit i).toNat⟩ := by
  refine exists_congr fun i => and_congr_right fun hi => ?_
  have hbits : bits report (f.offset + f.size * i) f.size =
      ((report.getD k 0).toNat.testBit i).toNat := by
    rw [hoffset, hsize, Nat.one_mul, bits_bit _ _ (by omega)]
  have hget : f.usages[min i (f.usages.length - 1)]? = some (first + i) := by
    rw [husages, List.length_range', Nat.min_eq_left (by omega), List.getElem?_range' hi]
    simp
  simp only [entry, value, hbits, hconst, harray, hmin, hmax, hget]
  cases (report.getD k 0).toNat.testBit i <;> simp [eq_comm]

/-- Words, each with its usage. -/
theorem says_words (hconst : f.constant = false) (harray : f.array = false) (hsize : f.size = 16)
    (hmin : f.logicalMin = 0) (husages : f.usages.length = f.count) {k : Nat}
    (hoffset : f.offset = 8 * k) :
    f.Says report e ↔
      ∃ i < f.count, ∃ v : Nat,
        v = (report.getD (k + 2 * i) 0).toNat + 256 * (report.getD (k + 2 * i + 1) 0).toNat ∧
        (v : Int) ≤ f.logicalMax ∧ e = ⟨f.page, f.usages.getD i 0, v⟩ := by
  refine exists_congr fun i => and_congr_right fun hi => ?_
  have hbits : bits report (f.offset + f.size * i) f.size =
      (report.getD (k + 2 * i) 0).toNat + 256 * (report.getD (k + 2 * i + 1) 0).toNat := by
    rw [hoffset, hsize, show 8 * k + 16 * i = 8 * (k + 2 * i) by omega, bits_word]
  have hlt : i < f.usages.length := husages ▸ hi
  have hget : f.usages[min i (f.usages.length - 1)]? = some (f.usages.getD i 0) := by
    rw [Nat.min_eq_left (by omega), List.getElem?_eq_getElem hlt, List.getD_eq_getElem _ _ hlt]
  simp only [entry, value, hbits, hconst, harray, hmin, hget]
  generalize (report.getD (k + 2 * i) 0).toNat + 256 * (report.getD (k + 2 * i + 1) 0).toNat = v
  by_cases hv : (v : Int) ≤ f.logicalMax
  · simp [hv, eq_comm]
  · simp [hv]

/-- Bytes that all have one usage. -/
theorem entry_bytes (hconst : f.constant = false) (harray : f.array = false) (hsize : f.size = 8)
    (hmin : f.logicalMin = 0) (hmax : f.logicalMax = 255) {u : Nat} (husages : f.usages = [u])
    {k : Nat} (hoffset : f.offset = 8 * k) (i : Nat) :
    f.entry report i = some ⟨f.page, u, (report.getD (k + i) 0).toNat⟩ := by
  have hbits : bits report (f.offset + f.size * i) f.size = (report.getD (k + i) 0).toNat := by
    rw [hoffset, hsize, ← Nat.mul_add, bits_byte]
  have hlt := (report.getD (k + i) 0).toNat_lt
  simp only [entry, value, hbits, hconst, harray, hmin, hmax, husages]
  generalize (report.getD (k + i) 0).toNat = b at hlt ⊢
  simp
  omega

/-- A signed byte. -/
theorem says_signed (hconst : f.constant = false) (harray : f.array = false) (hsize : f.size = 8)
    (hmin : f.logicalMin < 0) {u : Nat} (husages : f.usages = [u]) (hcount : f.count = 1) {k : Nat}
    (hoffset : f.offset = 8 * k) :
    f.Says report e ↔
      f.logicalMin ≤ (report.getD k 0).toInt8.toInt ∧
        (report.getD k 0).toInt8.toInt ≤ f.logicalMax ∧
        e = ⟨f.page, u, (report.getD k 0).toInt8.toInt⟩ := by
  have hvalue : f.value report 0 = (report.getD k 0).toInt8.toInt := by
    have hbits : bits report (f.offset + f.size * 0) f.size = (report.getD k 0).toNat := by
      rw [hoffset, hsize, Nat.mul_zero, Nat.add_zero, bits_byte]
    rw [value, hbits, if_pos hmin, hsize, toInt_toInt8]
  have hentry : f.entry report 0 =
      if f.logicalMin ≤ (report.getD k 0).toInt8.toInt ∧
          (report.getD k 0).toInt8.toInt ≤ f.logicalMax then
        some ⟨f.page, u, (report.getD k 0).toInt8.toInt⟩
      else none := by
    simp only [entry, hvalue, hconst, harray, husages]
    generalize (report.getD k 0).toInt8.toInt = v
    by_cases hlow : f.logicalMin ≤ v
    · by_cases hhigh : v ≤ f.logicalMax
      · simp [hlow, hhigh]
      · simp [hlow, hhigh]
    · simp [hlow]
  rw [Says, hcount]
  constructor
  · rintro ⟨i, hi, he⟩
    rw [Nat.lt_one_iff.mp hi, hentry] at he
    split at he
    · next hv => exact ⟨hv.1, hv.2, (Option.some.inj he).symm⟩
    · cases he
  · rintro ⟨hlow, hhigh, rfl⟩
    refine ⟨0, Nat.one_pos, ?_⟩
    rw [hentry, if_pos ⟨hlow, hhigh⟩]

end Field
end Base.HidReport
