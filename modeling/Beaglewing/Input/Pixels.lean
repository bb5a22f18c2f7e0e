/-
# `Input.Pixels` — a remote pixel, from the router to the report

A pixel column of the remote screen becomes a canonical coordinate in the
router (`Space.canonical`: scaled to 65535, halves rounded up) and a 15-bit
coordinate in the bridge (`Hid.flushPtr`: shifted by one bit, sent as two
bytes).

| | |
| :-- | :-- |
| `canonicalPixel` | the canonical coordinate |
| `hidPixel` | the coordinate in the report |
| `add_two_le_canonicalPixel` | neighbours are two apart or more, up to 32768 pixels |
| `pixels_addressable` | so the report keeps all pixels apart and in order |
-/
import Beaglewing.Base.Bytes
import Beaglewing.Bridge.Hid
import Beaglewing.Input.Screens

namespace Beaglewing.Input

open Base Bridge

/-- The canonical coordinate of a pixel on an axis of `n` pixels. -/
def canonicalPixel (n px : ℕ) : ℕ := ⌊(px / (n - 1) * 65535 + 1 / 2 : ℚ)⌋₊

/-- Its coordinate in a pointer report. -/
def hidPixel (n px : ℕ) : ℕ := canonicalPixel n px / 2

section Axis
variable {n px : ℕ}

theorem canonicalPixel_zero (n : ℕ) : canonicalPixel n 0 = 0 := by
  rw [canonicalPixel]
  norm_num

/-- The last pixel is at the end of the range. -/
theorem canonicalPixel_last (hn : 2 ≤ n) : canonicalPixel n (n - 1) = 65535 := by
  have hn' : (2 : ℚ) ≤ n := by exact_mod_cast hn
  have hne : (n : ℚ) - 1 ≠ 0 := by linarith
  rw [canonicalPixel, Nat.cast_sub (by omega), Nat.cast_one, div_self hne]
  norm_num

/-- Two neighbouring pixels are more than two units apart before rounding, as
`65535 / 32767` is more than 2. -/
theorem add_two_le_axis (hn : 2 ≤ n) (hmax : n ≤ 32768) (px : ℕ) :
    (px / (n - 1) * 65535 : ℚ) + 2 ≤ (px + 1 : ℕ) / (n - 1) * 65535 := by
  have hn' : (2 : ℚ) ≤ n := by exact_mod_cast hn
  have hmax' : (n : ℚ) ≤ 32768 := by exact_mod_cast hmax
  have hpos : (0 : ℚ) < n - 1 := by linarith
  have hunit : (2 : ℚ) ≤ 65535 / (n - 1) := by
    rw [le_div_iff₀ hpos]
    linarith
  calc (px / (n - 1) * 65535 : ℚ) + 2
      ≤ px / (n - 1) * 65535 + 65535 / (n - 1) := by linarith
    _ = (px + 1 : ℕ) / (n - 1) * 65535 := by
        push_cast
        ring

theorem add_two_le_canonicalPixel (hn : 2 ≤ n) (hmax : n ≤ 32768) (px : ℕ) :
    canonicalPixel n px + 2 ≤ canonicalPixel n (px + 1) := by
  have hn' : (2 : ℚ) ≤ n := by exact_mod_cast hn
  have h0 : (0 : ℚ) ≤ px / (n - 1) * 65535 + 1 / 2 := by
    have : (0 : ℚ) < n - 1 := by linarith
    positivity
  rw [canonicalPixel, canonicalPixel, ← Nat.floor_add_ofNat h0 2]
  refine Nat.floor_le_floor ?_
  have := add_two_le_axis hn hmax px
  linarith

/-- The bit the bridge drops keeps neighbours apart. -/
theorem hidPixel_lt_succ (hn : 2 ≤ n) (hmax : n ≤ 32768) (px : ℕ) :
    hidPixel n px < hidPixel n (px + 1) := by
  have := add_two_le_canonicalPixel hn hmax px
  rw [hidPixel, hidPixel]
  omega

theorem strictMono_hidPixel (hn : 2 ≤ n) (hmax : n ≤ 32768) : StrictMono (hidPixel n) :=
  strictMono_nat_of_lt_succ (hidPixel_lt_succ hn hmax)

theorem canonicalPixel_le (hn : 2 ≤ n) (hpx : px < n) : canonicalPixel n px ≤ 65535 := by
  have hn' : (2 : ℚ) ≤ n := by exact_mod_cast hn
  have hpx' : (px : ℚ) ≤ n - 1 := by
    rw [le_sub_iff_add_le]
    exact_mod_cast hpx
  have hle : (px : ℚ) / (n - 1) ≤ 1 := (div_le_one (by linarith)).mpr hpx'
  refine Nat.lt_succ_iff.mp ((Nat.floor_lt' (by norm_num)).mpr ?_)
  push_cast
  linarith

end Axis

/-! ## The router's coordinate -/

/-- One axis of `Space.canonical`. -/
theorem roundU16_pixel {n px : ℕ} (hn : 2 ≤ n) (hpx : px < n) :
    (clamp ((px : ℚ) / (n - F64.ofInt 1) * canonicalMax) (F64.ofInt 0) canonicalMax).map
      F64.roundU16 = some (UInt16.ofNat (canonicalPixel n px)) := by
  have hn' : (2 : ℚ) ≤ n := by exact_mod_cast hn
  have hpx' : (px : ℚ) ≤ n - 1 := by
    rw [le_sub_iff_add_le]
    exact_mod_cast hpx
  have hle : (px : ℚ) / (n - 1) ≤ 1 := (div_le_one (by linarith)).mpr hpx'
  have h0 : (0 : ℚ) ≤ px / (n - 1) := div_nonneg (by positivity) (by linarith)
  simp only [canonicalMax, F64.ofInt, Int.cast_zero, Int.cast_one, Int.cast_ofNat]
  rw [clamp_rat_of_mem (by linarith) (by linarith), Option.map_some]
  have hround : min 65535 ⌊((px : ℚ) / (n - 1) * 65535 + 1 / 2)⌋.toNat = canonicalPixel n px := by
    rw [Int.floor_toNat]
    exact min_eq_right (canonicalPixel_le hn hpx)
  exact congrArg (fun k => some (UInt16.ofNat k)) hround

theorem canonical_pixel {s : Space ℚ} {w h px py : ℕ} (hw : 2 ≤ w) (hh : 2 ≤ h) (hpx : px < w)
    (hpy : py < h) (hwidth : s.remote.width = w) (hheight : s.remote.height = h) (hx : s.x = px)
    (hy : s.y = py) :
    s.canonical =
      some (UInt16.ofNat (canonicalPixel w px), UInt16.ofNat (canonicalPixel h py)) := by
  obtain ⟨cx, hcx, hrx⟩ := Option.map_eq_some_iff.mp (roundU16_pixel hw hpx)
  obtain ⟨cy, hcy, hry⟩ := Option.map_eq_some_iff.mp (roundU16_pixel hh hpy)
  simp only [Space.canonical, hwidth, hheight, hx, hy, hcx, hcy, Option.bind_eq_bind,
    Option.bind_some, hrx, hry]
  rfl

/-! ## The bridge's bytes -/

theorem toNat_shiftRight_one (n : ℕ) (hn : n ≤ 65535) : (UInt16.ofNat n >>> 1).toNat = n / 2 := by
  rw [UInt16.toNat_shiftRight, UInt16.toNat_ofNat']
  have : (n % 2 ^ 16) >>> ((1 : UInt16).toNat % 16) = n % 2 ^ 16 / 2 ^ 1 :=
    Nat.shiftRight_eq_div_pow _ 1
  omega

/-- The bytes of a pointer report, with the position they recombine to. -/
theorem flushPtr_position (hid : Hid) {cx cy : ℕ} (hx : cx ≤ 65535) (hy : cy ≤ 65535)
    (wheel : Int8) :
    ∃ lx hx ly hy ok,
      ({ hid with x := UInt16.ofNat cx, y := UInt16.ofNat cy }.flushPtr wheel).reports =
        hid.reports ++ [⟨.ptr, [hid.buttons, lx, hx, ly, hy, wheel.toUInt8], ok⟩] ∧
      lx.toNat + 256 * hx.toNat = cx / 2 ∧ ly.toNat + 256 * hy.toNat = cy / 2 := by
  refine ⟨_, _, _, _, _, rfl, ?_, ?_⟩
  · rw [low_add_high]
    exact toNat_shiftRight_one cx hx
  · rw [low_add_high]
    exact toNat_shiftRight_one cy hy

/-! ## End to end -/

/-- Every pixel of the remote screen gets a coordinate of its own in the
pointer report, in the order of the pixels, from 0 to 32767, on both axes. -/
theorem pixels_addressable {w h : ℕ} (hw : 2 ≤ w) (hwmax : w ≤ 32768) (hh : 2 ≤ h)
    (hhmax : h ≤ 32768) :
    (∀ n, n = w ∨ n = h →
      StrictMono (hidPixel n) ∧ hidPixel n 0 = 0 ∧ hidPixel n (n - 1) = 32767) ∧
      ∀ (s : Space ℚ) (px py : ℕ), px < w → py < h → s.remote.width = w → s.remote.height = h →
        s.x = px → s.y = py → ∀ (hid : Hid) (wheel : Int8),
          ∃ cx cy lx hx ly hy ok, s.canonical = some (cx, cy) ∧
            ({ hid with x := cx, y := cy }.flushPtr wheel).reports =
              hid.reports ++ [⟨.ptr, [hid.buttons, lx, hx, ly, hy, wheel.toUInt8], ok⟩] ∧
            lx.toNat + 256 * hx.toNat = hidPixel w px ∧
            ly.toNat + 256 * hy.toNat = hidPixel h py := by
  constructor
  · rintro n hn
    have hn2 : 2 ≤ n := by omega
    have hnmax : n ≤ 32768 := by omega
    refine ⟨strictMono_hidPixel hn2 hnmax, ?_, ?_⟩
    · rw [hidPixel, canonicalPixel_zero]
    · rw [hidPixel, canonicalPixel_last hn2]
  · intro s px py hpx hpy hwidth hheight hsx hsy hid wheel
    obtain ⟨lx, hx, ly, hy, ok, hreport, hcx, hcy⟩ :=
      flushPtr_position hid (canonicalPixel_le hw hpx) (canonicalPixel_le hh hpy) wheel
    exact ⟨_, _, lx, hx, ly, hy, ok, canonical_pixel hw hh hpx hpy hwidth hheight hsx hsy,
      hreport, hcx, hcy⟩

theorem pixels_addressable_widest :
    hidPixel 32768 0 = 0 ∧ hidPixel 32768 32767 = 32767 ∧
      hidPixel 32768 16383 < hidPixel 32768 16384 := by
  obtain ⟨hmono, hzero, hlast⟩ := (pixels_addressable (w := 32768) (h := 2) (by decide) (by decide)
    (by decide) (by decide)).1 32768 (.inl rfl)
  exact ⟨hzero, hlast, hmono (by decide)⟩

end Beaglewing.Input
