import RPiKernel.Framebuffer.PixelWrites

/-!
# Rectangles on two pages

The framebuffer has the rows of two pages. A rectangle that is drawn inside the present page gives
its color to the pixels that it covers there and changes no other pixel of either page, so that
rectangles one after another leave each pixel with the color of the last one that covers it.
-/

namespace RPiKernel.Framebuffer

open Machine

namespace Layout

/-- Both pages lie in the framebuffer, and the offsets of their rows fit into 32 bits. -/
structure Fits (fb : Layout) : Prop where
  columns : 2 * fb.width.toNat ≤ fb.pitch.toNat
  rows : 2 * fb.height.toNat * fb.pitch.toNat ≤ 2 ^ 32
  page : fb.yOffset = 0 ∨ fb.yOffset = fb.height

/-- The bytes of the pixel in a column and a row, counted from the first page on. -/
def pixel (fb : Layout) (m : Memory) (x row : Nat) : UInt8 × UInt8 :=
  (m (fb.addr + BitVec.ofNat 64 (row * fb.pitch.toNat + 2 * x)),
    m (fb.addr + BitVec.ofNat 64 (row * fb.pitch.toNat + 2 * x + 1)))

end Layout

/-- The bytes of a color. -/
def colorBytes (color : UInt16) : UInt8 × UInt8 := (byteOf color.toNat 0, byteOf color.toNat 1)

/-- Whether a rectangle covers a pixel. -/
def Covers (x y w h i j : Nat) : Prop := (x ≤ i ∧ i < x + w) ∧ y ≤ j ∧ j < y + h

instance (x y w h i j : Nat) : Decidable (Covers x y w h i j) := inferInstanceAs (Decidable (_ ∧ _))

section Pixels

variable {fb : Layout} {x y w h : UInt32} {color : UInt16} {m : Memory} {fuel : Nat}

theorem Layout.Fits.rowOffset_eq (hfits : fb.Fits) (hy : y < fb.height) (hwidth : 0 < fb.width.toNat) :
    rowOffset fb y = (fb.yOffset.toNat + y.toNat) * fb.pitch.toNat ∧
      (fb.yOffset.toNat + y.toNat + 1) * fb.pitch.toNat ≤ 2 ^ 32 := by
  have hcolumns := hfits.columns
  have hlt := UInt32.lt_iff_toNat_lt.mp hy
  have hpage : fb.yOffset.toNat ≤ fb.height.toNat := by
    rcases hfits.page with hzero | hheight
    · rw [hzero]
      exact Nat.zero_le _
    · rw [hheight]
  have hbelow : (fb.yOffset.toNat + y.toNat + 1) * fb.pitch.toNat ≤ 2 ^ 32 :=
    (Nat.mul_le_mul_right _ (by omega)).trans hfits.rows
  have hrow : fb.yOffset.toNat + y.toNat + 1 ≤ 2 ^ 32 :=
    (Nat.le_mul_of_pos_right _ (by omega)).trans hbelow
  have hsum : (y + fb.yOffset).toNat = fb.yOffset.toNat + y.toNat := by
    rw [toNat_add_of_lt (by omega), Nat.add_comm]
  refine ⟨?_, hbelow⟩
  rw [rowOffset, UInt32.toNat_mul, hsum]
  apply Nat.mod_eq_of_lt
  rw [Nat.succ_mul] at hbelow
  omega

/-- What a run of bytes at an offset leaves at another offset. -/
theorem overlay_at {n target start : Nat} {f : Nat → UInt8} (htarget : target < 2 ^ 33)
    (hstart : start + n ≤ 2 ^ 33) :
    overlay m (fb.addr + BitVec.ofNat 64 start) n f (fb.addr + BitVec.ofNat 64 target) =
      if start ≤ target ∧ target < start + n then f (target - start)
      else m (fb.addr + BitVec.ofNat 64 target) := by
  rw [overlay, offsetOf_moved (by omega), offsetOf_add (by omega)]
  by_cases hle : start ≤ target
  · rw [if_pos hle]
    exact if_congr (by omega) rfl rfl
  · rw [if_neg hle, if_neg (by omega), if_neg (by omega)]

/-- The pixels after the span of a row. -/
theorem pixel_writeSpan {screen : Screen} (hfits : fb.Fits)
    (hx : x.toNat + w.toNat ≤ fb.width.toNat) (hy : y < fb.height)
    (hended : (fb.writeSpan fuel x y w color screen).ended = true) {i row : Nat}
    (hi : i < fb.width.toNat) (hrow : row < 2 * fb.height.toNat) :
    fb.pixel (fb.writeSpan fuel x y w color screen).state.memory i row =
      if (x.toNat ≤ i ∧ i < x.toNat + w.toNat) ∧ row = fb.yOffset.toNat + y.toNat then
        colorBytes color
      else fb.pixel screen.memory i row := by
  have hcolumns := hfits.columns
  have hpitch := fb.pitch.toNat_lt
  obtain ⟨hoffset, hbelow⟩ := hfits.rowOffset_eq hy (by omega)
  rw [Nat.succ_mul] at hbelow
  have hmemory := memory_writeSpan hx hy (by omega) hended
  rw [rowAddress_add, hoffset] at hmemory
  have htarget : row * fb.pitch.toNat + fb.pitch.toNat ≤ 2 ^ 32 := by
    rw [← Nat.succ_mul]
    exact (Nat.mul_le_mul_right _ hrow).trans hfits.rows
  have hbyte (k : Nat) (hk : k < 2) :
      (fb.writeSpan fuel x y w color screen).state.memory
        (fb.addr + BitVec.ofNat 64 (row * fb.pitch.toNat + 2 * i + k)) =
      if (x.toNat ≤ i ∧ i < x.toNat + w.toNat) ∧ row = fb.yOffset.toNat + y.toNat then
        byteOf color.toNat k
      else screen.memory (fb.addr + BitVec.ofNat 64 (row * fb.pitch.toNat + 2 * i + k)) := by
    rw [hmemory, overlay_at (by omega) (by omega)]
    rcases Nat.lt_trichotomy row (fb.yOffset.toNat + y.toNat) with hlt | heq | hgt
    · have hnext : (row + 1) * fb.pitch.toNat ≤
          (fb.yOffset.toNat + y.toNat) * fb.pitch.toNat := Nat.mul_le_mul_right _ hlt
      rw [Nat.succ_mul] at hnext
      rw [if_neg (by omega), if_neg (by omega)]
    · rw [heq]
      by_cases hin : x.toNat ≤ i ∧ i < x.toNat + w.toNat
      · have hindex : (fb.yOffset.toNat + y.toNat) * fb.pitch.toNat + 2 * i + k -
            ((fb.yOffset.toNat + y.toNat) * fb.pitch.toNat + 2 * x.toNat) =
            2 * (i - x.toNat) + k := by omega
        rw [if_pos (by omega), if_pos ⟨hin, rfl⟩, hindex, colorByte_add, colorByte,
          Nat.mod_eq_of_lt hk]
      · rw [if_neg (by omega), if_neg fun h => hin h.1]
    · have hnext : (fb.yOffset.toNat + y.toNat + 1) * fb.pitch.toNat ≤ row * fb.pitch.toNat :=
        Nat.mul_le_mul_right _ hgt
      rw [Nat.succ_mul] at hnext
      rw [if_neg (by omega), if_neg (by omega)]
  have hfirst := hbyte 0 (by decide)
  have hsecond := hbyte 1 (by decide)
  rw [Nat.add_zero] at hfirst
  rw [Layout.pixel, hfirst, hsecond]
  split <;> rfl

/-- The pixels after a rectangle. -/
theorem pixel_writeRectangle (hfits : fb.Fits) (hx : x.toNat + w.toNat ≤ fb.width.toNat)
    (hy : y.toNat + h.toNat ≤ fb.height.toNat)
    (hended : (fb.writeRectangle fuel x y w h color ⟨m, []⟩).ended = true) {i row : Nat}
    (hi : i < fb.width.toNat) (hrow : row < 2 * fb.height.toNat) :
    fb.pixel (fb.writeRectangle fuel x y w h color ⟨m, []⟩).state.memory i row =
      if Covers x.toNat (fb.yOffset.toNat + y.toNat) w.toNat h.toNat i row then colorBytes color
      else fb.pixel m i row := by
  have hheight := fb.height.toNat_lt
  refine writeRectangle_of_ended (I := fun n memory => fb.pixel memory i row =
    if Covers x.toNat (fb.yOffset.toNat + y.toNat) w.toNat n i row then colorBytes color
    else fb.pixel m i row) hx hy (fun k hk screen hrows hspan => ?_) ?_ hended
  · have hnext : (y + UInt32.ofNat k).toNat = y.toNat + k := toNat_add_ofNat (by omega)
    rw [pixel_writeSpan hfits hx (row_lt hk hy) hspan hi hrow, hrows, hnext]
    by_cases hlast : (x.toNat ≤ i ∧ i < x.toNat + w.toNat) ∧ row = fb.yOffset.toNat + (y.toNat + k)
    · rw [if_pos hlast, if_pos ⟨hlast.1, by omega⟩]
    · rw [if_neg hlast]
      exact if_congr (and_congr_right fun hcolumn => by omega) rfl rfl
  · exact (if_neg fun hcovers => by unfold Covers at hcovers; omega).symm

end Pixels

end RPiKernel.Framebuffer
