import Mathlib.Data.Finset.Max
import RPiKernel.Framebuffer.Spans

/-!
# Wide writes and single pixels

A span that ends below `2 ^ 32 - 4` leaves the run of bytes of its pixels in its color. So do the
calls of `WritePixel` for them, as long as `x * 2` does not wrap around. Behind column
`2 ^ 31` the pixels of `WritePixel` go to the front of the row; behind `2 ^ 32 - 4` a span
does not end.
-/

namespace RPiKernel.Framebuffer

open Machine

namespace Layout

/-- The calls of `WritePixel` for the pixels of a row. -/
def writePixelRow (fb : Layout) (x y w : UInt32) (color : UInt16) (m : Memory) : Memory :=
  (List.range w.toNat).foldl (fun m i => fb.writePixel (x + UInt32.ofNat i) y color m) m

/-- The calls of `WritePixel` for the pixels of a rectangle. -/
def writePixels (fb : Layout) (x y w h : UInt32) (color : UInt16) (m : Memory) : Memory :=
  (List.range h.toNat).foldl (fun m j => fb.writePixelRow x (y + UInt32.ofNat j) w color m) m

/-- `WriteSpan` ends, with the memory that the calls of `WritePixel` leave. -/
def SpanAgrees (fb : Layout) (x y w : UInt32) : Prop :=
  ∀ color m, ∃ fuel, (fb.writeSpan fuel x y w color ⟨m, []⟩).ended = true ∧
    (fb.writeSpan fuel x y w color ⟨m, []⟩).state.memory = fb.writePixelRow x y w color m

/-- `WriteRectangle` ends, with the memory that the calls of `WritePixel` leave. -/
def RectangleAgrees (fb : Layout) (x y w h : UInt32) : Prop :=
  ∀ color m, ∃ fuel, (fb.writeRectangle fuel x y w h color ⟨m, []⟩).ended = true ∧
    (fb.writeRectangle fuel x y w h color ⟨m, []⟩).state.memory = fb.writePixels x y w h color m

end Layout

/-- The columns end at `2 ^ 31`, or there is none and `x + 4` does not wrap around. -/
def ColumnsFit (x w : UInt32) : Prop :=
  x.toNat + w.toNat ≤ 2 ^ 31 ∨ w = 0 ∧ x.toNat < 2 ^ 32 - 4

instance (x w : UInt32) : Decidable (ColumnsFit x w) := inferInstanceAs (Decidable (_ ∨ _))

section Row

variable {fb : Layout} {x y w h : UInt32} {color : UInt16} {m : Memory} {fuel : Nat}

theorem accepts_iff (hx : x.toNat + w.toNat ≤ fb.width.toNat) :
    (x + w ≤ fb.width ∧ y < fb.height) ↔ y < fb.height := by
  have hlt := fb.width.toNat_lt
  refine and_iff_right ?_
  rw [UInt32.le_iff_toNat_le, toNat_add_of_lt (by omega)]
  exact hx

/-- What a span that has ended leaves. -/
theorem memory_writeSpan {screen : Screen} (hx : x.toNat + w.toNat ≤ fb.width.toNat)
    (hy : y < fb.height) (hlimit : x.toNat + w.toNat < 2 ^ 32 - 4)
    (hended : (fb.writeSpan fuel x y w color screen).ended = true) :
    (fb.writeSpan fuel x y w color screen).state.memory =
      overlay screen.memory (fb.rowAddress y + BitVec.ofNat 64 (2 * x.toNat)) (2 * w.toNat)
        (colorByte color) := by
  have hx2 : (x + w).toNat = x.toNat + w.toNat := toNat_add_of_lt (by omega)
  rw [Layout.writeSpan, if_pos ((accepts_iff hx).mpr hy)] at hended ⊢
  have hgood : GoodBetween (fb.rowAddress y) y x.toNat (x + w).toNat fun _ => True :=
    fun _ _ _ _ _ => trivial
  have hdrawn := spanLoops_drawn color fuel hgood (by omega) (by omega)
    fun store (_ : store ∈ screen.stores) => trivial
  have hend := spanLoops_end hgood (by omega) (by omega) (fun _ _ => trivial) hended
  have hlength : (x + w).toNat - x.toNat = w.toNat := by omega
  rw [Progress.map, hdrawn.memory, hend, hlength]

theorem writeSpan_ended {screen : Screen} (hlimit : x.toNat + w.toNat < 2 ^ 32 - 4)
    (hfuel : w.toNat < fuel) :
    (fb.writeSpan fuel x y w color screen).ended = true := by
  have hx2 : (x + w).toNat = x.toNat + w.toNat := toNat_add_of_lt (by omega)
  rw [Layout.writeSpan]
  split
  · exact spanLoops_ended (by omega) (by omega) (by omega)
  · rfl

/-- The first pixels of a row. -/
theorem foldl_writePixel (hx : x.toNat + w.toNat ≤ fb.width.toNat) (hy : y < fb.height)
    (hlimit : x.toNat + w.toNat ≤ 2 ^ 31) {n : Nat} (hn : n ≤ w.toNat) :
    (List.range n).foldl (fun m i => fb.writePixel (x + UInt32.ofNat i) y color m) m =
      overlay m (fb.rowAddress y + BitVec.ofNat 64 (2 * x.toNat)) (2 * n) (colorByte color) := by
  induction n with
  | zero => exact (overlay_zero _ _ _).symm
  | succ n ih =>
    have hcolumn : (x + UInt32.ofNat n).toNat = x.toNat + n := toNat_add_ofNat (by omega)
    have hdouble : ((x + UInt32.ofNat n) * 2).toNat = 2 * x.toNat + 2 * n := by
      rw [UInt32.toNat_mul, hcolumn]
      change (x.toNat + n) * 2 % 2 ^ 32 = _
      omega
    have hinside : x + UInt32.ofNat n < fb.width ∧ y < fb.height :=
      ⟨by rw [UInt32.lt_iff_toNat_lt]; omega, hy⟩
    rw [List.range_succ, List.foldl_append, ih (by omega), List.foldl_cons, List.foldl_nil,
      Layout.writePixel, if_pos hinside, hdouble, ← add_add, store16, Nat.mul_succ,
      ← overlay_append (by omega)]
    refine overlay_congr fun k hk => ?_
    rw [colorByte_add, colorByte, Nat.mod_eq_of_lt hk]

/-- A span that has ended agrees with the pixels of its row. -/
theorem memory_writeSpan_of_columnsFit {screen : Screen}
    (hx : x.toNat + w.toNat ≤ fb.width.toNat) (hy : y < fb.height) (hfits : ColumnsFit x w)
    (hended : (fb.writeSpan fuel x y w color screen).ended = true) :
    (fb.writeSpan fuel x y w color screen).state.memory =
      fb.writePixelRow x y w color screen.memory := by
  obtain hfits | ⟨rfl, hx4⟩ := hfits
  · rw [memory_writeSpan hx hy (by omega) hended, Layout.writePixelRow,
      foldl_writePixel hx hy hfits le_rfl]
  · rw [memory_writeSpan hx hy hx4 hended]
    exact overlay_zero _ _ _

end Row

section Rows

variable {fb : Layout} {x y w h : UInt32} {color : UInt16} {m : Memory} {fuel : Nat}

theorem row_lt {j : Nat} (hj : j < h.toNat) (hy : y.toNat + h.toNat ≤ fb.height.toNat) :
    y + UInt32.ofNat j < fb.height := by
  have hlt := fb.height.toNat_lt
  rw [UInt32.lt_iff_toNat_lt, toNat_add_ofNat (by omega)]
  omega

theorem rectangle_accepts (hx : x.toNat + w.toNat ≤ fb.width.toNat)
    (hy : y.toNat + h.toNat ≤ fb.height.toNat) : x + w ≤ fb.width ∧ y + h ≤ fb.height := by
  have hwidth := fb.width.toNat_lt
  have hheight := fb.height.toNat_lt
  rw [UInt32.le_iff_toNat_le, UInt32.le_iff_toNat_le, toNat_add_of_lt (by omega),
    toNat_add_of_lt (by omega)]
  exact ⟨hx, hy⟩

/-- One more row. -/
theorem toNat_next {i : UInt32} (hi : i < h) : (i + 1).toNat = i.toNat + 1 := by
  rw [UInt32.lt_iff_toNat_lt] at hi
  have hlt := h.toNat_lt
  exact toNat_add_of_lt (by change i.toNat + 1 < 2 ^ 32; omega)

theorem guard_of_rowLoop {s : UInt32 × Screen}
    (hended : (fb.rowLoop x y w h color fuel s).ended = true) :
    decide ((fb.rowLoop x y w h color fuel s).state.1 < h) = false :=
  guard_of_whileLoop hended

/-- What holds at the start and is kept by the span of each row that ends holds at the end of a
rectangle. -/
theorem writeRectangle_of_ended {I : Nat → Memory → Prop}
    (hx : x.toNat + w.toNat ≤ fb.width.toNat) (hy : y.toNat + h.toNat ≤ fb.height.toNat)
    (hrow : ∀ i < h.toNat, ∀ screen, I i screen.memory →
      (fb.writeSpan fuel x (y + UInt32.ofNat i) w color screen).ended = true →
      I (i + 1) (fb.writeSpan fuel x (y + UInt32.ofNat i) w color screen).state.memory)
    (hstart : I 0 m) (hended : (fb.writeRectangle fuel x y w h color ⟨m, []⟩).ended = true) :
    I h.toNat (fb.writeRectangle fuel x y w h color ⟨m, []⟩).state.memory := by
  rw [Layout.writeRectangle, if_pos (rectangle_accepts hx hy)] at hended ⊢
  have hloop : (fb.rowLoop x y w h color fuel (0, ⟨m, []⟩)).ended = true := hended
  have hkept := @whileLoop_state_of_ended _ (fun s : UInt32 × Screen => s.1 < h) _
    (fun s => s.1.toNat ≤ h.toNat ∧ I s.1.toNat s.2.memory) fuel (0, ⟨m, []⟩)
    (fun s hs hguard hspan => ?_) ⟨Nat.zero_le _, hstart⟩ hloop
  · have hstop := of_decide_eq_false (guard_of_rowLoop hloop)
    rw [UInt32.lt_iff_toNat_lt, not_lt] at hstop
    have hlast := le_antisymm hkept.1 hstop
    exact hlast ▸ hkept.2
  · have hlt : s.1 < h := of_decide_eq_true hguard
    have hnext := toNat_next hlt
    rw [UInt32.lt_iff_toNat_lt] at hlt
    have hkept := hrow s.1.toNat hlt s.2 hs.2
    rw [UInt32.ofNat_toNat] at hkept
    refine ⟨hnext ▸ hlt, ?_⟩
    change I (s.1 + 1).toNat _
    exact hnext ▸ hkept hspan

/-- A rectangle of spans that end ends. -/
theorem writeRectangle_ended (hlimit : x.toNat + w.toNat < 2 ^ 32 - 4) (hw : w.toNat < fuel)
    (hh : h.toNat < fuel) : (fb.writeRectangle fuel x y w h color ⟨m, []⟩).ended = true := by
  rw [Layout.writeRectangle]
  split
  · refine whileLoop_ended (I := fun _ => True) (fun s : UInt32 × Screen => h.toNat - s.1.toNat)
      (fun s _ hguard => ⟨trivial, writeSpan_ended hlimit hw, ?_⟩) trivial
      ((Nat.sub_le _ _).trans_lt hh)
    have hlt : s.1 < h := of_decide_eq_true hguard
    have hnext := toNat_next hlt
    rw [UInt32.lt_iff_toNat_lt] at hlt
    change h.toNat - (s.1 + 1).toNat < h.toNat - s.1.toNat
    omega
  · rfl

/-- A rectangle that has ended agrees with its pixels. -/
theorem memory_writeRectangle_of_columnsFit (hx : x.toNat + w.toNat ≤ fb.width.toNat)
    (hy : y.toNat + h.toNat ≤ fb.height.toNat) (hfits : ColumnsFit x w)
    (hended : (fb.writeRectangle fuel x y w h color ⟨m, []⟩).ended = true) :
    (fb.writeRectangle fuel x y w h color ⟨m, []⟩).state.memory =
      fb.writePixels x y w h color m := by
  refine writeRectangle_of_ended
    (I := fun n memory => memory = (List.range n).foldl
      (fun m j => fb.writePixelRow x (y + UInt32.ofNat j) w color m) m)
    hx hy (fun i hi screen hrows hspan => ?_) rfl hended
  rw [memory_writeSpan_of_columnsFit hx (row_lt hi hy) hfits hspan, List.range_succ,
    List.foldl_append, hrows, List.foldl_cons, List.foldl_nil]

end Rows

section Apart

variable {fb : Layout} {x y w h : UInt32} {color : UInt16} {m : Memory} {fuel : Nat}

/-- The offset of a row. -/
def rowOffset (fb : Layout) (y : UInt32) : Nat := ((y + fb.yOffset) * fb.pitch).toNat

theorem rowAddress_add (fb : Layout) (y : UInt32) (k : Nat) :
    fb.rowAddress y + BitVec.ofNat 64 k = fb.addr + BitVec.ofNat 64 (rowOffset fb y + k) :=
  add_add fb.addr (rowOffset fb y) k

/-- `WritePixel` stores less than `2 ^ 32` bytes behind the front of the row. -/
theorem writePixel_beyond {target : Nat} (hfar : rowOffset fb y + 2 ^ 32 ≤ target)
    (htarget : target < 2 ^ 64) (x : UInt32) (m : Memory) :
    fb.writePixel x y color m (fb.addr + BitVec.ofNat 64 target) =
      m (fb.addr + BitVec.ofNat 64 target) := by
  have hrow : rowOffset fb y < 2 ^ 32 := UInt32.toNat_lt _
  have hcolumn : (x * 2).toNat < 2 ^ 32 := UInt32.toNat_lt _
  have heven : (x * 2).toNat % 2 = 0 := by
    rw [UInt32.toNat_mul]
    change x.toNat * 2 % 2 ^ 32 % 2 = 0
    omega
  rw [Layout.writePixel]
  split
  · refine if_neg ?_
    rw [rowAddress_add, offsetOf_moved (by omega), offsetOf_add htarget, if_pos (by omega)]
    omega
  · rfl

theorem foldl_of_kept {α β : Type} {f : β → α → β} {I : β → Prop} {l : List α}
    (hstep : ∀ b, I b → ∀ a ∈ l, I (f b a)) {b : β} (h : I b) : I (l.foldl f b) := by
  induction l generalizing b with
  | nil => exact h
  | cons a l ih =>
    exact ih (fun b hb a ha => hstep b hb a (List.mem_cons_of_mem _ ha))
      (hstep b h a List.mem_cons_self)

/-- The pixels of a row stay away from a byte far behind it. -/
theorem writePixelRow_beyond {target : Nat} (hfar : rowOffset fb y + 2 ^ 32 ≤ target)
    (htarget : target < 2 ^ 64) (x w : UInt32) (m : Memory) :
    fb.writePixelRow x y w color m (fb.addr + BitVec.ofNat 64 target) =
      m (fb.addr + BitVec.ofNat 64 target) :=
  foldl_of_kept (I := fun memory => memory (fb.addr + BitVec.ofNat 64 target) =
      m (fb.addr + BitVec.ofNat 64 target))
    (fun memory hkept _ _ => (writePixel_beyond hfar htarget _ memory).trans hkept) rfl

/-- The last pixel of a span, drawn in white. -/
theorem writeSpan_white {screen : Screen} (hx : x.toNat + w.toNat ≤ fb.width.toNat)
    (hy : y < fb.height) (hlimit : x.toNat + w.toNat < 2 ^ 32 - 4) (hw : 0 < w.toNat)
    (hended : (fb.writeSpan fuel x y w 0xFFFF screen).ended = true) :
    (fb.writeSpan fuel x y w 0xFFFF screen).state.memory
      (fb.addr + BitVec.ofNat 64 (rowOffset fb y + 2 * (x.toNat + w.toNat - 1))) = 0xFF := by
  have hsplit : 2 * (x.toNat + w.toNat - 1) = 2 * x.toNat + 2 * (w.toNat - 1) := by omega
  rw [memory_writeSpan hx hy hlimit hended, ← rowAddress_add, hsplit, ← add_add,
    overlay_inside (by omega) (by omega), colorByte, Nat.mul_mod_right]
  rfl

/-- White stays white. -/
theorem writeSpan_white_kept {screen : Screen} {a : BitVec 64}
    (hx : x.toNat + w.toNat ≤ fb.width.toNat) (hy : y < fb.height)
    (hlimit : x.toNat + w.toNat < 2 ^ 32 - 4)
    (hended : (fb.writeSpan fuel x y w 0xFFFF screen).ended = true) (ha : screen.memory a = 0xFF) :
    (fb.writeSpan fuel x y w 0xFFFF screen).state.memory a = 0xFF := by
  have hwhite : ∀ k < 2, byteOf 0xFFFF k = 0xFF := by decide
  rw [memory_writeSpan hx hy hlimit hended, overlay]
  split
  · exact hwhite _ (Nat.mod_lt _ Nat.two_pos)
  · exact ha

/-- A span whose end is at `2 ^ 32 - 4` or behind does not end. -/
theorem not_writeSpan_ended {screen : Screen} (hx : x.toNat + w.toNat ≤ fb.width.toNat)
    (hy : y < fb.height) (hlimit : 2 ^ 32 - 4 ≤ x.toNat + w.toNat) :
    (fb.writeSpan fuel x y w color screen).ended = false := by
  have hwidth := fb.width.toNat_lt
  have hx2 : (x + w).toNat = x.toNat + w.toNat := toNat_add_of_lt (by omega)
  rw [Layout.writeSpan, if_pos ((accepts_iff hx).mpr hy)]
  exact not_spanLoops_ended (by omega) (by omega)

theorem not_writeRectangle_ended (hx : x.toNat + w.toNat ≤ fb.width.toNat)
    (hy : y.toNat + h.toNat ≤ fb.height.toNat) (hh : 0 < h.toNat)
    (hlimit : 2 ^ 32 - 4 ≤ x.toNat + w.toNat) :
    (fb.writeRectangle fuel x y w h color ⟨m, []⟩).ended = false := by
  rw [Layout.writeRectangle, if_pos (rectangle_accepts hx hy)]
  have hguard : (0 : UInt32) < h := UInt32.lt_iff_toNat_lt.mpr hh
  exact @not_whileLoop_ended_of_body _ (fun s : UInt32 × Screen => s.1 < h) _ fuel (0, ⟨m, []⟩)
    (decide_eq_true hguard) (not_writeSpan_ended hx (row_lt hh hy) hlimit)

end Apart

section Agreement

variable {fb : Layout} {x y w h : UInt32}

theorem ColumnsFit.lt (hfits : ColumnsFit x w) : x.toNat + w.toNat < 2 ^ 32 - 4 := by
  obtain hfits | ⟨rfl, hx⟩ := hfits
  · omega
  · exact hx

/-- Columns that do not fit, of a span that ends. -/
theorem not_columnsFit (hfits : ¬ ColumnsFit x w) (hlimit : x.toNat + w.toNat < 2 ^ 32 - 4) :
    0 < w.toNat ∧ 2 ^ 31 ≤ x.toNat + w.toNat - 1 := by
  obtain ⟨hbeyond, hempty⟩ := not_or.mp hfits
  have hw : 0 < w.toNat := by
    by_contra hzero
    have hw0 : w = 0 := UInt32.toNat_inj.mp (Nat.eq_zero_of_not_pos hzero)
    exact hempty ⟨hw0, by omega⟩
  exact ⟨hw, by omega⟩

theorem spanAgrees_iff (hx : x.toNat + w.toNat ≤ fb.width.toNat) (hy : y < fb.height) :
    fb.SpanAgrees x y w ↔ ColumnsFit x w := by
  constructor
  · intro hagrees
    by_contra hfits
    obtain ⟨fuel, hended, hmemory⟩ := hagrees 0xFFFF fun _ => 0
    by_cases hlimit : x.toNat + w.toNat < 2 ^ 32 - 4
    · obtain ⟨hw, hbeyond⟩ := not_columnsFit hfits hlimit
      have hrow : rowOffset fb y < 2 ^ 32 := UInt32.toNat_lt _
      have hwhite := writeSpan_white hx hy hlimit hw hended
      rw [hmemory, writePixelRow_beyond (by omega) (by omega)] at hwhite
      exact absurd hwhite (by decide)
    · rw [not_writeSpan_ended hx hy (not_lt.mp hlimit)] at hended
      exact Bool.false_ne_true hended
  · intro hfits color m
    have hended := @writeSpan_ended fb x y w color (w.toNat + 1) ⟨m, []⟩ hfits.lt
      (Nat.lt_succ_self _)
    exact ⟨_, hended, memory_writeSpan_of_columnsFit hx hy hfits hended⟩

/-- Among the rows of a rectangle one has the largest offset. -/
theorem exists_last_row (fb : Layout) (y : UInt32) {n : Nat} (hn : 0 < n) :
    ∃ k < n, ∀ j < n, rowOffset fb (y + UInt32.ofNat j) ≤ rowOffset fb (y + UInt32.ofNat k) := by
  obtain ⟨k, hk, hmax⟩ := Finset.exists_max_image (Finset.range n)
    (fun j => rowOffset fb (y + UInt32.ofNat j)) ⟨0, Finset.mem_range.mpr hn⟩
  exact ⟨k, Finset.mem_range.mp hk, fun j hj => hmax j (Finset.mem_range.mpr hj)⟩

theorem rectangleAgrees_iff (hx : x.toNat + w.toNat ≤ fb.width.toNat)
    (hy : y.toNat + h.toNat ≤ fb.height.toNat) :
    fb.RectangleAgrees x y w h ↔ h = 0 ∨ ColumnsFit x w := by
  have hwidth := fb.width.toNat_lt
  constructor
  · intro hagrees
    by_contra hnot
    obtain ⟨hh, hfits⟩ := not_or.mp hnot
    replace hh : 0 < h.toNat := Nat.pos_of_ne_zero fun hzero => hh (UInt32.toNat_inj.mp hzero)
    obtain ⟨fuel, hended, hmemory⟩ := hagrees 0xFFFF fun _ => 0
    by_cases hlimit : x.toNat + w.toNat < 2 ^ 32 - 4
    · obtain ⟨hw, hbeyond⟩ := not_columnsFit hfits hlimit
      obtain ⟨k, hk, hlast⟩ := exists_last_row fb y hh
      have hrow : rowOffset fb (y + UInt32.ofNat k) < 2 ^ 32 := UInt32.toNat_lt _
      -- The last pixel of the span in row `k` is white from there on, and no pixel gets there.
      obtain ⟨target, htarget⟩ : ∃ target, target =
        rowOffset fb (y + UInt32.ofNat k) + 2 * (x.toNat + w.toNat - 1) := ⟨_, rfl⟩
      have hwhite := writeRectangle_of_ended
        (I := fun n memory => k < n → memory (fb.addr + BitVec.ofNat 64 target) = 0xFF)
        hx hy (fun i hi screen hkept hspan hki => ?_)
        (fun hlt => absurd hlt (Nat.not_lt_zero k)) hended hk
      · have hblack : fb.writePixels x y w h 0xFFFF (fun _ => 0)
            (fb.addr + BitVec.ofNat 64 target) = 0 := by
          refine foldl_of_kept (I := fun memory : Memory =>
            memory (fb.addr + BitVec.ofNat 64 target) = 0) (fun memory hkept j hj => ?_) rfl
          have hbelow := hlast j (List.mem_range.mp hj)
          exact (writePixelRow_beyond (by omega) (by omega) x w memory).trans hkept
        rw [hmemory, hblack] at hwhite
        exact absurd hwhite (by decide)
      · obtain rfl | hlt := eq_or_ne i k
        · rw [htarget]
          exact writeSpan_white hx (row_lt hi hy) hlimit hw hspan
        · exact writeSpan_white_kept hx (row_lt hi hy) hlimit hspan (hkept (by omega))
    · rw [not_writeRectangle_ended hx hy hh (not_lt.mp hlimit)] at hended
      exact Bool.false_ne_true hended
  · rintro (rfl | hfits) color m
    · have hended : (fb.writeRectangle 1 x y w 0 color ⟨m, []⟩).ended = true := by
        rw [Layout.writeRectangle, if_pos (rectangle_accepts hx hy)]
        rfl
      refine ⟨1, hended, ?_⟩
      rw [Layout.writeRectangle, if_pos (rectangle_accepts hx hy)]
      rfl
    · have hended := @writeRectangle_ended fb x y w h color m (w.toNat + h.toNat + 1) hfits.lt
        (by omega) (by omega)
      exact ⟨_, hended, memory_writeRectangle_of_columnsFit hx hy hfits hended⟩

end Agreement

/-- For a rectangle inside the visible area, `WriteRectangle` ends and leaves what the calls of
`WritePixel` leave, exactly if it has no row or its columns fit; for a row, so does
`WriteSpan`. -/
theorem wide_writes_agree_iff (fb : Layout) (x y w : UInt32)
    (hx : x.toNat + w.toNat ≤ fb.width.toNat) :
    (∀ h : UInt32, y.toNat + h.toNat ≤ fb.height.toNat →
      (fb.RectangleAgrees x y w h ↔ h = 0 ∨ ColumnsFit x w)) ∧
    (y < fb.height → (fb.SpanAgrees x y w ↔ ColumnsFit x w)) :=
  ⟨fun _ hy => rectangleAgrees_iff hx hy, fun hy => spanAgrees_iff hx hy⟩

/-- A screen of 640 by 480 pixels. -/
def vga : Layout := ⟨0x3C100000, 1280, 640, 480, 0⟩

theorem wide_writes_agree_vga :
    vga.RectangleAgrees 3 10 6 2 ∧ vga.SpanAgrees 3 10 6 :=
  ⟨((wide_writes_agree_iff vga 3 10 6 (by decide)).1 2 (by decide)).mpr (by decide),
    ((wide_writes_agree_iff vga 3 10 6 (by decide)).2 (by decide)).mpr (by decide)⟩

/-- A pixel in column `2 ^ 31`. -/
theorem not_wide_writes_agree :
    ¬ ∀ (fb : Layout) (x y w h : UInt32), x.toNat + w.toNat ≤ fb.width.toNat →
      y.toNat + h.toNat ≤ fb.height.toNat → fb.RectangleAgrees x y w h := by
  intro hholds
  have hagrees := hholds ⟨0, 0, 0x80000001, 1, 0⟩ 0x80000000 0 1 1 (by decide) (by decide)
  rw [rectangleAgrees_iff (by decide) (by decide)] at hagrees
  exact absurd hagrees (by decide)

end RPiKernel.Framebuffer
