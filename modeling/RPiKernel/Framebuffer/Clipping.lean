import RPiKernel.Framebuffer.Spans

/-!
# Clipped drawing

`WriteSpan` and `WriteRectangle` compare sums of 32 bits with the sizes of the screen. A sum
that wraps around passes, and then only the loop over four pixels can draw, where `x + 4` wraps
around as well. A span inside the screen draws beyond it if it ends so close to `2 ^ 32` that
the loop passes its end.

## Implementation notes

A store stays in view if its pixels are those of a visible row and are stored where they lie. The
results hold for every `yOffset`, and so for the two pages.
-/

namespace RPiKernel.Framebuffer

open Machine

/-- A span that is not refused stores something: it is not empty, or `x + 4` wraps around. -/
def SpanWrites (x w : UInt32) : Prop :=
  if x.toNat + w.toNat < 2 ^ 32 then
    0 < w.toNat ∨ 2 ^ 32 - 4 ≤ x.toNat
  else
    2 ^ 32 - 4 ≤ x.toNat ∧ 4 ≤ w.toNat

namespace Layout

/-- Where a pixel of the current page lies. -/
def pixelAddress (fb : Layout) (column : Nat) (row : UInt32) : BitVec 64 :=
  fb.addr + BitVec.ofNat 64
    ((row.toNat + fb.yOffset.toNat) * fb.pitch.toNat + 2 * column)

/-- A store to pixels of a row of the current page, where they lie. -/
structure InView (fb : Layout) (store : Store) : Prop where
  columns : store.column + store.pixels ≤ fb.width.toNat
  row : store.row < fb.height
  address : store.address = fb.pixelAddress store.column store.row

/-- `WriteSpan` draws in view, and nothing for a span that is not completely inside. -/
def SpanStays (fb : Layout) (x y w : UInt32) : Prop :=
  ∀ color m fuel,
    (∀ store ∈ (fb.writeSpan fuel x y w color ⟨m, []⟩).state.stores, fb.InView store) ∧
    (¬ (x.toNat + w.toNat ≤ fb.width.toNat ∧ y < fb.height) →
      (fb.writeSpan fuel x y w color ⟨m, []⟩).state.stores = [])

/-- `WriteRectangle` draws in view, and nothing for a rectangle that is not completely inside. -/
def RectangleStays (fb : Layout) (x y w h : UInt32) : Prop :=
  ∀ color m fuel,
    (∀ store ∈ (fb.writeRectangle fuel x y w h color ⟨m, []⟩).state.stores, fb.InView store) ∧
    (¬ (x.toNat + w.toNat ≤ fb.width.toNat ∧ y.toNat + h.toNat ≤ fb.height.toNat) →
      (fb.writeRectangle fuel x y w h color ⟨m, []⟩).state.stores = [])

/-- The offset of a row fits into 32 bits. -/
def RowFits (fb : Layout) (y : UInt32) : Prop :=
  (y.toNat + fb.yOffset.toNat) * fb.pitch.toNat % 2 ^ 64 < 2 ^ 32

/-- The span is refused; or it is inside, ends below `2 ^ 32 - 4` and its row fits; or it is not
inside, and stores nothing. -/
def SpanClips (fb : Layout) (x y w : UInt32) : Prop :=
  ¬ (x + w ≤ fb.width ∧ y < fb.height) ∨
    if x.toNat + w.toNat ≤ fb.width.toNat then
      x.toNat + w.toNat < 2 ^ 32 - 4 ∧ (w = 0 ∨ fb.RowFits y)
    else
      ¬ SpanWrites x w

/-- The rectangle is refused or has no row; or it is inside, its spans end below `2 ^ 32 - 4` and
its rows fit; or it is not inside, and none of its spans stores anything. -/
def RectangleClips (fb : Layout) (x y w h : UInt32) : Prop :=
  ¬ (x + w ≤ fb.width ∧ y + h ≤ fb.height) ∨ h = 0 ∨
    if x.toNat + w.toNat ≤ fb.width.toNat ∧ y.toNat + h.toNat ≤ fb.height.toNat then
      x.toNat + w.toNat < 2 ^ 32 - 4 ∧
        (w = 0 ∨ ∀ i < h.toNat, fb.RowFits (y + UInt32.ofNat i))
    else
      ¬ SpanWrites x w ∨ (fb.height ≤ y ∧ y.toNat + h.toNat ≤ 2 ^ 32)

end Layout

section Address

variable {fb : Layout} {y : UInt32}

/-- The address of a pixel is that of its store exactly if the offset of the row fits. -/
theorem rowAddress_add_iff (fb : Layout) (y : UInt32) (column : Nat) :
    fb.rowAddress y + BitVec.ofNat 64 (2 * column) = fb.pixelAddress column y ↔ fb.RowFits y := by
  have hoffset : ((y + fb.yOffset) * fb.pitch).toNat =
      (y.toNat + fb.yOffset.toNat) * fb.pitch.toNat % 2 ^ 32 := by
    rw [UInt32.toNat_mul, UInt32.toNat_add, Nat.mod_mul_mod]
  rw [Layout.rowAddress, Layout.pixelAddress, Layout.RowFits, hoffset, ← add_add, add_left_inj,
    add_right_inj, ← BitVec.toNat_inj, BitVec.toNat_ofNat, BitVec.toNat_ofNat]
  omega

end Address

section Stores

variable {spanPtr : BitVec 64} {y : UInt32} {color : UInt16} {s : UInt32 × Screen} {x x2 : UInt32}
  {fuel : Nat} {screen : Screen} {P : Store → Prop}

/-- A screen has stored something with a property. -/
def HasStored (P : Store → Prop) (screen : Screen) : Prop := ∃ store ∈ screen.stores, P store

theorem HasStored.append (h : HasStored P screen) {m : Memory} {store : Store} :
    HasStored P ⟨m, screen.stores ++ [store]⟩ :=
  h.imp fun _ hmem => ⟨List.mem_append_left _ hmem.1, hmem.2⟩

theorem HasStored.last {m : Memory} {store : Store} (h : P store) :
    HasStored P ⟨m, screen.stores ++ [store]⟩ :=
  ⟨store, List.mem_append_right _ List.mem_cons_self, h⟩

/-- What a span keeps if its two bodies do. -/
theorem spanLoops_state {I : UInt32 × Screen → Prop}
    (hpixel : ∀ s, I s → I (s.1 + 1, s.2.storePixel spanPtr y s.1 color))
    (hfour : ∀ s, I s → I (s.1 + 4, s.2.storeFour spanPtr y s.1 color)) (h : I (x, screen)) :
    I (spanLoops fuel spanPtr x x2 y color screen).state := by
  have hhead : I (pixelLoop (fun x => x % 4 ≠ 0 ∧ x < x2) spanPtr y color fuel (x, screen)).state :=
    whileLoop_state (fun s hs _ => hpixel s hs) h
  have hmiddle := andThen_state hhead fun _ =>
    (whileLoop_state (fun s hs _ => hfour s hs) hhead :
      I (fourLoop x2 spanPtr y color fuel _).state)
  exact andThen_state hmiddle fun _ => whileLoop_state (fun s hs _ => hpixel s hs) hmiddle

theorem spanLoops_keeps (h : HasStored P screen) :
    HasStored P (spanLoops fuel spanPtr x x2 y color screen).state.2 :=
  spanLoops_state (I := fun s => HasStored P s.2) (fun _ hs => hs.append) (fun _ hs => hs.append) h

/-- A store of the span in row `y`. -/
def InSpan (spanPtr : BitVec 64) (y : UInt32) (store : Store) : Prop :=
  store.row = y ∧ store.address = spanPtr + BitVec.ofNat 64 (2 * store.column)

theorem inSpan_storeFour (s : UInt32 × Screen) :
    HasStored (InSpan spanPtr y) (s.2.storeFour spanPtr y s.1 color) := by
  refine HasStored.last ⟨rfl, ?_⟩
  dsimp only
  rw [← Nat.mul_assoc]

/-- A span that comes to another column stores something. -/
theorem spanLoops_hasStored (hx : (spanLoops fuel spanPtr x x2 y color screen).state.1 ≠ x) :
    HasStored (InSpan spanPtr y) (spanLoops fuel spanPtr x x2 y color screen).state.2 := by
  refine Or.resolve_right (spanLoops_state
    (I := fun s => HasStored (InSpan spanPtr y) s.2 ∨ s.1 = x)
    (fun s _ => .inl ?_) (fun s _ => .inl (inSpan_storeFour s)) (.inr rfl)) hx
  exact HasStored.last ⟨rfl, rfl⟩

/-- A span that has a pixel, and ends, stores something. -/
theorem spanLoops_hasStored_of_lt (hlimit : x2.toNat < 2 ^ 32 - 4) (hx : x.toNat < x2.toNat)
    (hfuel : x2.toNat - x.toNat < fuel) :
    HasStored (InSpan spanPtr y) (spanLoops fuel spanPtr x x2 y color screen).state.2 := by
  have hgood : GoodBetween spanPtr y x.toNat x2.toNat fun _ => True := fun _ _ _ _ _ => trivial
  have hend := spanLoops_end hgood hlimit hx.le (fun store (_ : store ∈ screen.stores) => trivial)
    (@spanLoops_ended spanPtr y color x2 fuel x screen hlimit hx.le hfuel)
  refine spanLoops_hasStored fun heq => ?_
  rw [heq] at hend
  omega

/-- The first round of the loop over four pixels. -/
theorem fourLoop_hasStored (hguard : s.1 + 4 ≤ x2)
    (hP : ∀ address, P ⟨address, y, 4 * (s.1 / 4).toNat, 4⟩) :
    HasStored P (fourLoop x2 spanPtr y color (fuel + 1) s).state.2 := by
  have hfirst : HasStored P (s.2.storeFour spanPtr y s.1 color) := HasStored.last (hP _)
  rw [fourLoop, whileLoop, if_pos (decide_eq_true hguard)]
  exact andThen_state (I := fun s : UInt32 × Screen => HasStored P s.2) hfirst fun _ =>
    whileLoop_state (I := fun s : UInt32 × Screen => HasStored P s.2) (fun _ hs _ => hs.append) hfirst

/-- A span whose end is behind `2 ^ 32 - 4` stores the last four of `2 ^ 32` columns. -/
theorem spanLoops_beyond (hlimit : 2 ^ 32 - 4 ≤ x2.toNat) (hx : x.toNat ≤ x2.toNat)
    (hfuel : 2 ^ 32 ≤ fuel) :
    HasStored (fun store => store.column + store.pixels = 2 ^ 32)
      (spanLoops fuel spanPtr x x2 y color screen).state.2 := by
  have hlt := x2.toNat_lt
  have hgood : GoodBetween spanPtr y x.toNat x2.toNat fun _ => True := fun _ _ _ _ _ => trivial
  have hupper := (pixelLoop_drawn color fuel hgood hlt headGuard_lt
    (drawn_start hx fun store (_ : store ∈ screen.stores) => trivial)).upper
  have hended : (pixelLoop (fun x => x % 4 ≠ 0 ∧ x < x2) spanPtr y color fuel (x, screen)).ended =
      true := pixelLoop_ended hlt headGuard_lt (by dsimp only; omega)
  have haligned := aligned_of_not_headGuard hupper (guard_of_pixelLoop hended)
  have hgoes : (fourLoop x2 spanPtr y color fuel _).ended = false :=
    not_fourLoop_ended hlimit hupper haligned
  rw [spanLoops, Progress.andThen, Progress.andThen, if_pos hended,
    if_neg (ne_true_of_eq_false hgoes)]
  generalize (pixelLoop (fun x => x % 4 ≠ 0 ∧ x < x2) spanPtr y color fuel (x, screen)).state = s at *
  have hadd : ∀ x : UInt32, (x + 4).toNat = (x.toNat + 4) % 2 ^ 32 := fun x => UInt32.toNat_add x 4
  obtain ⟨more, rfl⟩ : ∃ more, fuel = (2 ^ 32 - 4 - s.1.toNat) / 4 + (more + 1) :=
    ⟨fuel - 1 - (2 ^ 32 - 4 - s.1.toNat) / 4, by omega⟩
  obtain ⟨s', hs', hloop⟩ : ∃ s' : UInt32 × Screen,
      s'.1.toNat = s.1.toNat + 4 * ((2 ^ 32 - 4 - s.1.toNat) / 4) ∧
        fourLoop x2 spanPtr y color ((2 ^ 32 - 4 - s.1.toNat) / 4 + (more + 1)) s =
          fourLoop x2 spanPtr y color (more + 1) s' := by
    refine exists_whileLoop_add
      (I := fun i (s' : UInt32 × Screen) => s'.1.toNat = s.1.toNat + 4 * i) _
      (fun i hi s' hs' => ?_) rfl
    obtain hmultiple | hend := haligned
    · refine ⟨decide_eq_true ?_, rfl, ?_⟩
      · rw [UInt32.le_iff_toNat_le, hadd]
        omega
      · rw [hadd]
        omega
    · omega
  have hdiv : (s'.1 / 4).toNat = s'.1.toNat / 4 := UInt32.toNat_div _ _
  have hs'lt := s'.1.toNat_lt
  have hlast : 2 ^ 32 - 4 ≤ s'.1.toNat := by
    obtain hmultiple | hend := haligned
    · omega
    · omega
  rw [hloop]
  refine fourLoop_hasStored ?_ fun address => ?_
  · rw [UInt32.le_iff_toNat_le, hadd]
    omega
  · dsimp only
    omega

/-- A span around the end of the columns, with four of them or more. -/
theorem spanLoops_wrapped (hx : x2 ≤ x) (hguard : x + 4 ≤ x2) :
    HasStored (fun _ => True) (spanLoops (fuel + 1) spanPtr x x2 y color screen).state.2 := by
  have hhead : pixelLoop (fun x => x % 4 ≠ 0 ∧ x < x2) spanPtr y color (fuel + 1) (x, screen) =
      ⟨(x, screen), true⟩ :=
    if_neg (ne_true_of_eq_false (decide_eq_false fun hand => UInt32.not_lt.mpr hx hand.2))
  have hfour : HasStored (fun _ => True)
      (fourLoop x2 spanPtr y color (fuel + 1) (x, screen)).state.2 :=
    fourLoop_hasStored hguard fun _ => trivial
  rw [spanLoops, hhead]
  exact andThen_state (I := fun s : UInt32 × Screen => HasStored (fun _ => True) s.2) hfour fun _ =>
    whileLoop_state (I := fun s : UInt32 × Screen => HasStored (fun _ => True) s.2)
      (fun _ hs _ => hs.append) hfour

/-- A span that does not begin. -/
theorem spanLoops_quiet (hx : x2 ≤ x) (hguard : ¬ x + 4 ≤ x2) :
    (spanLoops fuel spanPtr x x2 y color screen).state = (x, screen) := by
  have hnot : ¬ x < x2 := UInt32.not_lt.mpr hx
  have hhead : (pixelLoop (fun x => x % 4 ≠ 0 ∧ x < x2) spanPtr y color fuel (x, screen)).state =
      (x, screen) := whileLoop_state_of_not (decide_eq_false fun hand => hnot hand.2)
  have hskip : (fourLoop x2 spanPtr y color fuel (x, screen)).state = (x, screen) :=
    whileLoop_state_of_not (decide_eq_false hguard)
  have hfour : (Progress.andThen _ (fourLoop x2 spanPtr y color fuel)).state = (x, screen) :=
    andThen_state (I := (· = (x, screen))) hhead fun _ => by rw [hhead, hskip]
  refine andThen_state (I := (· = (x, screen))) hfour fun _ => ?_
  rw [hfour]
  exact whileLoop_state_of_not (decide_eq_false hnot)

end Stores

section Span

variable {fb : Layout} {x y w : UInt32} {color : UInt16} {fuel : Nat} {screen : Screen} {m : Memory}
  {P : Store → Prop}

/-- A sum of 32 bits that does not wrap around. -/
theorem add_le_iff {a b limit : UInt32} (h : a.toNat + b.toNat < 2 ^ 32) :
    a + b ≤ limit ↔ a.toNat + b.toNat ≤ limit.toNat := by
  rw [UInt32.le_iff_toNat_le, toNat_add_of_lt h]

/-- A sum of 32 bits that wraps around. -/
theorem toNat_add_wrapped {a b : UInt32} (h : 2 ^ 32 ≤ a.toNat + b.toNat) :
    (a + b).toNat + 2 ^ 32 = a.toNat + b.toNat := by
  have ha := a.toNat_lt
  have hb := b.toNat_lt
  rw [UInt32.toNat_add]
  omega

/-- A refused span stores nothing. -/
theorem writeSpan_refused (h : ¬ (x + w ≤ fb.width ∧ y < fb.height)) :
    fb.writeSpan fuel x y w color screen = ⟨screen, true⟩ :=
  if_neg h

theorem writeSpan_keeps (h : HasStored P screen) :
    HasStored P (fb.writeSpan fuel x y w color screen).state := by
  rw [Layout.writeSpan]
  split
  · exact spanLoops_keeps h
  · exact h

/-- A span that does not write leaves the screen. -/
theorem writeSpan_quiet (h : ¬ SpanWrites x w) :
    (fb.writeSpan fuel x y w color screen).state = screen := by
  rw [Layout.writeSpan]
  split
  swap
  · rfl
  have hx := x.toNat_lt
  have hw := w.toNat_lt
  have hadd : (x + 4).toNat = (x.toNat + 4) % 2 ^ 32 := UInt32.toNat_add x 4
  have hloops : x + w ≤ x ∧ ¬ x + 4 ≤ x + w := by
    rw [SpanWrites] at h
    rw [UInt32.le_iff_toNat_le, UInt32.le_iff_toNat_le, hadd, UInt32.toNat_add]
    split at h
    · omega
    · omega
  rw [Progress.map, spanLoops_quiet hloops.1 hloops.2]

/-- A span that is not refused, and writes, stores something. -/
theorem writeSpan_hasStored (haccepted : x + w ≤ fb.width ∧ y < fb.height) (h : SpanWrites x w)
    (hfuel : 2 ^ 32 ≤ fuel) :
    HasStored (fun _ => True) (fb.writeSpan fuel x y w color screen).state := by
  have hw := w.toNat_lt
  have hx := x.toNat_lt
  rw [Layout.writeSpan, if_pos haccepted]
  rw [SpanWrites] at h
  split at h
  · next hlt =>
    have hx2 := toNat_add_of_lt hlt
    by_cases hlimit : (x + w).toNat < 2 ^ 32 - 4
    · have hmoved : HasStored (InSpan (fb.rowAddress y) y)
          (spanLoops fuel (fb.rowAddress y) x (x + w) y color screen).state.2 :=
        spanLoops_hasStored_of_lt hlimit (by omega) (by omega)
      exact hmoved.imp fun _ hstored => ⟨hstored.1, trivial⟩
    · have hbeyond : HasStored (fun store => store.column + store.pixels = 2 ^ 32)
          (spanLoops fuel (fb.rowAddress y) x (x + w) y color screen).state.2 :=
        spanLoops_beyond (not_lt.mp hlimit) (by omega) hfuel
      exact hbeyond.imp fun _ hstored => ⟨hstored.1, trivial⟩
  · next hwraps =>
    have hx2 := toNat_add_wrapped (not_lt.mp hwraps)
    obtain ⟨more, rfl⟩ : ∃ more, fuel = more + 1 := ⟨fuel - 1, by omega⟩
    have hadd : (x + 4).toNat = (x.toNat + 4) % 2 ^ 32 := UInt32.toNat_add x 4
    refine spanLoops_wrapped ?_ ?_
    · rw [UInt32.le_iff_toNat_le]
      omega
    · rw [UInt32.le_iff_toNat_le, hadd]
      omega

/-- A span inside the screen that ends below `2 ^ 32 - 4`, in a row that fits. -/
theorem writeSpan_inView (hx : x.toNat + w.toNat ≤ fb.width.toNat) (hy : y < fb.height)
    (hlimit : x.toNat + w.toNat < 2 ^ 32 - 4) (hfits : w = 0 ∨ fb.RowFits y)
    (hstores : ∀ store ∈ screen.stores, fb.InView store) :
    ∀ store ∈ (fb.writeSpan fuel x y w color screen).state.stores, fb.InView store := by
  have hx2 : (x + w).toNat = x.toNat + w.toNat := toNat_add_of_lt (by omega)
  have hgood : GoodBetween (fb.rowAddress y) y x.toNat (x + w).toNat fb.InView := by
    intro column pixels hcolumn hpixels hend
    obtain rfl | hfits := hfits
    · have hzero : (0 : UInt32).toNat = 0 := rfl
      exact absurd hend (by omega)
    · exact ⟨by dsimp only; omega, hy, (rowAddress_add_iff fb y column).mpr hfits⟩
  rw [Layout.writeSpan, if_pos ⟨(add_le_iff (by omega)).mpr hx, hy⟩]
  exact (spanLoops_drawn color fuel hgood (by omega) (by omega) hstores).stores

/-- Another span inside the screen stores something out of view. -/
theorem writeSpan_strays (hx : x.toNat + w.toNat ≤ fb.width.toNat) (hy : y < fb.height)
    (h : ¬ (x.toNat + w.toNat < 2 ^ 32 - 4 ∧ (w = 0 ∨ fb.RowFits y))) (hfuel : 2 ^ 32 ≤ fuel) :
    HasStored (fun store => ¬ fb.InView store) (fb.writeSpan fuel x y w color screen).state := by
  have hwidth := fb.width.toNat_lt
  have hx2 : (x + w).toNat = x.toNat + w.toNat := toNat_add_of_lt (by omega)
  rw [Layout.writeSpan, if_pos ⟨(add_le_iff (by omega)).mpr hx, hy⟩]
  by_cases hlimit : x.toNat + w.toNat < 2 ^ 32 - 4
  · obtain ⟨hw, hrow⟩ := not_or.mp fun hfits => h ⟨hlimit, hfits⟩
    have hpos : 0 < w.toNat := Nat.pos_of_ne_zero fun hzero => hw (UInt32.toNat_inj.mp hzero)
    have hspan : HasStored (InSpan (fb.rowAddress y) y)
        (spanLoops fuel (fb.rowAddress y) x (x + w) y color screen).state.2 :=
      spanLoops_hasStored_of_lt (by omega) (by omega) (by omega)
    obtain ⟨store, hmem, hstoreRow, haddress⟩ := hspan
    refine ⟨store, hmem, fun hview => hrow ((rowAddress_add_iff fb y store.column).mp ?_)⟩
    rw [← haddress, hview.address, hstoreRow]
  · have hbeyond : HasStored (fun store => store.column + store.pixels = 2 ^ 32)
        (spanLoops fuel (fb.rowAddress y) x (x + w) y color screen).state.2 :=
      spanLoops_beyond (by omega) (by omega) hfuel
    obtain ⟨store, hmem, hend⟩ := hbeyond
    refine ⟨store, hmem, fun hview => ?_⟩
    have hcolumns := hview.columns
    omega

theorem spanStays_iff : fb.SpanStays x y w ↔ fb.SpanClips x y w := by
  have hwidth := fb.width.toNat_lt
  have hx := x.toNat_lt
  rw [Layout.SpanClips]
  by_cases haccepted : x + w ≤ fb.width ∧ y < fb.height
  swap
  · refine iff_of_true (fun color m fuel => ?_) (.inl haccepted)
    rw [writeSpan_refused haccepted]
    exact ⟨fun store hmem => absurd hmem List.not_mem_nil, fun _ => rfl⟩
  rw [or_iff_right (not_not.mpr haccepted)]
  obtain ⟨fuel, hfuel⟩ : ∃ fuel : Nat, 2 ^ 32 ≤ fuel := ⟨2 ^ 32, le_rfl⟩
  by_cases hinside : x.toNat + w.toNat ≤ fb.width.toNat
  · rw [if_pos hinside]
    constructor
    · intro hstays
      by_contra hnot
      obtain ⟨store, hmem, hstray⟩ := @writeSpan_strays fb x y w 0 _ ⟨fun _ => 0, []⟩ hinside
        haccepted.2 hnot hfuel
      exact hstray ((hstays 0 _ _).1 store hmem)
    · rintro ⟨hlimit, hfits⟩ color m fuel
      refine ⟨writeSpan_inView hinside haccepted.2 hlimit hfits fun store hmem =>
        absurd hmem List.not_mem_nil, fun hnot => absurd ⟨hinside, haccepted.2⟩ hnot⟩
  · rw [if_neg hinside]
    constructor
    · intro hstays hwrites
      obtain ⟨store, hmem, -⟩ := @writeSpan_hasStored fb x y w 0 _ ⟨fun _ => 0, []⟩ haccepted
        hwrites hfuel
      rw [(hstays 0 _ _).2 fun hand => hinside hand.1] at hmem
      exact absurd hmem List.not_mem_nil
    · intro hquiet color m fuel
      rw [writeSpan_quiet hquiet]
      exact ⟨fun store hmem => absurd hmem List.not_mem_nil, fun _ => rfl⟩

end Span

section Rectangle

variable {fb : Layout} {x y w h : UInt32} {color : UInt16} {fuel : Nat} {m : Memory}
  {P : Store → Prop}

/-- What the span of row `k` stores, if those of the rows before it end. -/
theorem rowLoop_hasStored {k : Nat} {screen : Screen} (hk : k < h.toNat)
    (hbefore : ∀ i < k, ∀ screen,
      (fb.writeSpan (k + (fuel + 1)) x (y + UInt32.ofNat i) w color screen).ended = true)
    (hrow : ∀ screen,
      HasStored P (fb.writeSpan (k + (fuel + 1)) x (y + UInt32.ofNat k) w color screen).state) :
    HasStored P (fb.rowLoop x y w h color (k + (fuel + 1)) (0, screen)).state.2 := by
  have hh := h.toNat_lt
  obtain ⟨s, hs, hloop⟩ : ∃ s : UInt32 × Screen, s.1.toNat = k ∧
      fb.rowLoop x y w h color (k + (fuel + 1)) (0, screen) =
        whileLoop (fun s => s.1 < h)
          (fun s => (fb.writeSpan (k + (fuel + 1)) x (y + s.1) w color s.2).map
            fun screen => (s.1 + 1, screen)) (fuel + 1) s := by
    refine exists_whileLoop_add (I := fun i (s : UInt32 × Screen) => s.1.toNat = i) _
      (fun i hi s hs => ?_) rfl
    have hindex : s.1 = UInt32.ofNat i := by rw [← hs, UInt32.ofNat_toNat]
    refine ⟨decide_eq_true (UInt32.lt_iff_toNat_lt.mpr (by omega)), ?_, ?_⟩
    · rw [hindex]
      exact hbefore i hi s.2
    · rw [← hs]
      exact toNat_add_of_lt (by change s.1.toNat + 1 < 2 ^ 32; omega)
  have hindex : s.1 = UInt32.ofNat k := by rw [← hs, UInt32.ofNat_toNat]
  have hguard : s.1 < h := UInt32.lt_iff_toNat_lt.mpr (hs ▸ hk)
  have hfirst := hrow s.2
  rw [← hindex] at hfirst
  rw [hloop, whileLoop, if_pos (decide_eq_true hguard)]
  exact andThen_state (I := fun s : UInt32 × Screen => HasStored P s.2) hfirst fun _ =>
    whileLoop_state (I := fun s : UInt32 × Screen => HasStored P s.2)
      (fun _ hs _ => writeSpan_keeps hs) hfirst

/-- A rectangle whose spans all leave the screen leaves it. -/
theorem writeRectangle_quiet
    (hrows : ∀ i < h.toNat, ∀ fuel screen,
      (fb.writeSpan fuel x (y + UInt32.ofNat i) w color screen).state = screen) :
    (fb.writeRectangle fuel x y w h color ⟨m, []⟩).state = ⟨m, []⟩ := by
  rw [Layout.writeRectangle]
  split
  · refine whileLoop_state (I := fun s : UInt32 × Screen => s.2 = ⟨m, []⟩)
      (fun s hs hguard => ?_) rfl
    have hlt : s.1 < h := of_decide_eq_true hguard
    have hrow := hrows s.1.toNat (UInt32.lt_iff_toNat_lt.mp hlt) fuel s.2
    rw [UInt32.ofNat_toNat] at hrow
    exact hrow.trans hs
  · rfl

/-- A rectangle inside the screen whose columns end below `2 ^ 32 - 4`, in rows that fit. -/
theorem writeRectangle_inView (hx : x.toNat + w.toNat ≤ fb.width.toNat)
    (hy : y.toNat + h.toNat ≤ fb.height.toNat) (hlimit : x.toNat + w.toNat < 2 ^ 32 - 4)
    (hfits : w = 0 ∨ ∀ i < h.toNat, fb.RowFits (y + UInt32.ofNat i)) :
    ∀ store ∈ (fb.writeRectangle fuel x y w h color ⟨m, []⟩).state.stores, fb.InView store := by
  have hheight := fb.height.toNat_lt
  rw [Layout.writeRectangle]
  split
  swap
  · exact fun store hmem => absurd hmem List.not_mem_nil
  refine whileLoop_state (I := fun s : UInt32 × Screen => ∀ store ∈ s.2.stores, fb.InView store)
    (fun s hs hguard => ?_) fun store hmem => absurd hmem List.not_mem_nil
  have hlt : s.1.toNat < h.toNat := UInt32.lt_iff_toNat_lt.mp (of_decide_eq_true hguard)
  have hrow : y + s.1 < fb.height := by
    rw [UInt32.lt_iff_toNat_lt, toNat_add_of_lt (by omega)]
    omega
  refine writeSpan_inView hx hrow hlimit (hfits.imp_right fun hrows => ?_) hs
  have hfit := hrows s.1.toNat hlt
  rwa [UInt32.ofNat_toNat] at hfit

/-- Another rectangle inside the screen that has a row stores something out of view: in its first
row if the spans do not end, else in a row that does not fit. -/
theorem writeRectangle_strays (hx : x.toNat + w.toNat ≤ fb.width.toNat)
    (hy : y.toNat + h.toNat ≤ fb.height.toNat) (hh : 0 < h.toNat)
    (hnot : ¬ (x.toNat + w.toNat < 2 ^ 32 - 4 ∧
      (w = 0 ∨ ∀ i < h.toNat, fb.RowFits (y + UInt32.ofNat i)))) :
    ∃ fuel, HasStored (fun store => ¬ fb.InView store)
      (fb.writeRectangle fuel x y w h color ⟨m, []⟩).state := by
  have hwidth := fb.width.toNat_lt
  have hheight := fb.height.toNat_lt
  have hw := w.toNat_lt
  have haccepted : x + w ≤ fb.width ∧ y + h ≤ fb.height :=
    ⟨(add_le_iff (by omega)).mpr hx, (add_le_iff (by omega)).mpr hy⟩
  have hinside : ∀ i < h.toNat, y + UInt32.ofNat i < fb.height := by
    intro i hi
    rw [UInt32.lt_iff_toNat_lt, toNat_add_ofNat (by omega)]
    omega
  obtain ⟨k, hk, hends, hrow⟩ : ∃ k < h.toNat,
      (0 < k → x.toNat + w.toNat < 2 ^ 32 - 4) ∧
        ¬ (x.toNat + w.toNat < 2 ^ 32 - 4 ∧ (w = 0 ∨ fb.RowFits (y + UInt32.ofNat k))) := by
    by_cases hlimit : x.toNat + w.toNat < 2 ^ 32 - 4
    · obtain ⟨hw0, hrows⟩ := not_or.mp fun hfits => hnot ⟨hlimit, hfits⟩
      obtain ⟨k, hk, hrow⟩ : ∃ k, ∃ _ : k < h.toNat, ¬ fb.RowFits (y + UInt32.ofNat k) := by
        simpa only [not_forall] using hrows
      exact ⟨k, hk, fun _ => hlimit, fun hand => hand.2.elim hw0 hrow⟩
    · exact ⟨0, hh, fun hpos => absurd hpos (lt_irrefl 0), fun hand => hlimit hand.1⟩
  obtain ⟨fuel, hfuel⟩ : ∃ fuel : Nat, 2 ^ 32 ≤ fuel := ⟨2 ^ 32, le_rfl⟩
  refine ⟨k + (fuel + 1), ?_⟩
  rw [Layout.writeRectangle, if_pos haccepted]
  refine rowLoop_hasStored hk (fun i hi screen => ?_) fun screen =>
    writeSpan_strays hx (hinside k hk) hrow (by omega)
  have hlimit := hends (by omega)
  have hx2 : (x + w).toNat = x.toNat + w.toNat := toNat_add_of_lt (by omega)
  rw [Layout.writeSpan]
  split
  · exact spanLoops_ended (by omega) (by omega) (by omega)
  · rfl

/-- A rectangle whose spans write, and that has a visible row, stores something. -/
theorem writeRectangle_hasStored (haccepted : x + w ≤ fb.width ∧ y + h ≤ fb.height)
    (hh : 0 < h.toNat) (hwrites : SpanWrites x w)
    (hrow : y < fb.height ∨ 2 ^ 32 < y.toNat + h.toNat) :
    ∃ fuel, HasStored (fun _ => True) (fb.writeRectangle fuel x y w h color ⟨m, []⟩).state := by
  have hheight := fb.height.toNat_lt
  have hy := y.toNat_lt
  have hh32 := h.toNat_lt
  obtain ⟨k, hk, hvisible, hbefore⟩ : ∃ k < h.toNat, y + UInt32.ofNat k < fb.height ∧
      ∀ i < k, ¬ y + UInt32.ofNat i < fb.height := by
    by_cases hfirst : y < fb.height
    · exact ⟨0, hh, by rwa [show UInt32.ofNat 0 = 0 from rfl, UInt32.add_zero], fun i hi =>
        absurd hi (Nat.not_lt_zero i)⟩
    · have hwraps := hrow.resolve_left hfirst
      -- The rows before row zero are too high, and row zero is visible.
      have hsum := @toNat_add_wrapped y h (by omega)
      have hle := UInt32.le_iff_toNat_le.mp haccepted.2
      rw [UInt32.lt_iff_toNat_lt] at hfirst
      refine ⟨2 ^ 32 - y.toNat, by omega, ?_, fun i hi => ?_⟩
      · rw [UInt32.lt_iff_toNat_lt, UInt32.toNat_add, UInt32.toNat_ofNat_of_lt' (by
          change 2 ^ 32 - y.toNat < 2 ^ 32; omega)]
        omega
      · rw [UInt32.lt_iff_toNat_lt, toNat_add_ofNat (by omega)]
        omega
  obtain ⟨fuel, hfuel⟩ : ∃ fuel : Nat, 2 ^ 32 ≤ fuel := ⟨2 ^ 32, le_rfl⟩
  refine ⟨k + (fuel + 1), ?_⟩
  rw [Layout.writeRectangle, if_pos haccepted]
  refine rowLoop_hasStored hk (fun i hi screen => ?_) fun screen =>
    writeSpan_hasStored ⟨haccepted.1, hvisible⟩ hwrites (by omega)
  rw [writeSpan_refused fun hand => hbefore i hi hand.2]

theorem rectangleStays_iff : fb.RectangleStays x y w h ↔ fb.RectangleClips x y w h := by
  have hnil : ∀ m : Memory, ∀ store ∈ (⟨m, []⟩ : Screen).stores, fb.InView store :=
    fun _ _ hmem => absurd hmem List.not_mem_nil
  rw [Layout.RectangleClips]
  by_cases haccepted : x + w ≤ fb.width ∧ y + h ≤ fb.height
  swap
  · refine iff_of_true (fun color m fuel => ?_) (.inl haccepted)
    rw [Layout.writeRectangle, if_neg haccepted]
    exact ⟨hnil m, fun _ => rfl⟩
  rw [or_iff_right (not_not.mpr haccepted)]
  by_cases hh : h = 0
  · refine iff_of_true (fun color m fuel => ?_) (.inl hh)
    rw [writeRectangle_quiet fun i hi => by
      rw [hh] at hi
      exact absurd hi (Nat.not_lt_zero i)]
    exact ⟨hnil m, fun _ => rfl⟩
  rw [or_iff_right hh]
  have hpos : 0 < h.toNat := Nat.pos_of_ne_zero fun hzero => hh (UInt32.toNat_inj.mp hzero)
  by_cases hinside : x.toNat + w.toNat ≤ fb.width.toNat ∧ y.toNat + h.toNat ≤ fb.height.toNat
  · rw [if_pos hinside]
    constructor
    · intro hstays
      by_contra hnot
      obtain ⟨fuel, store, hmem, hstray⟩ := @writeRectangle_strays fb x y w h 0 (fun _ => 0)
        hinside.1 hinside.2 hpos hnot
      exact hstray ((hstays 0 _ fuel).1 store hmem)
    · rintro ⟨hlimit, hfits⟩ color m fuel
      exact ⟨writeRectangle_inView hinside.1 hinside.2 hlimit hfits,
        fun hnot => absurd hinside hnot⟩
  · rw [if_neg hinside]
    constructor
    · intro hstays
      by_contra hnot
      obtain ⟨hwrites, hrow⟩ := not_or.mp hnot
      have hvisible : y < fb.height ∨ 2 ^ 32 < y.toNat + h.toNat := by
        by_contra hnone
        obtain ⟨hhigh, hends⟩ := not_or.mp hnone
        exact hrow ⟨UInt32.not_lt.mp hhigh, not_lt.mp hends⟩
      obtain ⟨fuel, store, hmem, -⟩ := @writeRectangle_hasStored fb x y w h 0 (fun _ => 0)
        haccepted hpos (not_not.mp hwrites) hvisible
      rw [(hstays 0 _ fuel).2 hinside] at hmem
      exact absurd hmem List.not_mem_nil
    · intro hquiet color m fuel
      rw [writeRectangle_quiet fun i hi fuel screen => ?_]
      · exact ⟨hnil m, fun _ => rfl⟩
      · obtain hquiet | ⟨hhigh, hends⟩ := hquiet
        · exact writeSpan_quiet hquiet
        · rw [writeSpan_refused]
          rintro ⟨-, hrow⟩
          rw [UInt32.lt_iff_toNat_lt, toNat_add_ofNat (by omega)] at hrow
          rw [UInt32.le_iff_toNat_le] at hhigh
          omega

end Rectangle

/-- `WriteSpan` and `WriteRectangle` draw in view, and nothing for what is not completely inside,
exactly if the sums of their arguments do not wrap around where it matters. -/
theorem clipped_drawing_stays_iff (fb : Layout) (x y w : UInt32) :
    (fb.SpanStays x y w ↔ fb.SpanClips x y w) ∧
      ∀ h, fb.RectangleStays x y w h ↔ fb.RectangleClips x y w h :=
  ⟨spanStays_iff, fun _ => rectangleStays_iff⟩

instance (x w : UInt32) : Decidable (SpanWrites x w) :=
  inferInstanceAs (Decidable (ite _ _ _))

instance (fb : Layout) (y : UInt32) : Decidable (fb.RowFits y) :=
  inferInstanceAs (Decidable (_ < _))

instance (fb : Layout) (x y w : UInt32) : Decidable (fb.SpanClips x y w) :=
  inferInstanceAs (Decidable (_ ∨ _))

/-- Eight pixels from column `2 ^ 32 - 4` on, on a screen of 640 by 480. -/
theorem not_clipped_drawing_stays :
    ¬ ∀ (fb : Layout) (x y w : UInt32), fb.yOffset = 0 ∨ fb.yOffset = fb.height →
      fb.SpanStays x y w := by
  intro hholds
  have hstays := hholds ⟨0x3C100000, 1280, 640, 480, 0⟩ 0xFFFFFFFC 0 8 (.inl rfl)
  rw [spanStays_iff] at hstays
  exact absurd hstays (by decide)

end RPiKernel.Framebuffer
