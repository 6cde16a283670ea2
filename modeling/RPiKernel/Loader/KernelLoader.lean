import RPiKernel.Machine.ByteMemory
import RPiKernel.Uart.Printing

/-!
# The loader that receives a kernel

The loader copies itself down to 16 KB below its own place, and goes on there: it asks for a kernel
over the serial line, receives its size and its bytes, and puts them where the loader has been
before. `kernelMain` ends with the jump to the first one of these bytes.

## Implementation notes

The input of the serial line is what arrives behind its initialization, which drops what it has
received before. A read has no result when nothing arrives any more: the loader waits. The stack
grows down from the beginning of the loader; the copy of the loader grows up to it.
-/

namespace RPiKernel.Loader

open Machine

/-- Where the linker puts the loader: `_start` and `_end`. -/
structure Layout where
  start : BitVec 64
  stop : BitVec 64
  low : 0x4000 ≤ start.toNat
  ordered : start.toNat ≤ stop.toNat
  words : 8 ∣ stop.toNat - start.toNat

/-- The number of bytes of the loader. -/
def Layout.size (l : Layout) : Nat := l.stop.toNat - l.start.toNat

/-- `offsetInBytes`. -/
def offsetInBytes : BitVec 64 := 0x4000

/-- `newLocation`, the place of the copy. -/
def Layout.newLocation (l : Layout) : BitVec 64 := l.start - offsetInBytes

structure State where
  memory : Memory
  /-- What the serial line has yet to receive. -/
  input : List UInt8
  /-- What the serial line has been given. -/
  output : List UInt8

/-- The characters of a string of the source. -/
def chars (str : String) : List UInt8 := str.toList.map ch

def puts (text : List UInt8) (s : State) : State := { s with output := s.output ++ text }

def getc (s : State) : Option (UInt8 × State) :=
  match s.input with
  | [] => none
  | c :: input => some (c, { s with input := input })

/-- What comes behind the first occurrence of a character. -/
def behind (c : UInt8) : List UInt8 → Option (List UInt8)
  | [] => none
  | d :: input => if d ≠ c then behind c input else some input

/-- `while (uart0.Getc() != c) {}` -/
def skipTo (c : UInt8) (s : State) : Option State := do
  let input ← behind c s.input
  some { s with input := input }

/-- The loop of `KernelMain` from `p` on. It has no result if it does not end with the fuel. -/
def copyLoop (stop : BitVec 64) : Nat → Memory → BitVec 64 → BitVec 64 → Option Memory
  | 0, _, _, _ => none
  | fuel + 1, m, p, newLocation =>
      if p.toNat < stop.toNat then
        copyLoop stop fuel (store64 m newLocation (load64 m p)) (p + 8) (newLocation + 8)
      else some m

/-- The loop of `GetNewKernel` from `i` on, with the number of rounds that are left. -/
def receiveLoop (destination : BitVec 64) : Nat → Nat → State → Option State
  | 0, _, s => some s
  | left + 1, i, s => do
      let (c, s) ← getc s
      receiveLoop destination left (i + 1)
        { s with memory := store8 s.memory (destination + BitVec.ofNat 64 i) c }

/-- The size of the kernel, from its bytes. -/
def kernelSize (s0 s1 s2 s3 : UInt8) : BitVec 32 :=
  s0.toBitVec.setWidth 32 ||| s1.toBitVec.setWidth 32 <<< 8 ||| s2.toBitVec.setWidth 32 <<< 16 |||
    s3.toBitVec.setWidth 32 <<< 24

def greeting : List UInt8 := chars "\n\nLet's load a kernel over UART!\n\n"

/-- `"\03\03\03"` -/
def request : List UInt8 := [3, 3, 3]

/-- `GetNewKernel`, up to the jump to `destination`. -/
def getNewKernel (buffer : Vector UInt8 Uart.bufferSize) (destination : BitVec 64) (s : State) :
    Option State := do
  let s := puts request (puts greeting s)
  let s ← skipTo (ch 'O') s
  let s ← skipTo (ch 'K') s
  let (s0, s) ← getc s
  let (s1, s) ← getc s
  let (s2, s) ← getc s
  let (s3, s) ← getc s
  let size := kernelSize s0 s1 s2 s3
  let s := puts (chars "Size: ") (puts (chars "OK") s)
  let digits ← Uart.putDec buffer size
  let s := puts (chars "\n") (puts digits s)
  receiveLoop destination size.toNat 0 s

def relocating : List UInt8 := chars "\n\nRelocating...\n"

/-- `KernelMain`, up to the jump to the kernel. -/
def kernelMain (fuel : Nat) (buffer : Vector UInt8 Uart.bufferSize) (l : Layout) (s : State) :
    Option State := do
  let s := puts relocating s
  let memory ← copyLoop l.stop fuel s.memory l.start l.newLocation
  getNewKernel buffer l.start { s with memory := memory }

section Relocation

variable {m : Memory} {start stop : BitVec 64} {n k fuel : Nat}

theorem toNat_add_of_fits {a : BitVec 64} (h : a.toNat + n < 2 ^ 64) :
    (a + BitVec.ofNat 64 n).toNat = a.toNat + n := by
  rw [BitVec.toNat_add, BitVec.toNat_ofNat, Nat.add_mod_mod, Nat.mod_eq_of_lt h]

/-- An address of the loader, from the place of the copy. -/
theorem add_eq_newLocation (start : BitVec 64) (i : Nat) :
    start + BitVec.ofNat 64 i = start - offsetInBytes + BitVec.ofNat 64 (0x4000 + i) := by
  calc
    start + BitVec.ofNat 64 i = start - offsetInBytes + offsetInBytes + BitVec.ofNat 64 i := by
      rw [BitVec.sub_add_cancel]
    _ = start - offsetInBytes + BitVec.ofNat 64 (0x4000 + i) := add_add _ 0x4000 i

/-- What the copy has not reached is as it has been. -/
theorem overlay_ahead {f : Nat → UInt8} (h : start.toNat + n < 2 ^ 64)
    (hstart : 0x4000 ≤ start.toNat) {i : Nat} (hi : i ≤ n) :
    overlay m (start - offsetInBytes) i f (start + BitVec.ofNat 64 n) =
      m (start + BitVec.ofNat 64 n) := by
  rw [overlay, if_neg]
  rw [add_eq_newLocation, offsetOf_add (by omega)]
  omega

/-- Words that are copied down, from the first one on, are copied as they have been, though the
copy reaches into them if it is long. -/
theorem copyLoop_eq (hfuel : k < fuel) (hstart : 0x4000 ≤ start.toNat)
    (hstop : stop.toNat = start.toNat + 8 * n + 8 * k) :
    copyLoop stop fuel
      (overlay m (start - offsetInBytes) (8 * n) fun i => m (start + BitVec.ofNat 64 i))
      (start + BitVec.ofNat 64 (8 * n)) (start - offsetInBytes + BitVec.ofNat 64 (8 * n)) =
    some (overlay m (start - offsetInBytes) (8 * n + 8 * k)
      fun i => m (start + BitVec.ofNat 64 i)) := by
  have hlt := stop.isLt
  induction k generalizing n fuel with
  | zero =>
      obtain ⟨fuel, rfl⟩ := Nat.exists_eq_succ_of_ne_zero (Nat.ne_of_gt hfuel)
      rw [copyLoop, toNat_add_of_fits (by omega), if_neg (by omega)]
      rfl
  | succ k ih =>
      obtain ⟨fuel, rfl⟩ := Nat.exists_eq_succ_of_ne_zero (Nat.ne_of_gt (Nat.zero_lt_of_lt hfuel))
      have hword : ∀ j < 8, byteOf (load64
          (overlay m (start - offsetInBytes) (8 * n) fun i => m (start + BitVec.ofNat 64 i))
          (start + BitVec.ofNat 64 (8 * n))) j = m (start + BitVec.ofNat 64 (8 * n + j)) := by
        intro j hj
        rw [byteOf_load64 _ _ hj, add_add]
        exact overlay_ahead (by omega) hstart (Nat.le_add_right _ _)
      rw [copyLoop, toNat_add_of_fits (by omega), if_pos (by omega),
        overlay_word m _ (by omega) hword]
      have hnext := ih (n := n + 1) (Nat.lt_of_succ_lt_succ hfuel) (by omega)
      rw [Nat.mul_succ, ← add_add, ← add_add] at hnext
      rw [Nat.mul_succ, ← Nat.add_assoc, Nat.add_right_comm]
      exact hnext

end Relocation

section Relocated

variable {l : Layout} {fuel : Nat}

/-- `KernelMain` copies the whole loader. -/
theorem copyLoop_layout (hfuel : l.size / 8 < fuel) (m : Memory) :
    copyLoop l.stop fuel m l.start l.newLocation =
      some (overlay m l.newLocation l.size fun i => m (l.start + BitVec.ofNat 64 i)) := by
  have hsize : 8 * (l.size / 8) = l.size := Nat.mul_div_cancel' l.words
  have hordered := l.ordered
  have hstop : l.stop.toNat = l.start.toNat + 8 * 0 + 8 * (l.size / 8) := by
    rw [hsize, Layout.size]
    omega
  have hcopy := copyLoop_eq (m := m) hfuel l.low hstop
  rw [hsize, Nat.mul_zero, Nat.zero_add, overlay_zero, BitVec.add_zero, BitVec.add_zero]
    at hcopy
  exact hcopy

end Relocated

section Size

/-- The four bytes of a size, the low one first. -/
def sizeBytes (n : Nat) : List UInt8 := [byteOf n 0, byteOf n 1, byteOf n 2, byteOf n 3]

theorem or_shiftLeft {a k : Nat} (h : a < 2 ^ k) (b : Nat) : a ||| b <<< k = a + b * 2 ^ k := by
  rw [Nat.or_comm, ← Nat.shiftLeft_add_eq_or_of_lt h, Nat.shiftLeft_eq, Nat.add_comm]

theorem toNat_shifted (c : UInt8) {k : Nat} (h : k ≤ 24) :
    (c.toBitVec.setWidth 32 <<< k).toNat = c.toNat <<< k := by
  have hlt : c.toNat <<< k < 2 ^ 32 := by
    rw [Nat.shiftLeft_eq]
    calc
      c.toNat * 2 ^ k < 2 ^ 8 * 2 ^ k := Nat.mul_lt_mul_of_pos_right c.toNat_lt (Nat.two_pow_pos k)
      _ = 2 ^ (8 + k) := (Nat.pow_add 2 8 k).symm
      _ ≤ 2 ^ 32 := Nat.pow_le_pow_right (by decide) (by omega)
  have hnarrow : c.toNat < 2 ^ 32 := c.toNat_lt.trans (by decide)
  rw [BitVec.toNat_shiftLeft, BitVec.toNat_setWidth, UInt8.toNat_toBitVec,
    Nat.mod_eq_of_lt hnarrow, Nat.mod_eq_of_lt hlt]

theorem toNat_kernelSize (s0 s1 s2 s3 : UInt8) :
    (kernelSize s0 s1 s2 s3).toNat =
      s0.toNat + s1.toNat * 2 ^ 8 + s2.toNat * 2 ^ 16 + s3.toNat * 2 ^ 24 := by
  have h0 := s0.toNat_lt
  have h1 := s1.toNat_lt
  have h2 := s2.toNat_lt
  have hfirst : (s0.toBitVec.setWidth 32).toNat = s0.toNat := by
    rw [BitVec.toNat_setWidth, UInt8.toNat_toBitVec, Nat.mod_eq_of_lt (h0.trans (by decide))]
  have htwo : s0.toNat ||| s1.toNat <<< 8 = s0.toNat + s1.toNat * 2 ^ 8 := or_shiftLeft h0 _
  have hthree : s0.toNat + s1.toNat * 2 ^ 8 ||| s2.toNat <<< 16 =
      s0.toNat + s1.toNat * 2 ^ 8 + s2.toNat * 2 ^ 16 := or_shiftLeft (by omega) _
  rw [kernelSize, BitVec.toNat_or, BitVec.toNat_or, BitVec.toNat_or, hfirst,
    toNat_shifted s1 (by decide), toNat_shifted s2 (by decide), toNat_shifted s3 (by decide),
    htwo, hthree]
  exact or_shiftLeft (by omega) _

/-- The bytes of a size give the size. -/
theorem kernelSize_sizeBytes {n : Nat} (h : n < 2 ^ 32) :
    (kernelSize (byteOf n 0) (byteOf n 1) (byteOf n 2) (byteOf n 3)).toNat = n := by
  have hbyte (k : Nat) : (byteOf n k).toNat = n / 2 ^ (8 * k) % 2 ^ 8 := by
    rw [byteOf, extract, UInt8.toNat_ofNat', Nat.mod_mod]
  rw [toNat_kernelSize, hbyte, hbyte, hbyte, hbyte]
  omega

/-- There is only one size that four bytes give. -/
theorem sizeBytes_kernelSize (s0 s1 s2 s3 : UInt8) :
    sizeBytes (kernelSize s0 s1 s2 s3).toNat = [s0, s1, s2, s3] := by
  have h0 := s0.toNat_lt
  have h1 := s1.toNat_lt
  have h2 := s2.toNat_lt
  have h3 := s3.toNat_lt
  have hbyte {n k : Nat} {c : UInt8} (h : n / 2 ^ (8 * k) % 2 ^ 8 = c.toNat) : byteOf n k = c := by
    rw [byteOf, extract, h, UInt8.ofNat_toNat]
  rw [toNat_kernelSize, sizeBytes, hbyte (c := s0) (by omega), hbyte (c := s1) (by omega),
    hbyte (c := s2) (by omega), hbyte (c := s3) (by omega)]

end Size

section Receiving

variable {c : UInt8} {input rest : List UInt8} {s s' : State} {destination : BitVec 64}

theorem behind_eq_some_iff :
    behind c input = some rest ↔ ∃ before, c ∉ before ∧ input = before ++ c :: rest := by
  induction input with
  | nil =>
      refine iff_of_false (fun h => by cases h) ?_
      rintro ⟨before, -, h⟩
      exact absurd h.symm (by simp)
  | cons d input ih =>
      rw [behind]
      split
      · next hne =>
        rw [ih]
        constructor
        · rintro ⟨before, hmem, rfl⟩
          refine ⟨d :: before, ?_, rfl⟩
          rw [List.mem_cons, not_or]
          exact ⟨fun h => hne h.symm, hmem⟩
        · rintro ⟨before, hmem, h⟩
          cases before with
          | nil => exact absurd (List.cons.inj h).1 hne
          | cons e before =>
              obtain ⟨rfl, rfl⟩ := List.cons.inj h
              exact ⟨before, fun h => hmem (List.mem_cons_of_mem _ h), rfl⟩
      · next heq =>
        obtain rfl := not_not.mp heq
        constructor
        · intro h
          exact ⟨[], List.not_mem_nil, by rw [Option.some.inj h, List.nil_append]⟩
        · rintro ⟨before, hmem, h⟩
          cases before with
          | nil => rw [(List.cons.inj h).2]
          | cons e before =>
              obtain ⟨rfl, -⟩ := List.cons.inj h
              exact absurd List.mem_cons_self hmem

theorem skipTo_eq_some_iff :
    skipTo c s = some s' ↔ ∃ before, c ∉ before ∧ s.input = before ++ c :: s'.input ∧
      s' = { s with input := s'.input } := by
  rw [skipTo, Option.bind_eq_bind, Option.bind_eq_some_iff]
  constructor
  · rintro ⟨input, hbehind, hs⟩
    obtain ⟨before, hmem, hinput⟩ := behind_eq_some_iff.mp hbehind
    obtain rfl := Option.some.inj hs
    exact ⟨before, hmem, hinput, rfl⟩
  · rintro ⟨before, hmem, hinput, hs⟩
    exact ⟨s'.input, behind_eq_some_iff.mpr ⟨before, hmem, hinput⟩, congrArg some hs.symm⟩

theorem getc_cons (h : s.input = c :: rest) : getc s = some (c, { s with input := rest }) := by
  rw [getc, h]

theorem getc_eq_some (h : getc s = some (c, s')) :
    s.input = c :: s'.input ∧ s' = { s with input := s'.input } := by
  rw [getc] at h
  split at h
  · cases h
  · next d input hinput =>
    obtain ⟨rfl, rfl⟩ := Prod.mk.inj (Option.some.inj h)
    exact ⟨hinput, rfl⟩

/-- The loop puts as many bytes of the input behind each other as it has rounds. -/
theorem receiveLoop_eq {m : Memory} {i : Nat} (f : Nat → UInt8) (image : List UInt8)
    (hf : ∀ k, f (i + k) = image.getD k 0) (hfits : i + image.length ≤ 2 ^ 64)
    (hinput : s.input = image ++ rest) (hmemory : s.memory = overlay m destination i f) :
    receiveLoop destination image.length i s = some { s with
      input := rest
      memory := overlay m destination (i + image.length) f } := by
  induction image generalizing i s with
  | nil =>
      rw [List.nil_append] at hinput
      rw [List.length_nil, receiveLoop, Nat.add_zero, ← hinput, ← hmemory]
  | cons c image ih =>
      have hc : f i = c := hf 0
      rw [List.length_cons] at hfits
      rw [List.length_cons, receiveLoop, getc_cons hinput, Option.bind_eq_bind, Option.bind_some]
      have hstored : store8 s.memory (destination + BitVec.ofNat 64 i) c =
          overlay m destination (i + 1) f := by
        rw [hmemory, ← hc]
        exact overlay_succ m destination f (by omega)
      rw [Nat.add_comm image.length, ← Nat.add_assoc]
      refine ih (fun k => ?_) (by omega) rfl hstored
      rw [Nat.add_assoc, Nat.add_comm 1]
      exact hf (k + 1)

/-- The loop ends with as many bytes of input as it has rounds. -/
theorem length_of_receiveLoop {left i : Nat} (h : receiveLoop destination left i s = some s') :
    ∃ image rest, image.length = left ∧ s.input = image ++ rest := by
  induction left generalizing i s with
  | zero => exact ⟨[], s.input, rfl, rfl⟩
  | succ left ih =>
      rw [receiveLoop, Option.bind_eq_bind] at h
      obtain ⟨⟨c, s₁⟩, hgetc, h⟩ := Option.bind_eq_some_iff.mp h
      obtain ⟨image, rest, hlength, hinput⟩ := ih h
      refine ⟨c :: image, rest, by rw [List.length_cons, hlength], ?_⟩
      rw [(getc_eq_some hgetc).1]
      exact congrArg (c :: ·) hinput

end Receiving

/-- What is sent to the loader: anything up to an `O`, anything from there to a `K`, and the size
and the bytes of the kernel. -/
structure Sends (input before between image rest : List UInt8) : Prop where
  sync : ch 'O' ∉ before
  ready : ch 'K' ∉ between
  short : image.length < 2 ^ 32
  input : input = before ++ ch 'O' :: (between ++ ch 'K' ::
    (sizeBytes image.length ++ (image ++ rest)))

/-- What the loader answers. -/
def answer (size : Nat) : List UInt8 :=
  greeting ++ request ++ chars "OK" ++ chars "Size: " ++
    grouped Uart.separator 3 (numeral 10 true size) ++ chars "\n"

section Protocol

variable {buffer : Vector UInt8 Uart.bufferSize} {destination : BitVec 64} {s s' : State}
  {before between image rest : List UInt8}

/-- The state in front of the jump to the kernel. -/
def loaded (destination : BitVec 64) (s : State) (image rest : List UInt8) : State where
  memory := overlay s.memory destination image.length fun k => image.getD k 0
  input := rest
  output := s.output ++ answer image.length

theorem skipTo_of_not_mem {c : UInt8} {rest : List UInt8} {s : State} (h : c ∉ before)
    (hinput : s.input = before ++ c :: rest) : skipTo c s = some { s with input := rest } :=
  skipTo_eq_some_iff.mpr ⟨before, h, hinput, rfl⟩

/-- What is sent to the loader is put where the loader has been, and answered. -/
theorem getNewKernel_of_sends (h : Sends s.input before between image rest) :
    getNewKernel buffer destination s = some (loaded destination s image rest) := by
  have hsize := kernelSize_sizeBytes h.short
  have hbytes (k : Nat) : (fun k => image.getD k 0) (0 + k) = image.getD k 0 :=
    congrArg (image.getD · 0) (Nat.zero_add k)
  have hfits : 0 + image.length ≤ 2 ^ 64 := by
    have hshort := h.short
    omega
  have hreceive : receiveLoop destination image.length 0 { s with
        input := image ++ rest
        output := s.output ++ answer image.length } =
      some (loaded destination s image rest) := by
    rw [receiveLoop_eq (fun k => image.getD k 0) image hbytes hfits rfl (overlay_zero ..).symm,
      Nat.zero_add]
    rfl
  have hsync : skipTo (ch 'O') (puts request (puts greeting s)) = some
      { puts request (puts greeting s) with
        input := between ++ ch 'K' :: (sizeBytes image.length ++ (image ++ rest)) } :=
    skipTo_of_not_mem h.sync h.input
  have hready : skipTo (ch 'K') { puts request (puts greeting s) with
        input := between ++ ch 'K' :: (sizeBytes image.length ++ (image ++ rest)) } = some
      { puts request (puts greeting s) with input := sizeBytes image.length ++ (image ++ rest) } :=
    skipTo_of_not_mem h.ready rfl
  simp only [getNewKernel, hsync, hready, Option.bind_eq_bind, Option.bind_some]
  simp only [sizeBytes, List.cons_append, getc, Option.bind_some]
  rw [Uart.putDec_eq buffer _ (by decide), hsize, Option.bind_some]
  refine Eq.trans ?_ hreceive
  congr 1
  simp [puts, answer]

/-- Whatever leads the loader to a kernel has this form. -/
theorem sends_of_getNewKernel (h : getNewKernel buffer destination s = some s') :
    ∃ before between image rest, Sends s.input before between image rest := by
  simp only [getNewKernel, Option.bind_eq_bind] at h
  obtain ⟨s₁, hsync, h⟩ := Option.bind_eq_some_iff.mp h
  obtain ⟨s₂, hready, h⟩ := Option.bind_eq_some_iff.mp h
  obtain ⟨⟨c0, s₃⟩, h0, h⟩ := Option.bind_eq_some_iff.mp h
  obtain ⟨⟨c1, s₄⟩, h1, h⟩ := Option.bind_eq_some_iff.mp h
  obtain ⟨⟨c2, s₅⟩, h2, h⟩ := Option.bind_eq_some_iff.mp h
  obtain ⟨⟨c3, s₆⟩, h3, h⟩ := Option.bind_eq_some_iff.mp h
  obtain ⟨digits, -, h⟩ := Option.bind_eq_some_iff.mp h
  obtain ⟨before, hbefore, hinput₁, -⟩ := skipTo_eq_some_iff.mp hsync
  obtain ⟨between, hbetween, hinput₂, -⟩ := skipTo_eq_some_iff.mp hready
  obtain ⟨image, rest, hlength, hinput⟩ := length_of_receiveLoop h
  refine ⟨before, between, image, rest, hbefore, hbetween, ?_, ?_⟩
  · rw [hlength]
    exact (kernelSize c0 c1 c2 c3).isLt
  · have hbytes : s₂.input = sizeBytes image.length ++ (image ++ rest) := by
      rw [hlength, sizeBytes_kernelSize, (getc_eq_some h0).1, (getc_eq_some h1).1,
        (getc_eq_some h2).1, (getc_eq_some h3).1, ← hinput]
      rfl
    rw [← hbytes, ← hinput₂, ← hinput₁]
    rfl

end Protocol

section Main

variable {l : Layout} {fuel : Nat} {buffer : Vector UInt8 Uart.bufferSize} {s s' : State}
  {before between image rest : List UInt8}

/-- The bytes below the loader are those of the place of the copy. -/
theorem sub_eq_newLocation (l : Layout) {k : Nat} (hk : k ≤ 0x4000) :
    l.start - BitVec.ofNat 64 k = l.newLocation + BitVec.ofNat 64 (0x4000 - k) := by
  have hsum : BitVec.ofNat 64 (0x4000 - k) + BitVec.ofNat 64 k = offsetInBytes := by
    rw [← BitVec.ofNat_add, Nat.sub_add_cancel hk]
    rfl
  rw [Layout.newLocation, ← hsum, BitVec.sub_eq_iff_eq_add, BitVec.add_assoc, hsum,
    BitVec.sub_add_cancel]

/-- The bytes below the loader are not among those that are received. -/
theorem le_offsetOf_newLocation (l : Layout) {k n : Nat} (hk : k < 0x4000) (hn : n < 2 ^ 32) :
    n ≤ offsetOf l.start (l.newLocation + BitVec.ofNat 64 k) := by
  have hstart : l.start = l.newLocation + BitVec.ofNat 64 0x4000 :=
    (BitVec.sub_add_cancel l.start offsetInBytes).symm
  rw [hstart, offsetOf_moved (by decide), offsetOf_add (by omega)]
  split
  · omega
  · omega

/-- What the loader leaves behind: the kernel in its place, its own copy exactly if it is no longer
than the way down, whatever else has been below it, and the memory elsewhere. -/
structure Loaded (l : Layout) (s s' : State) (image rest : List UInt8) : Prop where
  kernel : ∀ k, k < image.length →
    s'.memory (l.start + BitVec.ofNat 64 k) = image.getD k 0
  loader : l.size ≤ 0x4000 → ∀ k < l.size,
    s'.memory (l.newLocation + BitVec.ofNat 64 k) = s.memory (l.start + BitVec.ofNat 64 k)
  overrun : 0x4000 < l.size → 0 < image.length →
    s'.memory (l.newLocation + BitVec.ofNat 64 0x4000) = image.getD 0 0
  stack : ∀ k, 0 < k → l.size + k ≤ 0x4000 →
    s'.memory (l.start - BitVec.ofNat 64 k) = s.memory (l.start - BitVec.ofNat 64 k)
  outside : ∀ a, image.length ≤ offsetOf l.start a → l.size ≤ offsetOf l.newLocation a →
    s'.memory a = s.memory a
  input : s'.input = rest
  output : s'.output = s.output ++ relocating ++ answer image.length

theorem loaded_of_sends (hfuel : l.size / 8 < fuel)
    (h : Sends s.input before between image rest) :
    ∃ s', kernelMain fuel buffer l s = some s' ∧ Loaded l s s' image rest := by
  have hshort := h.short
  let s₁ : State :=
    { memory := overlay s.memory l.newLocation l.size fun i =>
        s.memory (l.start + BitVec.ofNat 64 i)
      input := s.input
      output := s.output ++ relocating }
  have hrun : kernelMain fuel buffer l s = some (loaded l.start s₁ image rest) := by
    have hloaded : getNewKernel buffer l.start s₁ = some (loaded l.start s₁ image rest) :=
      getNewKernel_of_sends h
    rw [← hloaded, kernelMain, puts, copyLoop_layout hfuel, Option.bind_eq_bind, Option.bind_some]
  have hkept {a : BitVec 64} (ha : image.length ≤ offsetOf l.start a) :
      (loaded l.start s₁ image rest).memory a = s₁.memory a := if_neg (Nat.not_lt.mpr ha)
  have hplain {a : BitVec 64} (ha : l.size ≤ offsetOf l.newLocation a) :
      s₁.memory a = s.memory a := if_neg (Nat.not_lt.mpr ha)
  refine ⟨_, hrun, ?_⟩
  constructor
  case kernel =>
    intro k hk
    have hlt : k < 2 ^ 64 := by omega
    exact overlay_inside (m := s₁.memory) (f := fun k => image.getD k 0) hk hlt
  case loader =>
    intro hfits k hk
    rw [hkept (le_offsetOf_newLocation l (by omega) hshort)]
    have hlt : k < 2 ^ 64 := by omega
    exact overlay_inside (m := s.memory) (f := fun i => s.memory (l.start + BitVec.ofNat 64 i)) hk hlt
  case overrun =>
    intro _ hpos
    have hstart : l.newLocation + BitVec.ofNat 64 0x4000 = l.start :=
      BitVec.sub_add_cancel l.start offsetInBytes
    have hfirst : overlay s₁.memory l.start image.length (fun k => image.getD k 0)
        (l.start + BitVec.ofNat 64 0) = image.getD 0 0 := overlay_inside hpos (by decide)
    rw [hstart]
    rwa [BitVec.add_zero] at hfirst
  case stack =>
    intro k hpos hfits
    rw [sub_eq_newLocation l (by omega), hkept (le_offsetOf_newLocation l (by omega) hshort)]
    refine hplain ?_
    rw [offsetOf_add (by omega)]
    omega
  case outside => exact fun a hkernel hcopy => (hkept hkernel).trans (hplain hcopy)
  case input => rfl
  case output => rfl

/-- The loader jumps to a kernel exactly if one is sent to it as it expects, and leaves memory with
the kernel in the place of the loader. -/
theorem kernelMain_loads (hfuel : l.size / 8 < fuel) :
    ((∃ s', kernelMain fuel buffer l s = some s') ↔
      ∃ before between image rest, Sends s.input before between image rest) ∧
    ∀ before between image rest, Sends s.input before between image rest →
      ∃ s', kernelMain fuel buffer l s = some s' ∧ Loaded l s s' image rest := by
  refine ⟨⟨?_, ?_⟩, fun before between image rest h => loaded_of_sends hfuel h⟩
  · rintro ⟨s', hs⟩
    simp only [kernelMain, puts, copyLoop_layout hfuel, Option.bind_eq_bind, Option.bind_some] at hs
    have hsends := sends_of_getNewKernel hs
    exact hsends
  · rintro ⟨before, between, image, rest, h⟩
    obtain ⟨s', hs, -⟩ := loaded_of_sends hfuel h
    exact ⟨s', hs⟩

theorem low_onePage : 0x4000 ≤ (0x80000 : BitVec 64).toNat := by decide

theorem ordered_onePage : (0x80000 : BitVec 64).toNat ≤ (0x81000 : BitVec 64).toNat := by decide

theorem words_onePage : 8 ∣ (0x81000 : BitVec 64).toNat - (0x80000 : BitVec 64).toNat := by decide

/-- A loader of one page. -/
def onePage : Layout := ⟨0x80000, 0x81000, low_onePage, ordered_onePage, words_onePage⟩

/-- A kernel of three bytes, behind some noise and in front of more. -/
def threeBytes : State where
  memory := fun a => a.toNat.toUInt8
  input := [ch '.', ch 'O', ch 'O', ch 'K', 3, 0, 0, 0, 0xaa, 0xbb, 0xcc, 0xdd]
  output := []

theorem sends_threeBytes :
    Sends threeBytes.input [ch '.'] [ch 'O'] [0xaa, 0xbb, 0xcc] [0xdd] where
  sync := by decide
  ready := by decide
  short := by decide
  input := by decide

theorem kernelMain_loads_threeBytes :
    ∃ s', kernelMain 513 (Vector.replicate Uart.bufferSize 0) onePage threeBytes = some s' ∧
      Loaded onePage threeBytes s' [0xaa, 0xbb, 0xcc] [0xdd] :=
  (kernelMain_loads (by decide)).2 [ch '.'] [ch 'O'] [0xaa, 0xbb, 0xcc] [0xdd] sends_threeBytes

end Main

end RPiKernel.Loader
