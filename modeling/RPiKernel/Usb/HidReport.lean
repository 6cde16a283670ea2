import RPiKernel.Machine.Arithmetic

/-!
# The items of a HID report descriptor

`describe_hid_descriptor` walks over the items of a report descriptor and prints a line for
each. `HidItem` is a short item of the specification, whose size code 3 stands for four bytes
of data. The walk reads as many bytes as the code says, so that the lines are those of the items
exactly if no item has the code 3 and none starts like a long item.

## Implementation notes

The memory from `data` on is a function. The walk takes as many items as its fuel allows. What is
printed of an item is its line, with the arguments of the format.
-/

namespace RPiKernel.Usb

open Machine

/-- What `describe_hid_descriptor` prints: a line for an item, with the position of its last
byte, or that a long item is not supported. -/
inductive HidLine
  | item (position : Nat) (typeStr tagStr : String) (value : Nat)
  | longItem
  deriving DecidableEq, Repr

/-- The first switch. -/
def typeStr : Nat → String
  | 0 => "Main"
  | 1 => "Global"
  | 2 => "Local"
  | _ => "Reserved"

/-- The second switch, over the type and the tag. -/
def tagStr (type tag : Nat) : String :=
  match type with
  | 0 =>
      match tag with
      | 8 => "Input"
      | 9 => "Output"
      | 11 => "Feature"
      | 10 => "Collection"
      | 12 => "End Collection"
      | _ => "Unknown Main"
  | 1 =>
      match tag with
      | 0 => "Usage Page"
      | 1 => "Logical Minimum"
      | 2 => "Logical Maximum"
      | 7 => "Report Size"
      | 8 => "Report ID"
      | 9 => "Report Count"
      | _ => "Unknown Global"
  | 2 =>
      match tag with
      | 0 => "Usage"
      | 1 => "Usage Minimum"
      | 2 => "Usage Maximum"
      | _ => "Unknown Local"
  | _ => "Unknown"

section Walk

variable (data : Nat → UInt8) (length : Nat)

/-- The loop over the data of an item, with `left` bytes left from byte `j` on: the position
behind them and the value. -/
def itemValue : Nat → Nat → Nat → Nat → Nat × Nat
  | 0, _, i, value => (i, value)
  | left + 1, j, i, value =>
      if i < length then
        itemValue left (j + 1) (add32 i 1) (value ||| (data i).toNat <<< (8 * j))
      else
        itemValue left (j + 1) i value

/-- The loop of `describe_hid_descriptor` from a position on: the lines, and the position at which
it ends. -/
def describeFrom : Nat → Nat → Option (List HidLine × Nat)
  | 0, _ => none
  | fuel + 1, i =>
      if i < length then
        let header := data i
        let i := add32 i 1
        if header = 0xFE then
          some ([.longItem], i)
        else
          let size := header.toNat % 4
          let type := header.toNat / 4 % 4
          let tag := header.toNat / 16 % 16
          let (i, value) := itemValue data length size 0 i 0
          (describeFrom fuel i).map fun (lines, stop) =>
            (.item (sub32 i 1) (typeStr type) (tagStr type tag) value :: lines, stop)
      else
        some ([], i)

/-- `describe_hid_descriptor`. -/
def describeHidDescriptor (fuel : Nat) : Option (List HidLine × Nat) :=
  describeFrom data length fuel 0

end Walk

/-- The number of data bytes that a size code stands for. -/
def dataSize (sizeCode : Fin 4) : Nat := if sizeCode = 3 then 4 else sizeCode

/-- A short item. -/
structure HidItem where
  sizeCode : Fin 4
  type : Fin 4
  tag : Fin 16
  data : List UInt8
  length_data : data.length = dataSize sizeCode

/-- The number that little-endian bytes stand for. -/
def littleEndian : List UInt8 → Nat
  | [] => 0
  | b :: bytes => b.toNat + 256 * littleEndian bytes

namespace HidItem

/-- The first byte of an item. -/
def header (item : HidItem) : UInt8 := UInt8.ofNat (16 * item.tag + 4 * item.type + item.sizeCode)

def bytes (item : HidItem) : List UInt8 := item.header :: item.data

def value (item : HidItem) : Nat := littleEndian item.data

end HidItem

/-- The bytes of a list of items. -/
def itemBytes (items : List HidItem) : List UInt8 := items.flatMap HidItem.bytes

/-- What a line says of an item: its type, its tag and its value. -/
def HidLine.content : HidLine → Option (String × String × Nat)
  | .item _ type tag value => some (type, tag, value)
  | .longItem => none

/-- What the line of an item is to say. -/
def HidItem.content (item : HidItem) : Option (String × String × Nat) :=
  some (typeStr item.type, tagStr item.type item.tag, item.value)

/-- The memory holds bytes from a position on. -/
def HoldsBytes (data : Nat → UInt8) : Nat → List UInt8 → Prop
  | _, [] => True
  | i, b :: bytes => data i = b ∧ HoldsBytes data (i + 1) bytes

section Bytes

variable {data : Nat → UInt8} {length i : Nat} {bytes more : List UInt8}

theorem holdsBytes_append :
    HoldsBytes data i (bytes ++ more) ↔
      HoldsBytes data i bytes ∧ HoldsBytes data (i + bytes.length) more := by
  induction bytes generalizing i with
  | nil => simp [HoldsBytes]
  | cons b bytes ih =>
    rw [List.cons_append, HoldsBytes, HoldsBytes, ih, and_assoc, List.length_cons,
      show i + (bytes.length + 1) = i + 1 + bytes.length by omega]

/-- A list of bytes that is followed by any others. -/
theorem holdsBytes_getD (bytes : List UInt8) (beyond : Nat → UInt8) :
    HoldsBytes (fun k => bytes.getD k (beyond k)) 0 bytes := by
  have hsuffix : ∀ pre post : List UInt8, bytes = pre ++ post →
      HoldsBytes (fun k => bytes.getD k (beyond k)) pre.length post := by
    intro pre post
    induction post generalizing pre with
    | nil => exact fun _ => trivial
    | cons b post ih =>
      intro hbytes
      refine ⟨?_, ?_⟩
      · simp [hbytes]
      · have hrest := ih (pre ++ [b]) (by rw [hbytes, List.append_assoc, List.singleton_append])
        rwa [List.length_append, List.length_singleton] at hrest
  exact hsuffix [] bytes rfl

/-- One byte more of a value. -/
theorem value_cons (value j : Nat) (b : UInt8) (bytes : List UInt8) :
    (value ||| b.toNat <<< (8 * j)) ||| littleEndian bytes <<< (8 * (j + 1)) =
      value ||| littleEndian (b :: bytes) <<< (8 * j) := by
  have hbyte : b.toNat < 2 ^ 8 := b.toNat_lt
  have hsum : littleEndian (b :: bytes) = b.toNat ||| littleEndian bytes <<< 8 := by
    rw [Nat.or_comm, ← Nat.shiftLeft_add_eq_or_of_lt hbyte, Nat.shiftLeft_eq, littleEndian]
    omega
  rw [hsum, Nat.shiftLeft_or_distrib, Nat.or_assoc, ← Nat.shiftLeft_add, Nat.mul_succ,
    Nat.add_comm 8]

/-- The data of an item that lies within the descriptor. -/
theorem itemValue_of_holds (j value : Nat) (hdata : HoldsBytes data i bytes)
    (hend : i + bytes.length ≤ length) (hlength : length < 4294967296) :
    itemValue data length bytes.length j i value =
      (i + bytes.length, value ||| littleEndian bytes <<< (8 * j)) := by
  induction bytes generalizing i j value with
  | nil => simp [itemValue, littleEndian]
  | cons b bytes ih =>
    obtain ⟨hbyte, hrest⟩ := hdata
    rw [List.length_cons] at hend
    have hnext : add32 i 1 = i + 1 := add32_of_lt (by omega)
    rw [List.length_cons, itemValue, if_pos (by omega), hnext, hbyte, ih _ _ hrest (by omega),
      value_cons, Nat.add_assoc, Nat.add_comm 1]

/-- The walk over an item that is no long one and lies within the descriptor. -/
theorem describeFrom_item {fuel : Nat} {header : UInt8} (hne : header ≠ 0xFE)
    (hsize : bytes.length = header.toNat % 4) (hdata : HoldsBytes data i (header :: bytes))
    (hend : i + 1 + bytes.length ≤ length) (hlength : length < 4294967296) :
    describeFrom data length (fuel + 1) i =
      (describeFrom data length fuel (i + 1 + bytes.length)).map fun (lines, stop) =>
        (.item (i + bytes.length) (typeStr (header.toNat / 4 % 4))
          (tagStr (header.toNat / 4 % 4) (header.toNat / 16 % 16)) (littleEndian bytes) :: lines,
          stop) := by
  obtain ⟨hheader, hrest⟩ := hdata
  have hnext : add32 i 1 = i + 1 := add32_of_lt (by omega)
  have hlast : sub32 (i + 1 + bytes.length) 1 = i + bytes.length := by
    rw [sub32_of_le (by omega) (by omega)]
    omega
  have hvalue := itemValue_of_holds 0 0 hrest hend hlength
  rw [describeFrom, if_pos (by omega)]
  dsimp only
  rw [hheader, if_neg hne, hnext, ← hsize, hvalue]
  dsimp only
  rw [hlast, Nat.zero_or, Nat.mul_zero, Nat.shiftLeft_zero]

/-- The walk ends at a long item. -/
theorem describeFrom_longItem {fuel : Nat} (hheader : data i = 0xFE) (hi : i < length) :
    describeFrom data length (fuel + 1) i = some ([.longItem], add32 i 1) := by
  rw [describeFrom, if_pos hi]
  dsimp only
  rw [if_pos hheader]

end Bytes

section Items

variable {data : Nat → UInt8} {length i : Nat} {item : HidItem} {items : List HidItem}

theorem toNat_header (item : HidItem) :
    item.header.toNat = 16 * item.tag + 4 * item.type + item.sizeCode := by
  have htag := item.tag.isLt
  have htype := item.type.isLt
  have hsize := item.sizeCode.isLt
  rw [HidItem.header, UInt8.toNat_ofNat']
  omega

/-- The fields of the first byte. -/
theorem header_fields (item : HidItem) :
    item.header.toNat % 4 = item.sizeCode ∧ item.header.toNat / 4 % 4 = item.type ∧
      item.header.toNat / 16 % 16 = item.tag := by
  have htag := item.tag.isLt
  have htype := item.type.isLt
  have hsize := item.sizeCode.isLt
  rw [toNat_header]
  omega

theorem itemBytes_cons : itemBytes (item :: items) = item.bytes ++ itemBytes items :=
  List.flatMap_cons

/-- The walk reads the item as the specification lays it out. -/
def HidItem.Readable (item : HidItem) : Prop := item.sizeCode ≠ 3 ∧ item.header ≠ 0xFE

/-- The walk over a readable item prints its line and goes on behind it. -/
theorem describeFrom_readable {fuel : Nat} (h : item.Readable)
    (hdata : HoldsBytes data i item.bytes) (hend : i + item.bytes.length ≤ length)
    (hlength : length < 4294967296) :
    describeFrom data length (fuel + 1) i =
      (describeFrom data length fuel (i + item.bytes.length)).map fun (lines, stop) =>
        (.item (i + item.data.length) (typeStr item.type) (tagStr item.type item.tag) item.value ::
          lines, stop) := by
  obtain ⟨hsize, htype, htag⟩ := header_fields item
  have hbytes : item.data.length = item.header.toNat % 4 := by
    rw [hsize, item.length_data, dataSize, if_neg h.1]
  have hend' : i + 1 + item.data.length ≤ length := by
    rw [HidItem.bytes, List.length_cons] at hend
    omega
  rw [describeFrom_item h.2 hbytes hdata hend' hlength, htype, htag, HidItem.bytes,
    List.length_cons, Nat.add_assoc, Nat.add_comm 1]
  rfl

/-- Readable items are printed one after the other. -/
theorem describeFrom_items (h : ∀ item ∈ items, item.Readable)
    (hdata : HoldsBytes data i (itemBytes items)) (hend : i + (itemBytes items).length = length)
    (hlength : length < 4294967296) :
    ∃ fuel lines, describeFrom data length fuel i = some (lines, length) ∧
      lines.map HidLine.content = items.map HidItem.content := by
  induction items generalizing i with
  | nil =>
    have hstop : i = length := hend
    refine ⟨1, [], ?_, rfl⟩
    rw [describeFrom, if_neg (by omega), hstop]
  | cons item items ih =>
    rw [itemBytes_cons, holdsBytes_append] at hdata
    rw [itemBytes_cons, List.length_append] at hend
    obtain ⟨fuel, lines, hrun, hlines⟩ := ih (fun item' hmem => h item' (List.mem_cons_of_mem _ hmem))
      hdata.2 (by omega)
    refine ⟨fuel + 1, .item (i + item.data.length) (typeStr item.type) (tagStr item.type item.tag)
      item.value :: lines, ?_, ?_⟩
    · rw [describeFrom_readable (h item List.mem_cons_self) hdata.1 (by omega) hlength, hrun]
      rfl
    · rw [List.map_cons, List.map_cons, hlines]
      rfl

/-- What the line of a zero byte says. -/
def blankContent : Option (String × String × Nat) := some ("Main", "Unknown Main", 0)

/-- The walk over a zero byte. -/
theorem describeFrom_zero {fuel : Nat} (hzero : data i = 0) (hi : i < length)
    (hlength : length < 4294967296) :
    describeFrom data length (fuel + 1) i =
      (describeFrom data length fuel (i + 1)).map fun (lines, stop) =>
        (.item i "Main" "Unknown Main" 0 :: lines, stop) := by
  have hrun := @describeFrom_item data length i [] fuel 0 (by decide) rfl ⟨hzero, trivial⟩ hi
    hlength
  rw [hrun]
  rfl

/-- The walk reads three of the four data bytes of an item with the size code 3. -/
theorem describeFrom_three {fuel : Nat} (hsize : item.sizeCode = 3)
    (hdata : HoldsBytes data i item.bytes) (hend : i + item.bytes.length ≤ length)
    (hlength : length < 4294967296) :
    ∃ b₀ b₁ b₂ b₃, item.data = [b₀, b₁, b₂, b₃] ∧ data (i + 4) = b₃ ∧
      describeFrom data length (fuel + 1) i =
        (describeFrom data length fuel (i + 4)).map fun (lines, stop) =>
          (.item (i + 3) (typeStr item.type) (tagStr item.type item.tag)
            (littleEndian [b₀, b₁, b₂]) :: lines, stop) := by
  have hlen : item.data.length = 4 := by
    rw [item.length_data, dataSize, if_pos hsize]
  obtain ⟨b₀, b₁, b₂, b₃, hbytes⟩ : ∃ b₀ b₁ b₂ b₃, item.data = [b₀, b₁, b₂, b₃] := by
    match hitem : item.data, hlen with
    | [b₀, b₁, b₂, b₃], _ => exact ⟨b₀, b₁, b₂, b₃, rfl⟩
  obtain ⟨hcode, htype, htag⟩ := header_fields item
  rw [hsize] at hcode
  -- the code of a long item is 2
  have hne : item.header ≠ 0xFE := by
    intro heq
    rw [heq] at hcode
    cases hcode
  rw [HidItem.bytes, hbytes] at hdata hend
  obtain ⟨hheader, h₀, h₁, h₂, h₃, -⟩ := hdata
  refine ⟨b₀, b₁, b₂, b₃, hbytes, h₃, ?_⟩
  have hrun := @describeFrom_item data length i [b₀, b₁, b₂] fuel item.header hne hcode.symm
    ⟨hheader, h₀, h₁, h₂, trivial⟩ (by simp only [List.length_cons] at hend ⊢; omega) hlength
  rw [htype, htag] at hrun
  exact hrun

/-- A little-endian value is zero only where its bytes are. -/
theorem littleEndian_eq_zero {b : UInt8} {bytes : List UInt8} :
    littleEndian (b :: bytes) = 0 ↔ b = 0 ∧ littleEndian bytes = 0 := by
  have hbyte : b = 0 ↔ b.toNat = 0 := UInt8.toNat_inj.symm
  rw [littleEndian, hbyte]
  omega

/-- What a line says that comes behind `m` blank ones: it is the next content, unless that is
blank as well, and then the lines behind it are compared with what follows. -/
theorem content_of_blank {m : Nat} {c c' : Option (String × String × Nat)}
    {l l' : List (Option (String × String × Nat))} (hblank : c' = blankContent → c = c')
    (h : List.replicate m blankContent ++ c :: l = c' :: l') :
    c = c' ∧ List.replicate m blankContent ++ l = l' := by
  cases m with
  | zero => exact ⟨(List.cons.inj h).1, (List.cons.inj h).2⟩
  | succ m =>
    rw [List.replicate_succ, List.cons_append] at h
    obtain ⟨hhead, htail⟩ := List.cons.inj h
    have hc := hblank hhead.symm
    refine ⟨hc, ?_⟩
    rw [hc, ← hhead] at htail
    rw [← htail, List.replicate_succ', List.append_assoc, List.singleton_append]

/-- Lines that say, behind `m` blank ones, what the items are to say are those of readable
items, and there is no blank line before them: every item with the size code 3 leaves one more
blank line, and the walk never catches up. -/
theorem readable_of_content {fuel m stop : Nat} {lines : List HidLine}
    (hdata : HoldsBytes data i (itemBytes items)) (hend : i + (itemBytes items).length ≤ length)
    (hlength : length < 4294967296) (hrun : describeFrom data length fuel i = some (lines, stop))
    (hlines : List.replicate m blankContent ++ lines.map HidLine.content =
      items.map HidItem.content) : m = 0 ∧ ∀ item ∈ items, item.Readable := by
  induction items generalizing i fuel m lines with
  | nil =>
    have hnil := List.append_eq_nil_iff.mp hlines
    exact ⟨by simpa using hnil.1, fun item hitem => (by cases hitem)⟩
  | cons item items ih =>
    rw [itemBytes_cons, holdsBytes_append] at hdata
    rw [itemBytes_cons, List.length_append] at hend
    obtain ⟨fuel, rfl⟩ : ∃ f, fuel = f + 1 := by
      cases fuel with
      | zero => cases hrun
      | succ f => exact ⟨f, rfl⟩
    have hpos : 0 < item.bytes.length := Nat.zero_lt_succ _
    by_cases hlong : item.header = 0xFE
    · -- the line of a long item says nothing
      rw [describeFrom_longItem (hdata.1.1.trans hlong) (by omega)] at hrun
      cases hrun
      have hmem : none ∈ (item :: items).map HidItem.content := by
        rw [← hlines]
        exact List.mem_append_right _ List.mem_cons_self
      obtain ⟨item', -, hcontent⟩ := List.mem_map.mp hmem
      cases hcontent
    by_cases hcode : item.sizeCode = 3
    · obtain ⟨b₀, b₁, b₂, b₃, hbytes, hlast, hwalk⟩ :=
        @describeFrom_three data length i item fuel hcode hdata.1 (by omega) hlength
      rw [hwalk] at hrun
      obtain ⟨⟨lines₁, stop₁⟩, hrun₁, heq⟩ := Option.map_eq_some_iff.mp hrun
      cases heq
      have hvalue : item.value = littleEndian [b₀, b₁, b₂, b₃] := by
        rw [HidItem.value, hbytes]
      have hblank : item.content = blankContent →
          HidLine.content (.item (i + 3) (typeStr item.type) (tagStr item.type item.tag)
            (littleEndian [b₀, b₁, b₂])) = item.content := by
        intro hitem
        have hzero : item.value = 0 := congrArg (fun c => (c.getD ("", "", 1)).2.2) hitem
        rw [hvalue, littleEndian_eq_zero, littleEndian_eq_zero, littleEndian_eq_zero,
          littleEndian_eq_zero] at hzero
        obtain ⟨h₀, h₁, h₂, h₃, -⟩ := hzero
        rw [HidItem.content, hvalue, HidLine.content, h₀, h₁, h₂, h₃]
        rfl
      obtain ⟨hcontent, hrest⟩ := content_of_blank hblank hlines
      -- the three bytes give the value only if the fourth one is zero
      have hzero : b₃ = 0 := by
        have heq : littleEndian [b₀, b₁, b₂] = item.value :=
          congrArg (fun c => (c.getD ("", "", 0)).2.2) hcontent
        rw [hvalue] at heq
        simp only [littleEndian] at heq
        exact UInt8.toNat_inj.mp (show b₃.toNat = 0 by omega)
      have hlen : item.bytes.length = 5 := by
        rw [HidItem.bytes, hbytes]
        rfl
      obtain ⟨fuel, rfl⟩ : ∃ f, fuel = f + 1 := by
        cases fuel with
        | zero => cases hrun₁
        | succ f => exact ⟨f, rfl⟩
      rw [describeFrom_zero (hlast.trans hzero) (by omega) hlength] at hrun₁
      obtain ⟨⟨lines₂, stop₂⟩, hrun₂, heq⟩ := Option.map_eq_some_iff.mp hrun₁
      cases heq
      have hshifted : List.replicate (m + 1) blankContent ++ lines₂.map HidLine.content =
          items.map HidItem.content := by
        rw [← hrest, List.replicate_succ', List.append_assoc]
        rfl
      rw [hlen] at hdata hend
      have hnone := (ih hdata.2 (by omega) hrun₂ hshifted).1
      omega
    · have hreadable : item.Readable := ⟨hcode, hlong⟩
      rw [describeFrom_readable hreadable hdata.1 (by omega) hlength] at hrun
      obtain ⟨⟨lines₁, stop₁⟩, hrun₁, heq⟩ := Option.map_eq_some_iff.mp hrun
      cases heq
      obtain ⟨-, hrest⟩ := content_of_blank (fun _ => rfl) hlines
      obtain ⟨hzero, hitems⟩ := ih hdata.2 (by omega) hrun₁ hrest
      exact ⟨hzero, List.forall_mem_cons.mpr ⟨hreadable, hitems⟩⟩

theorem add32_lt (a b : Nat) : add32 a b < 4294967296 := Nat.mod_lt _ (by decide)

theorem itemValue_lt (left j value : Nat) (hi : i < 4294967296) :
    (itemValue data length left j i value).1 < 4294967296 := by
  induction left generalizing i j value with
  | zero => exact hi
  | succ left ih =>
    rw [itemValue]
    split
    · exact ih _ _ (add32_lt i 1)
    · exact ih _ _ hi

/-- The walk stops before position `2 ^ 32`. -/
theorem describeFrom_stop_lt {fuel stop : Nat} {lines : List HidLine} (hi : i < 4294967296)
    (hrun : describeFrom data length fuel i = some (lines, stop)) : stop < 4294967296 := by
  induction fuel generalizing i lines with
  | zero => cases hrun
  | succ fuel ih =>
    rw [describeFrom] at hrun
    split at hrun
    · dsimp only at hrun
      split at hrun
      · cases hrun
        exact add32_lt i 1
      · obtain ⟨⟨lines₁, stop₁⟩, hrun₁, heq⟩ := Option.map_eq_some_iff.mp hrun
        cases heq
        exact ih (itemValue_lt _ 0 0 (add32_lt i 1)) hrun₁
    · cases hrun
      exact hi

/-- The logical maximum 65535 in four bytes. -/
def logicalMaximum : HidItem := ⟨3, 1, 2, [0xFF, 0xFF, 0, 0], rfl⟩

end Items

end RPiKernel.Usb
