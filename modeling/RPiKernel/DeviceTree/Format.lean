import Mathlib.Data.List.Basic
import RPiKernel.Machine.Strings

/-!
# The structure block of a flattened device tree

A structure block is the list of the tokens of its nodes and properties in document order, closed
by `FDT_END`. A token is a big-endian word, with the name of a node, or the length, the name and
the value of a property behind it. Names end with a zero, and what a token carries is padded to
words.

`visitItems` goes over the tree in document order, and stops at the first `reg` property of a
node for the memory that stands before the children of its node.
-/

namespace RPiKernel.DeviceTree

open Machine

/-- What stands in a node. A property has the offset of its name in the strings block. -/
inductive Item
  | nop
  | prop (nameoff : BitVec 32) (value : List UInt8)
  | node (name : CString) (items : List Item)

inductive Token
  | beginNode (name : CString)
  | endNode
  | prop (nameoff : BitVec 32) (value : List UInt8)
  | nop
  | fdtEnd

mutual

/-- The tokens of an item. -/
def Item.tokens : Item → List Token
  | .nop => [.nop]
  | .prop nameoff value => [.prop nameoff value]
  | .node name items => .beginNode name :: (tokensOf items ++ [.endNode])

/-- The tokens of items, one behind the other. -/
def tokensOf : List Item → List Token
  | [] => []
  | item :: items => item.tokens ++ tokensOf items

end

/-- A big-endian word. -/
def bigEndian (word : BitVec 32) : List UInt8 :=
  [24, 16, 8, 0].map fun k => UInt8.ofBitVec (word.extractLsb' k 8)

/-- Bytes, filled up with zeros to whole words. -/
def padded (bytes : List UInt8) : List UInt8 :=
  bytes ++ List.replicate ((4 - bytes.length % 4) % 4) 0

namespace Token

/-- The word of a token. -/
def code : Token → BitVec 32
  | .beginNode _ => 1
  | .endNode => 2
  | .prop _ _ => 3
  | .nop => 4
  | .fdtEnd => 9

/-- What a token carries. -/
def payload : Token → List UInt8
  | .beginNode name => padded (name.bytes ++ [0])
  | .prop nameoff value =>
      bigEndian (BitVec.ofNat 32 value.length) ++ bigEndian nameoff ++ padded value
  | .endNode => []
  | .nop => []
  | .fdtEnd => []

def encode (t : Token) : List UInt8 := bigEndian t.code ++ t.payload

/-- The bytes of a token. -/
def size (t : Token) : Nat := t.encode.length

end Token

/-- A structure block, of the size that a header can give. -/
structure StructureBlock where
  items : List Item
  fits : ((tokensOf items ++ [Token.fdtEnd]).flatMap Token.encode).length < 2 ^ 32

namespace StructureBlock

/-- The tokens of a structure block. -/
def tokens (block : StructureBlock) : List Token := tokensOf block.items ++ [.fdtEnd]

end StructureBlock

/-- The tokens with the addresses at which they start. -/
def located : Nat → List Token → List (Nat × Token)
  | _, [] => []
  | p, t :: tokens => (p, t) :: located (p + t.size) tokens

/-- `memory`. -/
def memoryName : List UInt8 := [0x6D, 0x65, 0x6D, 0x6F, 0x72, 0x79]

/-- The name starts with `memory`. -/
def isMemoryName (name : CString) : Bool := memoryName.isPrefixOf name.bytes

/-- A visit of some items: the tokens visited, whether a property that comes next belongs to a
node for the memory, and whether the visit has stopped. -/
structure Visit where
  tokens : List Token
  inMemory : Bool
  stopped : Bool

section Visit

variable (isReg : BitVec 32 → Bool)

mutual

/-- The visit of an item. -/
def Item.visit (inMemory : Bool) : Item → Visit
  | .nop => ⟨[.nop], inMemory, false⟩
  | .prop nameoff value => ⟨[.prop nameoff value], inMemory, inMemory && isReg nameoff⟩
  | .node name items =>
      let children := visitItems (isMemoryName name) items
      if children.stopped then
        ⟨.beginNode name :: children.tokens, children.inMemory, true⟩
      else
        ⟨.beginNode name :: (children.tokens ++ [.endNode]), false, false⟩

/-- The visit of items, until one of them stops it. -/
def visitItems (inMemory : Bool) : List Item → Visit
  | [] => ⟨[], inMemory, false⟩
  | item :: items =>
      let first := item.visit inMemory
      if first.stopped then
        first
      else
        let rest := visitItems first.inMemory items
        { rest with tokens := first.tokens ++ rest.tokens }

end

/-- The token stops a visit. -/
def Token.stops (inMemory : Bool) : Token → Bool
  | .prop nameoff _ => inMemory && isReg nameoff
  | _ => false

/-- Whether a property behind the token belongs to a node for the memory. -/
def Token.after (inMemory : Bool) : Token → Bool
  | .beginNode name => isMemoryName name
  | .endNode => false
  | _ => inMemory

/-- The same visit, on the tokens. -/
def scan (inMemory : Bool) : List Token → Visit
  | [] => ⟨[], inMemory, false⟩
  | t :: tokens =>
      if t.stops isReg inMemory then
        ⟨[t], inMemory, true⟩
      else
        let rest := scan (t.after inMemory) tokens
        { rest with tokens := t :: rest.tokens }

variable {isReg}

/-- The visit of some tokens, and of those behind them. -/
theorem scan_append (inMemory : Bool) (first more : List Token) :
    scan isReg inMemory (first ++ more) =
      if (scan isReg inMemory first).stopped then
        scan isReg inMemory first
      else
        let rest := scan isReg (scan isReg inMemory first).inMemory more
        { rest with tokens := (scan isReg inMemory first).tokens ++ rest.tokens } := by
  induction first generalizing inMemory with
  | nil => rfl
  | cons t first ih =>
    rw [List.cons_append, scan, scan, ih]
    split
    · rfl
    · dsimp only
      split
      · rfl
      · rfl

theorem scan_cons_of_not {inMemory : Bool} {t : Token} (tokens : List Token)
    (h : t.stops isReg inMemory = false) :
    scan isReg inMemory (t :: tokens) =
      let rest := scan isReg (t.after inMemory) tokens
      { rest with tokens := t :: rest.tokens } :=
  if_neg (ne_true_of_eq_false h)

mutual

/-- The visit of an item is that of its tokens. -/
theorem Item.visit_eq (inMemory : Bool) :
    ∀ item : Item, item.visit isReg inMemory = scan isReg inMemory item.tokens
  | .nop => rfl
  | .prop nameoff value => by
      rw [Item.visit, Item.tokens, scan]
      split
      · next hstops =>
        have hreg : (inMemory && isReg nameoff) = true := hstops
        rw [hreg]
      · next hgoes =>
        have hreg : (inMemory && isReg nameoff) = false := eq_false_of_ne_true hgoes
        rw [hreg]
        rfl
  | .node name items => by
      rw [Item.visit, Item.tokens, scan_cons_of_not _ rfl, Token.after, scan_append,
        visitItems_eq (isMemoryName name) items]
      dsimp only
      split
      · next hstopped => rw [← hstopped]
      · rfl

/-- The visit of items is that of their tokens. -/
theorem visitItems_eq (inMemory : Bool) :
    ∀ items : List Item, visitItems isReg inMemory items = scan isReg inMemory (tokensOf items)
  | [] => rfl
  | item :: items => by
      rw [visitItems, tokensOf, scan_append, Item.visit_eq inMemory item]
      dsimp only
      rw [visitItems_eq _ items]

end

/-- A visit goes through the tokens in their order. -/
theorem scan_prefix (inMemory : Bool) (tokens : List Token) :
    (scan isReg inMemory tokens).tokens <+: tokens := by
  induction tokens generalizing inMemory with
  | nil => exact List.prefix_rfl
  | cons t tokens ih =>
    rw [scan]
    split
    · exact ⟨tokens, rfl⟩
    · exact List.cons_prefix_cons.mpr ⟨rfl, ih _⟩

/-- A visit that does not stop goes through all tokens. -/
theorem scan_complete {inMemory : Bool} {tokens : List Token}
    (h : (scan isReg inMemory tokens).stopped = false) :
    (scan isReg inMemory tokens).tokens = tokens := by
  induction tokens generalizing inMemory with
  | nil => rfl
  | cons t tokens ih =>
    rw [scan] at h ⊢
    split at h
    · exact absurd h (fun h => Bool.noConfusion h)
    · next hgoes =>
      rw [if_neg hgoes]
      exact congrArg (t :: ·) (ih h)

end Visit

section Size

theorem length_bigEndian (word : BitVec 32) : (bigEndian word).length = 4 := rfl

theorem length_padded (bytes : List UInt8) :
    (padded bytes).length = 4 * ((bytes.length + 3) / 4) := by
  rw [padded, List.length_append, List.length_replicate]
  omega

theorem size_beginNode (name : CString) :
    (Token.beginNode name).size = 4 + 4 * ((name.bytes.length + 4) / 4) := by
  rw [Token.size, Token.encode, List.length_append, length_bigEndian, Token.payload, length_padded,
    List.length_append]
  rfl

theorem size_prop (nameoff : BitVec 32) (value : List UInt8) :
    (Token.prop nameoff value).size = 12 + 4 * ((value.length + 3) / 4) := by
  rw [Token.size, Token.encode, List.length_append, length_bigEndian, Token.payload,
    List.length_append, List.length_append, length_padded, length_bigEndian, length_bigEndian,
    ← Nat.add_assoc]

theorem size_le_length {t : Token} {tokens : List Token} (h : t ∈ tokens) :
    t.size ≤ (tokens.flatMap Token.encode).length := by
  induction tokens with
  | nil => exact absurd h List.not_mem_nil
  | cons first tokens ih =>
    rw [List.flatMap_cons, List.length_append]
    obtain rfl | h := List.mem_cons.mp h
    · exact Nat.le_add_right _ _
    · exact (ih h).trans (Nat.le_add_left _ _)

theorem StructureBlock.size_lt {block : StructureBlock} {t : Token} (h : t ∈ block.tokens) :
    t.size < 2 ^ 32 :=
  (size_le_length h).trans_lt block.fits

end Size

end RPiKernel.DeviceTree
