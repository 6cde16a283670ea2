import RPiKernel.Aarch64.Instructions

/-!
# What straight-line code moves where

A summary says of every register and of every word in memory what it holds behind a
piece of code, in terms of the registers and the memory before it. `summarize` computes
the summary of code whose addresses are all a known distance from the initial stack
pointer, and `Summary.Describes` says that a core agrees with a summary. A property of a
routine is then a decidable fact about its summary.
-/

namespace RPiKernel.Aarch64

variable {ι : Type}

/-- A value in terms of the core before the code. -/
inductive Value (ι : Type) where
  /-- A register's initial value, and a distance. -/
  | reg (r : Reg) (k : Word)
  /-- The initial word at a distance from the initial stack pointer. -/
  | mem (k : Word)
  | const (w : Word)
  | symbol (s : Symbol ι)
  | plus (v : Value ι) (k : Word)
  | masked (v : Value ι) (mask : Word)
  | field (v : Value ι) (lsb width : Nat)
  deriving DecidableEq

namespace Value

def eval (addr : Symbol ι → Word) (c : Core) : Value ι → Word
  | .reg r k => c.reg r + k
  | .mem k => c.mem (c.reg .sp + k)
  | .const w => w
  | .symbol s => addr s
  | .plus v k => v.eval addr c + k
  | .masked v mask => v.eval addr c &&& mask
  | .field v lsb width => bitField (v.eval addr c) lsb width

def add (k : Word) : Value ι → Value ι
  | .reg r k₀ => .reg r (k₀ + k)
  | v => .plus v k

/-- The distance from the initial stack pointer, for a value that is such an address. -/
def distance? : Value ι → Option Word
  | .reg .sp k => some k
  | _ => none

theorem eval_add (addr : Symbol ι → Word) (c : Core) (k : Word) (v : Value ι) :
    (v.add k).eval addr c = v.eval addr c + k := by
  cases v with
  | reg r k₀ => exact (BitVec.add_assoc (c.reg r) k₀ k).symm
  | _ => rfl

theorem eval_of_distance {addr : Symbol ι → Word} {c : Core} {v : Value ι} {k : Word}
    (h : v.distance? = some k) : v.eval addr c = c.reg .sp + k := by
  cases v with
  | reg r k₀ =>
      cases r with
      | sp =>
          obtain rfl : k₀ = k := Option.some.inj h
          rfl
      | _ => cases h
  | _ => cases h

end Value

/-- What the registers and the words around the stack pointer hold, latest change first. -/
structure Summary (ι : Type) where
  regs : List (Reg × Value ι) := []
  words : List (Word × Value ι) := []

namespace Summary

def reg (s : Summary ι) (r : Reg) : Value ι := (s.regs.lookup r).getD (.reg r 0)

def word (s : Summary ι) (k : Word) : Value ι := (s.words.lookup k).getD (.mem k)

def setReg (s : Summary ι) (r : Reg) (v : Value ι) : Summary ι :=
  { s with regs := (r, v) :: s.regs }

def step (s : Summary ι) : Instr ι → Option (Summary ι)
  | .str r base offset =>
      ((s.reg base).add (BitVec.ofNat 64 offset)).distance?.map fun k =>
        { s with words := (k, s.reg r) :: s.words }
  | .ldr r base offset =>
      ((s.reg base).add (BitVec.ofNat 64 offset)).distance?.map fun k => s.setReg r (s.word k)
  | .add d src imm => some (s.setReg d ((s.reg src).add imm))
  | .mov d src => some (s.setReg d (s.reg src))
  | .movImm d imm => some (s.setReg d (.const imm))
  | .andImm d src imm => some (s.setReg d (.masked (s.reg src) imm))
  | .ubfx d src lsb width => some (s.setReg d (.field (s.reg src) lsb width))
  | .adr d symbol => some (s.setReg d (.symbol symbol))

def stepAll (s : Summary ι) : List (Instr ι) → Option (Summary ι)
  | [] => some s
  | i :: code => (s.step i).bind fun s' => s'.stepAll code

/-- The words that the code stores lie among the `size` bytes at a distance from the
initial stack pointer. -/
def StoresWithin (s : Summary ι) (k : Word) (size : Nat) : Prop :=
  ∀ p ∈ s.words, (p.1 - k).toNat < size

instance (s : Summary ι) (k : Word) (size : Nat) : Decidable (s.StoresWithin k size) :=
  inferInstanceAs (Decidable (∀ p ∈ s.words, (p.1 - k).toNat < size))

/-- A core is what the summary makes of an earlier one. -/
structure Describes (addr : Symbol ι → Word) (s : Summary ι) (c₀ c : Core) : Prop where
  reg (r : Reg) : c.reg r = (s.reg r).eval addr c₀
  word (k : Word) : c.mem (c₀.reg .sp + k) = (s.word k).eval addr c₀

variable {addr : Symbol ι → Word} {s s' : Summary ι} {c₀ c : Core}

theorem reg_setReg (s : Summary ι) (r r' : Reg) (v : Value ι) :
    (s.setReg r v).reg r' = if r' = r then v else s.reg r' := by
  simp only [reg, setReg, List.lookup_cons]
  split
  · next h =>
      rw [if_pos (beq_iff_eq.mp h)]
      rfl
  · next h => rw [if_neg (fun heq => by simp [heq] at h)]

theorem word_store (s : Summary ι) (k k' : Word) (v : Value ι) :
    word { s with words := (k, v) :: s.words } k' = if k' = k then v else s.word k' := by
  simp only [word, List.lookup_cons]
  split
  · next h =>
      rw [if_pos (beq_iff_eq.mp h)]
      rfl
  · next h => rw [if_neg (fun heq => by simp [heq] at h)]

theorem Describes.setReg (h : s.Describes addr c₀ c) {r : Reg} {v : Value ι} {w : Word}
    (hw : w = v.eval addr c₀) : (s.setReg r v).Describes addr c₀ (c.setReg r w) where
  reg r' := by
    rw [reg_setReg, Core.setReg_reg]
    split
    · exact hw
    · exact h.reg r'
  word := h.word

theorem Describes.store (h : s.Describes addr c₀ c) {k : Word} {v : Value ι} {w : Word}
    (hw : w = v.eval addr c₀) :
    Describes addr { s with words := (k, v) :: s.words } c₀ (c.store (c₀.reg .sp + k) w) where
  reg := h.reg
  word k' := by
    rw [word_store, Core.store_mem]
    by_cases hk : k' = k
    · rw [if_pos hk, if_pos (by rw [hk]), hw]
    · rw [if_neg hk, if_neg (fun heq => hk (add_left_cancel heq))]
      exact h.word k'

/-- The address of a transfer, where the summary knows it. -/
theorem Describes.address (h : s.Describes addr c₀ c) {base : Reg} {offset : Nat} {k : Word}
    (hk : ((s.reg base).add (BitVec.ofNat 64 offset)).distance? = some k) :
    c.reg base + BitVec.ofNat 64 offset = c₀.reg .sp + k := by
  rw [h.reg base, ← Value.eval_add]
  exact Value.eval_of_distance hk

theorem Describes.step (h : s.Describes addr c₀ c) {i : Instr ι} (hs : s.step i = some s') :
    s'.Describes addr c₀ (c.exec addr i) := by
  cases i with
  | str r base offset =>
      obtain ⟨k, hk, rfl⟩ := Option.map_eq_some_iff.mp hs
      rw [Core.exec, h.address hk]
      exact h.store (h.reg r)
  | ldr r base offset =>
      obtain ⟨k, hk, rfl⟩ := Option.map_eq_some_iff.mp hs
      rw [Core.exec, h.address hk]
      exact h.setReg (h.word k)
  | add d src imm =>
      cases hs
      exact h.setReg (by rw [Value.eval_add, h.reg src])
  | mov d src =>
      cases hs
      exact h.setReg (h.reg src)
  | movImm d imm =>
      cases hs
      exact h.setReg rfl
  | andImm d src imm =>
      cases hs
      exact h.setReg (by rw [Value.eval, h.reg src])
  | ubfx d src lsb width =>
      cases hs
      exact h.setReg (by rw [Value.eval, h.reg src])
  | adr d symbol =>
      cases hs
      exact h.setReg rfl

theorem Describes.stepAll (h : s.Describes addr c₀ c) {code : List (Instr ι)}
    (hs : s.stepAll code = some s') : s'.Describes addr c₀ (c.execAll addr code) := by
  induction code generalizing s c with
  | nil =>
      cases hs
      exact h
  | cons i code ih =>
      obtain ⟨s₁, hs₁, hrest⟩ := Option.bind_eq_some_iff.mp hs
      exact ih (h.step hs₁) hrest

theorem describes_self (addr : Symbol ι → Word) (c : Core) : Describes addr {} c c where
  reg r := (BitVec.add_zero (c.reg r)).symm
  word _ := rfl

end Summary

/-- The summary of a piece of code, if its addresses are known. -/
def summarize (code : List (Instr ι)) : Option (Summary ι) := Summary.stepAll {} code

/-- The summary of a piece of code whose addresses are known. -/
def summaryOf (code : List (Instr ι)) : Summary ι := (summarize code).getD {}

section Summarize

variable {addr : Symbol ι → Word} {code : List (Instr ι)} {s : Summary ι}

theorem describes_summaryOf (h : (summarize code).isSome) (c : Core) :
    (summaryOf code).Describes addr c (c.execAll addr code) := by
  obtain ⟨s, hs⟩ := Option.isSome_iff_exists.mp h
  rw [summaryOf, hs]
  exact (Summary.describes_self addr c).stepAll hs

/-- What lies outside the words that the code stores stays. -/
theorem Summary.Describes.outside {c₀ c : Core} (h : s.Describes addr c₀ c) {k : Word}
    {size : Nat} (hs : s.StoresWithin k size) {a : Word}
    (ha : size ≤ (a - (c₀.reg .sp + k)).toNat) : c.mem a = c₀.mem a := by
  have hword : s.word (a - c₀.reg .sp) = .mem (a - c₀.reg .sp) := by
    rw [Summary.word]
    cases hlook : s.words.lookup (a - c₀.reg .sp) with
    | none => rfl
    | some v =>
        obtain ⟨before, after, heq, -⟩ := List.lookup_eq_some_iff.mp hlook
        have hmem : (a - c₀.reg .sp, v) ∈ s.words := by rw [heq]; simp
        rw [sub_add_eq_sub_sub] at ha
        exact absurd (hs _ hmem) (not_lt.mpr ha)
  have hvalue := h.word (a - c₀.reg .sp)
  rwa [hword, Value.eval, add_sub_cancel] at hvalue

end Summarize

end RPiKernel.Aarch64
