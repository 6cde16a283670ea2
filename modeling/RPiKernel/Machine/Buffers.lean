import RPiKernel.Machine.ByteMemory

/-!
# Buffers that are filled upwards and copied downwards

An array of a fixed size has an element at each index below its size, and an access elsewhere has
no result. What has been put into an array from its beginning on is a list, and comes out in
reverse where it is copied from its last element down to the first.
-/

namespace RPiKernel.Machine

section Arrays

variable {α : Type} {n : Nat}

/-- `xs[i] = a`. -/
def assign (xs : Vector α n) (i : Nat) (a : α) : Option (Vector α n) :=
  if h : i < n then some (xs.set i a) else none

/-- The array begins with the elements of a list. -/
def Begins (xs : Vector α n) (l : List α) : Prop := l <+: xs.toList

variable {xs : Vector α n} {l : List α}

theorem begins_nil : Begins xs [] := List.nil_prefix

/-- An element behind those that are there. -/
theorem Begins.assign (h : Begins xs l) (hroom : l.length < n) (a : α) :
    ∃ ys, assign xs l.length a = some ys ∧ Begins ys (l ++ [a]) := by
  refine ⟨xs.set l.length a, dif_pos hroom, ?_⟩
  obtain ⟨rest, hrest⟩ := h
  have hlength : l.length + rest.length = n := by
    rw [← List.length_append, hrest, Vector.length_toList]
  rw [Begins, Vector.toList_set, ← hrest, List.set_append_right _ _ le_rfl, Nat.sub_self]
  cases rest with
  | nil =>
    rw [List.length_nil] at hlength
    omega
  | cons b rest => exact ⟨rest, by rw [List.set_cons_zero, List.append_assoc]; rfl⟩

/-- The last one of the elements that have been put in. -/
theorem Begins.getElem?_length {a : α} (h : Begins xs (l ++ [a])) : xs[l.length]? = some a := by
  have hlt : l.length < (l ++ [a]).length := by
    rw [List.length_append]
    exact Nat.lt_succ_self _
  rw [← Vector.getElem?_toList, List.prefix_iff_getElem?.mp h l.length hlt,
    List.getElem_concat_length rfl]

theorem Begins.of_append {more : List α} (h : Begins xs (l ++ more)) : Begins xs l :=
  (List.prefix_append l more).trans h

/-- No more elements than the array has. -/
theorem Begins.length_le (h : Begins xs l) : l.length ≤ n :=
  (List.IsPrefix.length_le h).trans_eq Vector.length_toList

end Arrays

section Copying

variable {n : Nat} {xs : Vector UInt8 n}

/-- `do { *a++ = xs[i--]; } while (i >= 0);`. -/
def copyDown (xs : Vector UInt8 n) : Nat → Memory → BitVec 64 → Option Memory
  | 0, m, a => do
      let c ← xs[0]?
      some (store8 m a c)
  | i + 1, m, a => do
      let c ← xs[i + 1]?
      copyDown xs i (store8 m a c) (a + 1)

/-- The elements come out in reverse. -/
theorem copyDown_eq {l : List UInt8} {i : Nat} (h : Begins xs l) (hi : l.length = i + 1)
    (hfits : i < 2 ^ 64) (m : Memory) (a : BitVec 64) :
    copyDown xs i m a = some (overlay m a (i + 1) fun k => l.reverse.getD k 0) := by
  induction i generalizing l m a with
  | zero =>
    obtain ⟨c, rfl⟩ := List.length_eq_one_iff.mp hi
    have hfirst : xs[0]? = some c := Begins.getElem?_length (l := []) h
    rw [copyDown, hfirst, Option.bind_eq_bind, Option.bind_some, store8]
    exact congrArg some (overlay_congr fun k hk => by rw [Nat.lt_one_iff.mp hk]; rfl)
  | succ i ih =>
    obtain rfl | ⟨l, c, rfl⟩ := List.eq_nil_or_concat' l
    · cases hi
    have hlength : l.length = i + 1 := by
      rw [List.length_append] at hi
      exact Nat.succ.inj hi
    have hlast : xs[i + 1]? = some c := hlength ▸ h.getElem?_length
    have hreverse : (l ++ [c]).reverse = c :: l.reverse := by
      rw [List.reverse_append, List.reverse_singleton, List.singleton_append]
    rw [hreverse]
    have hfirst : store8 m a c = overlay m a 1 fun k => (c :: l.reverse).getD k 0 :=
      overlay_congr fun k hk => by rw [Nat.lt_one_iff.mp hk]; rfl
    have hrest : (fun k => l.reverse.getD k 0) = fun k => (c :: l.reverse).getD (1 + k) 0 := by
      funext k
      rw [Nat.add_comm, List.getD_cons_succ]
    -- the last element is in front of the copy of the others
    calc
      copyDown xs (i + 1) m a = copyDown xs i (store8 m a c) (a + 1) := by
        rw [copyDown, hlast, Option.bind_eq_bind, Option.bind_some]
      _ = some (overlay (store8 m a c) (a + 1) (i + 1) fun k => l.reverse.getD k 0) :=
        ih h.of_append hlength (by omega) (store8 m a c) (a + 1)
      _ = some (overlay (overlay m a 1 fun k => (c :: l.reverse).getD k 0) (a + 1) (i + 1)
          fun k => (c :: l.reverse).getD (1 + k) 0) := by
        rw [hfirst, hrest]
      _ = some (overlay m a (1 + (i + 1)) fun k => (c :: l.reverse).getD k 0) :=
        congrArg some (overlay_append (by omega))
      _ = some (overlay m a (i + 1 + 1) fun k => (c :: l.reverse).getD k 0) := by
        rw [Nat.add_comm 1]

end Copying

end RPiKernel.Machine
