import Mathlib.Algebra.Group.Int.Defs
import Mathlib.Order.Basic

/-!
# Sinks for characters

A run gives its characters to a sink, one at a time, and counts them in an `int`. It ends when the
sink refuses one, and has no meaning when the count does not fit.

What a run does to a sink that keeps all its characters determines what it does to any sink: the
map from the one to the other goes along with every character.
-/

namespace RPiKernel.Machine

/-- The result of a computation in `int`, which has no meaning if it does not fit. -/
def int (x : Int) : Option Int := if -2 ^ 31 ≤ x ∧ x < 2 ^ 31 then some x else none

theorem int_of_fits {x : Int} (hlow : -2 ^ 31 ≤ x) (hhigh : x < 2 ^ 31) : int x = some x :=
  if_pos ⟨hlow, hhigh⟩

theorem int_eq_none {x : Int} (h : 2 ^ 31 ≤ x) : int x = none :=
  if_neg fun hfits => absurd hfits.2 (Int.not_lt.mpr h)

def EOF : Int := -1

/-- Where characters go: the number returned for a character, and the state behind it. -/
structure Sink (σ : Type) where
  putc : UInt8 → σ → Int × σ

/-- What has become of a run: it has written some characters, the sink has refused one, or an
`int` has overflowed. -/
inductive Output (σ : Type)
  | written (count : Int) (s : σ)
  | eof (s : σ)
  | undefined

namespace Output

variable {σ τ : Type}

/-- What comes behind a run that has written its characters. -/
def andThen (o : Output σ) (next : Int → σ → Output σ) : Output σ :=
  match o with
  | written n s => next n s
  | eof s => eof s
  | undefined => undefined

/-- The same run, on another sink. -/
def map (f : σ → τ) : Output σ → Output τ
  | written n s => written n (f s)
  | eof s => eof (f s)
  | undefined => undefined

@[simp] theorem written_andThen (n : Int) (s : σ) (next : Int → σ → Output σ) :
    (written n s).andThen next = next n s := rfl

@[simp] theorem undefined_andThen (next : Int → σ → Output σ) :
    (undefined : Output σ).andThen next = undefined := rfl

theorem andThen_assoc (o : Output σ) (next last : Int → σ → Output σ) :
    (o.andThen next).andThen last = o.andThen fun n s => (next n s).andThen last := by
  cases o <;> rfl

@[simp] theorem andThen_written (o : Output σ) : o.andThen .written = o := by cases o <;> rfl

theorem andThen_map {o : Output σ} {f : σ → τ} {next : Int → σ → Output σ}
    {next' : Int → τ → Output τ} (h : ∀ n s, next' n (f s) = (next n s).map f) :
    (o.map f).andThen next' = (o.andThen next).map f := by
  cases o with
  | written n s => exact h n s
  | eof s => rfl
  | undefined => rfl

end Output

namespace Sink

variable {σ τ : Type} (sink : Sink σ)

/-- A character. -/
def put (c : UInt8) (n : Int) (s : σ) : Output σ :=
  if (sink.putc c s).1 = EOF then
    .eof (sink.putc c s).2
  else
    match int (n + 1) with
    | some n => .written n (sink.putc c s).2
    | none => .undefined

/-- Some characters, one behind the other. -/
def puts : List UInt8 → Int → σ → Output σ
  | [], n, s => .written n s
  | c :: text, n, s => (sink.put c n s).andThen (puts text)

@[simp] theorem puts_nil : sink.puts [] = .written := rfl

@[simp] theorem puts_singleton (c : UInt8) : sink.puts [c] = sink.put c :=
  funext fun n => funext fun s => Output.andThen_written (sink.put c n s)

theorem puts_append (text more : List UInt8) :
    sink.puts (text ++ more) = fun n s => (sink.puts text n s).andThen (sink.puts more) := by
  induction text with
  | nil => rfl
  | cons c text ih =>
    funext n s
    rw [List.cons_append, puts, puts, Output.andThen_assoc, ih]

/-- A map from the states of a sink to those of another one that goes along with every
character. -/
def Follows (sink : Sink σ) (other : Sink τ) (f : σ → τ) : Prop :=
  ∀ c s, other.putc c (f s) = ((sink.putc c s).1, f (sink.putc c s).2)

section Follows

variable {sink} {other : Sink τ} {f : σ → τ}

theorem Follows.put (h : sink.Follows other f) (c : UInt8) (n : Int) (s : σ) :
    other.put c n (f s) = (sink.put c n s).map f := by
  rw [Sink.put, Sink.put, h c s]
  split
  · rfl
  · cases int (n + 1) with
    | none => rfl
    | some n => rfl

theorem Follows.puts (h : sink.Follows other f) (text : List UInt8) (n : Int) (s : σ) :
    other.puts text n (f s) = (sink.puts text n s).map f := by
  induction text generalizing n s with
  | nil => rfl
  | cons c text ih =>
    rw [Sink.puts, Sink.puts, h.put]
    exact Output.andThen_map ih

end Follows

end Sink

/-- The sink that keeps its characters. -/
def recorder : Sink (List UInt8) := ⟨fun c text => (c.toNat, text ++ [c])⟩

section Recorder

theorem recorder_put {c : UInt8} {n : Int} (text : List UInt8) (h : n + 1 < 2 ^ 31)
    (hn : 0 ≤ n) : recorder.put c n text = .written (n + 1) (text ++ [c]) := by
  have hgoes : (recorder.putc c text).1 ≠ EOF := by
    change ((c.toNat : Nat) : Int) ≠ -1
    omega
  rw [Sink.put, if_neg hgoes, int_of_fits (by omega) h]
  rfl

/-- What the recorder keeps of some characters. -/
theorem recorder_puts {text : List UInt8} {n : Int} (kept : List UInt8) (hn : 0 ≤ n)
    (h : n + text.length < 2 ^ 31) :
    recorder.puts text n kept = .written (n + text.length) (kept ++ text) := by
  induction text generalizing n kept with
  | nil => rw [Sink.puts, List.length_nil, Int.natCast_zero, Int.add_zero, List.append_nil]
  | cons c text ih =>
    rw [List.length_cons, Int.natCast_add, Int.natCast_one] at h ⊢
    rw [Sink.puts, recorder_put kept (by omega) hn, Output.andThen,
      ih (kept ++ [c]) (by omega) (by omega),
      List.append_assoc, Int.add_assoc, Int.add_comm 1]
    rfl

/-- The characters that do not fit the count. -/
theorem recorder_puts_undefined {text : List UInt8} {n : Int} (kept : List UInt8) (hn : 0 ≤ n)
    (hfits : n < 2 ^ 31) (h : 2 ^ 31 ≤ n + text.length) :
    recorder.puts text n kept = .undefined := by
  induction text generalizing n kept with
  | nil =>
    rw [List.length_nil] at h
    omega
  | cons c text ih =>
    rw [List.length_cons, Int.natCast_add, Int.natCast_one] at h
    rw [Sink.puts]
    obtain hlast | hmore : n + 1 < 2 ^ 31 ∨ 2 ^ 31 ≤ n + 1 := Int.lt_or_le _ _
    · rw [recorder_put kept hlast hn]
      exact ih (kept ++ [c]) (by omega) hlast (by omega)
    · have hgoes : (recorder.putc c kept).1 ≠ EOF := by
        change ((c.toNat : Nat) : Int) ≠ -1
        omega
      rw [Sink.put, if_neg hgoes, int_eq_none hmore]
      rfl

/-- The run of a recorder: the count is that of the characters kept, and fits. -/
inductive Counted : Output (List UInt8) → Prop
  | written {text : List UInt8} (h : (text.length : Int) < 2 ^ 31) :
      Counted (.written text.length text)
  | undefined : Counted .undefined

theorem counted_andThen {o : Output (List UInt8)}
    {next : Int → List UInt8 → Output (List UInt8)} (h : Counted o)
    (hnext : ∀ text : List UInt8, (text.length : Int) < 2 ^ 31 → Counted (next text.length text)) :
    Counted (o.andThen next) := by
  cases h with
  | written hfits => exact hnext _ hfits
  | undefined => exact .undefined

/-- The recorder counts its characters. -/
theorem counted_puts (text : List UInt8) {kept : List UInt8} (h : (kept.length : Int) < 2 ^ 31) :
    Counted (recorder.puts text kept.length kept) := by
  obtain hfits | hmore : (kept.length : Int) + text.length < 2 ^ 31 ∨ 2 ^ 31 ≤ _ := Int.lt_or_le _ _
  · rw [recorder_puts kept (Int.natCast_nonneg _) hfits, ← Int.natCast_add, ← List.length_append]
    exact .written (by rwa [List.length_append, Int.natCast_add])
  · rw [recorder_puts_undefined kept (Int.natCast_nonneg _) h hmore]
    exact .undefined

theorem counted_put (c : UInt8) {kept : List UInt8} (h : (kept.length : Int) < 2 ^ 31) :
    Counted (recorder.put c kept.length kept) := by
  have hputs := counted_puts [c] h
  rw [Sink.puts_singleton] at hputs
  exact hputs

end Recorder

end RPiKernel.Machine
