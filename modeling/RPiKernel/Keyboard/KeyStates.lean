import Mathlib.Data.Fin.VecNotation
import Mathlib.Data.List.FinRange
import Mathlib.Data.List.OfFn
import RPiKernel.Machine.Strings

/-!
# The state of the keys

`RefreshStateIfNeeded` reads a report when it is time to, and keeps a table of all keys beside the
six slots of the last report. A report clears the keys in the old slots first and sets those in
its own slots then. The keyboard answers with the rollover code in every slot when too many keys
are pressed, which changes nothing.

## Implementation notes

A reading is a call at some time, with what a read of the keyboard would come to then; it is only
looked at where the call reads.
-/

namespace RPiKernel.Keyboard

open Machine

/-- A report: the modifiers, a reserved byte and six slots. -/
abbrev Report := Fin 8 → UInt8

/-- The key in a slot. -/
def Report.slot (report : Report) (i : Fin 6) : UInt8 := report (i.natAdd 2)

def rollover : UInt8 := 1

/-- The variables of the keyboard. -/
structure KeyboardState where
  firstKbd : UInt8
  nextRefresh : UInt64
  modifierStates : UInt8
  pressedKeys : Fin 6 → UInt8
  keyStates : UInt8 → Bool

/-- The variables before the first call, for the keyboard that `Init` has found. -/
def initial (firstKbd : UInt8) : KeyboardState where
  firstKbd
  nextRefresh := 0
  modifierStates := 0
  pressedKeys := fun _ => 0
  keyStates := fun _ => false

/-- The clear pass at a slot. -/
def clearSlot (report : Report) (s : KeyboardState) (i : Fin 6) : KeyboardState :=
  if report.slot i ≠ rollover then
    { s with
      keyStates := Function.update s.keyStates (s.pressedKeys i) false
      pressedKeys := Function.update s.pressedKeys i 0 }
  else
    s

/-- The set pass at a slot. -/
def setSlot (report : Report) (s : KeyboardState) (i : Fin 6) : KeyboardState :=
  let key := report.slot i
  if key = rollover then
    s
  else
    { s with
      pressedKeys := Function.update s.pressedKeys i key
      keyStates := Function.update s.keyStates key true }

/-- What a report that has been read changes. -/
def takeReport (s : KeyboardState) (time : UInt64) (report : Report) : KeyboardState :=
  let s := { s with nextRefresh := time + 10000, modifierStates := report 0 }
  let s := (List.finRange 6).foldl (clearSlot report) s
  (List.finRange 6).foldl (setSlot report) s

/-- A call at some time, with the report that a read comes to unless it fails. -/
structure Reading where
  time : UInt64
  report : Option Report

/-- The call reads the keyboard. -/
def Due (s : KeyboardState) (now : Reading) : Prop := s.firstKbd ≠ 0 ∧ s.nextRefresh ≤ now.time

instance (s : KeyboardState) (now : Reading) : Decidable (Due s now) :=
  inferInstanceAs (Decidable (_ ∧ _))

/-- `RefreshStateIfNeeded`. -/
def refreshStateIfNeeded (s : KeyboardState) (now : Reading) : KeyboardState :=
  if s.firstKbd = 0 then
    s
  else if s.nextRefresh ≤ now.time then
    match now.report with
    | some report => takeReport s now.time report
    | none => { s with nextRefresh := now.time + 1000 }
  else
    s

/-- `CharToKeyCode`: what has no key of its own has the rollover code. -/
def charToKeyCode (c : UInt8) : UInt8 :=
  if ch 'a' ≤ c ∧ c ≤ ch 'z' then c - ch 'a' + 4
  else if ch 'A' ≤ c ∧ c ≤ ch 'Z' then c - ch 'A' + 4
  else if ch '0' ≤ c ∧ c ≤ ch '9' then c - ch '0' + 30
  else if c = ch ' ' then 44
  else if c = ch '\n' ∨ c = ch '\r' then 40
  else if c = ch '\t' then 43
  else rollover

/-- `IsKeyPressed`. -/
def isKeyPressed (s : KeyboardState) (now : Reading) (key : UInt8) : Bool × KeyboardState :=
  let s := refreshStateIfNeeded s now
  (s.keyStates (charToKeyCode key), s)

/-- The state after a sequence of calls. -/
def refreshAll (s : KeyboardState) (readings : List Reading) : KeyboardState :=
  readings.foldl refreshStateIfNeeded s

/-- What the reads that the calls have made came to. -/
def reports : KeyboardState → List Reading → List (Option Report)
  | _, [] => []
  | s, now :: readings =>
      if Due s now then now.report :: reports (refreshStateIfNeeded s now) readings
      else reports (refreshStateIfNeeded s now) readings

/-- No slot has the rollover code. -/
def IsNormal (report : Report) : Prop := ∀ i, report.slot i ≠ rollover

instance (report : Report) : Decidable (IsNormal report) :=
  Nat.decidableForallFin fun i => report.slot i ≠ rollover

/-- Every slot has the rollover code. -/
def IsRollover (report : Report) : Prop := ∀ i, report.slot i = rollover

instance (report : Report) : Decidable (IsRollover report) :=
  Nat.decidableForallFin fun i => report.slot i = rollover

/-- The slots after a read, from those before it: a normal report replaces them. -/
def nextSlots (slots : List UInt8) : Option Report → List UInt8
  | some report => if IsNormal report then List.ofFn report.slot else slots
  | none => slots

/-- The slots of the last normal report, if there is one. -/
def lastSlots (reads : List (Option Report)) : List UInt8 := reads.foldl nextSlots []

/-- The table is that of the slots of a report, all of which are remembered. -/
structure Shows (s : KeyboardState) (slots : List UInt8) : Prop where
  pressed : ∀ k, 2 ≤ k → (s.keyStates k = true ↔ k ∈ slots)
  remembered : ∀ k, 2 ≤ k → k ∈ slots → ∃ i, s.pressedKeys i = k
  rollover_up : s.keyStates rollover = false

section Passes

variable {report : Report} {s : KeyboardState} {is : List (Fin 6)} {i : Fin 6}

theorem clearSlot_keyStates (h : report.slot i ≠ rollover) :
    (clearSlot report s i).keyStates = Function.update s.keyStates (s.pressedKeys i) false := by
  rw [clearSlot, if_pos h]

theorem clearSlot_pressedKeys (h : report.slot i ≠ rollover) :
    (clearSlot report s i).pressedKeys = Function.update s.pressedKeys i 0 := by
  rw [clearSlot, if_pos h]

theorem setSlot_keyStates (h : report.slot i ≠ rollover) :
    (setSlot report s i).keyStates = Function.update s.keyStates (report.slot i) true := by
  rw [setSlot, if_neg h]

theorem setSlot_pressedKeys (h : report.slot i ≠ rollover) :
    (setSlot report s i).pressedKeys = Function.update s.pressedKeys i (report.slot i) := by
  rw [setSlot, if_neg h]

/-- What the clear pass leaves of the table. -/
theorem clearSlots_keyStates (hnormal : IsNormal report) (hnodup : is.Nodup) (k : UInt8) :
    (is.foldl (clearSlot report) s).keyStates k = true ↔
      s.keyStates k = true ∧ ∀ i ∈ is, s.pressedKeys i ≠ k := by
  induction is generalizing s with
  | nil => simp
  | cons i is ih =>
    obtain ⟨hi, hrest⟩ := List.nodup_cons.mp hnodup
    -- The other slots of the pass are still those from before it.
    have hkept : ∀ j ∈ is, (clearSlot report s i).pressedKeys j = s.pressedKeys j := by
      intro j hj
      rw [clearSlot_pressedKeys (hnormal i)]
      exact Function.update_of_ne (ne_of_mem_of_not_mem hj hi) _ _
    have hrest' : (∀ j ∈ is, (clearSlot report s i).pressedKeys j ≠ k) ↔
        ∀ j ∈ is, s.pressedKeys j ≠ k :=
      forall₂_congr fun j hj => by rw [hkept j hj]
    rw [List.foldl_cons, ih hrest, hrest', clearSlot_keyStates (hnormal i), List.forall_mem_cons]
    by_cases hk : k = s.pressedKeys i
    · subst hk
      simp
    · rw [Function.update_of_ne hk]
      exact and_congr_right fun _ => (and_iff_right fun h => hk h.symm).symm

/-- What the set pass adds to the table. -/
theorem setSlots_keyStates (hnormal : IsNormal report) (k : UInt8) :
    (is.foldl (setSlot report) s).keyStates k = true ↔
      s.keyStates k = true ∨ ∃ i ∈ is, report.slot i = k := by
  induction is generalizing s with
  | nil => simp
  | cons i is ih =>
    rw [List.foldl_cons, ih, setSlot_keyStates (hnormal i), List.exists_mem_cons_iff]
    by_cases hk : k = report.slot i
    · subst hk
      simp
    · rw [Function.update_of_ne hk]
      exact or_congr_right (or_iff_right fun h => hk h.symm).symm

/-- The set pass remembers the slots of the report. -/
theorem setSlots_pressedKeys (hnormal : IsNormal report) (i : Fin 6) :
    (is.foldl (setSlot report) s).pressedKeys i =
      if i ∈ is then report.slot i else s.pressedKeys i := by
  induction is generalizing s with
  | nil => simp
  | cons j is ih =>
    rw [List.foldl_cons, ih, setSlot_pressedKeys (hnormal j)]
    by_cases hij : i = j
    · subst hij
      simp
    · have hmem : i ∈ j :: is ↔ i ∈ is := List.mem_cons.trans (or_iff_right hij)
      rw [Function.update_of_ne hij]
      exact if_congr hmem.symm rfl rfl

/-- A report of rollover codes changes neither the table nor the slots. -/
theorem passes_of_rollover (h : IsRollover report) :
    is.foldl (clearSlot report) s = s ∧ is.foldl (setSlot report) s = s := by
  have hclear : ∀ s i, clearSlot report s i = s := fun s i => if_neg (not_not.mpr (h i))
  have hset : ∀ s i, setSlot report s i = s := fun s i => if_pos (h i)
  constructor
  · exact List.foldl_fixed' (fun i => hclear s i) is
  · exact List.foldl_fixed' (fun i => hset s i) is

end Passes

section Runs

variable {s : KeyboardState} {slots : List UInt8} {report : Report} {time : UInt64}
  {now : Reading} {readings : List Reading} {firstKbd : UInt8}

theorem shows_initial : Shows (initial firstKbd) [] where
  pressed _ _ := iff_of_false Bool.false_ne_true List.not_mem_nil
  remembered _ _ hk := absurd hk List.not_mem_nil
  rollover_up := rfl

/-- After a normal report the table is that of its slots. -/
theorem Shows.takeReport_of_normal (h : Shows s slots) (hnormal : IsNormal report) :
    Shows (takeReport s time report) (List.ofFn report.slot) := by
  have hkeys : ∀ k, (takeReport s time report).keyStates k = true ↔
      (s.keyStates k = true ∧ ∀ i, s.pressedKeys i ≠ k) ∨ ∃ i, report.slot i = k := by
    intro k
    rw [takeReport, setSlots_keyStates hnormal, clearSlots_keyStates hnormal
      (List.nodup_finRange 6)]
    simp only [List.mem_finRange, true_and, forall_const]
  refine ⟨fun k hk => ?_, fun k _ hmem => ?_, ?_⟩
  · -- A key that was pressed is in an old slot, so that the clear pass has come by it.
    have hcleared : ¬ (s.keyStates k = true ∧ ∀ i, s.pressedKeys i ≠ k) := by
      rintro ⟨hold, hnone⟩
      obtain ⟨i, hi⟩ := h.remembered k hk ((h.pressed k hk).mp hold)
      exact hnone i hi
    rw [hkeys, or_iff_right hcleared, List.mem_ofFn]
  · obtain ⟨i, hi⟩ := List.mem_ofFn.mp hmem
    refine ⟨i, ?_⟩
    rw [takeReport, setSlots_pressedKeys hnormal, if_pos (List.mem_finRange i), hi]
  · rw [Bool.eq_false_iff, Ne, hkeys, not_or]
    refine ⟨fun hold => ?_, fun ⟨i, hi⟩ => hnormal i hi⟩
    rw [h.rollover_up] at hold
    exact Bool.false_ne_true hold.1

theorem Shows.takeReport_of_rollover (h : Shows s slots) (hrollover : IsRollover report) :
    Shows (takeReport s time report) slots := by
  rw [takeReport]
  simp only [(passes_of_rollover hrollover).1, (passes_of_rollover hrollover).2]
  exact ⟨h.pressed, h.remembered, h.rollover_up⟩

/-- A call that reads shows the slots after the read, and another one those before. -/
theorem Shows.refresh (h : Shows s slots)
    (hreport : Due s now → ∀ report, now.report = some report →
      IsNormal report ∨ IsRollover report) :
    Shows (refreshStateIfNeeded s now)
      (if Due s now then nextSlots slots now.report else slots) := by
  rw [refreshStateIfNeeded]
  by_cases hfirst : s.firstKbd = 0
  · rw [if_pos hfirst, if_neg fun hdue => hdue.1 hfirst]
    exact h
  · rw [if_neg hfirst]
    by_cases htime : s.nextRefresh ≤ now.time
    · rw [if_pos htime, if_pos ⟨hfirst, htime⟩]
      cases hread : now.report with
      | none => exact ⟨h.pressed, h.remembered, h.rollover_up⟩
      | some report =>
        rw [nextSlots]
        obtain hnormal | hrollover := hreport ⟨hfirst, htime⟩ report hread
        · rw [if_pos hnormal]
          exact h.takeReport_of_normal hnormal
        · rw [if_neg fun hnormal => hnormal 0 (hrollover 0)]
          exact h.takeReport_of_rollover hrollover
    · rw [if_neg htime, if_neg fun hdue => htime hdue.2]
      exact h

/-- A sequence of calls shows the slots that its reads leave. -/
theorem Shows.refreshAll (h : Shows s slots)
    (hreports : ∀ report, some report ∈ reports s readings →
      IsNormal report ∨ IsRollover report) :
    Shows (refreshAll s readings) ((reports s readings).foldl nextSlots slots) := by
  induction readings generalizing s slots with
  | nil => exact h
  | cons now readings ih =>
    by_cases hdue : Due s now
    · have hread : reports s (now :: readings) =
          now.report :: reports (refreshStateIfNeeded s now) readings := if_pos hdue
      rw [hread] at hreports ⊢
      have hfirst := h.refresh fun _ report hreport =>
        hreports report (List.mem_cons.mpr (Or.inl hreport.symm))
      rw [if_pos hdue] at hfirst
      exact ih hfirst fun report hmem => hreports report (List.mem_cons_of_mem _ hmem)
    · have hread : reports s (now :: readings) = reports (refreshStateIfNeeded s now) readings :=
        if_neg hdue
      rw [hread] at hreports ⊢
      have hfirst := h.refresh fun hdue' => absurd hdue' hdue
      rw [if_neg hdue] at hfirst
      exact ih hfirst hreports

/-- After any calls the table is that of the last normal report, as long as every report is
normal or of rollover codes; the rollover code itself never appears pressed. -/
theorem keyStates_eq_lastReport
    (hreports : ∀ report, some report ∈ reports (initial firstKbd) readings →
      IsNormal report ∨ IsRollover report) :
    (∀ k, 2 ≤ k → ((refreshAll (initial firstKbd) readings).keyStates k = true ↔
      k ∈ lastSlots (reports (initial firstKbd) readings))) ∧
      (refreshAll (initial firstKbd) readings).keyStates rollover = false :=
  have h := shows_initial.refreshAll hreports
  ⟨h.pressed, h.rollover_up⟩

/-- A character of a range has a code that does not wrap. -/
theorem one_le_code {c first last code : UInt8} (h : first ≤ c ∧ c ≤ last)
    (hroom : last.toNat + code.toNat < 256) (hcode : 1 ≤ code.toNat) :
    1 ≤ c - first + code := by
  obtain ⟨hfirst, hlast⟩ := h
  have hsub := UInt8.toNat_sub_of_le c first hfirst
  rw [UInt8.le_iff_toNat_le] at hlast ⊢
  rw [UInt8.toNat_add, hsub, Nat.mod_eq_of_lt (by omega)]
  exact Nat.le_trans hcode (Nat.le_add_left _ _)

theorem one_le_charToKeyCode (c : UInt8) : 1 ≤ charToKeyCode c := by
  rw [charToKeyCode]
  split_ifs with hlower hupper hdigit
  · exact one_le_code hlower (by decide) (by decide)
  · exact one_le_code hupper (by decide) (by decide)
  · exact one_le_code hdigit (by decide) (by decide)
  all_goals decide

/-- What `IsKeyPressed` answers: the key of a character is in the slots, and a character without a
key is not pressed. -/
theorem isKeyPressed_iff (h : Shows s slots)
    (hreport : Due s now → ∀ report, now.report = some report →
      IsNormal report ∨ IsRollover report) (c : UInt8) :
    (isKeyPressed s now c).1 = true ↔ charToKeyCode c ≠ rollover ∧
      charToKeyCode c ∈ if Due s now then nextSlots slots now.report else slots := by
  have hshows := h.refresh hreport
  rw [isKeyPressed]
  by_cases hnone : charToKeyCode c = rollover
  · rw [hnone, hshows.rollover_up]
    exact iff_of_false Bool.false_ne_true fun hcode => hcode.1 rfl
  · have hcode : 2 ≤ charToKeyCode c := by
      have hkey := one_le_charToKeyCode c
      rw [UInt8.le_iff_toNat_le] at hkey ⊢
      have hne : (charToKeyCode c).toNat ≠ 1 := fun h => hnone (UInt8.toNat_inj.mp h)
      exact Nat.lt_of_le_of_ne hkey hne.symm
    rw [hshows.pressed _ hcode, and_iff_right hnone]

end Runs

/-- The keys 4 and 5 in two slots and then in the other order, a failed read, too many keys, and a
call for which it is too early. -/
def typing : List Reading :=
  [⟨0, some ![0, 0, 4, 5, 0, 0, 0, 0]⟩, ⟨10000, some ![2, 0, 5, 4, 4, 0, 0, 0]⟩, ⟨20000, none⟩,
    ⟨21000, some ![0, 0, 1, 1, 1, 1, 1, 1]⟩, ⟨22000, some ![0, 0, 7, 0, 0, 0, 0, 0]⟩]

theorem keyStates_typing :
    (∀ k, 2 ≤ k → ((refreshAll (initial 1) typing).keyStates k = true ↔
      k ∈ lastSlots (reports (initial 1) typing))) ∧
      (refreshAll (initial 1) typing).keyStates rollover = false :=
  keyStates_eq_lastReport fun report hreport => by
    have hall : (reports (initial 1) typing).all (fun read =>
        read.all fun report => decide (IsNormal report ∨ IsRollover report)) = true := by
      decide +kernel
    exact of_decide_eq_true (List.all_eq_true.mp hall _ hreport)

end RPiKernel.Keyboard
