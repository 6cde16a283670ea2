import RPiKernel.Usb.TreeGrowth

/-!
# Runs of connection changes

The tables form a tree in every state that orderly changes reach, and what the next
change removes is a subtree.
-/

namespace RPiKernel.Usb

open Relation Forest Transition

section Run

variable {s s' : UsbState}

/-- The devices form a tree, and a port whose enumeration has failed has a device. -/
structure UsbState.Sound (s : UsbState) : Prop where
  tree : Tree s.tables
  failed : ∀ n p, s.failed = some (n, p) → ∃ c, (s.tables.hubTable n).children p = some c

/-- What an orderly step does: it meets no fault, frees exactly what is below the device
that it removes, and keeps the tree. -/
theorem UsbState.Sound.step (h : s.Sound) (a : UsbAction) (ha : Orderly s a) :
    (∀ fault, s.effect a ≠ some (.error fault)) ∧
      (∀ c, s.removed a = some c →
        usbDeallocateDevice maximumDevices s.tables c = .ok (prune s.tables (Below s.tables c))) ∧
      ∀ s', s.effect a = some (.ok s') → s'.Sound := by
  obtain ⟨hfind, hrest⟩ := ha
  cases a with
  | disconnect d port connected enabled =>
      simp only [UsbState.removed] at hfind hrest
      simp only [UsbState.effect, UsbState.removed]
      cases hfailed : s.failed with
      | some failed => simp
      | none =>
          cases hport : hubPort s.tables d port with
          | none => simp
          | some n =>
              rw [hfailed, hport] at hfind hrest
              dsimp only at hfind hrest ⊢
              cases hc : (s.tables.hubTable n).children port with
              | none =>
                  have hpresent := hrest hc
                  have hnot :
                      ¬ ((!connected && !enabled) || (none : Option Nat).isSome) = true := by
                    rcases hpresent with hpresent | hpresent
                    · simp [hpresent]
                    · simp [hpresent]
                  rw [if_neg hnot]
                  refine ⟨by simp, by simp, fun s' hs' => ?_⟩
                  cases hs'
                  exact h
              | some c =>
                  obtain ⟨hcall, hremove, htree⟩ := h.tree.removeChild hc (hfind c hc)
                  rw [if_pos (by simp), hremove]
                  refine ⟨by simp [Except.map], fun c' hc' => ?_, fun s' hs' => ?_⟩
                  · cases hc'
                    exact hcall
                  · cases hs'
                    exact ⟨htree, fun m q heq => by cases heq⟩
  | connect d port fuel reset status answers =>
      simp only [UsbState.effect, UsbState.removed]
      cases hfailed : s.failed with
      | some failed => simp
      | none =>
          cases hport : hubPort s.tables d port with
          | none => simp
          | some n =>
              obtain ⟨hon, hlt⟩ := hubPort_some hport
              dsimp only
              cases hc : (s.tables.hubTable n).children port with
              | some c => simp
              | none =>
                  rw [if_neg (by simp)]
                  refine ⟨by simp, by simp, fun s' hs' => ?_⟩
                  obtain ⟨s₁, hs₁, heq⟩ := Option.map_eq_some_iff.mp hs'
                  cases heq
                  obtain ⟨htree, hchild⟩ := h.tree.connectPort hfailed hon hlt hc hrest hs₁
                  exact ⟨htree, hchild⟩
  | disable =>
      simp only [UsbState.removed] at hfind
      simp only [UsbState.effect, UsbState.removed]
      cases hfailed : s.failed with
      | none => simp
      | some failed =>
          obtain ⟨n, port⟩ := failed
          rw [hfailed] at hfind
          obtain ⟨c, hc⟩ := h.failed n port hfailed
          obtain ⟨hcall, hremove, htree⟩ := h.tree.removeChild hc (hfind c hc)
          dsimp only
          rw [hremove]
          refine ⟨by simp [Except.map], fun c' hc' => ?_, fun s' hs' => ?_⟩
          · rw [Option.bind_some, hc] at hc'
            cases hc'
            exact hcall
          · cases hs'
            exact ⟨htree, fun m q heq => by cases heq⟩

theorem sound_of_initial (h : usbSystem.Initial s) : s.Sound := by
  obtain ⟨root, maxChildren, hnumber, hid, hpayload, hpos, hle, rfl⟩ := h
  have hroot : (rootTables root maxChildren).deviceTable 0 = root := by
    simp [rootTables]
  have hdevice : ∀ {x}, x ≠ 0 → (rootTables root maxChildren).deviceTable x = {} := by
    intro x hx
    simp [rootTables, hx]
  have hhub : ∀ {n}, n ≠ 0 → (rootTables root maxChildren).hubTable n = {} := by
    intro n hn
    simp [rootTables, hn]
  have hnone : ∀ n p, ((rootTables root maxChildren).hubTable n).children p = none := by
    intro n p
    by_cases hn : n = 0
    · rw [hn]
      rfl
    · rw [hhub hn]
  have hon : ∀ {x n}, HubOn (rootTables root maxChildren) x n ↔ x = 0 ∧ n = 0 := by
    intro x n
    by_cases hx : x = 0
    · rw [hx, HubOn, hroot, hid, hpayload]
      simp [eq_comm]
    · rw [HubOn, hdevice hx]
      simp [hx]
  have hnochild : ∀ a b, ¬ IsChild (rootTables root maxChildren) a b := by
    rintro a b ⟨n, p, -, hb⟩
    rw [hnone] at hb
    cases hb
  have hlive : ∀ x, ((rootTables root maxChildren).deviceTable x).payLoadId ≠ .errorPayload →
      x = 0 := by
    intro x hx
    by_contra hne
    rw [hdevice hne] at hx
    exact hx rfl
  have hroot' : ((rootTables root maxChildren).hubTable 0).maxChildren = maxChildren := rfl
  refine ⟨⟨⟨fun a b c hac _ => absurd hac (hnochild a c), fun _ => 0, fun a b hab =>
    absurd hab (hnochild a b)⟩, ?_, ?_, ?_, ?_, ?_, ?_, ?_, ?_, ?_, ?_, ?_, ?_⟩, ?_⟩
  · intro x hx
    obtain rfl := hlive x (by rw [hx]; exact PayLoadType.noConfusion)
    exact ⟨0, by decide, hroot ▸ hpayload⟩
  · exact fun x y n hx hy => (hon.mp hx).1.trans (hon.mp hy).1.symm
  · intro n hn
    refine ⟨0, hon.mpr ⟨rfl, ?_⟩⟩
    by_contra hne
    rw [hhub hne] at hn
    exact hn rfl
  · intro x n hx
    rw [(hon.mp hx).2, hroot']
    omega
  · intro n
    by_cases hn : n = 0
    · rw [hn, hroot']
      exact hle
    · rw [hhub hn]
      exact Nat.zero_le _
  · intro n p c hc
    rw [hnone] at hc
    cases hc
  · intro n p m q c hc
    rw [hnone] at hc
    cases hc
  · intro x n p c _ hc
    rw [hnone] at hc
    cases hc
  · intro x n hx
    rw [(hon.mp hx).1, hroot, hnumber]
  · exact fun x hx hx0 => absurd (hlive x hx) hx0
  · intro x hx
    rw [hlive x hx]
    decide
  · rw [hroot]
    exact hid
  · intro n p heq
    cases heq

/-- Every run of orderly steps keeps the tree. -/
theorem sound_of_orderly (h : usbSystem.ReachableBy Orderly s) : s.Sound := by
  refine h.invariant (fun s hs => sound_of_initial hs) fun s a s' hs ha hnext => ?_
  refine (hs.step a ha).2.2 s' ?_
  rw [usbSystem_next, UsbState.next] at hnext
  split at hnext
  · next heffect =>
    cases hnext
    exact heffect
  · cases hnext

/-- In every run of orderly steps, the tables form a tree: every pointer leads to an entry in
use, every hub payload has one owner and is free exactly when it has none, and the next
orderly step stays within the device table and frees exactly what is below the device
that it removes. -/
theorem usb_tables_form_tree (h : usbSystem.ReachableBy Orderly s) :
    Owned s.tables ∧ ∀ a, Orderly s a →
      (∀ fault, s.effect a ≠ some (.error fault)) ∧
        ∀ c, s.removed a = some c → ∃ t, usbDeallocateDevice maximumDevices s.tables c = .ok t ∧
          FreesSubtree s.tables c t := by
  have hsound := sound_of_orderly h
  refine ⟨hsound.tree.isOwned, fun a ha => ?_⟩
  obtain ⟨hfault, hcall, -⟩ := hsound.step a ha
  exact ⟨hfault, fun c hc => ⟨_, hcall c hc, hsound.tree.freesSubtree c⟩⟩

end Run

/-- Only the root hub, with four ports. -/
def rootState : UsbState where
  tables := rootTables
    { number := 1, parentHub := ⟨0xFF, 0⟩, payLoadId := .hubPayload, payload := some 0 } 4

theorem initial_rootState : usbSystem.Initial rootState :=
  ⟨_, 4, rfl, rfl, rfl, by decide, by decide, rfl⟩

/-- A hub with a number of ports is plugged into the first port of the root hub. -/
def plugHub (ports : Nat) : UsbAction :=
  .connect 0 0 2 .ok .ok
    { hubClass := true
      wTotalLength := 9
      received := [9, 2, 9, 0, 0, 1, 0, 224, 0]
      hubDescriptor := some ports }

/-- The state after the hub has been enumerated. -/
def hubPlugged (ports : Nat) : UsbState := (rootState.next (plugHub ports)).getD rootState

theorem next_getD {s : UsbState} {a : UsbAction} (h : (s.next a).isSome = true) :
    usbSystem.next s a = some ((s.next a).getD s) := by
  rw [usbSystem_next]
  cases hnext : s.next a with
  | none =>
      rw [hnext] at h
      cases h
  | some s' => rfl

theorem usb_tables_form_tree_hub : Owned (hubPlugged 4).tables :=
  (usb_tables_form_tree (System.ReachableBy.next (plugHub 4)
    (System.ReachableBy.initial initial_rootState)
    ⟨fun c hc => (by cases hc), fun _ _ _ => (by decide)⟩
    (next_getD (by decide +kernel)))).1

/-- A hub without ports has a payload that counts as free. -/
theorem not_usb_tables_form_tree : ¬ ∀ s, usbSystem.Reachable s → Owned s.tables := by
  intro hall
  have hreach : usbSystem.Reachable (hubPlugged 0) :=
    System.ReachableBy.next (plugHub 0) (System.ReachableBy.initial initial_rootState) trivial
      (next_getD (by decide +kernel))
  have hfree : ((hubPlugged 0).tables.hubTable 1).maxChildren = 0 := by decide +kernel
  have hon : HubOn (hubPlugged 0).tables 1 1 := ⟨by decide +kernel, by decide +kernel⟩
  exact (((hall _ hreach).free_iff 1).mp hfree) 1 hon

end RPiKernel.Usb
