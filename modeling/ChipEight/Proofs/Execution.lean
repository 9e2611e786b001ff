import ChipEight.Machine.Execute
import ChipEight.Proofs.Access
import ChipEight.Proofs.Drawing

/-!
# When operations are refused

Whether an operation is refused can be told in advance, from the stack and from the block of
memory it is about to touch.  A refused operation has changed nothing, and on a steady machine
every other operation succeeds.
-/

namespace ChipEight

/-- How many bytes of memory an operation touches, from the index register on. -/
def Operation.span : Operation → Nat
  | draw _ _ rows => rows.val
  | storeDecimal _ => 3
  | storeRegisters x => x.val + 1
  | loadRegisters x => x.val + 1
  | _ => 0

theorem Keypad.isDown_of_nonneg (k : Keypad) {key : Int} (h : 0 ≤ key) :
    ∃ down, k.isDown key = .ok down := by
  unfold isDown
  by_cases hk : 16 ≤ key
  · exact ⟨false, if_pos hk⟩
  · refine ⟨k[key.toNat], ?_⟩
    rw [if_neg hk, dif_pos ⟨h, by omega⟩]

theorem byteOfInt_of_bounds {value : Int} (hl : 0 ≤ value) (hu : value < 256) :
    byteOfInt value = .ok (UInt8.ofNat value.toNat) := if_pos ⟨hl, hu⟩

namespace Machine

open Attempt

variable {s : Surroundings} {m : Machine} {op : Operation}

/-- Nothing can be refused in the middle of an operation: the display is whole, and the delay
timer holds a byte. -/
structure Steady (m : Machine) : Prop where
  whole : m.display.Whole
  delay_nonneg : 0 ≤ m.delay
  delay_lt : m.delay < 256

/-- What an operation asks for before it changes anything. -/
def clearance (m : Machine) : Operation → Except Error Unit
  | .ret => if m.stack.entries = [] then .error (.fault .stackUnderflow) else .ok ()
  | .call _ => m.stack.checkPush
  | operation => m.memory.checkRange m.index operation.span

theorem length_registersUpTo (m : Machine) (x : Register) :
    (m.registersUpTo x).length = x.val + 1 := by
  have hx := x.isLt
  simp only [registersUpTo, List.length_take, Vector.length_toList]
  omega

theorem execute_of_refused {e : Error} (h : m.clearance op = .error e) :
    m.execute s op = .refuse (m, []) e := by
  cases op with
  | ret =>
    simp only [clearance] at h
    split at h
    · rename_i hn
      cases h
      simp [execute, onStack, CallStack.pop, hn]
    · cases h
  | call target =>
    change m.stack.checkPush = .error e at h
    simp [execute, onStack, CallStack.push, h]
  | draw x y rows =>
    have hr := Bank.readBlock_of_error h
    simp only [Operation.span] at hr
    simp [execute, ask, hr]
  | storeDecimal x =>
    have hw : m.memory.writeBlock m.index (decimalDigits m.registers[x]) = .refuse m.memory e :=
      Bank.writeBlock_of_error h
    simp only [execute, onMemory, hw, mapState_refuse]
  | storeRegisters x =>
    have hw : m.memory.writeBlock m.index (m.registersUpTo x) = .refuse m.memory e := by
      apply Bank.writeBlock_of_error
      rw [length_registersUpTo]
      exact h
    simp only [execute, onMemory, hw, mapState_refuse]
  | loadRegisters x =>
    have hr : m.memory.readBlock m.index (x.val + 1) = .error e := Bank.readBlock_of_error h
    simp [execute, ask, hr]
  | _ => cases h

theorem room_of_cleared {target : Address} (h : m.clearance (.call target) = .ok ()) :
    m.stack.depth < m.stack.capacity := by
  change m.stack.checkPush = .ok () at h
  unfold CallStack.checkPush at h
  split at h
  · cases h
  · omega

theorem entries_of_cleared (h : m.clearance .ret = .ok ()) :
    ∃ entry rest, m.stack.entries = entry :: rest := by
  simp only [clearance] at h
  split at h
  · cases h
  · rename_i hn
    exact List.exists_cons_of_ne_nil hn

theorem execute_call (target : Address) (hroom : m.stack.depth < m.stack.capacity) :
    m.execute s (.call target) =
      silent ({ m with stack := (m.stack.push m.counter).state }.jumpTo target.val) := by
  simp [execute, onStack, CallStack.push_of_room hroom]

theorem execute_ret {entry : Int} {rest : List Int} (he : m.stack.entries = entry :: rest) :
    m.execute s .ret =
      silent { m with counter := entry, stack := { m.stack with entries := rest } } := by
  simp [execute, onStack, CallStack.pop, he, jumpTo]

theorem execute_draw_completes (hd : m.display.Whole) (x y : Register) {rows : Fin 16}
    (h : m.clearance (.draw x y rows) = .ok ()) :
    (m.execute s (.draw x y rows)).Completes fun n =>
      ∃ display registers, m.display.SameShape display ∧ n = { m with display, registers } := by
  obtain ⟨sprite, hr, -⟩ := Bank.readBlock_of_ok h
  have hs : m.memory.readBlock m.index rows.val = .ok sprite := hr
  have hdraw : (m.onDisplay fun display =>
      display.draw m.registers[x].toNat m.registers[y].toNat sprite).Completes fun n =>
        ∃ display, m.display.SameShape display ∧ n = { m with display } := by
    obtain ⟨hv, hshape⟩ :=
      Display.draw_completes hd m.registers[x].toNat m.registers[y].toNat sprite
    exact ⟨hv, _, hshape, rfl⟩
  simp only [execute, ask, hs, ofExcept_ok, followedBy_silent]
  apply hdraw.followedBy
  rintro n hit ⟨display, hshape, rfl⟩
  exact .succeed ⟨display, _, hshape, rfl⟩ [] ()

theorem execute_of_cleared (hm : m.Steady) (h : m.clearance op = .ok ()) :
    (m.execute s op).result = .ok () := by
  cases op with
  | ret =>
    obtain ⟨entry, rest, he⟩ := entries_of_cleared h
    rw [execute_ret he]
    rfl
  | call target =>
    rw [execute_call target (room_of_cleared h)]
    rfl
  | draw x y rows =>
    obtain ⟨⟨_, hv⟩, -⟩ := execute_draw_completes (s := s) hm.whole x y h
    exact hv
  | skipIfKey x | skipUnlessKey x =>
    obtain ⟨down, hk⟩ := m.keypad.isDown_of_nonneg (Int.natCast_nonneg m.registers[x].toNat)
    simp only [execute, ask, hk, ofExcept_ok, followedBy_silent]
    rfl
  | readDelay x =>
    simp [execute, ask, byteOfInt_of_bounds hm.delay_nonneg hm.delay_lt, silent]
  | storeDecimal x =>
    have hw : m.memory.writeBlock m.index (decimalDigits m.registers[x]) =
        .succeed (m.memory.putList m.index (decimalDigits m.registers[x])) () :=
      Bank.writeBlock_of_ok h
    simp only [execute, onMemory, hw, mapState_succeed, result_succeed]
  | storeRegisters x =>
    have hw : m.memory.writeBlock m.index (m.registersUpTo x) =
        .succeed (m.memory.putList m.index (m.registersUpTo x)) () := by
      apply Bank.writeBlock_of_ok
      rw [length_registersUpTo]
      exact h
    simp only [execute, onMemory, hw, mapState_succeed, result_succeed]
  | loadRegisters x =>
    obtain ⟨values, hr, -⟩ := Bank.readBlock_of_ok h
    have hs : m.memory.readBlock m.index (x.val + 1) = .ok values := hr
    simp [execute, ask, hs, silent]
  | _ => rfl

end Machine

end ChipEight
