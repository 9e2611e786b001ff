import Mathlib.Order.Fin.Basic
import ChipEight.Proofs.Execution

/-!
# Footprints

What an operation may change, read off the operation alone: the registers it writes, the block it
stores, and the one other part of the machine it works on.  All else is left alone, also by an
operation that is refused on the way.
-/

namespace ChipEight

def Operation.Writes (r : Register) : Operation → Prop
  | loadByte x _ | addByte x _ | copy x _ | or x _ | and x _ | xor x _ | random x _ | readDelay x =>
    r = x
  | add x _ | sub x _ | subFrom x _ | shiftRight x | shiftLeft x =>
    r = x ∨ r = Machine.flagRegister
  | draw _ _ _ => r = Machine.flagRegister
  | loadRegisters x => r ≤ x
  | _ => False

/-- How many bytes of memory an operation overwrites, from the index register on. -/
def Operation.stored : Operation → Nat
  | storeDecimal _ => 3
  | storeRegisters x => x.val + 1
  | _ => 0

theorem Operation.stored_cases (op : Operation) (h : 0 < op.stored) :
    (∃ x, op = .storeDecimal x ∧ op.stored = 3) ∨
    ∃ x, op = .storeRegisters x ∧ op.stored = x.val + 1 := by
  cases op with
  | storeDecimal x => exact .inl ⟨x, rfl, rfl⟩
  | storeRegisters x => exact .inr ⟨x, rfl, rfl⟩
  | _ => exact absurd h (Nat.lt_irrefl 0)

def Operation.Draws (op : Operation) : Prop :=
  op = .clearDisplay ∨ ∃ x y rows, op = .draw x y rows

def Operation.Links (op : Operation) : Prop := op = .ret ∨ ∃ target, op = .call target

def Operation.SetsIndex (op : Operation) : Prop :=
  (∃ target, op = .loadIndex target) ∨ (∃ x, op = .addIndex x) ∨ ∃ x, op = .loadGlyph x

namespace Machine

open Attempt

variable {s : Surroundings} {m n : Machine} {op : Operation}

theorem get_setRegister_of_ne (m : Machine) {r x : Register} (h : r ≠ x) (value : UInt8) :
    (m.setRegister x value).registers.get r = m.registers.get r :=
  Vector.getElem_set_ne x.isLt r.isLt fun he => h (Fin.ext he.symm)

/-- A machine differs from another in nothing but what an operation may change. -/
structure Confined (op : Operation) (m n : Machine) : Prop where
  memory : ∀ a, n.memory.get? a = m.memory.get? a ∨ (m.index ≤ a ∧ a < m.index + op.stored)
  registers : ∀ r : Register, n.registers.get r = m.registers.get r ∨ op.Writes r
  display : n.display = m.display ∨ op.Draws
  stack : n.stack = m.stack ∨ op.Links
  index : n.index = m.index ∨ op.SetsIndex
  delay : n.delay = m.delay ∨ ∃ x, op = .setDelay x
  sound : n.sound = m.sound ∨ ∃ x, op = .setSound x
  phase : n.phase = m.phase ∨ ∃ x, op = .awaitKey x ∧ n.phase = .waitingForKey x
  keypad : n.keypad = m.keypad
  lastCounter : n.lastCounter = m.lastCounter
  lastWord : n.lastWord = m.lastWord

namespace Confined

theorem refl (op : Operation) (m : Machine) : Confined op m m where
  memory _ := .inl rfl
  registers _ := .inl rfl
  display := .inl rfl
  stack := .inl rfl
  index := .inl rfl
  delay := .inl rfl
  sound := .inl rfl
  phase := .inl rfl
  keypad := rfl
  lastCounter := rfl
  lastWord := rfl

theorem setRegister (h : Confined op m n) {x : Register} (hx : op.Writes x) (value : UInt8) :
    Confined op m (n.setRegister x value) :=
  { h with
    registers := fun r => by
      obtain rfl | hr := eq_or_ne r x
      · exact .inr hx
      · exact (h.registers r).imp_left (get_setRegister_of_ne n hr value).trans }

theorem skipIf (h : Confined op m n) (condition : Bool) : Confined op m (n.skipIf condition) := by
  unfold Machine.skipIf
  split
  · exact { h with }
  · exact h

theorem withDisplay (h : Confined op m n) (hd : op.Draws) (display : Display) :
    Confined op m { n with display } := { h with display := .inr hd }

theorem withStack (h : Confined op m n) (hl : op.Links) (stack : CallStack) :
    Confined op m { n with stack } := { h with stack := .inr hl }

theorem withIndex (h : Confined op m n) (hi : op.SetsIndex) (index : Int) :
    Confined op m { n with index } := { h with index := .inr hi }

theorem writeBlock {block : List UInt8} (hb : block.length = op.stored) :
    Confined op m { m with memory := (m.memory.writeBlock m.index block).state } :=
  { refl op m with
    memory := fun a => by
      by_cases ha : m.index ≤ a ∧ a < m.index + op.stored
      · exact .inr ha
      · refine .inl (Bank.get?_writeBlock_of_outside ?_)
        rw [hb]
        omega }

theorem loadRegisters {x : Register} {values : List UInt8} (hv : values.length = x.val + 1) :
    Confined (.loadRegisters x) m
      { m with registers := loadRegisterList m.registers values } :=
  { refl _ m with
    registers := fun r => by
      obtain hr | hr := le_or_gt r x
      · exact .inr hr
      · have hlt : x.val < r.val := hr
        have hnone : values[r.val]? = none := List.getElem?_eq_none (by omega)
        left
        change (loadRegisterList m.registers values)[r] = m.registers[r]
        simp only [loadRegisterList, Fin.getElem_fin, Vector.getElem_ofFn, hnone]
        rfl }

end Confined

theorem execute_confined (s : Surroundings) (m : Machine) (op : Operation) :
    Confined op m (m.execute s op).state.1 := by
  have h := Confined.refl op m
  cases op with
  | clearDisplay => exact h.withDisplay (.inl rfl) _
  | ret =>
    refine keeps_followedBy (P := Confined .ret m) (h.withStack (.inl rfl) _) ?_
    intro n target hn
    exact { hn with }
  | call target =>
    have hl : (Operation.call target).Links := .inr ⟨target, rfl⟩
    refine keeps_followedBy (P := Confined (.call target) m) (h.withStack hl _) ?_
    intro n _ hn
    exact { hn with }
  | jump target | jumpOffset target => exact { h with }
  | skipIfByte x byte | skipUnlessByte x byte | skipIfEqual x y | skipUnlessEqual x y =>
    exact h.skipIf _
  | loadByte x byte | addByte x byte | copy x y | or x y | and x y | xor x y =>
    exact h.setRegister rfl _
  | add x y | sub x y | subFrom x y | shiftRight x | shiftLeft x =>
    exact (h.setRegister (.inl rfl) _).setRegister (.inr rfl) _
  | loadIndex target => exact h.withIndex (.inl ⟨target, rfl⟩) _
  | addIndex x => exact h.withIndex (.inr (.inl ⟨x, rfl⟩)) _
  | loadGlyph x => exact h.withIndex (.inr (.inr ⟨x, rfl⟩)) _
  | random x byte =>
    have hd : Confined (.random x byte) m { m with draws := m.draws + 1 } := { h with }
    exact hd.setRegister rfl _
  | draw x y rows =>
    have hd : (Operation.draw x y rows).Draws := .inr ⟨x, y, rows, rfl⟩
    refine keeps_followedBy (P := Confined (.draw x y rows) m) h fun n sprite hn => ?_
    refine keeps_followedBy (P := Confined (.draw x y rows) m) (hn.withDisplay hd _) ?_
    intro n' hit hn'
    exact hn'.setRegister rfl _
  | skipIfKey x =>
    exact keeps_followedBy (P := Confined (.skipIfKey x) m) h fun n down hn => hn.skipIf _
  | skipUnlessKey x =>
    exact keeps_followedBy (P := Confined (.skipUnlessKey x) m) h fun n down hn => hn.skipIf _
  | readDelay x =>
    refine keeps_followedBy (P := Confined (.readDelay x) m) h ?_
    intro n value hn
    exact hn.setRegister rfl _
  | awaitKey x => exact { h with phase := .inr ⟨x, rfl, rfl⟩ }
  | setDelay x => exact { h with delay := .inr ⟨x, rfl⟩ }
  | setSound x => exact { h with sound := .inr ⟨x, rfl⟩ }
  | storeDecimal x => exact .writeBlock rfl
  | storeRegisters x => exact .writeBlock (m.length_registersUpTo x)
  | loadRegisters x =>
    cases hc : m.memory.checkRange m.index (x.val + 1 : Nat) with
    | error e =>
      have hr : m.execute s (.loadRegisters x) = .refuse (m, []) e := execute_of_refused hc
      rw [hr]
      exact h
    | ok =>
      obtain ⟨values, hr, hlen, -⟩ := Bank.readBlock_of_ok hc
      have hv : m.memory.readBlock m.index (x.val + 1) = .ok values := hr
      simpa [execute, ask, hv, silent] using Confined.loadRegisters hlen

theorem stack_execute (h : ¬ op.Links) : (m.execute s op).state.1.stack = m.stack :=
  (execute_confined s m op).stack.resolve_right h

end Machine

end ChipEight
