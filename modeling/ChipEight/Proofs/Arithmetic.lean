import ChipEight.Proofs.Changes

/-!
# Arithmetic and its flags

What the arithmetic operations come to, worked out on numbers from the operands as they were
before.  An operation with a flag leaves the flag in VF even if VF was its target, and it does not
matter which of the operands are the same register.
-/

namespace ChipEight

def Registers.value (v : Registers) (r : Register) : Nat := (v.get r).toNat

/-- A number for a register, and a flag unless the operation has none. -/
structure Computed where
  target : Register
  value : Int
  flag : Option Nat

def Operation.computed? (v : Registers) : Operation → Option Computed
  | addByte x byte => some ⟨x, (v.value x + byte.toNat) % 256, none⟩
  | copy x y => some ⟨x, v.value y, none⟩
  | or x y => some ⟨x, (v.value x ||| v.value y : Nat), none⟩
  | and x y => some ⟨x, (v.value x &&& v.value y : Nat), none⟩
  | xor x y => some ⟨x, (v.value x ^^^ v.value y : Nat), none⟩
  | add x y =>
    some ⟨x, (v.value x + v.value y) % 256, some (if v.value x + v.value y > 255 then 1 else 0)⟩
  | sub x y =>
    some ⟨x, (v.value x - v.value y) % 256, some (if v.value x > v.value y then 1 else 0)⟩
  | subFrom x y =>
    some ⟨x, (v.value y - v.value x) % 256, some (if v.value y > v.value x then 1 else 0)⟩
  | shiftRight x => some ⟨x, v.value x / 2, some (v.value x % 2)⟩
  | shiftLeft x => some ⟨x, 2 * v.value x % 256, some (v.value x / 128)⟩
  | _ => none

namespace Computed

/-- The registers afterwards.  A flag wins over the number where both go to VF. -/
structure Stored (c : Computed) (v w : Registers) : Prop where
  flag : ∀ f, c.flag = some f → w.value Machine.flagRegister = f
  value : c.flag = none ∨ c.target ≠ Machine.flagRegister → w.value c.target = c.value
  others : ∀ r, r ≠ c.target → c.flag = none ∨ r ≠ Machine.flagRegister → w.get r = v.get r

end Computed

section Bytes

variable (a b : UInt8)

theorem toNat_add_byte : ((a + b).toNat : Int) = (a.toNat + b.toNat) % 256 := by
  rw [UInt8.toNat_add]
  omega

theorem toNat_sub_byte : ((a - b).toNat : Int) = (a.toNat - b.toNat) % 256 := by
  have ha := a.toNat_lt
  have hb := b.toNat_lt
  rw [UInt8.toNat_sub]
  omega

theorem toNat_half : ((a >>> 1).toNat : Int) = a.toNat / 2 := by simp [Nat.shiftRight_eq_div_pow]

theorem toNat_double : ((a <<< 1).toNat : Int) = 2 * a.toNat % 256 := by
  simp [Nat.shiftLeft_eq, Int.mul_comm]

theorem toNat_lowBit : (a &&& 1).toNat = a.toNat % 2 := by simp [Nat.and_one_is_mod]

theorem toNat_highBit : (a >>> 7).toNat = a.toNat / 128 := by simp [Nat.shiftRight_eq_div_pow]

theorem toNat_flagOf {p q : Prop} [Decidable p] [Decidable q] (h : p ↔ q) :
    (Machine.flagOf p).toNat = if q then 1 else 0 := by
  by_cases hp : p
  · simp [Machine.flagOf, hp, h.mp hp]
  · simp [Machine.flagOf, hp, mt h.mpr hp]

end Bytes

namespace Machine

variable {s : Surroundings} {m : Machine} {op : Operation} {c : Computed} {word : Int}

theorem get_setRegister (m : Machine) (x : Register) (value : UInt8) :
    (m.setRegister x value).registers.get x = value := Vector.getElem_set_self x.isLt

theorem stored_setRegister (m : Machine) (x : Register) {value : UInt8} {n : Int}
    (hn : value.toNat = n) :
    Computed.Stored ⟨x, n, none⟩ m.registers (m.setRegister x value).registers where
  flag := nofun
  value _ := by rw [Registers.value, get_setRegister, hn]
  others r hr _ := get_setRegister_of_ne m hr value

theorem stored_setFlagged (m : Machine) (x : Register) {value flag : UInt8} {n : Int} {f : Nat}
    (hn : value.toNat = n) (hf : flag.toNat = f) :
    Computed.Stored ⟨x, n, some f⟩ m.registers (m.setFlagged x value flag).registers where
  flag := by
    rintro _ ⟨⟩
    rw [Registers.value, setFlagged, get_setRegister, hf]
  value h := by
    have hx : x ≠ flagRegister := h.resolve_left nofun
    rw [Registers.value, setFlagged, get_setRegister_of_ne _ hx, get_setRegister, hn]
  others r hr h := by
    have hflag : r ≠ flagRegister := h.resolve_left nofun
    rw [setFlagged, get_setRegister_of_ne _ hflag, get_setRegister_of_ne _ hr]

theorem execute_computed (s : Surroundings) (m : Machine) (hc : op.computed? m.registers = some c) :
    ∃ registers, m.execute s op = silent { m with registers } ∧
      c.Stored m.registers registers := by
  cases op <;> cases hc
  case addByte x byte => exact ⟨_, rfl, stored_setRegister m x (toNat_add_byte _ _)⟩
  case copy x y => exact ⟨_, rfl, stored_setRegister m x rfl⟩
  case or x y => exact ⟨_, rfl, stored_setRegister m x (congrArg Nat.cast (UInt8.toNat_or _ _))⟩
  case and x y => exact ⟨_, rfl, stored_setRegister m x (congrArg Nat.cast (UInt8.toNat_and _ _))⟩
  case xor x y => exact ⟨_, rfl, stored_setRegister m x (congrArg Nat.cast (UInt8.toNat_xor _ _))⟩
  case add x y =>
    exact ⟨_, rfl, stored_setFlagged m x (toNat_add_byte _ _) (toNat_flagOf .rfl)⟩
  case sub x y =>
    exact ⟨_, rfl, stored_setFlagged m x (toNat_sub_byte _ _) (toNat_flagOf .rfl)⟩
  case subFrom x y =>
    exact ⟨_, rfl, stored_setFlagged m x (toNat_sub_byte _ _) (toNat_flagOf .rfl)⟩
  case shiftRight x =>
    exact ⟨_, rfl, stored_setFlagged m x (toNat_half _) (toNat_lowBit _)⟩
  case shiftLeft x =>
    exact ⟨_, rfl, stored_setFlagged m x (toNat_double _) (toNat_highBit _)⟩

/-- After an arithmetic instruction the registers hold what was worked out from them before. -/
theorem arithmetic_law (hp : m.phase = .running) (hf : m.fetch = .ok word)
    (hw : Operation.ofWord? word = some op) (hc : op.computed? m.registers = some c)
    (s : Surroundings) :
    ∃ outcome, (m.step s).result = .ok outcome ∧ outcome.Performed op ∧
      c.Stored m.registers (m.step s).machine.registers := by
  obtain ⟨registers, hx, hstored⟩ := execute_computed s (m.begun word) hc
  rw [step_of_silent hp hf hw hx]
  exact ⟨_, rfl, rfl, hstored⟩

/-- VF added to itself, and the carry is what is left of it. -/
theorem arithmetic_law_carry :
    let m := (booted 16 [0x6F, 0xC8, 0x8F, 0xF4]).run [.step quiet]
    m.fetch = .ok 0x8FF4 ∧ m.registers.value flagRegister = 200 ∧
      (∃ outcome, (m.step quiet).result = .ok outcome ∧ outcome.Performed (.add 15 15)) ∧
      (m.step quiet).machine.registers.value flagRegister = 1 ∧
      ∀ r, r ≠ flagRegister → (m.step quiet).machine.registers.get r = m.registers.get r := by
  intro m
  have h : m.Reachable 16 := (reachable_booted 16 _).run _
  have hm : m.phase = .running ∧ m.counter ≤ 0xFFE ∧ m.memory.word m.counter = 0x8FF4 ∧
      m.registers.value flagRegister = 200 := by
    decide +kernel
  obtain ⟨hp, hcounter, hword, hvalue⟩ := hm
  have hf : m.fetch = .ok 0x8FF4 := by rw [h.wellFormed.fetch_eq_ok hcounter, hword]
  have hw : Operation.ofWord? 0x8FF4 = some (.add 15 15) := by decide
  obtain ⟨outcome, ho, hperformed, hstored⟩ := arithmetic_law hp hf hw rfl quiet
  refine ⟨hf, hvalue, ⟨outcome, ho, hperformed⟩, ?_, fun r hr => hstored.others r hr (.inr hr)⟩
  rw [hstored.flag _ rfl]
  change (if m.registers.value flagRegister + m.registers.value flagRegister > 255 then 1 else 0) = 1
  rw [hvalue]
  rfl

end Machine

end ChipEight
