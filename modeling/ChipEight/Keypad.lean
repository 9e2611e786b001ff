import ChipEight.Error

/-!
# The keypad

Sixteen keys that are up or down.  Only the host changes them, between steps of the machine.
-/

namespace ChipEight

abbrev Keypad := Vector Bool 16

namespace Keypad

def released : Keypad := Vector.replicate 16 false

def press (k : Keypad) (key : Fin 16) (down : Bool) : Keypad := k.set key down

def setKey (k : Keypad) (key : Int) (down : Bool) : Except Error Keypad :=
  if h : 0 ≤ key ∧ key < 16 then .ok (k.press ⟨key.toNat, by omega⟩ down)
  else .error (.keyRange key)

/-- Numbers above the pad have no key and count as up; negative numbers count from the end
of the pad. -/
def isDown (k : Keypad) (key : Int) : Except Error Bool :=
  if 16 ≤ key then .ok false
  else if h : 0 ≤ key ∧ key < 16 then .ok k[key.toNat]
  else if h : -16 ≤ key ∧ key < 0 then .ok k[(key + 16).toNat]
  else .error .noSuchEntry

def first? (k : Keypad) : Option (Fin 16) :=
  (List.finRange 16).find? fun key => k[key]

theorem get_press (k : Keypad) (key other : Fin 16) (down : Bool) :
    (k.press key down).get other = if key = other then down else k.get other := by
  change (k.set key down)[other] = if key = other then down else k[other]
  simp only [Fin.getElem_fin, Vector.getElem_set, Fin.ext_iff]

theorem first?_eq_none_iff (k : Keypad) : k.first? = none ↔ ∀ key, k.get key = false := by
  change _ ↔ ∀ key : Fin 16, k[key] = false
  simp [first?]

end Keypad

end ChipEight
