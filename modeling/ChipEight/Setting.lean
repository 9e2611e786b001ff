import ChipEight.Error

/-!
# Settings

What is given for one option.  Besides a value that can be a blank: the option was given, but
with nothing in it.  A blank is no fault by itself.  It is refused where its value is needed,
and an option that nothing asks for may stay blank.
-/

namespace ChipEight

inductive Setting (α : Type)
  | value (a : α)
  | blank
  deriving DecidableEq, Repr

namespace Setting

variable {α β : Type}

/-- Reads a value that is there.  A blank is not read at all. -/
def read {ε : Type} (f : α → Except ε β) : Setting α → Except ε (Setting β)
  | value a => do .ok (.value (← f a))
  | blank => .ok blank

def number : Setting Int → Except Error Int
  | value n => .ok n
  | blank => .error .blankNumber

def text : Setting String → Except Error String
  | value s => .ok s
  | blank => .error .blankText

def isOn : Setting Int → Bool
  | value n => n != 0
  | blank => false

end Setting

end ChipEight
