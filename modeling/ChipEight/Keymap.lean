import ChipEight.Text.Commas
import ChipEight.Text.LowerCase
import ChipEight.Text.Numeral

/-!
# Keymaps

A keymap gives each key of the keypad the code of a host key.  It is written as sixteen
numbers with commas between them, for the keys 0 to F in order.  Where host keys are
characters, the codes are lower-cased.
-/

namespace ChipEight

structure Keymap where
  entries : List (Int × Fin 16)

namespace Keymap

def standard : String := "120,49,50,51,113,119,101,97,115,100,122,99,52,114,102,118"

def key? (k : Keymap) (code : Int) : Option (Fin 16) :=
  (k.entries.find? fun entry => entry.1 == code).map Prod.snd

def code (lowered : Bool) (field : String) : Except Error Int :=
  match Numeral.read? 10 field with
  | none => .error (.keymap .notNumeric)
  | some n => if lowered then LowerCase.ofCode n else .ok n

/-- Adds the codes of fields in turn, behind the codes there are already. -/
def codes (lowered : Bool) (taken : List Int) : List String → Except Error (List Int)
  | [] => .ok []
  | field :: rest => do
    let c ← code lowered field
    if c ∈ taken then .error (.keymap .duplicate)
    else
      let more ← codes lowered (c :: taken) rest
      .ok (c :: more)

def read (lowered : Bool) (text : String) : Except Error Keymap :=
  if (Commas.split text).length = 16 then do
    .ok ⟨(← codes lowered [] (Commas.split text)).zip (List.finRange 16)⟩
  else .error (.keymap .count)

end Keymap

end ChipEight
