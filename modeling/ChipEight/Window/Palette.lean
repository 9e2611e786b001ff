import ChipEight.Error
import ChipEight.Text.Commas
import ChipEight.Text.Numeral

/-!
# Palettes

The colours of dark and lit pixels.  A palette is written as one or two six-digit hexadecimal
colours with a comma between them; a colour that is not given keeps its standard value.
-/

namespace ChipEight.Window

structure Colour where
  red : UInt8
  green : UInt8
  blue : UInt8
  deriving DecidableEq, Repr

instance : Inhabited Colour := ⟨0, 0, 0⟩

def Colour.ofInt (n : Int) : Except Error Colour :=
  if 0 ≤ n ∧ n < 0x1000000 then
    let n := n.toNat
    .ok ⟨UInt8.ofNat (n / 65536), UInt8.ofNat (n / 256 % 256), UInt8.ofNat (n % 256)⟩
  else .error .colourRange

structure Palette where
  background : Colour
  foreground : Colour
  deriving DecidableEq, Repr

namespace Palette

def standardBackground : Int := 0x222222

def standardForeground : Int := 0xDDDDDD

def number (field : String) : Except Error Int :=
  if field.length = 6 then
    match Numeral.read? 16 field with
    | some n => .ok n
    | none => .error (.palette .notNumeric)
  else .error (.palette .wrongLength)

def numbers : Option String → Except Error (Int × Int)
  | none => .ok (standardBackground, standardForeground)
  | some text =>
    match Commas.split text with
    | [] => .ok (standardBackground, standardForeground)
    | [background] => do .ok (← number background, standardForeground)
    | [background, foreground] => do .ok (← number background, ← number foreground)
    | _ => .error (.palette .tooMany)

/-- Both fields are read before either colour is made. -/
def read (text : Option String) : Except Error Palette := do
  let (background, foreground) ← numbers text
  .ok ⟨← Colour.ofInt background, ← Colour.ofInt foreground⟩

/-- The colour of a pixel value: 0 is dark and 1 lit, and negative values count from the
end. -/
def lookUp (p : Palette) (value : Int) : Except Error Colour :=
  if value = 0 ∨ value = -2 then .ok p.background
  else if value = 1 ∨ value = -1 then .ok p.foreground
  else .error .noSuchEntry

end Palette

end ChipEight.Window
