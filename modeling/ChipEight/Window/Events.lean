import ChipEight.Keymap
import ChipEight.Keypad

/-!
# Keys of a window

A window reports when keys go down and up.  Letting go of escape and closing the window both
ask to quit; events behind such a one are still followed.
-/

namespace ChipEight.Window

inductive Event
  | quit
  | keyDown (code : Int)
  | keyUp (code : Int)
  | other
  deriving DecidableEq, Repr

namespace Event

def escape : Int := 27

def asksToQuit : Event → Bool
  | quit => true
  | keyUp code => code == escape
  | _ => false

def setKey (keymap : Keymap) (keypad : Keypad) (code : Int) (down : Bool) : Keypad :=
  match keymap.key? code with
  | some key => keypad.press key down
  | none => keypad

def apply (keymap : Keymap) (keypad : Keypad) : Event → Keypad
  | quit => keypad
  | keyDown code => setKey keymap keypad code true
  | keyUp code => if code = escape then keypad else setKey keymap keypad code false
  | other => keypad

/-- Follows events in order, and says whether any of them asks to quit. -/
def applyAll (keymap : Keymap) (keypad : Keypad) : List Event → Bool × Keypad
  | [] => (false, keypad)
  | event :: rest =>
    let (asked, keypad) := applyAll keymap (event.apply keymap keypad) rest
    (event.asksToQuit || asked, keypad)

end Event

end ChipEight.Window
