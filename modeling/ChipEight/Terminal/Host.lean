import ChipEight.Setting
import ChipEight.Terminal.Pad

/-!
# The terminal

The calls a screen makes on a terminal, in order, and what the terminal answers to them: its
size each time it is asked, and whether it can change its cursor.
-/

namespace ChipEight.Terminal

inductive Call
  | start
  | cursor (mode : Setting Int) (accepted : Bool)
  | echo (on : Bool)
  | unbuffered (on : Bool)
  | stop
  | newPad (rows columns : Int)
  | clearScreen
  | refreshScreen
  | resize (rows columns : Int)
  | showPad (bottom right : Int) (pad : Pad)

structure Host where
  /-- Rows and columns, as they are found each time; the last size stays. -/
  sizes : List (Int × Int)
  cursorChanges : Option Nat
  resizable : Bool
  calls : Array Call

namespace Host

def standardSize : Int × Int := (34, 130)

def call (h : Host) (c : Call) : Host := { h with calls := h.calls.push c }

def size (h : Host) : (Int × Int) × Host :=
  match h.sizes with
  | [] => (standardSize, h)
  | [last] => (last, h)
  | first :: rest => (first, { h with sizes := rest })

/-- Whether the cursor can be changed is up to the terminal alone: it looks at no mode, not even
at whether the setting is blank. -/
def setCursor (h : Host) (mode : Setting Int) : Bool × Host :=
  match h.cursorChanges with
  | none => (true, h.call (.cursor mode true))
  | some 0 => (false, h.call (.cursor mode false))
  | some (n + 1) => (true, { h.call (.cursor mode true) with cursorChanges := some n })

end Host

end ChipEight.Terminal
