import ChipEight.Bank
import ChipEight.CallStack
import ChipEight.Display
import ChipEight.Instruction
import ChipEight.Keypad

/-!
# The machine

The state a program runs on: memory, registers, timers, call stack, display and keypad,
together with the phase of a pending key wait and a record of the latest instruction for
reports.

The index register, the program counter and the timers are integers.  The machine keeps them
small by itself, but a host may set them to anything.
-/

namespace ChipEight

abbrev Registers := Vector UInt8 16

inductive Phase
  | running
  /-- The next key that is down goes into this register. -/
  | waitingForKey (target : Register)
  deriving DecidableEq, Repr

structure Machine where
  memory : Memory
  registers : Registers
  index : Int
  counter : Int
  delay : Int
  sound : Int
  stack : CallStack
  display : Display
  keypad : Keypad
  phase : Phase
  lastCounter : Int
  lastWord : Int
  draws : Nat

namespace Machine

def freshMemory : Memory := (Bank.ofSize Layout.memorySize).putList Layout.fontStart Layout.font

/-- Back to the first instruction with clean memory, a dark display and all keys up.  Only the
sizes of stack and display, the drawing mode and the place in the random stream stay.  A machine
has a display whose plane has a cell for each pixel, and to clear that is never refused. -/
def reset (m : Machine) : Machine × List Signal :=
  let (display, signals) := m.display.clear.state
  ({ memory := freshMemory
     registers := Vector.replicate 16 0
     index := 0
     counter := Layout.programStart
     delay := 0
     sound := 0
     stack := m.stack.clear
     display := display
     keypad := Keypad.released
     phase := .running
     lastCounter := Layout.programStart
     lastWord := 0
     draws := m.draws }, signals)

def new (display : Display) (capacity : Int) : Machine × List Signal :=
  reset
    { memory := Bank.ofSize 0
      registers := Vector.replicate 16 0
      index := 0
      counter := 0
      delay := 0
      sound := 0
      stack := CallStack.empty capacity
      display := display
      keypad := Keypad.released
      phase := .running
      lastCounter := 0
      lastWord := 0
      draws := 0 }

def load (m : Machine) (program : List UInt8) : Attempt Machine Unit :=
  if Layout.programLimit < program.length then
    .refuse m (.fault (.romTooLarge program.length Layout.programLimit))
  else
    (m.memory.writeBlock Layout.programStart program).mapState fun memory => { m with memory }

def setKey (m : Machine) (key : Int) (down : Bool) : Attempt Machine Unit :=
  (Attempt.ofExcept m (m.keypad.setKey key down)).andThen fun m keypad =>
    .succeed { m with keypad } ()

def isWaiting (m : Machine) : Bool :=
  match m.phase with
  | .running => false
  | .waitingForKey _ => true

def fetch (m : Machine) : Except Error Int := do
  let bytes ← m.memory.readBlock m.counter 2
  .ok (bytes.foldl (fun word byte => 256 * word + byte.toNat) (0 : Nat))

end Machine

end ChipEight
