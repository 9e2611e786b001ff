import ChipEight.Machine

/-!
# Executing an operation

What each operation does to a machine whose program counter has already moved past the
instruction.  An operation works on one part of the machine after the other.  Where a part
refuses, what was done before stays done.

Flags are worked out from the operands first and VF is written last, so where VF is an operand
or the target as well, the flag stands.
-/

namespace ChipEight

/-- What a machine is given from outside while it runs: a stream of random values, and whether
each instruction is to be traced. -/
structure Surroundings where
  random : Nat → Int
  traced : Bool

namespace Machine

def flagRegister : Register := ⟨15, by decide⟩

def setRegister (m : Machine) (x : Register) (value : UInt8) : Machine :=
  { m with registers := m.registers.set x value }

def setFlagged (m : Machine) (x : Register) (value : UInt8) (flag : UInt8) : Machine :=
  (m.setRegister x value).setRegister flagRegister flag

def jumpTo (m : Machine) (target : Int) : Machine := { m with counter := target }

def skipIf (m : Machine) (condition : Bool) : Machine :=
  if condition then { m with counter := m.counter + 2 } else m

def flagOf (condition : Bool) : UInt8 := if condition then 1 else 0

def decimalDigits (value : UInt8) : List UInt8 := [value / 100, value / 10 % 10, value % 10]

def registersUpTo (m : Machine) (x : Register) : List UInt8 := m.registers.toList.take (x.val + 1)

def loadRegisterList (registers : Registers) (values : List UInt8) : Registers :=
  Vector.ofFn fun r => values[r.val]?.getD (registers.get r)

/-- Work on a machine, with the signals sent to the display's watcher on the way. -/
abbrev Work (α : Type) : Type := Attempt (Machine × List Signal) α

def silent (m : Machine) : Work Unit := .succeed (m, []) ()

def ask {α : Type} (m : Machine) (answer : Except Error α) : Work α := .ofExcept (m, []) answer

def onMemory {α : Type} (m : Machine) (work : Memory → Attempt Memory α) : Work α :=
  (work m.memory).mapState fun memory => ({ m with memory }, [])

def onStack {α : Type} (m : Machine) (work : CallStack → Attempt CallStack α) : Work α :=
  (work m.stack).mapState fun stack => ({ m with stack }, [])

def onDisplay {α : Type} (m : Machine)
    (work : Display → Attempt (Display × List Signal) α) : Work α :=
  (work m.display).mapState fun drawn => ({ m with display := drawn.1 }, drawn.2)

def execute (s : Surroundings) (m : Machine) (operation : Operation) : Work Unit :=
  let v := m.registers
  match operation with
  | .clearDisplay => m.onDisplay fun display => .succeed display.clear.state ()
  | .ret => (m.onStack CallStack.pop).followedBy fun m target => silent (m.jumpTo target)
  | .jump target => silent (m.jumpTo target.val)
  | .call target =>
    (m.onStack fun stack => stack.push m.counter).followedBy fun m _ =>
      silent (m.jumpTo target.val)
  | .skipIfByte x byte => silent (m.skipIf (v[x] == byte))
  | .skipUnlessByte x byte => silent (m.skipIf (v[x] != byte))
  | .skipIfEqual x y => silent (m.skipIf (v[x] == v[y]))
  | .loadByte x byte => silent (m.setRegister x byte)
  | .addByte x byte => silent (m.setRegister x (v[x] + byte))
  | .copy x y => silent (m.setRegister x v[y])
  | .or x y => silent (m.setRegister x (v[x] ||| v[y]))
  | .and x y => silent (m.setRegister x (v[x] &&& v[y]))
  | .xor x y => silent (m.setRegister x (v[x] ^^^ v[y]))
  | .add x y =>
    silent (m.setFlagged x (v[x] + v[y]) (flagOf (255 < v[x].toNat + v[y].toNat)))
  | .sub x y => silent (m.setFlagged x (v[x] - v[y]) (flagOf (v[y] < v[x])))
  | .shiftRight x => silent (m.setFlagged x (v[x] >>> 1) (v[x] &&& 1))
  | .subFrom x y => silent (m.setFlagged x (v[y] - v[x]) (flagOf (v[x] < v[y])))
  | .shiftLeft x => silent (m.setFlagged x (v[x] <<< 1) (v[x] >>> 7))
  | .skipUnlessEqual x y => silent (m.skipIf (v[x] != v[y]))
  | .loadIndex target => silent { m with index := target.val }
  | .jumpOffset target => silent (m.jumpTo (target.val + (v.get ⟨0, by decide⟩).toNat))
  | .random x byte =>
    silent ({ m with draws := m.draws + 1 }.setRegister x (UInt8.ofInt (s.random m.draws) &&& byte))
  | .draw x y rows =>
    -- the whole sprite is read before anything is drawn
    (m.ask (m.memory.readBlock m.index rows.val)).followedBy fun m sprite =>
    (m.onDisplay fun display => display.draw v[x].toNat v[y].toNat sprite).followedBy fun m hit =>
      silent (m.setRegister flagRegister (flagOf hit))
  | .skipIfKey x =>
    (m.ask (m.keypad.isDown v[x].toNat)).followedBy fun m down => silent (m.skipIf down)
  | .skipUnlessKey x =>
    (m.ask (m.keypad.isDown v[x].toNat)).followedBy fun m down => silent (m.skipIf !down)
  | .readDelay x =>
    (m.ask (byteOfInt m.delay)).followedBy fun m value => silent (m.setRegister x value)
  | .awaitKey x => silent { m with phase := .waitingForKey x }
  | .setDelay x => silent { m with delay := v[x].toNat }
  | .setSound x => silent { m with sound := v[x].toNat }
  | .addIndex x => silent { m with index := (m.index + v[x].toNat) % 65536 }
  | .loadGlyph x => silent { m with index := Layout.fontStart + Layout.glyphSize * v[x].toNat }
  | .storeDecimal x => m.onMemory fun memory => memory.writeBlock m.index (decimalDigits v[x])
  | .storeRegisters x => m.onMemory fun memory => memory.writeBlock m.index (m.registersUpTo x)
  | .loadRegisters x =>
    (m.ask (m.memory.readBlock m.index (x.val + 1))).followedBy fun m values =>
      silent { m with registers := loadRegisterList m.registers values }

end Machine

end ChipEight
