import ChipEight.Instruction.Assembly
import ChipEight.Machine.Execute
import ChipEight.Machine.Report

/-!
# Stepping a machine

One step fetches, decodes and executes at most one instruction and then ticks both timers.  A
machine that waits for a key only looks at the keypad.  A fault puts the program counter back,
and such a step ticks no timer.
-/

namespace ChipEight

structure Outcome where
  /-- The instruction executed, unless the machine was waiting for a key. -/
  instruction : Option Instruction
  displayChanged : Bool
  delay : Int
  sound : Int
  waiting : Bool

/-- A step: its outcome, the machine afterwards, the signals to the display's watcher and the
trace line, if one was asked for. -/
structure Step where
  result : Except Error Outcome
  machine : Machine
  signals : List Signal
  trace : Option String

namespace Machine

def tick (m : Machine) : Machine :=
  { m with
    delay := if 0 < m.delay then m.delay - 1 else m.delay
    sound := if 0 < m.sound then m.sound - 1 else m.sound }

def complete (m : Machine) (instruction : Option Instruction) (signals : List Signal)
    (trace : Option String) : Step :=
  let m := m.tick
  let (displayChanged, display) := m.display.takeChanged
  { result := .ok
      { instruction, displayChanged, delay := m.delay, sound := m.sound, waiting := m.isWaiting }
    machine := { m with display }
    signals, trace }

def takeKey (m : Machine) (target : Register) : Machine :=
  match m.keypad.first? with
  | some key => { m.setRegister target (UInt8.ofNat key.val) with phase := .running }
  | none => m

/-- The machine after a refused instruction: a fault takes the program counter back to
`counter`. -/
def refuse (m : Machine) (counter : Int) (e : Error) : Machine :=
  if e.isFault then { m with counter } else m

def perform (s : Surroundings) (m : Machine) (counter : Int) (word : Int) : Step :=
  let m := { m with lastWord := word, counter := m.counter + 2 }
  match Instruction.decode word with
  | .error e => { result := .error e, machine := m.refuse counter e, signals := [], trace := none }
  | .ok instruction =>
    let trace := if s.traced then some (m.line instruction.assembly) else none
    let work := m.execute s instruction.operation
    let after := work.state.1
    let signals := work.state.2
    match work.result with
    | .error e => { result := .error e, machine := after.refuse counter e, signals, trace }
    | .ok () => after.complete (some instruction) signals trace

def step (s : Surroundings) (m : Machine) : Step :=
  match m.phase with
  | .waitingForKey target => (m.takeKey target).complete none [] none
  | .running =>
    let m := { m with lastCounter := m.counter }
    match m.fetch with
    | .error e => { result := .error e, machine := m, signals := [], trace := none }
    | .ok word => m.perform s m.counter word

end Machine

end ChipEight
