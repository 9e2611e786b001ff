import ChipEight.Attempt
import ChipEight.Keymap

/-!
# Reading characters

A terminal delivers characters.  The reader lower-cases them, looks them up in the keymap and
queues the keys they stand for, at most sixteen at a time; further keys are dropped.  Escape
and control-C queue a marker that asks to quit.  The marker is never dropped: if the queue is
full the reader holds it until there is room.
-/

namespace ChipEight.Terminal

structure Reader where
  keymap : Keymap
  /-- Keys that wait to be collected; `none` is the marker that asks to quit. -/
  queue : List (Option (Fin 16))
  /-- The reader holds the marker until the queue has room for it. -/
  holding : Bool
  stopped : Bool
  dismissed : Bool

namespace Reader

def new (keymap : Keymap) : Reader := ⟨keymap, [], false, false, false⟩

def capacity : Nat := 16

def escape : Int := 27

def interrupt : Int := 3

def hasRoom (r : Reader) : Bool := r.queue.length < capacity

def listens (r : Reader) : Bool := !(r.dismissed || r.stopped || r.holding)

def settle (r : Reader) : Reader :=
  if r.holding && r.hasRoom then
    { r with queue := r.queue ++ [none], holding := false, stopped := true }
  else r

def take (r : Reader) (code : Int) : Reader :=
  match r.keymap.key? code with
  | some key => if r.hasRoom then { r with queue := r.queue ++ [some key] } else r
  | none => r

/-- Reads one character code.  Negative codes stand for no character.  A code without lower
case stops the reader for good. -/
def read (r : Reader) (code : Int) : Attempt Reader Unit :=
  if code < 0 then .succeed r ()
  else match LowerCase.ofCode code with
    | .error e => .refuse { r with stopped := true } e
    | .ok lowered =>
      if lowered = escape ∨ lowered = interrupt then .succeed { r with holding := true }.settle ()
      else .succeed (r.take lowered) ()

inductive Halt
  | finished
  | outOfCharacters
  deriving DecidableEq, Repr

def readAll (r : Reader) : List Int → Attempt Reader Halt
  | [] => .succeed r (if r.listens then .outOfCharacters else .finished)
  | code :: rest =>
    if r.listens then (r.read code).andThen fun r _ => r.readAll rest
    else .succeed r .finished

def resume (r : Reader) (codes : List Int) : Attempt Reader Halt :=
  { r with holding := false, stopped := false }.readAll codes

def dismiss (r : Reader) : Reader := { r with dismissed := true }

end Reader

end ChipEight.Terminal
