import ChipEight.Attempt
import ChipEight.Machine.Step
import ChipEight.Session.Instant

/-!
# A session

The loop that drives a machine in time.  A turn reports the rates once a second, polls the
keys and refreshes the picture sixty times a second, and then steps the machine once.  With a
clock speed the next turn waits until its time has come.

A front end is whatever shows the picture and delivers keys.  The clock is a list of readings.
-/

namespace ChipEight

/-- One reading of the clocks: the steady clock that paces the session, and the wall clock as
it stands after that reading. -/
structure Moment (τ : Type) where
  steady : τ
  wall : τ

/-- What a poll of the keys gave: whether to quit, and the keypad and the front end after it. -/
structure Poll (σ : Type) where
  quit : Except Error Bool
  keypad : Keypad
  state : σ

structure FrontEnd (τ σ : Type) where
  receive : σ → Signal → Attempt σ Unit
  poll : σ → Moment τ → Machine → Poll σ

namespace FrontEnd

def receiveAll {τ σ : Type} (f : FrontEnd τ σ) (state : σ) : List Signal → Attempt σ Unit
  | [] => .succeed state ()
  | signal :: rest => (f.receive state signal).andThen fun state _ => f.receiveAll state rest

end FrontEnd

structure Session (τ σ : Type) where
  machine : Machine
  frontEnd : σ
  /-- Time from one turn to the next, or none to run without a pause. -/
  interval : Option τ
  dirty : Bool
  /-- From when on keys are polled and the picture refreshed again. -/
  nextPoll : τ
  /-- From when on the rates are reported again. -/
  nextReport : τ
  frames : Nat
  operations : Nat
  printed : Array String

namespace Session

variable {τ σ : Type} [Instant τ]

def standardSpeed : Int := 60

def pollRate : Nat := 60

/-- The time between steps at a clock speed; zero and below mean no pause. -/
def intervalOf (speed : Option Int) : Except Error (Option τ) :=
  let speed := speed.getD standardSpeed
  if speed ≤ 0 then .ok none
  else if Instant.fits τ speed.toNat then .ok (some (Instant.ratio 1 speed.toNat))
  else .error .speedRange

def start (machine : Machine) (frontEnd : σ) (interval : Option τ) : Session τ σ where
  machine := machine
  frontEnd := frontEnd
  interval := interval
  dirty := true
  nextPoll := Instant.origin
  nextReport := Instant.origin
  frames := 0
  operations := 0
  printed := #[]

inductive Ending (τ : Type)
  | quit
  /-- The next turn starts at once, or waits for a reading that is not before a given time. -/
  | next (due : Option τ)

def send (f : FrontEnd τ σ) (s : Session τ σ) (signals : List Signal) :
    Attempt (Session τ σ) Unit :=
  (f.receiveAll s.frontEnd signals).mapState fun frontEnd => { s with frontEnd }

def report (f : FrontEnd τ σ) (now : τ) (s : Session τ σ) : Attempt (Session τ σ) Unit :=
  if Instant.le s.nextReport now then
    let s := { s with nextReport := Instant.nextSecond now }
    (s.send f (s.machine.display.reportRate s.frames s.operations)).andThen fun s _ =>
      .succeed { s with frames := 0, operations := 0 } ()
  else .succeed s ()

def refresh (f : FrontEnd τ σ) (s : Session τ σ) : Attempt (Session τ σ) Unit :=
  (s.send f (s.machine.display.refresh s.dirty)).andThen fun s _ =>
    .succeed { s with dirty := false, frames := s.frames + 1 } ()

/-- Polls the keys and, unless they ask to quit, refreshes the picture, if that is due.  Says
whether to quit. -/
def pollKeys (f : FrontEnd τ σ) (now : Moment τ) (s : Session τ σ) :
    Attempt (Session τ σ) Bool :=
  if Instant.le s.nextPoll now.steady then
    let poll := f.poll s.frontEnd now s.machine
    let s := { s with
      machine := { s.machine with keypad := poll.keypad }
      frontEnd := poll.state }
    (Attempt.ofExcept s poll.quit).andThen fun s quit =>
      if quit then .succeed s true
      else
        let s := { s with nextPoll := Instant.add now.steady (Instant.ratio 1 pollRate) }
        (s.refresh f).andThen fun s _ => .succeed s false
  else .succeed s false

def advance (f : FrontEnd τ σ) (surroundings : Surroundings) (s : Session τ σ) :
    Attempt (Session τ σ) Unit :=
  let step := s.machine.step surroundings
  let s := { s with
    machine := step.machine
    printed := match step.trace with
      | some line => s.printed.push line
      | none => s.printed }
  (s.send f step.signals).andThen fun s _ =>
  (Attempt.ofExcept s step.result).andThen fun s outcome =>
    .succeed
      { s with
        dirty := s.dirty || outcome.displayChanged
        operations := if outcome.instruction.isSome then s.operations + 1 else s.operations } ()

def turn (f : FrontEnd τ σ) (surroundings : Surroundings) (now : Moment τ) (s : Session τ σ) :
    Attempt (Session τ σ) (Ending τ) :=
  (s.report f now.steady).andThen fun s _ =>
  (s.pollKeys f now).andThen fun s quit =>
  if quit then .succeed s .quit
  else (s.advance f surroundings).andThen fun s _ =>
    .succeed s (.next (s.interval.map (Instant.add now.steady)))

/-- The readings after a wait.  The reading that ends the wait is used up by it. -/
def wait (due : Option τ) (clock : List (Moment τ)) : Option (List (Moment τ)) :=
  match due with
  | none => some clock
  | some due =>
    match clock.dropWhile fun now => !Instant.le due now.steady with
    | [] => none
    | _ :: rest => some rest

theorem length_le_of_wait {due : Option τ} {clock rest : List (Moment τ)}
    (h : wait due clock = some rest) : rest.length ≤ clock.length := by
  unfold wait at h
  split at h
  · simp_all
  · rename_i due
    have hl := (List.dropWhile_sublist (l := clock) fun now => !Instant.le due now.steady).length_le
    split at h
    · simp at h
    · rename_i heq
      simp only [Option.some.injEq] at h
      rw [heq] at hl
      simp only [List.length_cons, h] at hl
      omega

/-- Turns the loop until the keys ask to quit, something is refused, or the clock gives no more
readings. -/
def run (f : FrontEnd τ σ) (surroundings : Surroundings) (s : Session τ σ) :
    List (Moment τ) → Attempt (Session τ σ) Unit
  | [] => .refuse s .clockStopped
  | now :: clock =>
    (s.turn f surroundings now).andThen fun s ending =>
      match ending with
      | .quit => .succeed s ()
      | .next due =>
        match _h : wait due clock with
        | none => .refuse s .clockStopped
        | some rest => run f surroundings s rest
termination_by clock => clock.length
decreasing_by
  have := length_le_of_wait _h
  simp only [List.length_cons]
  omega

theorem run_nil (f : FrontEnd τ σ) (surroundings : Surroundings) (s : Session τ σ) :
    s.run f surroundings [] = .refuse s .clockStopped := by
  rw [run]

theorem run_cons (f : FrontEnd τ σ) (surroundings : Surroundings) (s : Session τ σ)
    (now : Moment τ) (clock : List (Moment τ)) :
    s.run f surroundings (now :: clock) =
      (s.turn f surroundings now).andThen fun s ending =>
        match ending with
        | .quit => .succeed s ()
        | .next due =>
          match wait due clock with
          | none => .refuse s .clockStopped
          | some rest => s.run f surroundings rest := by
  rw [run]
  congr 1
  funext s ending
  cases ending with
  | quit => rfl
  | next due =>
    dsimp only
    split
    · rename_i h
      rw [h]
    · rename_i h
      rw [h]

end Session

end ChipEight
