import ChipEight.Launch.Rig
import ChipEight.Machine.Report
import ChipEight.Setting

/-!
# Launching a program

From start options to an exit code: a display system is chosen, the ROM read, the parts set
up, the session played and everything closed again.  A fault of the machine ends in a crash
report and exit code 1.  Other refusals end the launch; those of a session do so only after
the parts were closed.
-/

namespace ChipEight

/-- The start options.  An option that was not supplied is `none`. -/
structure Options where
  renderer : Option (Option (Setting String))
  filename : Option String
  scale : Option (Option (Setting Int))
  palette : Option (Option (Setting String))
  cursorMode : Option (Setting Int)
  smoothing : Option (Setting Int)
  toggles : Option Bool
  keymap : Option (Setting String)
  traced : Option Bool
  speed : Option (Option (Setting Int))

/-- What a launch finds outside: display systems, files, a clock, random values, a terminal
with the characters typed at it, and the events of a window. -/
structure World (τ : Type) where
  hasWindow : Bool
  hasTerminal : Bool
  files : String → Option (List UInt8)
  clock : List (Moment τ)
  random : Nat → Int
  terminal : Terminal.Host
  characters : List Int
  events : List (List Window.Event)

namespace Launch

def greeting : String := Banner.intro ++ Banner.rights

def crashReport (m : Machine) (f : Fault) : String :=
  "Emulation halted.\n\n" ++ Banner.intro ++ "Debug info:\n" ++ m.dump "???" ++ "\n\n" ++ f.message

inductive Renderer
  | window
  | terminal
  | headless
  | unknown
  deriving DecidableEq, Repr

/-- The display system of that name.  Without a name, a window is preferred to a terminal.  A
blank is the name of none. -/
def chooseRenderer (hasWindow hasTerminal : Bool) (name : Option (Setting String)) :
    Except Error Renderer :=
  match name with
  | none =>
    if hasWindow then .ok .window
    else if hasTerminal then .ok .terminal
    else .error (.startup .noDisplay)
  | some .blank => .ok .unknown
  | some (.value name) =>
    if name = "pygame" then
      if hasWindow then .ok .window else .error (.startup .noWindow)
    else if name = "curses" then
      if hasTerminal then .ok .terminal else .error (.startup .noTerminal)
    else if name = "null" then .ok .headless
    else .ok .unknown

def require {α : Type} : Option α → Except Error α
  | some a => .ok a
  | none => .error .missingOption

def readRom (files : String → Option (List UInt8)) (filename : Option String) :
    Except Error (List UInt8) := do
  match files (← require filename) with
  | some rom => .ok rom
  | none => .error .missingFile

structure Look where
  scale : Option (Setting Int)
  palette : Option (Setting String)
  cursorMode : Setting Int
  smoothing : Setting Int

def look (o : Options) : Except Error Look := do
  .ok ⟨← require o.scale, ← require o.palette, ← require o.cursorMode, ← require o.smoothing⟩

section Play

variable {τ σ : Type} [Instant τ]

structure Parts (τ : Type) where
  machine : Machine
  traced : Bool
  interval : Option τ

/-- Sets the parts up.  Display and machine introduce themselves to the front end, and the
keymap is attached between the two. -/
def assemble (rig : Rig τ σ) (o : Options) (state : σ) : Attempt σ (Parts τ) :=
  (Attempt.ofExcept state (require o.toggles)).andThen fun state toggles =>
  let display := Display.new toggles true
  (rig.receiveAll state display.2).andThen fun state _ =>
  (Attempt.ofExcept state (require o.keymap >>= Setting.text)).andThen fun state keymap =>
  (rig.attach state keymap).andThen fun state _ =>
  (Attempt.ofExcept state (require o.traced)).andThen fun state traced =>
  let machine := Machine.new display.1 Layout.stackDepth
  (rig.receiveAll state machine.2).andThen fun state _ =>
  (Attempt.ofExcept state (require o.speed)).andThen fun state speed =>
  (Attempt.ofExcept state (speed.mapM Setting.number)).andThen fun state speed =>
  (Attempt.ofExcept state (Session.intervalOf speed)).andThen fun state interval =>
  .succeed state ⟨machine.1, traced, interval⟩

def session (rig : Rig τ σ) (random : Nat → Int) (clock : List (Moment τ)) (rom : List UInt8)
    (parts : Parts τ) (state : σ) : Attempt (Session τ σ) Unit :=
  let session := Session.start parts.machine state parts.interval
  let loaded := (parts.machine.load rom).mapState fun machine => { session with machine }
  loaded.andThen fun session _ => session.run rig.toFrontEnd ⟨random, parts.traced⟩ clock

/-- What is left of a launch: the exit code or the cause that ended it, and the lines
printed. -/
structure Finish where
  result : Except Error Nat
  printed : Array String

/-- A quit is exit code 0, and a fault is reported and is exit code 1. -/
def finish (printed : Array String) (m : Machine) : Except Error Unit → Finish
  | .ok () => ⟨.ok 0, printed⟩
  | .error (.fault f) => ⟨.ok 1, printed.push (crashReport m f)⟩
  | .error e => ⟨.error e, printed⟩

/-- Plays a ROM on a rig.  The rig is closed once the parts are there and the session is over,
however it ended.  Only then is a fault reported. -/
def play (rig : Rig τ σ) (random : Nat → Int) (clock : List (Moment τ)) (o : Options)
    (rom : List UInt8) (state : σ) : σ × Finish :=
  let parts := assemble rig o state
  match parts.result with
  | .error e => (parts.state, ⟨.error e, #[]⟩)
  | .ok found =>
    let played := session rig random clock rom found parts.state
    let s := played.state
    let closed := rig.close s.frontEnd
    (closed.state,
      match closed.result with
      | .ok () => finish s.printed s.machine played.result
      | .error e => ⟨.error e, s.printed⟩)

end Play

inductive Calls
  | none
  | terminal (calls : Array Terminal.Call)
  | window (calls : Array Window.Call)

variable {τ : Type} [Instant τ] [Room]

def playHeadless (w : World τ) (o : Options) (rom : List UInt8) (look : Look) : Calls × Finish :=
  (.none, (play (Headless.rig τ) w.random w.clock o rom (Headless.new look.scale)).2)

def playTerminal (w : World τ) (o : Options) (rom : List UInt8) (look : Look) : Calls × Finish :=
  let start := Terminal.Screen.start w.terminal look.scale look.cursorMode
  match start.result with
  | .error e => (.terminal start.state.calls, ⟨.error e, #[]⟩)
  | .ok screen =>
    let (station, finish) :=
      play Terminal.rig w.random w.clock o rom (Terminal.Station.new screen w.characters)
    (.terminal station.screen.host.calls, finish)

def playWindow (w : World τ) (o : Options) (rom : List UInt8) (look : Look) : Calls × Finish :=
  let start := Window.Surface.start look.scale look.palette look.smoothing
  match start.result with
  | .error e => (.window start.state, ⟨.error e, #[]⟩)
  | .ok surface =>
    let (station, finish) :=
      play (Window.rig τ) w.random w.clock o rom (Window.Station.new surface w.events)
    (.window station.surface.calls, finish)

def settle (w : World τ) (o : Options) : Except Error (Renderer × List UInt8 × Look) := do
  let renderer ← chooseRenderer w.hasWindow w.hasTerminal (← require o.renderer)
  let rom ← readRom w.files o.filename
  if renderer = .unknown then .error .unknownRenderer
  else .ok (renderer, rom, ← look o)

def run (w : World τ) (o : Options) : Calls × Finish :=
  let (calls, finish) : Calls × Finish := match settle w o with
    | .error e => (Calls.none, ⟨.error e, #[]⟩)
    | .ok (.window, rom, look) => playWindow w o rom look
    | .ok (.terminal, rom, look) => playTerminal w o rom look
    | .ok (_, rom, look) => playHeadless w o rom look
  (calls, { finish with printed := #[greeting] ++ finish.printed })

end Launch

end ChipEight
