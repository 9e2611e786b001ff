import ChipEight.CommandLine.Help

/-!
# The program

Runs a ROM in real time without a screen.  Windows and terminals are display systems that this
program does not find on its host.
-/

namespace ChipEight

def readClocks : IO (Moment Float) := do
  let t := Float.ofNat (← IO.monoNanosNow) / 1.0e9
  return ⟨t, t⟩

partial def waitUntil (due : Float) : IO Unit := do
  let now ← readClocks
  if now.steady < due then waitUntil due

/-- Turns the loop of a session in real time.  One turn draws at most one random value. -/
partial def playOn (traced : Bool) (s : Session Float Headless) :
    IO (Attempt (Session Float Headless) Unit) := do
  let now ← readClocks
  let value ← IO.rand 0 255
  let turned := s.turn (Headless.frontEnd Float) ⟨fun _ => value, traced⟩ now
  for line in turned.state.printed do
    IO.println line
  let s := { turned.state with printed := #[] }
  match turned.result with
  | .error e => return .refuse s e
  | .ok .quit => return .succeed s ()
  | .ok (.next due) =>
    if let some due := due then waitUntil due
    playOn traced s

def readFile (name : String) : IO (Option (List UInt8)) := do
  try
    return some (← IO.FS.readBinFile name).toList
  catch _ =>
    return none

def reason (e : Error) : String :=
  match e with
  | .missingFile => "The ROM file cannot be read."
  | e => e.message?.getD "The program cannot be run with these options."

def failWith (e : Error) : IO UInt32 := do
  IO.eprintln (reason e)
  return 1

def playRom (o : Options) (rom : List UInt8) (look : Launch.Look) : IO UInt32 := do
  let parts : Attempt Headless (Launch.Parts Float) :=
    Launch.assemble (Headless.rig Float) o (Headless.new look.scale)
  match parts.result with
  | .error e => failWith e
  | .ok found =>
    let loaded := found.machine.load rom
    let session := Session.start loaded.state parts.state found.interval
    let played ← match loaded.result with
      | .error e => pure (Attempt.refuse session e)
      | .ok () => playOn found.traced session
    let finish := Launch.finish #[] played.state.machine played.result
    for line in finish.printed do
      IO.println line
    match finish.result with
    | .ok code => return UInt32.ofNat code
    | .error e => failWith e

def launch (o : Options) : IO UInt32 := do
  IO.println Launch.greeting
  let rom ← readFile (o.filename.getD "")
  let world : World Float :=
    { hasWindow := false, hasTerminal := false, files := fun _ => rom, clock := []
      random := fun _ => 0, terminal := ⟨[], none, true, #[]⟩, characters := [], events := [] }
  match Launch.settle world o with
  | .error e => failWith e
  | .ok (_, rom, look) => playRom o rom look

end ChipEight

open ChipEight

def main (arguments : List String) : IO UInt32 := do
  match CommandLine.Settings.ofArguments arguments with
  | .ok s => launch s.options
  | .error .help =>
    IO.println CommandLine.Help.text
    return 0
  | .error .usage =>
    IO.eprintln CommandLine.Help.usage
    return 2
