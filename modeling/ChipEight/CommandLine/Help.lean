import ChipEight.CommandLine.Settings

/-!
# Help on the command line
-/

namespace ChipEight.CommandLine

def Switch.summary : Switch → String
  | help => "show this help message and exit"
  | speed =>
    "set the CPU speed in steps/second (default " ++ toString Session.standardSpeed ++
      ").  Timers tick once per step, so other values change the timer rate too (0 = uncapped)"
  | renderer =>
    "set the rendering and input systems (pygame by default if available, otherwise curses)"
  | scale =>
    "set the window width in PyGame mode (default 512), and scale in Curses mode (default 2)"
  | smoothing =>
    "define the number of smoothing filter passes for higher quality rendering (default 0)"
  | keymap =>
    "redefine the 16 keyscan codes (PyGame) or character numbers (Curses).  " ++
      "Separate each decimal with a comma"
  | toggles =>
    "0 = set sprite pixels on when drawn (default), 1 = toggle them with classic XOR drawing"
  | cursorMode => "control cursor visibility in the Curses renderer"
  | palette =>
    "redefine the background and foreground colours for the PyGame renderer in hex, " ++
      "e.g. 222222,DDDDDD"
  | trace =>
    "enable live debug output.  Only visible in PyGame renderer during play.  Slows CPU execution"

def Switch.spelling (s : Switch) : String :=
  let value := if s.takesValue then " " ++ s.name.toUpper else ""
  let long := "--" ++ s.name ++ value
  match s.letter? with
  | some c => "-" ++ String.singleton c ++ value ++ ", " ++ long
  | none => long

namespace Help

def usage : String := "usage: chip8 [switches] filename"

def text : String :=
  usage ++ "\n\n  filename  ROM to execute (normally ending in .ch8 or .c8)\n\n" ++
    "\n".intercalate (Switch.all.map fun s => "  " ++ s.spelling ++ "\n      " ++ s.summary)

end Help

end ChipEight.CommandLine
