import ChipEight.Attempt
import ChipEight.Display.Signal
import ChipEight.Room
import ChipEight.Terminal.Host

/-!
# The picture on a terminal

Each pixel is a run of blanks as wide as the scale, in reverse video when lit.  The top row is
kept for the title, and the pad has one column to spare so that its last cell is never
written.
-/

namespace ChipEight.Terminal

structure Screen where
  host : Host
  scale : Int
  cursorMode : Setting Int
  pad : Pad
  title : String
  width : Int
  height : Int
  pending : Bool
  lastSize : Int × Int

namespace Screen

def standardScale : Int := 2

def plainCursor : Setting Int := .value 1

def call (s : Screen) (c : Call) : Screen := { s with host := s.host.call c }

/-- Asks for a pad with a row for the title and a spare column.  A pad without rows takes no
room, however wide it is. -/
def setResolution [Room] (s : Screen) (width height : Int) : Attempt Screen Unit :=
  let rows := height + 1
  let columns := width * s.scale + 1
  let s := s.call (.newPad rows columns)
  (Attempt.ofExcept s (if 0 < rows then Room.check columns else .ok ())).andThen fun s _ =>
    .succeed { s with pad := Pad.new rows columns, width, height } ()

/-- Takes a terminal over.  Before it is touched, the scale is looked at and room is asked for
the blanks of one pixel.  If the terminal refuses to change its cursor, the work stops there. -/
def start [Room] (host : Host) (scale : Option (Setting Int)) (cursorMode : Setting Int) :
    Attempt Host Screen :=
  (Attempt.ofExcept host (scale.getD (.value standardScale)).number).andThen fun host scale =>
  (Attempt.ofExcept host (Room.check scale)).andThen fun host _ =>
  let (accepted, host) := (host.call .start).setCursor cursorMode
  if accepted then
    let host := (host.call (.echo false)).call (.unbuffered true)
    let bare : Screen :=
      { host := host, scale := scale, cursorMode, pad := Pad.new 0 0, title := ""
        width := 0, height := 0, pending := false, lastSize := (-1, -1) }
    let opened := bare.setResolution 0 0
    ⟨opened.state.host, opened.result.map fun _ => opened.state⟩
  else .refuse host .terminal

/-- Writes a text and that many blanks behind it to the pad, or is refused and writes nothing.
A negative number of blanks is none. -/
def write (s : Screen) (row column : Int) (text : List Char) (blanks : Int) (reversed : Bool) :
    Attempt Screen Unit :=
  if s.pad.Fits row column (text.length + blanks.toNat) then
    let text := text ++ List.replicate blanks.toNat ' '
    .succeed { s with pad := s.pad.put row column text reversed, pending := true } ()
  else .refuse s .terminal

def setPixel (s : Screen) (x y : Int) (lit : Bool) : Attempt Screen Unit :=
  s.write (y + 1) (x * s.scale) [] s.scale lit

/-- A title is shown if it is shorter than the picture is wide, with blanks up to its right
edge.  A title that was not refused is kept. -/
def setTitle [Room] (s : Screen) (title : String) : Attempt Screen Unit :=
  let blanks := s.width * s.scale - title.length
  let shown :=
    if 0 < blanks then
      (Attempt.ofExcept s (Room.check blanks)).andThen fun s _ =>
        s.write 0 0 title.toList blanks true
    else .succeed s ()
  shown.andThen fun s _ => .succeed { s with title } ()

/-- Shows the pad if it was written to or may have changed.  When the size of the screen is
not as it was, the screen is cleared instead, and the pad follows at the next refresh. -/
def refresh (s : Screen) (changed : Bool) : Screen :=
  let ((rows, columns), host) := s.host.size
  let s := { s with host }
  if (rows, columns) = s.lastSize then
    if s.pending || changed then
      { s.call (.showPad (rows - 1) (columns - 1) s.pad) with
        pad := { s.pad with writes := 0 }, pending := false }
    else s
  else
    let s := s.call .clearScreen
    let s := if s.host.resizable then s.call (.resize rows columns) else s
    { s.call .refreshScreen with lastSize := (rows, columns), pending := true }

def stop (s : Screen) : Screen :=
  let s := (s.call (.unbuffered false)).call (.echo true)
  if s.cursorMode = plainCursor then s.call .stop
  else { s with host := (s.host.setCursor plainCursor).2 }.call .stop

def receive [Room] (s : Screen) : Signal → Attempt Screen Unit
  | .resolution width height => s.setResolution width height
  | .pixel x y lit => s.setPixel x y lit
  | .refresh changed => .succeed (s.refresh changed) ()
  | .title text => s.setTitle text

end Screen

end ChipEight.Terminal
