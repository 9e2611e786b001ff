import ChipEight.Attempt
import ChipEight.Banner
import ChipEight.Display.Signal
import ChipEight.Room
import ChipEight.Setting
import ChipEight.Window.Palette

/-!
# The picture in a window

Pixels are kept in a buffer of colours, row by row.  A refresh hands the buffer to the window
system, smooths it as often as asked for and stretches it to the size of the window.
-/

namespace ChipEight.Window

inductive Call
  | start
  | stop
  | flip
  | caption (text : String)
  | mode (width height : Int)
  | image (width height : Int) (pixels : Array Colour)
  | double
  | stretch (width height : Int)
  | draw

structure Surface where
  width : Int
  height : Int
  title : String
  palette : Palette
  smoothing : Setting Int
  windowWidth : Int
  windowHeight : Int
  pixels : Array Colour
  calls : Array Call

namespace Surface

def standardScale : Int := 512

def call (s : Surface) (c : Call) : Surface := { s with calls := s.calls.push c }

/-- An empty buffer is not shown.  How often to smooth is not looked at before there is an
image. -/
def refresh (s : Surface) (changed : Bool) : Attempt Surface Unit :=
  if changed && !s.pixels.isEmpty then
    let s := s.call (.image s.width s.height s.pixels)
    (Attempt.ofExcept s s.smoothing.number).andThen fun s times =>
      let shown := List.replicate times.toNat Call.double ++
        [.stretch s.windowWidth s.windowHeight, .draw, .flip]
      .succeed { s with calls := s.calls ++ shown.toArray } ()
  else .succeed s ()

/-- The buffer of a display, all dark.  Where both sides are negative no pixel is visited, and
the buffer stays black. -/
def blankPixels (palette : Palette) (width height : Int) : Array Colour :=
  Array.replicate (width * height).toNat (if 0 ≤ width then palette.background else default)

/-- A new buffer, three bytes for each pixel, is made before anything changes. -/
def setResolution [Room] (s : Surface) (width height : Int) : Attempt Surface Unit :=
  (Attempt.ofExcept s (Room.check (width * height * 3))).andThen fun s _ =>
    if width * height < 0 then .refuse s .bufferSize
    else { s with width, height, pixels := blankPixels s.palette width height }.refresh true

/-- The place in the buffer that a pixel number leads to.  Numbers from the end are taken
except for the last pixel, whose end would wrap around to the start. -/
def place? (s : Surface) (number : Int) : Option Nat :=
  if 0 ≤ number ∧ number < s.pixels.size then some number.toNat
  else if -(s.pixels.size : Int) ≤ number ∧ number < -1 then
    some (number + s.pixels.size).toNat
  else none

def setPixel (s : Surface) (x y value : Int) : Attempt Surface Unit :=
  (Attempt.ofExcept s (s.palette.lookUp value)).andThen fun s colour =>
    match s.place? (y * s.width + x) with
    | some place => .succeed { s with pixels := s.pixels.setIfInBounds place colour } ()
    | none => .refuse s .pixelRange

def setTitle (s : Surface) (title : String) : Surface := { s.call (.caption title) with title }

def stop (s : Surface) : Surface := s.call .stop

/-- Opens a window.  It is half as high as it is wide, and is there before the palette is
read.  As yet there is no picture to show. -/
def start (scale : Option (Setting Int)) (palette : Option (Setting String))
    (smoothing : Setting Int) : Attempt (Array Call) Surface :=
  let calls := #[.start, .caption Banner.name]
  (Attempt.ofExcept calls (scale.getD (.value standardScale)).number).andThen fun calls width =>
  let height := width.fdiv 2
  let calls := calls.push (.mode width height)
  (Attempt.ofExcept calls (palette.mapM Setting.text)).andThen fun calls palette =>
  (Attempt.ofExcept calls (Palette.read palette)).andThen fun calls palette =>
    .succeed calls
      { width := 0, height := 0, title := "", palette, smoothing, windowWidth := width
        windowHeight := height, pixels := #[], calls }

def receive [Room] (s : Surface) : Signal → Attempt Surface Unit
  | .resolution width height => s.setResolution width height
  | .pixel x y lit => s.setPixel x y (if lit then 1 else 0)
  | .refresh changed => s.refresh changed
  | .title text => .succeed (s.setTitle text) ()

end Surface

end ChipEight.Window
