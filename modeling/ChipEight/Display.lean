import ChipEight.Attempt
import ChipEight.Bank
import ChipEight.Banner
import ChipEight.Layout
import ChipEight.Display.Signal

/-!
# The display

A picture of pixels, row after row.  Sprites start at a position wrapped around the display
and are clipped at its right and bottom edges.  A set sprite bit either forces its pixel on
or toggles it; whether it met a lit pixel is reported in the same way in both modes.

A watched display answers every change of a pixel with a signal.  Without a watcher the
pictures are the same and nothing is sent.
-/

namespace ChipEight

structure Display where
  width : Int
  height : Int
  plane : Bank Bool
  changed : Bool
  /-- Set sprite bits toggle pixels instead of forcing them on. -/
  toggles : Bool
  watched : Bool

namespace Display

def tell (d : Display) (signals : List Signal) : List Signal :=
  if d.watched then signals else []

/-- Width and height change in any case.  If there is no room for so many pixels, the plane
stays as it was and nobody is told. -/
def resize [Room] (d : Display) (width height : Int) : Attempt Display (List Signal) :=
  let d := { d with width, height }
  (Attempt.ofExcept d (Bank.allocate (width * height))).andThen fun d plane =>
    .succeed { d with plane, changed := true } (d.tell [.resolution width height])

def reportRate (d : Display) (frames operations : Int) : List Signal :=
  d.tell [.title (Banner.title frames operations)]

/-- A dark display of the standard size, and what its watcher hears at first. -/
def new (toggles watched : Bool) : Display × List Signal :=
  let width := Layout.displayWidth
  let height := Layout.displayHeight
  let d : Display :=
    { width, height, plane := Bank.ofSize (width * height), changed := true, toggles, watched }
  (d, d.tell [.resolution width height] ++ d.reportRate 0 0)

/-- The address of a pixel in the plane.  It is taken as it comes, so a negative column leads
into the row above. -/
def place (d : Display) (x y : Int) : Int := y * d.width + x

/-- Tells of the pixels of a row what the plane holds for them, up to the first that it has no
cell for. -/
def tellRow (d : Display) (x y : Int) : Nat → Attempt (List Signal) Unit
  | 0 => .succeed [] ()
  | count + 1 =>
    match d.plane.read (d.place x y) with
    | .error cause => .refuse [] cause
    | .ok lit => (d.tellRow (x + 1) y count).mapState (.pixel x y lit :: ·)

def tellRows (d : Display) (y : Int) : Nat → Attempt (List Signal) Unit
  | 0 => .succeed [] ()
  | count + 1 =>
    let row := d.tellRow 0 y d.width.toNat
    match row.result with
    | .error cause => .refuse row.state cause
    | .ok () => (d.tellRows (y + 1) count).mapState (row.state ++ ·)

/-- The display with all its pixels off. -/
def cleared (d : Display) : Display := { d with plane := d.plane.clear, changed := true }

/-- Every pixel is turned off, and the watcher is told of one pixel after the other.  If the last
new size was refused, that ends where the plane does. -/
def clear (d : Display) : Attempt (Display × List Signal) Unit :=
  (if d.watched then d.cleared.tellRows 0 d.height.toNat else .succeed [] ()).mapState fun told =>
    (d.cleared, told)

/-- Draws one set sprite bit, and says whether the pixel was lit before.  A pixel beyond the
right or bottom edge is dropped, with no answer. -/
def plot (d : Display) (x y : Int) : Attempt (Display × List Signal) (Option Bool) :=
  if d.width ≤ x ∨ d.height ≤ y then .succeed (d, []) none
  else
    (Attempt.ofExcept (d, []) (d.plane.read (d.place x y))).followedBy fun d lit =>
      let next := !d.toggles || !lit
      if next = lit then .succeed (d, []) (some lit)
      else
        .succeed ({ d with plane := d.plane.put (d.place x y) next, changed := true },
          d.tell [.pixel x y next]) (some lit)

/-- Whether a row of a sprite has its bit set at a column, the most significant bit at the
left. -/
def rowBit (row : UInt8) (column : Nat) : Bool := row.toNat.testBit (7 - column)

def drawRow (d : Display) (x y : Int) (row : UInt8) :
    List Nat → Attempt (Display × List Signal) Bool
  | [] => .succeed (d, []) false
  | column :: rest =>
    if rowBit row column then
      (d.plot (x + column) y).followedBy fun d lit =>
      (d.drawRow x y row rest).followedBy fun d hit =>
        .succeed (d, []) (lit == some true || hit)
    else d.drawRow x y row rest

def drawRows (d : Display) (x y : Int) : List UInt8 → Attempt (Display × List Signal) Bool
  | [] => .succeed (d, []) false
  | row :: rest =>
    if d.height ≤ y then .succeed (d, []) false
    else
      (d.drawRow x y row (List.range 8)).followedBy fun d hit =>
      (d.drawRows x (y + 1) rest).followedBy fun d hits =>
        .succeed (d, []) (hit || hits)

/-- Draws a sprite at a position that wraps around the display, and says whether a set bit met
a lit pixel.  Where a pixel is refused, those before it stay drawn. -/
def draw (d : Display) (x y : Int) (rows : List UInt8) : Attempt (Display × List Signal) Bool :=
  if d.width = 0 ∨ d.height = 0 then .refuse (d, []) .emptyDisplay
  else d.drawRows (x.fmod d.width) (y.fmod d.height) rows

def isLit (d : Display) (x y : Int) : Except Error Bool := d.plane.read (d.place x y)

/-- The values of a sequence, as many as asked for, up to the first that is refused. -/
def gather {α : Type} (value : Nat → Except Error α) (first : Nat) : Nat → Except Error (List α)
  | 0 => .ok []
  | count + 1 => do
    let here ← value first
    let rest ← gather value (first + 1) count
    .ok (here :: rest)

/-- A pixel of the picture, looked up in the plane without a check of its address. -/
def lookUp (d : Display) (x y : Int) : Except Error Bool :=
  (d.plane.get? (d.place x y)).elim (.error .noSuchEntry) .ok

/-- The picture, row after row.  If the last new size was refused, the plane ends too early for
it. -/
def snapshot (d : Display) : Except Error (List (List Bool)) :=
  gather (fun y => gather (fun x => d.lookUp x y) 0 d.width.toNat) 0 d.height.toNat

/-- Whether anything was drawn since the last call; from now on nothing was. -/
def takeChanged (d : Display) : Bool × Display := (d.changed, { d with changed := false })

def refresh (d : Display) (changed : Bool) : List Signal := d.tell [.refresh changed]

end Display

end ChipEight
