import ChipEight.Headless
import ChipEight.Terminal.Keys
import ChipEight.Terminal.Screen
import ChipEight.Window.Events
import ChipEight.Window.Surface

/-!
# Rigs

A rig is a front end that can be set up and taken down: a keymap is attached to it before a
session, and afterwards it is closed, first the keys and then the screen.  There is one rig for
each display system.
-/

namespace ChipEight

structure Rig (τ σ : Type) extends FrontEnd τ σ where
  attach : σ → String → Attempt σ Unit
  releaseKeys : σ → Attempt σ Unit
  releaseScreen : σ → Attempt σ Unit

def Rig.close {τ σ : Type} (rig : Rig τ σ) (state : σ) : Attempt σ Unit :=
  (rig.releaseKeys state).andThen fun state _ => rig.releaseScreen state

def Headless.rig (τ : Type) : Rig τ Headless where
  toFrontEnd := Headless.frontEnd τ
  attach h text := (Attempt.ofExcept h (Keymap.read false text)).andThen fun h _ => .succeed h ()
  releaseKeys h := .succeed h ()
  releaseScreen h := .succeed h ()

namespace Terminal

/-- A screen, the keys, and the characters of a scripted terminal, which are all typed before the
keymap is attached.  For a reader that goes on beside the polls see `Terminal.Desk`. -/
structure Station (τ : Type) where
  screen : Screen
  keys : Keys τ
  characters : List Int

variable {τ : Type} [Instant τ] [Room]

namespace Station

def new (screen : Screen) (characters : List Int) : Station τ := ⟨screen, Keys.new ⟨[]⟩, characters⟩

/-- The reader starts and finds every character there already: it runs to its end within the
attachment, and if a character ends it with an error, the attachment fails. -/
def attach (s : Station τ) (text : String) : Attempt (Station τ) Unit :=
  (Attempt.ofExcept s (Keymap.read true text)).andThen fun s keymap =>
    let keys : Keys τ := Keys.new keymap
    let read := keys.reader.resume s.characters
    let s := { s with keys := { keys with reader := read.state }, characters := [] }
    (Attempt.ofExcept s read.result).andThen fun s _ => .succeed s ()

def releaseKeys (s : Station τ) : Station τ :=
  { s with keys := { s.keys with reader := s.keys.reader.dismiss } }

def releaseScreen (s : Station τ) : Station τ := { s with screen := s.screen.stop }

end Station

/-- A terminal with everything typed at the start: polls take from the queue what the reader put
there when the keymap was attached, and nothing is read later. -/
def rig : Rig τ (Station τ) where
  receive s signal := (s.screen.receive signal).mapState fun screen => { s with screen }
  poll s now m :=
    let (quit, keypad, keys) := s.keys.poll now.wall m.keypad
    ⟨.ok quit, keypad, { s with keys }⟩
  attach := Station.attach
  releaseKeys s := .succeed s.releaseKeys ()
  releaseScreen s := .succeed s.releaseScreen ()

end Terminal

namespace Window

/-- A surface, the keymap, and the events that polls will find.  Once these are used up, every
poll finds the window closed. -/
structure Station where
  surface : Surface
  keymap : Keymap
  events : List (List Event)

namespace Station

def new (surface : Surface) (events : List (List Event)) : Station := ⟨surface, ⟨[]⟩, events⟩

def nextEvents (s : Station) : List Event × Station :=
  match s.events with
  | [] => ([.quit], s)
  | first :: rest => (first, { s with events := rest })

def poll (s : Station) (keypad : Keypad) : Bool × Keypad × Station :=
  let (events, s) := s.nextEvents
  let (quit, keypad) := Event.applyAll s.keymap keypad events
  (quit, keypad, s)

end Station

def rig [Room] (τ : Type) : Rig τ Station where
  receive s signal := (s.surface.receive signal).mapState fun surface => { s with surface }
  poll s _ m :=
    let (quit, keypad, s) := s.poll m.keypad
    ⟨.ok quit, keypad, s⟩
  attach s text :=
    (Attempt.ofExcept s (Keymap.read false text)).andThen fun s keymap =>
      .succeed { s with keymap } ()
  releaseKeys s := .succeed s ()
  releaseScreen s := .succeed { s with surface := s.surface.stop } ()

end Window

end ChipEight
