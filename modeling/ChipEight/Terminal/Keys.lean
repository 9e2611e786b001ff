import ChipEight.Keypad
import ChipEight.Session.Instant
import ChipEight.Terminal.Reader

/-!
# Keys of a terminal

A terminal does not say when a key is let go.  A key therefore counts as held for a fifth of a
second after its character was collected; keyboard repeats keep it down.
-/

namespace ChipEight.Terminal

abbrev Timers (τ : Type) := Vector τ 16

structure Keys (τ : Type) where
  reader : Reader
  timers : Timers τ

namespace Keys

variable {τ : Type} [Instant τ]

def new (keymap : Keymap) : Keys τ := ⟨Reader.new keymap, Vector.replicate 16 Instant.origin⟩

def hold : τ := Instant.ratio 1 5

/-- Takes keys from the front of the queue up to a marker or the end, and says whether there
was a marker. -/
def collect (now : τ) (timers : Timers τ) :
    List (Option (Fin 16)) → Bool × List (Option (Fin 16)) × Timers τ
  | [] => (false, [], timers)
  | none :: rest => (true, rest, timers)
  | some key :: rest => collect now (timers.set key (Instant.add now hold)) rest

def held (now : τ) (timers : Timers τ) : Keypad := timers.map fun timer => !Instant.le timer now

/-- Collects the keys read since the last poll.  If they ask to quit, the keypad stays as it
is. -/
def poll (k : Keys τ) (now : τ) (keypad : Keypad) : Bool × Keypad × Keys τ :=
  let (quit, queue, timers) := collect now k.timers k.reader.queue
  let k : Keys τ := { reader := { k.reader with queue }, timers }
  if quit then (true, keypad, k) else (false, held now timers, k)

end Keys

end ChipEight.Terminal
