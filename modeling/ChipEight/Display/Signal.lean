/-!
# Signals to a viewer

A display tells whoever watches it what changed, one signal at a time.
-/

namespace ChipEight

inductive Signal
  | resolution (width height : Int)
  | pixel (x y : Int) (lit : Bool)
  | refresh (changed : Bool)
  | title (text : String)
  deriving DecidableEq, Repr

end ChipEight
