import ChipEight.Session
import ChipEight.Setting

/-!
# Running without a screen

A front end that shows nothing and has no keys.  It only remembers the scale, the size and the
title it was told of.
-/

namespace ChipEight

structure Headless where
  scale : Setting Int
  title : String
  width : Int
  height : Int
  deriving DecidableEq, Repr

namespace Headless

def standardScale : Int := 1

def new (scale : Option (Setting Int)) : Headless :=
  ⟨scale.getD (.value standardScale), "", 0, 0⟩

def receive (h : Headless) : Signal → Headless
  | .resolution width height => { h with width, height }
  | .title title => { h with title }
  | .pixel _ _ _ => h
  | .refresh _ => h

def frontEnd (τ : Type) : FrontEnd τ Headless where
  receive h signal := .succeed (h.receive signal) ()
  poll h _ m := ⟨.ok false, m.keypad, h⟩

end Headless

end ChipEight
