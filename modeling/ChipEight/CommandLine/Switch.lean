/-!
# Switches

The switches of the command line.  Each has a long name, and most have a letter as well.
-/

namespace ChipEight.CommandLine

inductive Switch
  | help
  | speed
  | renderer
  | scale
  | smoothing
  | keymap
  | toggles
  | cursorMode
  | palette
  | trace
  deriving DecidableEq, Repr

namespace Switch

def all : List Switch :=
  [help, speed, renderer, scale, smoothing, keymap, toggles, cursorMode, palette, trace]

def letter? : Switch → Option Char
  | help => some 'h'
  | speed => some 'c'
  | renderer => some 'r'
  | scale => some 's'
  | smoothing => some 'f'
  | keymap => some 'k'
  | toggles => some 'x'
  | cursorMode => none
  | palette => none
  | trace => some 'd'

def name : Switch → String
  | help => "help"
  | speed => "clock_speed"
  | renderer => "renderer"
  | scale => "scale"
  | smoothing => "smoothing"
  | keymap => "keymap"
  | toggles => "xor_sprites"
  | cursorMode => "curses_cursor_mode"
  | palette => "pygame_palette"
  | trace => "debug"

def takesValue : Switch → Bool
  | help => false
  | trace => false
  | _ => true

def ofLetter? (c : Char) : Option Switch := all.find? fun s => s.letter? == some c

def ofName? (name : List Char) : Option Switch := all.find? fun s => s.name.toList == name

def startingWith (start : List Char) : List Switch :=
  all.filter fun s => start.isPrefixOf s.name.toList

end Switch

end ChipEight.CommandLine
