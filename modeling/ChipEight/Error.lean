import ChipEight.Text.Hex

/-!
# Faults and errors

A `Fault` is what a running machine can report: the machine stays inspectable afterwards and
is as it was before the instruction that faulted.  An `Error` is a fault or any other cause
for which an operation of this library is refused.
-/

namespace ChipEight

/-- The faults of the machine.  `general` and `stack` carry a text only and stand for whole
families of faults. -/
inductive Fault
  | general (text : String)
  | stack (text : String)
  | unknownOpcode (word : Int)
  | stackOverflow
  | stackUnderflow
  | outOfBounds (address : Int)
  | romTooLarge (size limit : Int)
  deriving DecidableEq, Repr

namespace Fault

inductive Family
  | fault
  | unknownOpcode
  | stack
  | stackOverflow
  | stackUnderflow
  | outOfBounds
  | romTooLarge
  deriving DecidableEq, Repr

def family : Fault → Family
  | general _ => .fault
  | stack _ => .stack
  | unknownOpcode _ => .unknownOpcode
  | stackOverflow => .stackOverflow
  | stackUnderflow => .stackUnderflow
  | outOfBounds _ => .outOfBounds
  | romTooLarge _ _ => .romTooLarge

def Family.lineage : Family → List Family
  | .fault => [.fault]
  | .stack => [.stack, .fault]
  | .stackOverflow => [.stackOverflow, .stack, .fault]
  | .stackUnderflow => [.stackUnderflow, .stack, .fault]
  | .unknownOpcode => [.unknownOpcode, .fault]
  | .outOfBounds => [.outOfBounds, .fault]
  | .romTooLarge => [.romTooLarge, .fault]

def message : Fault → String
  | general text => text
  | stack text => text
  | unknownOpcode word => "Opcode 0x" ++ Hex.text 4 word ++ " is not a CHIP-8 instruction"
  | stackOverflow => "Stack overflow"
  | stackUnderflow => "Stack underflow"
  | outOfBounds address => "Memory access at 0x" ++ Hex.text 4 address ++ " is out of bounds"
  | romTooLarge size limit =>
    "ROM is " ++ toString size ++ " bytes, but only " ++ toString limit ++ " bytes can be loaded"

end Fault

inductive KeymapError
  | count
  | notNumeric
  | duplicate
  deriving DecidableEq, Repr

def KeymapError.message : KeymapError → String
  | count => "Incorrect number of keys defined -- 16 required.  Use commas to split numbers"
  | notNumeric => "Defined keys are not all integer values"
  | duplicate => "Duplicate keys defined"

inductive PaletteError
  | tooMany
  | wrongLength
  | notNumeric
  deriving DecidableEq, Repr

def PaletteError.message : PaletteError → String
  | tooMany => "Too many palette colours defined."
  | wrongLength => "Palette colours must all be 6 hex digits long."
  | notNumeric => "Invalid palette colour defined."

inductive StartupError
  | noWindow
  | noTerminal
  | noDisplay
  deriving DecidableEq, Repr

def StartupError.message : StartupError → String
  | noWindow => "PyGame does not appear to be installed."
  | noTerminal => "Curses (or Windows-Curses) does not appear to be installed."
  | noDisplay => "Neither PyGame nor Curses (or Windows-Curses) appear to be installed."

inductive CharacterError
  | notCodePoint
  | tooWide
  | manyCharacters
  deriving DecidableEq, Repr

inductive Error
  | fault (f : Fault)
  | keymap (e : KeymapError)
  | palette (e : PaletteError)
  | startup (e : StartupError)
  | character (e : CharacterError)
  | keyRange (key : Int)
  /-- A key, a colour or a pixel was looked up outside its table. -/
  | noSuchEntry
  | byteRange
  /-- A pixel write does not cover exactly one pixel of the buffer. -/
  | pixelRange
  | bufferSize
  /-- A number of cells does not fit a 64-bit signed word. -/
  | countRange
  | noRoom
  | colourRange
  /-- A sprite position was to be wrapped around a display with a side of length zero. -/
  | emptyDisplay
  | terminal
  | clockStopped
  /-- The clock speed is too large for the arithmetic of the clock. -/
  | speedRange
  | missingOption
  | blankNumber
  | blankText
  | unknownRenderer
  | missingFile
  deriving DecidableEq, Repr

namespace Error

def message? : Error → Option String
  | fault f => some f.message
  | keymap e => some e.message
  | palette e => some e.message
  | startup e => some e.message
  | keyRange key => some ("Key 0x" ++ Hex.text 0 key ++ " is outside the keypad range 0x0-0xf")
  | _ => none

def isFault : Error → Bool
  | fault _ => true
  | _ => false

end Error

end ChipEight
