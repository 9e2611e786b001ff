/-!
# The machine's dimensions

The memory map, the built-in font and the sizes of the register file, call stack, keypad
and display.
-/

namespace ChipEight.Layout

def memorySize : Nat := 0x1000

/-- Programs are placed here and run from here. -/
def programStart : Nat := 0x200

/-- The room between the start of the program area and the end of memory. -/
def programLimit : Nat := memorySize - programStart

def fontStart : Nat := 0x50

def glyphSize : Nat := 5

def stackDepth : Nat := 16

def displayWidth : Nat := 64

def displayHeight : Nat := 32

def font : List UInt8 :=
  [0xF0, 0x90, 0x90, 0x90, 0xF0,
   0x20, 0x60, 0x20, 0x20, 0x70,
   0xF0, 0x10, 0xF0, 0x80, 0xF0,
   0xF0, 0x10, 0xF0, 0x10, 0xF0,
   0x90, 0x90, 0xF0, 0x10, 0x10,
   0xF0, 0x80, 0xF0, 0x10, 0xF0,
   0xF0, 0x80, 0xF0, 0x90, 0xF0,
   0xF0, 0x10, 0x20, 0x40, 0x40,
   0xF0, 0x90, 0xF0, 0x90, 0xF0,
   0xF0, 0x90, 0xF0, 0x10, 0xF0,
   0xF0, 0x90, 0xF0, 0x90, 0x90,
   0xE0, 0x90, 0xE0, 0x90, 0xE0,
   0xF0, 0x80, 0x80, 0x80, 0xF0,
   0xE0, 0x90, 0x90, 0x90, 0xE0,
   0xF0, 0x80, 0xF0, 0x80, 0xF0,
   0xF0, 0x80, 0xF0, 0x80, 0x80]

end ChipEight.Layout
