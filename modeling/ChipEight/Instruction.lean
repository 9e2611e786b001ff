import ChipEight.Error

/-!
# Instructions

An instruction word is any integer, read through its lowest sixteen bits as an infinite two's
complement number.  `Fields` are the operand fields every word has.  `Operation` is what a word
asks the machine to do, with just the operands that matter to it, so two words of one
operation act alike.
-/

namespace ChipEight

abbrev Register := Fin 16

abbrev Address := Fin 4096

/-- The operand fields of a word: its second, third and fourth nibble, its low byte and its
low twelve bits. -/
structure Fields where
  x : Register
  y : Register
  nibble : Fin 16
  byte : UInt8
  address : Address
  deriving DecidableEq, Repr

namespace Word

def low (word : Int) : Nat := (word % 65536).toNat

def family (word : Int) : Fin 16 := ⟨low word / 4096 % 16, Nat.mod_lt _ (by decide)⟩

def fields (word : Int) : Fields where
  x := ⟨low word / 256 % 16, Nat.mod_lt _ (by decide)⟩
  y := ⟨low word / 16 % 16, Nat.mod_lt _ (by decide)⟩
  nibble := ⟨low word % 16, Nat.mod_lt _ (by decide)⟩
  byte := UInt8.ofNat (low word % 256)
  address := ⟨low word % 4096, Nat.mod_lt _ (by decide)⟩

end Word

inductive Operation
  | clearDisplay
  | ret
  | jump (target : Address)
  | call (target : Address)
  | skipIfByte (x : Register) (byte : UInt8)
  | skipUnlessByte (x : Register) (byte : UInt8)
  | skipIfEqual (x y : Register)
  | loadByte (x : Register) (byte : UInt8)
  | addByte (x : Register) (byte : UInt8)
  | copy (x y : Register)
  | or (x y : Register)
  | and (x y : Register)
  | xor (x y : Register)
  | add (x y : Register)
  | sub (x y : Register)
  | shiftRight (x : Register)
  | subFrom (x y : Register)
  | shiftLeft (x : Register)
  | skipUnlessEqual (x y : Register)
  | loadIndex (target : Address)
  | jumpOffset (target : Address)
  | random (x : Register) (byte : UInt8)
  | draw (x y : Register) (rows : Fin 16)
  | skipIfKey (x : Register)
  | skipUnlessKey (x : Register)
  | readDelay (x : Register)
  | awaitKey (x : Register)
  | setDelay (x : Register)
  | setSound (x : Register)
  | addIndex (x : Register)
  | loadGlyph (x : Register)
  | storeDecimal (x : Register)
  | storeRegisters (x : Register)
  | loadRegisters (x : Register)
  deriving DecidableEq, Repr

namespace Operation

def system? (f : Fields) : Option Operation :=
  match f.nibble with
  | 0x0 => some .clearDisplay
  | 0xE => some .ret
  | _ => none

def arithmetic? (f : Fields) : Option Operation :=
  match f.nibble with
  | 0x0 => some (.copy f.x f.y)
  | 0x1 => some (.or f.x f.y)
  | 0x2 => some (.and f.x f.y)
  | 0x3 => some (.xor f.x f.y)
  | 0x4 => some (.add f.x f.y)
  | 0x5 => some (.sub f.x f.y)
  | 0x6 => some (.shiftRight f.x)
  | 0x7 => some (.subFrom f.x f.y)
  | 0xE => some (.shiftLeft f.x)
  | _ => none

def keys? (f : Fields) : Option Operation :=
  if f.byte = 0x9E then some (.skipIfKey f.x)
  else if f.byte = 0xA1 then some (.skipUnlessKey f.x)
  else none

def transfer? (f : Fields) : Option Operation :=
  if f.byte = 0x07 then some (.readDelay f.x)
  else if f.byte = 0x0A then some (.awaitKey f.x)
  else if f.byte = 0x15 then some (.setDelay f.x)
  else if f.byte = 0x18 then some (.setSound f.x)
  else if f.byte = 0x1E then some (.addIndex f.x)
  else if f.byte = 0x29 then some (.loadGlyph f.x)
  else if f.byte = 0x33 then some (.storeDecimal f.x)
  else if f.byte = 0x55 then some (.storeRegisters f.x)
  else if f.byte = 0x65 then some (.loadRegisters f.x)
  else none

def ofWord? (word : Int) : Option Operation :=
  let f := Word.fields word
  match Word.family word with
  | 0x0 => system? f
  | 0x1 => some (.jump f.address)
  | 0x2 => some (.call f.address)
  | 0x3 => some (.skipIfByte f.x f.byte)
  | 0x4 => some (.skipUnlessByte f.x f.byte)
  | 0x5 => some (.skipIfEqual f.x f.y)
  | 0x6 => some (.loadByte f.x f.byte)
  | 0x7 => some (.addByte f.x f.byte)
  | 0x8 => arithmetic? f
  | 0x9 => some (.skipUnlessEqual f.x f.y)
  | 0xA => some (.loadIndex f.address)
  | 0xB => some (.jumpOffset f.address)
  | 0xC => some (.random f.x f.byte)
  | 0xD => some (.draw f.x f.y f.nibble)
  | 0xE => keys? f
  | _ => transfer? f

end Operation

structure Instruction where
  operation : Operation
  word : Int
  deriving DecidableEq, Repr

namespace Instruction

def fields (i : Instruction) : Fields := Word.fields i.word

def decode (word : Int) : Except Error Instruction :=
  match Operation.ofWord? word with
  | some operation => .ok ⟨operation, word⟩
  | none => .error (.fault (.unknownOpcode word))

end Instruction

end ChipEight
