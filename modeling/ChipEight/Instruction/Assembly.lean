import ChipEight.Instruction

/-!
# Assembly text

How operations are written: a mnemonic and its operands, with registers as one hexadecimal
digit, bytes as two and addresses as three.
-/

namespace ChipEight.Assembly

def register (x : Register) : String := "V" ++ Hex.nibble x

def byte (b : UInt8) : String := "0x" ++ Hex.byte b

def address (a : Address) : String := "0x" ++ Hex.text 3 a.val

def binary (mnemonic : String) (x : Register) (operand : String) : String :=
  mnemonic ++ " " ++ register x ++ ", " ++ operand

def unary (mnemonic operand : String) : String := mnemonic ++ " " ++ operand

end ChipEight.Assembly

namespace ChipEight.Operation

open Assembly

def assembly : Operation → String
  | clearDisplay => "CLS"
  | ret => "RET"
  | jump a => unary "JP" (address a)
  | call a => unary "CALL" (address a)
  | skipIfByte x b => binary "SE" x (byte b)
  | skipUnlessByte x b => binary "SNE" x (byte b)
  | skipIfEqual x y => binary "SE" x (register y)
  | loadByte x b => binary "LD" x (byte b)
  | addByte x b => binary "ADD" x (byte b)
  | copy x y => binary "LD" x (register y)
  | or x y => binary "OR" x (register y)
  | and x y => binary "AND" x (register y)
  | xor x y => binary "XOR" x (register y)
  | add x y => binary "ADD" x (register y)
  | sub x y => binary "SUB" x (register y)
  | shiftRight x => unary "SHR" (register x)
  | subFrom x y => binary "SUBN" x (register y)
  | shiftLeft x => unary "SHL" (register x)
  | skipUnlessEqual x y => binary "SNE" x (register y)
  | loadIndex a => "LD I, " ++ address a
  | jumpOffset a => "JP V0, " ++ address a
  | random x b => binary "RND" x (byte b)
  | draw x y n => binary "DRW" x (register y ++ ", 0x" ++ Hex.nibble n)
  | skipIfKey x => unary "SKP" (register x)
  | skipUnlessKey x => unary "SKNP" (register x)
  | readDelay x => binary "LD" x "DT"
  | awaitKey x => binary "LD" x "K"
  | setDelay x => "LD DT, " ++ register x
  | setSound x => "LD ST, " ++ register x
  | addIndex x => "ADD I, " ++ register x
  | loadGlyph x => "LD F, " ++ register x
  | storeDecimal x => "LD B, " ++ register x
  | storeRegisters x => "LD [I], " ++ register x
  | loadRegisters x => binary "LD" x "[I]"

end ChipEight.Operation

namespace ChipEight.Instruction

def assembly (i : Instruction) : String := i.operation.assembly

end ChipEight.Instruction
