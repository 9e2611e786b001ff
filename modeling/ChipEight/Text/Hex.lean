/-!
# Hexadecimal text

Lower-case hexadecimal numerals of integers, padded with zeros to a least width.
A sign counts towards the width, and a numeral that needs more room is written in full.
-/

namespace ChipEight.Hex

def digit (n : Nat) : Char :=
  if n < 10 then Char.ofNat (48 + n) else Char.ofNat (87 + n)

/-- The digits of a number without leading zeros, most significant first. -/
def digits (n : Nat) : List Char :=
  if n < 16 then [digit n] else digits (n / 16) ++ [digit (n % 16)]

/-- Zeros are put in front until there are at least `width` characters. -/
def pad (width : Nat) (cs : List Char) : List Char :=
  List.replicate (width - cs.length) '0' ++ cs

/-- A negative number is its magnitude, one character narrower, behind a minus sign. -/
def numeral (width : Nat) (n : Int) : List Char :=
  if n < 0 then '-' :: pad (width - 1) (digits n.natAbs) else pad width (digits n.natAbs)

def text (width : Nat) (n : Int) : String :=
  String.ofList (numeral width n)

def byte (b : UInt8) : String :=
  text 2 b.toNat

def nibble (n : Fin 16) : String :=
  text 1 n.val

end ChipEight.Hex
