/-!
# Instants

The arithmetic of times and intervals, in seconds.  The program runs on floating-point times.
Exact times follow the same rules without rounding.
-/

namespace ChipEight

class Instant (τ : Type) where
  ratio : Int → Nat → τ
  /-- A number of 1024ths of a second. -/
  ofTicks : Int → τ
  add : τ → τ → τ
  le : τ → τ → Bool
  /-- The whole second after an instant: the instant cut towards zero, plus one. -/
  nextSecond : τ → τ
  fits : Nat → Bool

namespace Instant

def origin {τ : Type} [Instant τ] : τ := ratio 0 1

/-- The nearest floating-point number.  Of a long number the leading 64 bits are converted, the
last of them raised if any bit behind it is. -/
def floatOfNat (n : Nat) : Float :=
  if n < 0x10000000000000000 then n.toUInt64.toFloat
  else
    let cut := n.log2 - 63
    let head := n >>> cut
    let head := if head <<< cut = n then head else head ||| 1
    head.toUInt64.toFloat.scaleB cut

def floatOfInt (n : Int) : Float :=
  if n < 0 then -(floatOfNat n.natAbs) else floatOfNat n.natAbs

/-- The nearest floating-point number to a number of 1024ths.  Where that number is itself too
large for one, it is divided first, and an even quotient that is not exact is made odd to keep
its rounding. -/
def floatOfTicks (ticks : Int) : Float :=
  if (floatOfInt ticks).isFinite then floatOfInt ticks / 1024
  else
    let whole := ticks.tdiv 1024
    floatOfInt (if whole * 1024 ≠ ticks ∧ whole % 2 = 0 then whole + ticks.sign else whole)

instance : Instant Float where
  ratio n d := floatOfInt n / floatOfInt d
  ofTicks := floatOfTicks
  add := (· + ·)
  le a b := decide (a ≤ b)
  nextSecond t := (if t < 0 then t.ceil else t.floor) + 1
  fits n := (floatOfInt n).isFinite

instance : Instant Rat where
  ratio n d := (n : Rat) / (d : Rat)
  ofTicks n := (n : Rat) / 1024
  add := (· + ·)
  le a b := decide (a ≤ b)
  nextSecond t := ((if t < 0 then t.ceil else t.floor : Int) : Rat) + 1
  fits _ := true

end Instant

end ChipEight
