import ChipEight.Text.DecimalDigit

/-!
# Reading integers

The grammar of the integers that options and keymaps are written in: blanks around, a sign,
digits with single underscores between them, and for base sixteen a marker `0x` in front.
Digits may come from any script.  A decimal numeral has at most 4300 digits.
-/

namespace ChipEight.Numeral

def isPlainBlank (c : Char) : Bool :=
  c.toNat == 32 || (9 ≤ c.toNat && c.toNat ≤ 13)

def isWideBlank (c : Char) : Bool :=
  let n := c.toNat
  n == 0x85 || n == 0xA0 || n == 0x1680 || (0x2000 ≤ n && n ≤ 0x200A) || n == 0x2028 ||
    n == 0x2029 || n == 0x202F || n == 0x205F || n == 0x3000

/-- The plain character that a character stands for: blanks of all kinds are a space, digits
of all scripts the digits 0 to 9, and other characters from 128 on a question mark. -/
def plain (c : Char) : Char :=
  if c.toNat < 128 then c
  else if isWideBlank c then ' '
  else match DecimalDigit.value? c with
    | some d => Char.ofNat (48 + d)
    | none => '?'

def digit? (base : Nat) (c : Char) : Option Nat :=
  let n := c.toNat
  let value : Option Nat :=
    if 48 ≤ n ∧ n ≤ 57 then some (n - 48)
    else if 97 ≤ n ∧ n ≤ 122 then some (n - 87)
    else if 65 ≤ n ∧ n ≤ 90 then some (n - 55)
    else none
  value.filter (· < base)

/-- At least one digit, with single underscores between digits. -/
def digits? (base : Nat) : List Char → Option (List Nat)
  | [] => none
  | [c] => (digit? base c).map ([·])
  | c :: '_' :: rest => do
    let d ← digit? base c
    let ds ← digits? base rest
    some (d :: ds)
  | c :: rest => do
    let d ← digit? base c
    let ds ← digits? base rest
    some (d :: ds)

def ofDigits (base : Nat) (ds : List Nat) : Nat := ds.foldl (fun n d => base * n + d) 0

/-- Drops the marker of base sixteen, after which one underscore may follow. -/
def dropMarker (base : Nat) (cs : List Char) : List Char :=
  match cs with
  | '0' :: m :: rest =>
    if base = 16 ∧ (m = 'x' ∨ m = 'X') then
      match rest with
      | '_' :: rest => rest
      | rest => rest
    else cs
  | cs => cs

def decimalLimit : Nat := 4300

def magnitude? (base : Nat) (cs : List Char) : Option Nat := do
  let ds ← digits? base (dropMarker base cs)
  if base = 10 ∧ decimalLimit < ds.length then none else some (ofDigits base ds)

def signed? (base : Nat) (cs : List Char) : Option Int :=
  match cs with
  | '-' :: rest => (magnitude? base rest).map fun n => -(n : Int)
  | '+' :: rest => (magnitude? base rest).map Int.ofNat
  | cs => (magnitude? base cs).map Int.ofNat

def trimBlanks (cs : List Char) : List Char :=
  ((cs.dropWhile isPlainBlank).reverse.dropWhile isPlainBlank).reverse

def read? (base : Nat) (text : String) : Option Int :=
  signed? base (trimBlanks (text.toList.map plain))

end ChipEight.Numeral
