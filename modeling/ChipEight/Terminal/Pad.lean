import ChipEight.Bank

/-!
# Pads

A pad is a grid of character cells that is written to off the screen.  Text is written from
a cell to the right and must fit into its row.
-/

namespace ChipEight.Terminal

structure Cell where
  char : Char
  reversed : Bool
  deriving DecidableEq, Repr

instance : Inhabited Cell := ⟨' ', false⟩

structure Pad where
  rows : Nat
  columns : Nat
  cells : Bank Cell
  writes : Nat

namespace Pad

/-- A pad of blanks.  Negative sides count as zero. -/
def new (rows columns : Int) : Pad :=
  ⟨rows.toNat, columns.toNat, Bank.ofSize (rows.toNat * columns.toNat), 0⟩

def Fits (p : Pad) (row column : Int) (length : Nat) : Prop :=
  0 ≤ row ∧ row < p.rows ∧ 0 ≤ column ∧ column + length ≤ p.columns

instance (p : Pad) (row column : Int) (length : Nat) : Decidable (p.Fits row column length) :=
  inferInstanceAs (Decidable (_ ∧ _ ∧ _ ∧ _))

def put (p : Pad) (row column : Int) (text : List Char) (reversed : Bool) : Pad :=
  { p with
    cells := p.cells.putList (row * p.columns + column) (text.map (⟨·, reversed⟩))
    writes := p.writes + 1 }

def grid (p : Pad) : List (List Cell) :=
  (List.range p.rows).map fun (row : Nat) =>
    let start := row * p.columns
    (p.cells.cells.extract start (start + p.columns)).toList

end Pad

end ChipEight.Terminal
