import ChipEight.Attempt
import ChipEight.Room

/-!
# Memory banks

A bank is a run of cells addressed from zero.  Every access is checked: an address outside
the bank is a fault that names the first offending address, and nothing is changed.  Memory
is a bank of bytes and the picture of a display a bank of flags.
-/

namespace ChipEight

/-- A run of cells, with its size and its highest address.  A bank asked for with a negative size
has no cells and keeps that size. -/
structure Bank (α : Type) where
  size : Int
  top : Int
  cells : Array α
  top_eq : top = size - 1
  size_cells : cells.size = size.toNat

abbrev Memory := Bank UInt8

def byteOfInt (value : Int) : Except Error UInt8 :=
  if 0 ≤ value ∧ value < 256 then .ok (UInt8.ofNat value.toNat) else .error .byteRange

/-- The place in a run of cells that a bound of a slice stands for.  Negative bounds count from
the end, and bounds beyond an end stand for that end. -/
def slicePlace (length : Nat) (bound : Int) : Nat :=
  if bound < 0 then (bound + length).toNat else min bound.toNat length

theorem slicePlace_cases (length : Nat) (bound : Int) :
    (bound < 0 ∧ slicePlace length bound = (bound + length).toNat) ∨
      (0 ≤ bound ∧ slicePlace length bound = min bound.toNat length) := by
  by_cases h : bound < 0
  · exact .inl ⟨h, if_pos h⟩
  · exact .inr ⟨by omega, if_neg h⟩

namespace Bank

variable {α : Type}

def Covers (b : Bank α) (address : Int) : Prop := 0 ≤ address ∧ address ≤ b.top

instance (b : Bank α) (address : Int) : Decidable (b.Covers address) :=
  inferInstanceAs (Decidable (_ ∧ _))

theorem covers_iff {b : Bank α} {address : Int} :
    b.Covers address ↔ 0 ≤ address ∧ address < b.size := by
  rw [Covers, b.top_eq]
  omega

theorem Covers.lt_size {b : Bank α} {address : Int} (h : b.Covers address) :
    address.toNat < b.cells.size := by
  have hs := b.size_cells
  rw [covers_iff] at h
  omega

section Blank

variable [Inhabited α]

def ofSize (size : Int) : Bank α where
  size := size
  top := size - 1
  cells := Array.replicate size.toNat default
  top_eq := rfl
  size_cells := by simp

def allocate [Room] (size : Int) : Except Error (Bank α) := do
  Room.check size
  .ok (ofSize size)

def clear (b : Bank α) : Bank α := ofSize b.size

end Blank

def checkAddress (b : Bank α) (address : Int) : Except Error Unit :=
  if b.Covers address then .ok () else .error (.fault (.outOfBounds address))

/-- An empty block lies in every bank.  Otherwise the first offending address is reported,
which is the start of the block if that is outside already, and else the end. -/
def checkRange (b : Bank α) (address size : Int) : Except Error Unit :=
  if size ≤ 0 then .ok ()
  else do
    b.checkAddress address
    b.checkAddress (address + size - 1)

def read (b : Bank α) (address : Int) : Except Error α :=
  if h : b.Covers address then
    have := h.lt_size
    .ok b.cells[address.toNat]
  else .error (.fault (.outOfBounds address))

/-- Replaces the content of one cell; an address outside the bank is passed over. -/
def put (b : Bank α) (address : Int) (value : α) : Bank α where
  size := b.size
  top := b.top
  cells := if 0 ≤ address then b.cells.setIfInBounds address.toNat value else b.cells
  top_eq := b.top_eq
  size_cells := by split <;> simp [b.size_cells]

def store (b : Bank α) (address : Int) (value : α) : Attempt (Bank α) Unit :=
  (Attempt.ofExcept b (b.checkAddress address)).andThen fun b _ =>
    .succeed (b.put address value) ()

def putList (b : Bank α) (address : Int) : List α → Bank α
  | [] => b
  | value :: rest => (b.put address value).putList (address + 1) rest

/-- The cells from `address` up to `address + size`.  A block of positive size is checked; any
other size takes a slice, whose bounds may count from the end. -/
def readBlock (b : Bank α) (address size : Int) : Except Error (List α) := do
  b.checkRange address size
  let first := slicePlace b.cells.size address
  let last := slicePlace b.cells.size (address + size)
  .ok (b.cells.extract first last).toList

def writeBlock (b : Bank α) (address : Int) (block : List α) : Attempt (Bank α) Unit :=
  (Attempt.ofExcept b (b.checkRange address block.length)).andThen fun b _ =>
    .succeed (b.putList address block) ()

def zeroBlock [Inhabited α] (b : Bank α) (address size : Int) : Attempt (Bank α) Unit :=
  (Attempt.ofExcept b (b.checkRange address size)).andThen fun b _ =>
    .succeed (b.putList address (List.replicate size.toNat default)) ()

def get? (b : Bank α) (address : Int) : Option α :=
  if 0 ≤ address then b.cells[address.toNat]? else none

theorem get?_eq_none_iff (b : Bank α) (address : Int) :
    b.get? address = none ↔ ¬ b.Covers address := by
  have hs := b.size_cells
  rw [get?, covers_iff]
  split
  · rw [Array.getElem?_eq_none_iff]
    omega
  · simp [*]

theorem read_eq_ok_iff (b : Bank α) (address : Int) (value : α) :
    b.read address = .ok value ↔ b.get? address = some value := by
  unfold read
  split
  · rename_i h
    have hl := h.lt_size
    simp [get?, h.1, Array.getElem?_eq_getElem hl]
  · rename_i h
    simp [(b.get?_eq_none_iff address).mpr h]

@[simp] theorem size_put (b : Bank α) (address : Int) (value : α) :
    (b.put address value).size = b.size := rfl

@[simp] theorem size_putList (b : Bank α) (address : Int) (block : List α) :
    (b.putList address block).size = b.size := by
  induction block generalizing b address with
  | nil => rfl
  | cons value rest ih => simp [putList, ih]

theorem get?_put (b : Bank α) (address : Int) (value : α) (i : Int) :
    (b.put address value).get? i =
      if i = address ∧ b.Covers address then some value else b.get? i := by
  have hs := b.size_cells
  by_cases ha : 0 ≤ address
  · by_cases hi : 0 ≤ i
    · have hn : address.toNat = i.toNat ↔ i = address := by omega
      have hb : address.toNat < b.cells.size ↔ b.Covers address := by
        rw [covers_iff]
        omega
      simp only [get?, put, ha, hi, if_true, Array.getElem?_setIfInBounds, hn, hb]
      by_cases he : i = address
      · subst he
        by_cases hc : b.Covers i
        · simp [hc]
        · have := (b.get?_eq_none_iff i).mpr hc
          simp only [get?, hi, if_true] at this
          simp [hc, this]
      · simp [he]
    · have : i ≠ address := by omega
      simp [get?, hi, this]
  · have : ¬ b.Covers address := fun h => ha h.1
    simp [get?, put, ha, this]

theorem get?_ofSize [Inhabited α] (size address : Int) :
    (ofSize size : Bank α).get? address =
      if 0 ≤ address ∧ address < size then some default else none := by
  unfold get? ofSize
  by_cases h : 0 ≤ address
  · have : address.toNat < size.toNat ↔ address < size := by omega
    simp [h, Array.getElem?_replicate, this]
  · simp [h]

end Bank

/-- Stores an integer as a byte.  The address is checked before the value. -/
def Memory.write (m : Memory) (address value : Int) : Attempt Memory Unit :=
  (Attempt.ofExcept m (m.checkAddress address)).andThen fun m _ =>
  (Attempt.ofExcept m (byteOfInt value)).andThen fun m byte =>
    m.store address byte

end ChipEight
