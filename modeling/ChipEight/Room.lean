import ChipEight.Error

/-!
# Room for cells

How many cells can be asked for at once.  A count has to be a signed 64-bit number, and what
it asks for has to fit into the store of a host.  Counts below zero ask for nothing, and it is
for those who ask to say what that means.
-/

namespace ChipEight

def Room.countBound : Int := 0x8000000000000000

/-- The store of a host. -/
class Room where
  capacity : Int
  /-- The memory and the display of a machine fit. -/
  ample : 4096 ≤ capacity
  /-- What fits can be counted. -/
  capacity_lt : capacity < Room.countBound

namespace Room

/-- Room for 2 ^ 36 cells. -/
@[reducible]
def standard : Room := ⟨0x1000000000, by decide, by decide⟩

def Countable (count : Int) : Prop := -countBound ≤ count ∧ count < countBound

instance (count : Int) : Decidable (Countable count) := inferInstanceAs (Decidable (_ ∧ _))

variable [Room] {count more : Int}

def check (count : Int) : Except Error Unit :=
  if Countable count then
    if count ≤ capacity then .ok () else .error .noRoom
  else .error .countRange

theorem check_eq_ok_iff (count : Int) :
    check count = .ok () ↔ Countable count ∧ count ≤ capacity := by
  unfold check
  by_cases h : Countable count <;> by_cases hc : count ≤ capacity <;> simp [h, hc]

theorem check_eq_ok_iff_of_nonneg (h : 0 ≤ count) : check count = .ok () ↔ count ≤ capacity := by
  have hbound := Room.capacity_lt
  rw [check_eq_ok_iff]
  unfold Countable countBound at *
  omega

/-- Less than what there is room for has room. -/
theorem check_of_le (h : check more = .ok ()) (hcount : 0 ≤ count) (hle : count ≤ more) :
    check count = .ok () := by
  rw [check_eq_ok_iff_of_nonneg] at h ⊢ <;> omega

theorem check_of_le_ample (hcount : 0 ≤ count) (hle : count ≤ 4096) : check count = .ok () :=
  (check_eq_ok_iff_of_nonneg hcount).mpr (Int.le_trans hle ample)

end Room

end ChipEight
