import ChipEight.Bank

/-!
# Access to blocks

A block can be read and written just when it lies in the bank.  Otherwise the fault is raised
before anything is changed.
-/

namespace ChipEight.Bank

variable {α : Type}

/-- Whether a block lies in the bank.  An empty block lies anywhere. -/
def Fits (b : Bank α) (address size : Int) : Prop :=
  size ≤ 0 ∨ (0 ≤ address ∧ address + size ≤ b.size)

theorem checkAddress_of_covers {b : Bank α} {address : Int} (h : b.Covers address) :
    b.checkAddress address = .ok () := if_pos h

theorem checkAddress_of_not_covers {b : Bank α} {address : Int} (h : ¬ b.Covers address) :
    b.checkAddress address = .error (.fault (.outOfBounds address)) := if_neg h

theorem checkRange_of_fits {b : Bank α} {address size : Int} (h : b.Fits address size) :
    b.checkRange address size = .ok () := by
  unfold checkRange
  split
  · rfl
  · rename_i hs
    obtain hz | ⟨hl, hu⟩ := h
    · exact absurd hz hs
    · rw [checkAddress_of_covers (covers_iff.mpr ⟨hl, by omega⟩)]
      exact checkAddress_of_covers (covers_iff.mpr ⟨by omega, by omega⟩)

/-- The address that a block outside of the bank is refused with. -/
def reported (b : Bank α) (address size : Int) : Int :=
  if b.Covers address then address + size - 1 else address

theorem checkRange_eq_error {b : Bank α} {address size : Int} (h : ¬ b.Fits address size) :
    b.checkRange address size = .error (.fault (.outOfBounds (b.reported address size))) := by
  unfold Fits at h
  have hs : ¬ size ≤ 0 := fun hz => h (.inl hz)
  unfold checkRange reported
  rw [if_neg hs]
  by_cases hc : b.Covers address
  · have he : ¬ b.Covers (address + size - 1) := by
      rw [covers_iff] at hc ⊢
      omega
    rw [if_pos hc, checkAddress_of_covers hc]
    exact checkAddress_of_not_covers he
  · rw [if_neg hc, checkAddress_of_not_covers hc]
    rfl

theorem checkRange_of_not_fits {b : Bank α} {address size : Int} (h : ¬ b.Fits address size) :
    ∃ a, b.checkRange address size = .error (.fault (.outOfBounds a)) :=
  ⟨b.reported address size, checkRange_eq_error h⟩

theorem checkRange_eq_ok_iff (b : Bank α) (address size : Int) :
    b.checkRange address size = .ok () ↔ b.Fits address size := by
  constructor
  · intro h
    apply Classical.byContradiction
    intro hf
    obtain ⟨a, ha⟩ := checkRange_of_not_fits hf
    rw [h] at ha
    cases ha
  · exact checkRange_of_fits

theorem readBlock_of_error {b : Bank α} {address size : Int} {e : Error}
    (h : b.checkRange address size = .error e) : b.readBlock address size = .error e := by
  unfold readBlock
  rw [h]
  rfl

theorem writeBlock_of_error {b : Bank α} {address : Int} {block : List α} {e : Error}
    (h : b.checkRange address block.length = .error e) :
    b.writeBlock address block = .refuse b e := by
  unfold writeBlock
  rw [h]
  rfl

theorem writeBlock_of_ok {b : Bank α} {address : Int} {block : List α}
    (h : b.checkRange address block.length = .ok ()) :
    b.writeBlock address block = .succeed (b.putList address block) () := by
  unfold writeBlock
  rw [h]
  rfl

theorem zeroBlock_of_error [Inhabited α] {b : Bank α} {address size : Int} {e : Error}
    (h : b.checkRange address size = .error e) : b.zeroBlock address size = .refuse b e := by
  unfold zeroBlock
  rw [h]
  rfl

theorem zeroBlock_of_ok [Inhabited α] {b : Bank α} {address size : Int}
    (h : b.checkRange address size = .ok ()) :
    b.zeroBlock address size =
      .succeed (b.putList address (List.replicate size.toNat default)) () := by
  unfold zeroBlock
  rw [h]
  rfl

@[simp] theorem size_writeBlock (b : Bank α) (address : Int) (block : List α) :
    (b.writeBlock address block).state.size = b.size := by
  cases h : b.checkRange address block.length with
  | error e => rw [writeBlock_of_error h]; rfl
  | ok => rw [writeBlock_of_ok h]; exact size_putList b address block

theorem readBlock_of_ok {b : Bank α} {address : Int} {size : Nat}
    (h : b.checkRange address size = .ok ()) :
    ∃ block : List α, b.readBlock address size = .ok block ∧ block.length = size ∧
      ∀ i < size, block[i]? = b.get? (address + i) := by
  have hs := b.size_cells
  have hr : b.readBlock address size = .ok (b.cells.extract (slicePlace b.cells.size address)
      (slicePlace b.cells.size (address + size))).toList := by
    unfold readBlock
    rw [h]
    rfl
  refine ⟨_, hr, ?_⟩
  obtain hz | ⟨hl, hu⟩ := (b.checkRange_eq_ok_iff address size).mp h
  · have hn : size = 0 := by omega
    subst hn
    simp
  · have hfirst := slicePlace_cases b.cells.size address
    have hlast := slicePlace_cases b.cells.size (address + size)
    have hstart : slicePlace b.cells.size address = address.toNat := by omega
    have hend : slicePlace b.cells.size (address + size) = address.toNat + size := by omega
    rw [hstart, hend]
    constructor
    · simp only [Array.length_toList, Array.size_extract]
      omega
    · intro i hi
      have ha : (address + (i : Int)).toNat = address.toNat + i := by omega
      have hp : 0 ≤ address + (i : Int) := by omega
      rw [get?, if_pos hp, ha, Array.getElem?_toList, Array.getElem?_extract, if_pos (by omega)]

theorem get?_putList_of_outside {b : Bank α} {address i : Int} {block : List α}
    (h : i < address ∨ address + block.length ≤ i) :
    (b.putList address block).get? i = b.get? i := by
  induction block generalizing b address with
  | nil => rfl
  | cons value rest ih =>
    rw [List.length_cons] at h
    have hne : ¬ (i = address ∧ b.Covers address) := by omega
    rw [putList, ih (by omega), get?_put, if_neg hne]

theorem Fits.tail {b : Bank α} {address : Int} {value : α} {rest : List α}
    (h : b.Fits address (value :: rest).length) :
    b.Covers address ∧ (b.put address value).Fits (address + 1) rest.length := by
  rw [List.length_cons] at h
  unfold Fits at h
  rw [covers_iff, Fits, size_put]
  omega

theorem get?_putList {b : Bank α} {address : Int} {block : List α}
    (h : b.Fits address block.length) (i : Int) :
    (b.putList address block).get? i =
      if address ≤ i ∧ i < address + block.length then block[(i - address).toNat]?
      else b.get? i := by
  induction block generalizing b address with
  | nil =>
    rw [if_neg (by rw [List.length_nil]; omega)]
    rfl
  | cons value rest ih =>
    obtain ⟨hc, hrest⟩ := h.tail
    rw [putList, ih hrest, get?_put, List.length_cons]
    obtain hlt | rfl | hgt := Int.lt_trichotomy i address
    · rw [if_neg (by omega), if_neg (by omega), if_neg (by omega)]
    · rw [if_neg (by omega), if_pos ⟨rfl, hc⟩, if_pos (by omega), Int.sub_self]
      rfl
    · have hi : (i - address).toNat = (i - (address + 1)).toNat + 1 := by omega
      rw [hi, List.getElem?_cons_succ]
      by_cases hin : i < address + (rest.length + 1 : Nat)
      · rw [if_pos (by omega), if_pos (by omega)]
      · rw [if_neg (by omega), if_neg (by omega), if_neg (by omega)]

theorem get?_writeBlock_of_outside {b : Bank α} {address i : Int} {block : List α}
    (h : i < address ∨ address + block.length ≤ i) :
    (b.writeBlock address block).state.get? i = b.get? i := by
  cases hc : b.checkRange address block.length with
  | error e => rw [writeBlock_of_error hc]; rfl
  | ok => rw [writeBlock_of_ok hc]; exact get?_putList_of_outside h

theorem eq_of_get? {b c : Bank α} (hs : b.size = c.size) (h : ∀ a, b.get? a = c.get? a) :
    b = c := by
  have hcells : b.cells = c.cells := by
    refine Array.ext_getElem? fun i => ?_
    have hi := h i
    simpa [get?] using hi
  obtain ⟨size, top, cells, rfl, hb⟩ := b
  obtain ⟨size', top', cells', rfl, hc⟩ := c
  cases hs
  cases hcells
  rfl

theorem putList_eq_self {b : Bank α} {address : Int} {block : List α}
    (hf : b.Fits address block.length)
    (h : ∀ i, i < block.length → block[i]? = b.get? (address + i)) :
    b.putList address block = b := by
  apply eq_of_get? (size_putList b address block)
  intro a
  rw [get?_putList hf]
  split
  · have ha : address + ((a - address).toNat : Int) = a := by omega
    rw [h _ (by omega), ha]
  · rfl

end ChipEight.Bank
