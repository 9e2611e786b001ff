import Mathlib.Order.Bounds.Basic
import ChipEight.Proofs.Access

/-!
# Blocks that hang over

Every access to a block is refused alike if part of the block lies outside of the bank.  One
address is reported.  A block that starts outside is reported with its start, which is the first
address that is missing.  Any other is reported with its end, and that is the first one missing
only where a single cell hangs over.
-/

namespace ChipEight.Bank

variable {α : Type}

inductive Access (α : Type)
  | read (size : Int)
  | write (block : List α)
  | zero (size : Int)

def Access.size : Access α → Int
  | read size => size
  | write block => block.length
  | zero size => size

/-- An access to the block at an address, with what is read left aside. -/
def access [Inhabited α] (b : Bank α) (address : Int) : Access α → Attempt (Bank α) Unit
  | .read size => .ofExcept b ((b.readBlock address size).map fun _ => ())
  | .write block => b.writeBlock address block
  | .zero size => b.zeroBlock address size

/-- The addresses of a block that lie outside of the bank. -/
def strays (b : Bank α) (address size : Int) : Set Int :=
  {i | address ≤ i ∧ i < address + size ∧ ¬ b.Covers i}

theorem map_readBlock (b : Bank α) (address size : Int) :
    ((b.readBlock address size).map fun _ => ()) = b.checkRange address size := by
  unfold readBlock
  cases b.checkRange address size with
  | error e => rfl
  | ok => rfl

section Accesses

variable [Inhabited α] (b : Bank α) (address : Int) (a : Access α)

theorem access_of_error {e : Error} (h : b.checkRange address a.size = .error e) :
    b.access address a = .refuse b e := by
  cases a with
  | read size =>
    change Attempt.ofExcept b ((b.readBlock address size).map _) = _
    rw [map_readBlock, show b.checkRange address size = .error e from h]
    rfl
  | write block => exact writeBlock_of_error h
  | zero size => exact zeroBlock_of_error h

theorem result_access : (b.access address a).result = b.checkRange address a.size := by
  cases h : b.checkRange address a.size with
  | error e => rw [b.access_of_error address a h, Attempt.result_refuse]
  | ok =>
    cases a with
    | read size => exact (b.map_readBlock address size).trans h
    | write block =>
      change (b.writeBlock address block).result = _
      rw [writeBlock_of_ok h]
      rfl
    | zero size =>
      have hc : b.checkRange address size = .ok () := h
      change (b.zeroBlock address size).result = _
      rw [zeroBlock_of_ok hc]
      rfl

end Accesses

section Strays

variable {b : Bank α} {address size : Int}

theorem nonempty_strays_iff (h : 0 < size) :
    (b.strays address size).Nonempty ↔ ¬ b.Fits address size := by
  unfold Fits
  constructor
  · rintro ⟨i, hl, hu, hi⟩ hf
    rw [covers_iff] at hi
    omega
  · intro hf
    by_cases hc : b.Covers address
    · refine ⟨address + size - 1, ?_, ?_, ?_⟩
      · omega
      · omega
      · rw [covers_iff] at hc ⊢
        omega
    · exact ⟨address, le_rfl, by omega, hc⟩

theorem reported_mem_strays (h : 0 < size) (hf : ¬ b.Fits address size) :
    b.reported address size ∈ b.strays address size := by
  unfold reported
  split
  · rename_i hc
    unfold Fits at hf
    refine ⟨by omega, by omega, ?_⟩
    rw [covers_iff] at hc ⊢
    omega
  · rename_i hc
    exact ⟨le_rfl, by omega, hc⟩

/-- The first cell beyond the end is the first one that is missing of a block that starts inside. -/
theorem isLeast_strays_size (hc : b.Covers address) (hf : ¬ b.Fits address size) :
    IsLeast (b.strays address size) b.size := by
  rw [covers_iff] at hc
  unfold Fits at hf
  constructor
  · refine ⟨by omega, by omega, ?_⟩
    exact fun hs => absurd (covers_iff.mp hs).2 (lt_irrefl b.size)
  · rintro i ⟨hl, -, hi⟩
    rw [covers_iff] at hi
    omega

theorem isLeast_strays_address (h : 0 < size) (hc : ¬ b.Covers address) :
    IsLeast (b.strays address size) address :=
  ⟨⟨le_rfl, by omega, hc⟩, fun _ hi => hi.1⟩

theorem isLeast_reported_iff (h : 0 < size) (hf : ¬ b.Fits address size) :
    IsLeast (b.strays address size) (b.reported address size) ↔
      ¬ b.Covers address ∨ address + size = b.size + 1 := by
  unfold reported
  split
  · rename_i hc
    have hfirst := isLeast_strays_size hc hf
    constructor
    · intro hlast
      have he := hlast.unique hfirst
      exact .inr (by omega)
    · rintro (hn | he)
      · exact absurd hc hn
      · rwa [show address + size - 1 = b.size by omega]
  · rename_i hc
    exact ⟨fun _ => .inl hc, fun _ => isLeast_strays_address h hc⟩

end Strays

/-- An access is refused just when part of the block lies outside of the bank.  The bank is left
alone then, and an address of that part is reported: the start of the block or its end.  It is the
first such address just when the block starts outside or hangs over by a single cell. -/
theorem access_report [Inhabited α] (b : Bank α) (address : Int) {a : Access α} (h : 0 < a.size) :
    (b.strays address a.size = ∅ ↔ (b.access address a).result = .ok ()) ∧
    ((b.strays address a.size).Nonempty →
      ∃ stray ∈ b.strays address a.size,
        b.access address a = .refuse b (.fault (.outOfBounds stray)) ∧
        stray = (if b.Covers address then address + a.size - 1 else address) ∧
        (IsLeast (b.strays address a.size) stray ↔
          ¬ b.Covers address ∨ address + a.size = b.size + 1)) := by
  constructor
  · rw [← Set.not_nonempty_iff_eq_empty, nonempty_strays_iff h, not_not, result_access,
      checkRange_eq_ok_iff]
  · intro hs
    have hf := (nonempty_strays_iff h).mp hs
    exact ⟨b.reported address a.size, reported_mem_strays h hf,
      b.access_of_error address a (checkRange_eq_error hf), rfl, isLeast_reported_iff h hf⟩

/-- Four cells are written into five from the last but one on, and the second cell that is missing
is reported. -/
theorem access_report_long :
    let b : Memory := ofSize 5
    b.strays 3 4 = {5, 6} ∧
    b.access 3 (.write [1, 2, 3, 4]) = .refuse b (.fault (.outOfBounds 6)) ∧
    ¬ IsLeast (b.strays 3 4) 6 := by
  intro b
  have hsize : b.size = 5 := rfl
  have hs : b.strays 3 4 = {5, 6} := by
    ext i
    simp only [strays, covers_iff, hsize, Set.mem_ofPred_eq, Set.mem_insert_iff, Set.mem_singleton_iff]
    omega
  have hpos : 0 < (Access.write [1, 2, 3, 4] : Access UInt8).size := by decide
  obtain ⟨-, hreport⟩ := b.access_report 3 hpos
  have hne : (b.strays 3 4).Nonempty := by
    rw [hs]
    exact ⟨5, .inl rfl⟩
  obtain ⟨stray, -, hrefused, rfl, hleast⟩ := hreport hne
  refine ⟨hs, hrefused, fun hl => ?_⟩
  obtain hstart | hend := hleast.mp hl
  · exact hstart (by decide)
  · exact absurd hend (by decide)

theorem not_forall_access_reports_first :
    ¬ ∀ (b : Memory) (address : Int) (a : Access UInt8), 0 < a.size →
      (b.strays address a.size).Nonempty →
      ∃ stray, IsLeast (b.strays address a.size) stray ∧
        (b.access address a).result = .error (.fault (.outOfBounds stray)) := by
  intro hall
  have hfirst : IsLeast ((ofSize 5 : Memory).strays 3 4) 5 :=
    isLeast_strays_size (by decide) (not_or.mpr (by decide))
  obtain ⟨stray, hleast, hrefused⟩ := hall (ofSize 5) 3 (.read 4) (by decide) ⟨5, hfirst.1⟩
  obtain rfl := hleast.unique hfirst
  have hlast : ((ofSize 5 : Memory).access 3 (.read 4)).result = .error (.fault (.outOfBounds 6)) :=
    rfl
  rw [hlast] at hrefused
  exact absurd hrefused (by decide)

end ChipEight.Bank
