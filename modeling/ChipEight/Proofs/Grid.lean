import ChipEight.Display

/-!
# Cells of a grid

A grid is kept row by row, and a cell has the place `y * width + x`.  Within the width no two cells
share a place, and a run of cells that does not leave its row has places of the grid.
-/

namespace ChipEight.Grid

variable {width height x y a b length : Int}

theorem place_eq_iff (hx : 0 ≤ x) (hxw : x < width) (ha : 0 ≤ a) (haw : a < width) :
    b * width + a = y * width + x ↔ a = x ∧ b = y := by
  constructor
  · intro h
    have hcolumn {u v : Int} (hu : 0 ≤ u) (huw : u < width) : (v * width + u) % width = u := by
      rw [Int.add_comm, Int.add_mul_emod_self_right]
      exact Int.emod_eq_of_lt hu huw
    have hax : a = x := by rw [← hcolumn ha haw, h, hcolumn hx hxw]
    exact ⟨hax, Int.eq_of_mul_eq_mul_right (a := width) (by omega) (by omega)⟩
  · rintro ⟨rfl, rfl⟩
    rfl

theorem place_mem_run_iff (hx : 0 ≤ x) (hend : x + length ≤ width) (ha : 0 ≤ a) (haw : a < width) :
    y * width + x ≤ b * width + a ∧ b * width + a < y * width + x + length ↔
      b = y ∧ x ≤ a ∧ a < x + length := by
  constructor
  · rintro ⟨hl, hu⟩
    -- the cell is as far into the run as its place is behind the start
    obtain ⟨n, hn⟩ : ∃ n, n = b * width + a - (y * width + x) := ⟨_, rfl⟩
    have hplace : b * width + a = y * width + (x + n) := by omega
    obtain ⟨hax, hby⟩ := (place_eq_iff (by omega) (by omega) ha haw).mp hplace
    exact ⟨hby, by omega, by omega⟩
  · rintro ⟨rfl, hl, hu⟩
    omega

theorem run_bounds (hx : 0 ≤ x) (hend : x + length ≤ width) (hlength : 0 ≤ length) (hy : 0 ≤ y)
    (hyh : y < height) : 0 ≤ y * width + x ∧ y * width + x + length ≤ height * width := by
  have hwidth : 0 ≤ width := by omega
  have hrow : 0 ≤ y * width := Int.mul_nonneg hy hwidth
  refine ⟨by omega, ?_⟩
  calc
    y * width + x + length ≤ (y + 1) * width := by
      rw [Int.add_mul, Int.one_mul]
      omega
    _ ≤ height * width := Int.mul_le_mul_of_nonneg_right (by omega) hwidth

theorem place_bounds (hx : 0 ≤ x) (hxw : x < width) (hy : 0 ≤ y) (hyh : y < height) :
    0 ≤ y * width + x ∧ y * width + x < height * width :=
  run_bounds hx hxw (by decide) hy hyh

end ChipEight.Grid
