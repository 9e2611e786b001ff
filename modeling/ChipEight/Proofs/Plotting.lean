import ChipEight.Proofs.Picture
import ChipEight.Proofs.Sprites

/-!
# Single pixels

A pixel beyond the right or the bottom edge is dropped, and one on the display is the only one to
be affected.  To the left of the display and above it nothing is dropped.  The place of such a
pixel in the plane is that of a pixel further up, which is drawn in its stead under the name of the
one that was asked for, or it is no place in the plane, and the pixel is refused.
-/

namespace ChipEight.Display

open Attempt

variable {d : Display} {x y a b : Int}

/-- The plot of one pixel comes to another one, or to the same: that one is stamped and no other,
and a watcher hears of it under the name of the first. -/
structure Hits (d : Display) (x y a b : Int)
    (work : Attempt (Display × List Signal) (Option Bool)) : Prop where
  shape : d.SameShape work.state.1
  answer : work.result = .ok (some (d.pixel a b))
  stamped : work.state.1.pixel a b = d.stamp (d.pixel a b)
  kept : ∀ u v, d.Inside u v → ¬ (u = a ∧ v = b) → work.state.1.pixel u v = d.pixel u v
  changed : work.state.1.changed = true ↔
    d.changed = true ∨ d.stamp (d.pixel a b) ≠ d.pixel a b
  sent : work.state.2 =
    if d.stamp (d.pixel a b) ≠ d.pixel a b then d.tell [.pixel x y (d.stamp (d.pixel a b))] else []

theorem Whole.plot_hits (hd : d.Whole) (hx : x < d.width) (hy : y < d.height)
    (hab : d.Inside a b) (hp : d.place x y = d.place a b) : d.Hits x y a b (d.plot x y) := by
  have hin : ¬ (d.width ≤ x ∨ d.height ≤ y) := by omega
  have hread : d.plane.read (d.place x y) = .ok (d.pixel a b) :=
    hp ▸ (d.plane.read_eq_ok_iff _ _).mpr (hd.get?_place hab)
  have hc : d.plane.Covers (d.place a b) := hd.covers_place hab.1 hab.2.1 hab.2.2.1 hab.2.2.2
  have hpaint : d.paint x y = d.paint a b := by
    unfold paint
    rw [hp]
  rw [plot_of_read hin hread, hpaint]
  split
  · rename_i hsame
    exact {
      shape := .refl d
      answer := rfl
      stamped := hsame.symm
      kept := fun _ _ _ _ => rfl
      changed := by simp [hsame]
      sent := by simp [hsame] }
  · rename_i hne
    exact {
      shape := ⟨rfl, rfl, rfl, rfl, rfl⟩
      answer := rfl
      stamped := (pixel_paint hab hc hab _).trans (if_pos ⟨rfl, rfl⟩)
      kept := fun u v huv hother => (pixel_paint hab hc huv _).trans (if_neg hother)
      changed := ⟨fun _ => .inr hne, fun _ => rfl⟩
      sent := (if_pos hne).symm }

theorem Whole.exists_place_eq (hd : d.Whole) (hx : x < d.width) (hy : y < d.height)
    (h : 0 ≤ d.place x y) : ∃ a b, d.Inside a b ∧ d.place a b = d.place x y := by
  have hw := hd.width_pos
  have hlast : d.place x y < d.height * d.width := by
    unfold place
    calc
      y * d.width + x < (y + 1) * d.width := by
        rw [Int.add_mul, Int.one_mul]
        omega
      _ ≤ d.height * d.width := Int.mul_le_mul_of_nonneg_right (by omega) (Int.le_of_lt hw)
  refine ⟨d.place x y % d.width, d.place x y / d.width, ⟨?_, ?_, ?_, ?_⟩, ?_⟩
  · exact Int.emod_nonneg _ (Int.ne_of_gt hw)
  · exact Int.emod_lt_of_pos _ hw
  · exact Int.ediv_nonneg h (Int.le_of_lt hw)
  · exact Int.ediv_lt_of_lt_mul hw hlast
  · exact Int.ediv_mul_add_emod _ _

/-- A place left of the display is one at the end of a row further up. -/
theorem lt_of_place_eq (hw : 0 < d.width) (hx : x < 0) (hab : d.Inside a b)
    (hp : d.place a b = d.place x y) : b < y := by
  apply Int.lt_of_mul_lt_mul_right _ (Int.le_of_lt hw)
  have ha := hab.1
  unfold place at hp
  omega

theorem place_neg_of_above (hx : x < d.width) (hw : 0 < d.width) (hy : y < 0) :
    d.place x y < 0 := by
  have hrow : y * d.width ≤ -1 * d.width :=
    Int.mul_le_mul_of_nonneg_right (by omega) (Int.le_of_lt hw)
  unfold place
  omega

theorem plot_of_place_neg (hx : x < d.width) (hy : y < d.height) (h : d.place x y < 0) :
    d.plot x y = .refuse (d, []) (.fault (.outOfBounds (d.place x y))) := by
  apply plot_of_unread (by omega)
  apply dif_neg
  rintro ⟨hl, -⟩
  omega

theorem plot_eq_dropped_iff :
    d.plot x y = .succeed (d, []) none ↔ d.width ≤ x ∨ d.height ≤ y := by
  refine ⟨fun hdropped => ?_, plot_of_beyond⟩
  by_contra hn
  cases hr : d.plane.read (d.place x y) with
  | error cause =>
    rw [plot_of_unread hn hr] at hdropped
    cases hdropped
  | ok lit =>
    rw [plot_of_read hn hr] at hdropped
    split at hdropped
    · cases congrArg Attempt.result hdropped
    · cases congrArg Attempt.result hdropped

/-- Off the left and the top edge a pixel is refused, where its place is negative, or a pixel
further up is affected. -/
theorem Whole.plot_aside (hd : d.Whole) (hout : ¬ d.Inside x y) (hx : x < d.width)
    (hy : y < d.height) :
    (d.place x y < 0 ∧ d.plot x y = .refuse (d, []) (.fault (.outOfBounds (d.place x y)))) ∨
    ∃ a b, d.Inside a b ∧ b < y ∧ d.place a b = d.place x y ∧ d.Hits x y a b (d.plot x y) := by
  have hw := hd.width_pos
  obtain hneg | hnonneg := Int.lt_or_le (d.place x y) 0
  · exact .inl ⟨hneg, plot_of_place_neg hx hy hneg⟩
  · have hrow : 0 ≤ y := by
      by_contra hn
      exact absurd (place_neg_of_above hx hw (Int.not_le.mp hn)) (Int.not_lt.mpr hnonneg)
    have hcolumn : x < 0 := by
      by_contra hn
      exact hout ⟨Int.not_lt.mp hn, hx, hrow, hy⟩
    obtain ⟨a, b, hab, hp⟩ := hd.exists_place_eq hx hy hnonneg
    exact .inr ⟨a, b, hab, lt_of_place_eq hw hcolumn hab hp, hp, hd.plot_hits hx hy hab hp.symm⟩

/-- A pixel is dropped beyond the right and the bottom edge, and only there.  On the display it is
the only one affected.  Off the left and the top edge it is refused, where its place is negative,
or a pixel further up is affected. -/
theorem plot_cases (hd : d.Whole) (x y : Int) :
    (d.plot x y = .succeed (d, []) none ↔ d.width ≤ x ∨ d.height ≤ y) ∧
    (d.Inside x y → d.Hits x y x y (d.plot x y)) ∧
    (¬ d.Inside x y → x < d.width → y < d.height →
      (d.place x y < 0 ∧ d.plot x y = .refuse (d, []) (.fault (.outOfBounds (d.place x y)))) ∨
      ∃ a b, d.Inside a b ∧ b < y ∧ d.place a b = d.place x y ∧
        d.Hits x y a b (d.plot x y)) :=
  ⟨plot_eq_dropped_iff, fun hxy => hd.plot_hits hxy.2.1 hxy.2.2.2 hxy rfl,
    fun hout hx hy => hd.plot_aside hout hx hy⟩

def dark (watched : Bool) : Display := (new false watched).1.takeChanged.2

theorem dark_whole (watched : Bool) : (dark watched).Whole :=
  (new_whole false watched).of_sameShape ⟨rfl, rfl, rfl, rfl, rfl⟩

/-- One column left of the second row lies the last pixel of the first. -/
theorem plot_cases_left :
    let d := dark true
    d.Whole ∧ ¬ d.Inside (-1) 1 ∧ (d.plot (-1) 1).result = .ok (some false) ∧
    (d.plot (-1) 1).state.1.pixel 63 0 = true ∧ (d.plot (-1) 1).state.1.changed = true ∧
    (d.plot (-1) 1).state.2 = [.pixel (-1) 1 true] ∧
    d.plot (-1) 0 = .refuse (d, []) (.fault (.outOfBounds (-1))) ∧
    d.plot 64 0 = .succeed (d, []) none := by
  intro d
  have hd : d.Whole := dark_whole true
  have hin (x y : Int) : d.Inside x y ↔ 0 ≤ x ∧ x < 64 ∧ 0 ≤ y ∧ y < 32 := Iff.rfl
  have hplace (x y : Int) : d.place x y = y * 64 + x := rfl
  obtain ⟨-, -, hleft⟩ := plot_cases hd (-1) 1
  obtain ⟨-, -, habove⟩ := plot_cases hd (-1) 0
  obtain ⟨hright, -, -⟩ := plot_cases hd 64 0
  have hout : ¬ d.Inside (-1) 1 := by
    rw [hin]
    omega
  obtain ⟨hneg, -⟩ | ⟨a, b, hab, hlt, hp, hhits⟩ := hleft hout (by decide) (by decide)
  · exact absurd hneg (by decide)
  rw [hin] at hab
  rw [hplace, hplace] at hp
  obtain rfl : b = 0 := by omega
  obtain rfl : a = 63 := by omega
  have hdark : d.pixel 63 0 = false := pixel_of_dark rfl 63 0
  have hsent := hhits.sent
  have hstamped := hhits.stamped
  have hanswer := hhits.answer
  rw [hdark] at hsent hstamped hanswer
  have hchanged := hhits.changed.mpr (.inr (by rw [hdark]; decide))
  refine ⟨hd, hout, hanswer, hstamped, hchanged, hsent, ?_, hright.mpr (.inl (by decide))⟩
  have houtabove : ¬ d.Inside (-1) 0 := by
    rw [hin]
    omega
  obtain ⟨-, hrefused⟩ | ⟨a, b, hab, hlt, -⟩ := habove houtabove (by decide) (by decide)
  · exact hrefused
  · rw [hin] at hab
    omega

theorem not_forall_off_display_dropped :
    ¬ ∀ (d : Display) (x y : Int), d.Whole → ¬ d.Inside x y → d.plot x y = .succeed (d, []) none := by
  intro hall
  have hd := dark_whole true
  have hdropped := hall (dark true) (-1) 1 hd (fun h => absurd h.1 (by decide))
  have hhits := hd.plot_hits (x := -1) (y := 1) (a := 63) (b := 0) (by decide) (by decide)
    ⟨by decide, by decide, by decide, by decide⟩ rfl
  have hanswer := hhits.answer
  rw [hdropped] at hanswer
  cases hanswer

end ChipEight.Display
