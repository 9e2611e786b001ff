import ChipEight.Display
import ChipEight.Proofs.Completion

/-!
# Drawing on a whole display

A display is whole if its plane has a cell for each of its pixels.  There no pixel of a sprite
is refused, wherever the sprite is drawn, and drawing leaves the shape of the display alone.
-/

namespace ChipEight.Display

open Attempt

variable {d e f : Display} {x y : Int}

/-- The display has pixels, and its plane has a cell for each. -/
structure Whole (d : Display) : Prop where
  width_pos : 0 < d.width
  height_pos : 0 < d.height
  size_plane : d.plane.size = d.width * d.height

/-- What drawing leaves alone: the shape, the drawing mode and the watcher. -/
structure SameShape (d e : Display) : Prop where
  width : e.width = d.width
  height : e.height = d.height
  size_plane : e.plane.size = d.plane.size
  toggles : e.toggles = d.toggles
  watched : e.watched = d.watched

theorem SameShape.refl (d : Display) : d.SameShape d := ⟨rfl, rfl, rfl, rfl, rfl⟩

theorem SameShape.symm (h : d.SameShape e) : e.SameShape d :=
  ⟨h.width.symm, h.height.symm, h.size_plane.symm, h.toggles.symm, h.watched.symm⟩

theorem SameShape.trans (h : d.SameShape e) (k : e.SameShape f) : d.SameShape f where
  width := k.width.trans h.width
  height := k.height.trans h.height
  size_plane := k.size_plane.trans h.size_plane
  toggles := k.toggles.trans h.toggles
  watched := k.watched.trans h.watched

theorem Whole.of_sameShape (hd : d.Whole) (h : d.SameShape e) : e.Whole where
  width_pos := by rw [h.width]; exact hd.width_pos
  height_pos := by rw [h.height]; exact hd.height_pos
  size_plane := by rw [h.width, h.height, h.size_plane]; exact hd.size_plane

theorem Whole.covers_place (hd : d.Whole) (hx : 0 ≤ x) (hxw : x < d.width) (hy : 0 ≤ y)
    (hyh : y < d.height) : d.plane.Covers (d.place x y) := by
  have hw : 0 ≤ d.width := Int.le_of_lt hd.width_pos
  have hrow : 0 ≤ y * d.width := Int.mul_nonneg hy hw
  have hlast : (y + 1) * d.width ≤ d.height * d.width :=
    Int.mul_le_mul_of_nonneg_right (by omega) hw
  have hnext : (y + 1) * d.width = y * d.width + d.width := by rw [Int.add_mul, Int.one_mul]
  have hsize : d.plane.size = d.height * d.width := by rw [hd.size_plane, Int.mul_comm]
  rw [Bank.covers_iff, place]
  omega

theorem new_whole (toggles watched : Bool) : (new toggles watched).1.Whole :=
  ⟨(by decide : (0 : Int) < 64), (by decide : (0 : Int) < 32), rfl⟩

theorem plot_completes (hd : d.Whole) (hx : 0 ≤ x) (hy : 0 ≤ y) :
    (d.plot x y).Completes d.SameShape := by
  unfold plot
  split
  · exact .succeed (SameShape.refl d) [] none
  · rename_i h
    have hc : d.plane.Covers (d.place x y) := hd.covers_place hx (by omega) hy (by omega)
    unfold Bank.read
    rw [dif_pos hc]
    simp only [ofExcept_ok, followedBy_silent]
    split
    · exact .succeed (SameShape.refl d) [] _
    · exact .succeed ⟨rfl, rfl, rfl, rfl, rfl⟩ _ _

theorem drawRow_completes (hd : d.Whole) (hx : 0 ≤ x) (hy : 0 ≤ y) (row : UInt8)
    (columns : List Nat) : (d.drawRow x y row columns).Completes d.SameShape := by
  induction columns generalizing d with
  | nil => exact .succeed (SameShape.refl d) [] false
  | cons column rest ih =>
    unfold drawRow
    split
    · refine (plot_completes hd (by omega) hy).followedBy ?_
      intro e lit he
      have hr := (ih (hd.of_sameShape he)).mono fun f hf => he.trans hf
      exact hr.followedBy fun f hit hf => .succeed hf [] _
    · exact ih hd

theorem drawRows_completes (hd : d.Whole) (hx : 0 ≤ x) (hy : 0 ≤ y) (rows : List UInt8) :
    (d.drawRows x y rows).Completes d.SameShape := by
  induction rows generalizing d y with
  | nil => exact .succeed (SameShape.refl d) [] false
  | cons row rest ih =>
    unfold drawRows
    split
    · exact .succeed (SameShape.refl d) [] false
    · refine (drawRow_completes hd hx hy row _).followedBy ?_
      intro e hit he
      have hr := (ih (hd.of_sameShape he) (y := y + 1) (by omega)).mono fun f hf => he.trans hf
      exact hr.followedBy fun f hits hf => .succeed hf [] _

theorem draw_completes (hd : d.Whole) (x y : Int) (rows : List UInt8) :
    (d.draw x y rows).Completes d.SameShape := by
  have hw := hd.width_pos
  have hh := hd.height_pos
  unfold draw
  rw [if_neg (by omega)]
  exact drawRows_completes hd (Int.fmod_nonneg_of_pos x hw) (Int.fmod_nonneg_of_pos y hh) rows

theorem plot_sameShape (d : Display) (x y : Int) : d.SameShape (d.plot x y).state.1 := by
  unfold plot
  split
  · exact .refl d
  · refine keeps_followedBy (P := d.SameShape) (.refl d) ?_
    intro e lit he
    dsimp only
    split
    · exact he
    · exact he.trans ⟨rfl, rfl, rfl, rfl, rfl⟩

theorem drawRow_sameShape (d : Display) (x y : Int) (row : UInt8) (columns : List Nat) :
    d.SameShape (d.drawRow x y row columns).state.1 := by
  induction columns generalizing d with
  | nil => exact .refl d
  | cons column rest ih =>
    unfold drawRow
    split
    · refine keeps_followedBy (P := d.SameShape) (plot_sameShape d _ y) fun e lit he => ?_
      exact keeps_followedBy (P := d.SameShape) (he.trans (ih e)) fun f hit hf => hf
    · exact ih d

theorem drawRows_sameShape (d : Display) (x y : Int) (rows : List UInt8) :
    d.SameShape (d.drawRows x y rows).state.1 := by
  induction rows generalizing d y with
  | nil => exact .refl d
  | cons row rest ih =>
    unfold drawRows
    split
    · exact .refl d
    · refine keeps_followedBy (P := d.SameShape) (drawRow_sameShape d x y row _) fun e hit he => ?_
      exact keeps_followedBy (P := d.SameShape) (he.trans (ih e (y + 1))) fun f hits hf => hf

theorem draw_sameShape (d : Display) (x y : Int) (rows : List UInt8) :
    d.SameShape (d.draw x y rows).state.1 := by
  unfold draw
  split
  · exact .refl d
  · exact drawRows_sameShape d _ _ rows

end ChipEight.Display
