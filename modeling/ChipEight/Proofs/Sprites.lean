import ChipEight.Proofs.Painting

/-!
# What a sprite covers

Which pixels a sprite covers can be told from its place, its rows and the size of the display, and
not from the picture.  Drawing the sprite changes the covered pixels, each of them once, and it says
whether one of them was lit.
-/

namespace ChipEight

structure Sprite where
  x : Int
  y : Int
  rows : List UInt8

namespace Sprite

variable {s : Sprite} {d e : Display} {a b : Int}

/-- A column of the display, counted from where the sprite begins. -/
def column (s : Sprite) (d : Display) (a : Int) : Int := a - s.x % d.width

/-- A row of the display, counted from where the sprite begins. -/
def line (s : Sprite) (d : Display) (b : Int) : Int := b - s.y % d.height

/-- A set bit of the sprite falls on the pixel.  What lies beyond the right or the bottom edge does
not come in again at the other side. -/
def Covers (s : Sprite) (d : Display) (a b : Int) : Prop :=
  (0 ≤ s.line d b ∧ s.line d b < s.rows.length) ∧ (0 ≤ s.column d a ∧ s.column d a < 8) ∧
    (a < d.width ∧ b < d.height) ∧
    (s.rows.getD (s.line d b).toNat 0).toNat.testBit (7 - (s.column d a).toNat) = true

instance (s : Sprite) (d : Display) (a b : Int) : Decidable (s.Covers d a b) :=
  inferInstanceAs (Decidable ((_ ∧ _) ∧ (_ ∧ _) ∧ (_ ∧ _) ∧ _ = true))

theorem covers_of_sameShape (h : d.SameShape e) : s.Covers e a b ↔ s.Covers d a b := by
  simp only [Covers, line, column, h.width, h.height]

theorem Covers.inside (h : s.Covers d a b) (hd : d.Whole) : d.Inside a b := by
  obtain ⟨⟨hline, -⟩, ⟨hcolumn, -⟩, ⟨hw, hh⟩, -⟩ := h
  have hx := Int.emod_nonneg s.x (Int.ne_of_gt hd.width_pos)
  have hy := Int.emod_nonneg s.y (Int.ne_of_gt hd.height_pos)
  rw [line] at hline
  rw [column] at hcolumn
  exact ⟨by omega, hw, by omega, hh⟩

theorem covers_iff (hd : d.Whole) :
    s.Covers d a b ↔ d.Inside a b ∧
      Display.OnSprite (s.x.fmod d.width) (s.y.fmod d.height) s.rows a b := by
  rw [Int.fmod_eq_emod_of_nonneg _ (Int.le_of_lt hd.width_pos),
    Int.fmod_eq_emod_of_nonneg _ (Int.le_of_lt hd.height_pos)]
  constructor
  · intro h
    refine ⟨h.inside hd, ?_⟩
    obtain ⟨⟨hline, hlen⟩, ⟨hcolumn, hlt⟩, -, hbit⟩ := h
    refine ⟨(s.line d b).toNat, s.rows.getD (s.line d b).toNat 0, ?_, ?_, (s.column d a).toNat,
      List.mem_range.mpr (by omega), hbit, ?_⟩
    · have hrow : (s.line d b).toNat < s.rows.length := by omega
      simp [hrow]
    · rw [Int.toNat_of_nonneg hline, line]
      omega
    · rw [Int.toNat_of_nonneg hcolumn, column]
      omega
  · rintro ⟨hab, i, row, hi, hb, column, hcolumn, hbit, ha⟩
    have hline : s.line d b = i := by rw [line, hb]; omega
    have hcol : s.column d a = column := by rw [Sprite.column, ha]; omega
    have hlt := List.mem_range.mp hcolumn
    obtain ⟨hlen, -⟩ := List.getElem?_eq_some_iff.mp hi
    refine ⟨by omega, by omega, ⟨hab.2.1, hab.2.2.2⟩, ?_⟩
    rw [hline, hcol, Int.toNat_natCast, Int.toNat_natCast, List.getD_eq_getElem?_getD, hi]
    exact hbit

end Sprite

namespace Display

open Attempt

variable {d e : Display} {s : Sprite} {a b : Int}

theorem Whole.isLit_eq (hd : d.Whole) (hab : d.Inside a b) : d.isLit a b = .ok (d.pixel a b) :=
  (d.plane.read_eq_ok_iff _ _).mpr (hd.get?_place hab)

def drawn (d : Display) (s : Sprite) : Display := (d.draw s.x s.y s.rows).state.1

theorem Whole.draw_paints (hd : d.Whole) (s : Sprite) :
    Paints (s.Covers d) id d (d.draw s.x s.y s.rows) := by
  refine (Display.draw_paints hd.width_pos hd.height_pos s.x s.y s.rows).congr fun a b hab => ?_
  rw [Sprite.covers_iff hd]
  exact (and_iff_right hab).symm

theorem Whole.draw_answers (hd : d.Whole) (s : Sprite) :
    ∃ hit, (d.draw s.x s.y s.rows).result = .ok hit ∧
      (hit = true ↔ ∃ a b, s.Covers d a b ∧ d.pixel a b = true) := by
  obtain ⟨⟨hit, hhit⟩, -⟩ := draw_completes hd s.x s.y s.rows
  refine ⟨hit, hhit, ((hd.draw_paints s).painted hit hhit).2.trans ?_⟩
  constructor
  · rintro ⟨a, b, -, hcover, hlit⟩
    exact ⟨a, b, hcover, hlit⟩
  · rintro ⟨a, b, hcover, hlit⟩
    exact ⟨a, b, hcover.inside hd, hcover, hlit⟩

theorem Whole.pixel_drawn (hd : d.Whole) (s : Sprite) (hab : d.Inside a b) :
    (d.drawn s).pixel a b = if s.Covers d a b then d.stamp (d.pixel a b) else d.pixel a b := by
  obtain ⟨hit, hhit, -⟩ := hd.draw_answers s
  have hpaints := hd.draw_paints s
  split
  · rename_i hcover
    exact (hpaints.painted hit hhit).1 a b hab hcover
  · rename_i hbare
    exact hpaints.kept a b hab hbare

theorem sameShape_drawn (d : Display) (s : Sprite) : d.SameShape (d.drawn s) :=
  draw_sameShape d s.x s.y s.rows

theorem Whole.drawn (hd : d.Whole) (s : Sprite) : (d.drawn s).Whole :=
  hd.of_sameShape (sameShape_drawn d s)

/-- Drawing, pixel by pixel.  The answer is the same whether set bits toggle pixels or force them
on. -/
theorem draw_pixelwise (hd : d.Whole) (s : Sprite) :
    ∃ e sent hit, d.draw s.x s.y s.rows = .succeed (e, sent) hit ∧ d.SameShape e ∧
      (∀ a b, d.Inside a b → ∃ lit, d.isLit a b = .ok lit ∧
        e.isLit a b =
          .ok (if s.Covers d a b then (if d.toggles then !lit else true) else lit)) ∧
      (hit = true ↔ ∃ a b, s.Covers d a b ∧ d.isLit a b = .ok true) ∧
      ∀ toggles, ({ d with toggles }.draw s.x s.y s.rows).result = .ok hit := by
  obtain ⟨hit, hhit, hiff⟩ := hd.draw_answers s
  refine ⟨d.drawn s, (d.draw s.x s.y s.rows).state.2, hit, eq_succeed hhit, sameShape_drawn d s,
    ?_, ?_, ?_⟩
  · intro a b hab
    refine ⟨d.pixel a b, hd.isLit_eq hab, ?_⟩
    have hin : (d.drawn s).Inside a b := (sameShape_drawn d s).inside_iff.mpr hab
    rw [(hd.drawn s).isLit_eq hin, hd.pixel_drawn s hab, stamp]
    cases d.toggles <;> rfl
  · rw [hiff]
    refine exists_congr fun a => exists_congr fun b => and_congr_right fun hcover => ?_
    rw [hd.isLit_eq (hcover.inside hd)]
    exact Except.ok.injEq _ _ ▸ Iff.rfl
  · intro toggles
    have ht : Whole { d with toggles } := ⟨hd.width_pos, hd.height_pos, hd.size_plane⟩
    obtain ⟨hit', hhit', hiff'⟩ := ht.draw_answers s
    rw [hhit', Bool.eq_iff_iff.mpr (hiff'.trans hiff.symm)]

/-- A sprite that begins in the last column and the last row of a narrow display. -/
theorem draw_pixelwise_clipped :
    let d : Display := ⟨5, 3, (Bank.ofSize 15).put 14 true, false, true, false⟩
    let s : Sprite := ⟨-1, 5, [0xC0, 0x80]⟩
    d.Whole ∧ ∃ e sent, d.draw s.x s.y s.rows = .succeed (e, sent) true ∧
      e.isLit 4 2 = .ok false ∧ e.isLit 0 2 = .ok false ∧ e.isLit 4 0 = .ok false := by
  intro d s
  have hd : d.Whole := ⟨by decide, by decide, by decide⟩
  obtain ⟨e, sent, hit, hdraw, -, hpixels, hiff, -⟩ := draw_pixelwise hd s
  have hlit (a b : Int) (lit : Bool) (hab : 0 ≤ a ∧ a < 5 ∧ 0 ≤ b ∧ b < 3)
      (h : d.isLit a b = .ok lit) :
      e.isLit a b = .ok (if s.Covers d a b then (if d.toggles then !lit else true) else lit) := by
    obtain ⟨lit', h', he⟩ := hpixels a b hab
    obtain rfl := Except.ok.inj (h'.symm.trans h)
    exact he
  obtain rfl : hit = true := hiff.mpr ⟨4, 2, by decide, rfl⟩
  refine ⟨hd, e, sent, hdraw, ?_, ?_, ?_⟩
  · rw [hlit 4 2 true (by decide) rfl, if_pos (by decide : s.Covers d 4 2)]
    rfl
  · rw [hlit 0 2 false (by decide) rfl, if_neg (by decide : ¬ s.Covers d 0 2)]
  · rw [hlit 4 0 false (by decide) rfl, if_neg (by decide : ¬ s.Covers d 4 0)]

end Display

end ChipEight
