import ChipEight.Proofs.Access
import ChipEight.Proofs.Sprites

/-!
# Sprites drawn one after another

What a sprite covers does not depend on the picture, and so two sprites can be drawn in either
order.  Where set bits toggle pixels, a second draw takes the first one back.  Where they force
pixels on, it changes nothing.
-/

namespace ChipEight

namespace Display

open Attempt

variable {d e f : Display} {s t : Sprite} {a b : Int}

theorem Whole.plane_eq (hd : d.Whole) (h : d.SameShape e)
    (hp : ∀ a b, d.Inside a b → e.pixel a b = d.pixel a b) : e.plane = d.plane := by
  have he := hd.of_sameShape h
  refine Bank.eq_of_get? h.size_plane fun i => ?_
  by_cases hi : d.plane.Covers i
  · obtain ⟨hl, hu⟩ := Bank.covers_iff.mp hi
    rw [hd.size_plane, Int.mul_comm] at hu
    have hrow := Int.ediv_lt_of_lt_mul hd.width_pos hu
    have hin : d.Inside (i % d.width) (i / d.width) :=
      ⟨Int.emod_nonneg i (Int.ne_of_gt hd.width_pos), Int.emod_lt_of_pos i hd.width_pos,
        Int.ediv_nonneg hl (Int.le_of_lt hd.width_pos), hrow⟩
    have hplace : d.place (i % d.width) (i / d.width) = i := Int.ediv_mul_add_emod i d.width
    have hplace' : e.place (i % d.width) (i / d.width) = i := by rw [place, h.width]; exact hplace
    have hget := hd.get?_place hin
    have hget' := he.get?_place (h.inside_iff.mpr hin)
    rw [hplace] at hget
    rw [hplace', hp _ _ hin] at hget'
    rw [hget, hget']
  · have hi' : ¬ e.plane.Covers i := by rwa [Bank.covers_iff, h.size_plane, ← Bank.covers_iff]
    rw [(d.plane.get?_eq_none_iff i).mpr hi, (e.plane.get?_eq_none_iff i).mpr hi']

theorem Whole.eq_of_pixel (hd : d.Whole) (h : d.SameShape e)
    (hp : ∀ a b, d.Inside a b → e.pixel a b = d.pixel a b) :
    e = { d with changed := e.changed } := by
  obtain ⟨width, height, plane, changed, toggles, watched⟩ := e
  have hplane := hd.plane_eq h hp
  obtain ⟨hwidth, hheight, -, htoggles, hwatched⟩ := h
  cases hwidth
  cases hheight
  cases hplane
  cases htoggles
  cases hwatched
  rfl

theorem Paints.state_eq {α : Type} {P : Int → Int → Prop} {met : α → Bool}
    {work : Attempt (Display × List Signal) α} (h : Paints P met d work) (hd : d.Whole)
    (hno : ∀ a b, ¬ d.Altered work.state.1 a b) : work.state = (d, []) := by
  have hpixel (a b : Int) (hab : d.Inside a b) : work.state.1.pixel a b = d.pixel a b := by
    by_contra hne
    exact hno a b ⟨hab, hne⟩
  have hchanged : work.state.1.changed = d.changed := by
    rw [Bool.eq_iff_iff, h.changed]
    simp [hno]
  have hsent : work.state.2 = [] := by
    refine List.eq_nil_iff_forall_not_mem.mpr fun signal hmem => ?_
    obtain ⟨-, a, b, hab, -⟩ := (h.mem_sent signal).mp hmem
    exact hno a b hab
  have hstate := hd.eq_of_pixel h.shape hpixel
  rw [hchanged] at hstate
  exact Prod.ext hstate hsent

theorem Whole.altered_drawn_iff (hd : d.Whole) (s : Sprite) (a b : Int) :
    d.Altered (d.drawn s) a b ↔ s.Covers d a b ∧ d.stamp (d.pixel a b) ≠ d.pixel a b := by
  constructor
  · rintro ⟨hab, hne⟩
    rw [hd.pixel_drawn s hab] at hne
    split at hne
    · exact ⟨‹_›, hne⟩
    · exact absurd rfl hne
  · rintro ⟨hcover, hne⟩
    have hab := hcover.inside hd
    refine ⟨hab, ?_⟩
    rwa [hd.pixel_drawn s hab, if_pos hcover]

theorem Whole.changed_drawn_iff (hd : d.Whole) (s : Sprite) :
    (d.drawn s).changed = true ↔
      d.changed = true ∨ ∃ a b, s.Covers d a b ∧ d.stamp (d.pixel a b) ≠ d.pixel a b := by
  simp only [← hd.altered_drawn_iff]
  exact (hd.draw_paints s).changed

theorem Whole.pixel_drawn_drawn (hd : d.Whole) (s t : Sprite) (hab : d.Inside a b) :
    ((d.drawn s).drawn t).pixel a b =
      if t.Covers d a b then d.stamp ((d.drawn s).pixel a b) else (d.drawn s).pixel a b := by
  have hs := sameShape_drawn d s
  rw [(hd.drawn s).pixel_drawn t (hs.inside_iff.mpr hab), hs.stamp]
  simp only [Sprite.covers_of_sameShape hs]

/-- After two draws something has changed if a pixel under either sprite was to change. -/
theorem Whole.changed_drawn_drawn_iff (hd : d.Whole) (s t : Sprite) :
    ((d.drawn s).drawn t).changed = true ↔ d.changed = true ∨
      ∃ a b, (s.Covers d a b ∨ t.Covers d a b) ∧ d.stamp (d.pixel a b) ≠ d.pixel a b := by
  have hs := sameShape_drawn d s
  rw [(hd.drawn s).changed_drawn_iff, hd.changed_drawn_iff, or_assoc]
  simp only [Sprite.covers_of_sameShape hs, hs.stamp]
  refine or_congr_right ?_
  constructor
  · rintro (⟨a, b, hcover, hne⟩ | ⟨a, b, hcover, hne⟩)
    · exact ⟨a, b, .inl hcover, hne⟩
    · refine ⟨a, b, .inr hcover, fun hsame => hne ?_⟩
      rw [hd.pixel_drawn s (hcover.inside hd)]
      split
      · rw [hsame, hsame]
      · exact hsame
  · rintro ⟨a, b, hcover, hne⟩
    by_cases hfirst : s.Covers d a b
    · exact .inl ⟨a, b, hfirst, hne⟩
    · have hsecond := hcover.resolve_left hfirst
      refine .inr ⟨a, b, hsecond, ?_⟩
      rwa [hd.pixel_drawn s (hsecond.inside hd), if_neg hfirst]

theorem Whole.drawn_comm (hd : d.Whole) (s t : Sprite) :
    (d.drawn s).drawn t = (d.drawn t).drawn s := by
  have hshape (s t : Sprite) : d.SameShape ((d.drawn s).drawn t) :=
    (sameShape_drawn d s).trans (sameShape_drawn _ t)
  have hpixel (a b : Int) (hab : d.Inside a b) :
      ((d.drawn s).drawn t).pixel a b = ((d.drawn t).drawn s).pixel a b := by
    rw [hd.pixel_drawn_drawn s t hab, hd.pixel_drawn_drawn t s hab, hd.pixel_drawn s hab,
      hd.pixel_drawn t hab]
    by_cases hs : s.Covers d a b <;> by_cases ht : t.Covers d a b <;> simp [hs, ht]
  have hchanged : ((d.drawn s).drawn t).changed = ((d.drawn t).drawn s).changed := by
    rw [Bool.eq_iff_iff, hd.changed_drawn_drawn_iff s t, hd.changed_drawn_drawn_iff t s]
    simp only [or_comm]
  have heq := ((hd.drawn t).drawn s).eq_of_pixel ((hshape t s).symm.trans (hshape s t))
    fun a b hab => hpixel a b ((hshape t s).inside_iff.mp hab)
  rwa [hchanged] at heq

theorem Whole.drawn_drawn_of_toggles (hd : d.Whole) (ht : d.toggles = true) (s : Sprite) :
    (d.drawn s).drawn s = { d with changed := ((d.drawn s).drawn s).changed } := by
  refine hd.eq_of_pixel ((sameShape_drawn d s).trans (sameShape_drawn _ s)) fun a b hab => ?_
  rw [hd.pixel_drawn_drawn s s hab, hd.pixel_drawn s hab]
  split
  · simp [stamp, ht]
  · rfl

theorem Whole.draw_again (hd : d.Whole) (ht : d.toggles = false)
    (hlit : ∀ a b, s.Covers d a b → d.pixel a b = true) :
    (d.draw s.x s.y s.rows).state = (d, []) := by
  refine (hd.draw_paints s).state_eq hd fun a b hab => ?_
  obtain ⟨hcover, hne⟩ := (hd.altered_drawn_iff s a b).mp hab
  simp [stamp, ht, hlit a b hcover] at hne

theorem draw_algebra (hd : d.Whole) (s t : Sprite) :
    (d.drawn s).drawn t = (d.drawn t).drawn s ∧
    (d.toggles = true →
      (∃ changed, (d.drawn s).drawn s = { d with changed }) ∧
      ∃ hit, ((d.drawn s).draw s.x s.y s.rows).result = .ok hit ∧
        (hit = true ↔ ∃ a b, s.Covers d a b ∧ d.isLit a b = .ok false)) ∧
    (d.toggles = false → ∀ changed,
      let e := { d.drawn s with changed }
      ∃ hit, e.draw s.x s.y s.rows = .succeed (e, []) hit ∧
        (hit = true ↔ ∃ a b, s.Covers d a b)) := by
  have hs := sameShape_drawn d s
  refine ⟨hd.drawn_comm s t, fun htoggles => ⟨?_, ?_⟩, fun hforces changed => ?_⟩
  · exact ⟨_, hd.drawn_drawn_of_toggles htoggles s⟩
  · obtain ⟨hit, hhit, hiff⟩ := (hd.drawn s).draw_answers s
    refine ⟨hit, hhit, hiff.trans ?_⟩
    refine exists_congr fun a => exists_congr fun b => ?_
    rw [Sprite.covers_of_sameShape hs]
    refine and_congr_right fun hcover => ?_
    have hab := hcover.inside hd
    rw [hd.isLit_eq hab, hd.pixel_drawn s hab, if_pos hcover]
    simp [stamp, htoggles]
  · intro e
    have hshape : d.SameShape e := ⟨hs.width, hs.height, hs.size_plane, hs.toggles, hs.watched⟩
    have he : e.Whole := hd.of_sameShape hshape
    have hcovers (a b : Int) : s.Covers e a b ↔ s.Covers d a b := Sprite.covers_of_sameShape hshape
    have hlit (a b : Int) (hcover : s.Covers e a b) : e.pixel a b = true := by
      have hcover' := (hcovers a b).mp hcover
      have hpixel := hd.pixel_drawn s (hcover'.inside hd)
      rw [if_pos hcover'] at hpixel
      refine hpixel.trans ?_
      simp [stamp, hforces]
    obtain ⟨hit, hhit, hiff⟩ := he.draw_answers s
    have hdraw := eq_succeed hhit
    rw [he.draw_again (hshape.toggles.trans hforces) hlit] at hdraw
    refine ⟨hit, hdraw, hiff.trans ?_⟩
    simp only [← hcovers]
    exact exists_congr fun a => exists_congr fun b => and_iff_left_of_imp (hlit a b)

/-- Two sprites that overlap, the second clipped at the right and drawn again.  Where it forces
pixels on, the change is taken in between, and there is no other. -/
theorem draw_algebra_overlapping :
    let d : Display := ⟨5, 3, (Bank.ofSize 15).put 14 true, false, true, true⟩
    let s : Sprite := ⟨0, 0, [0xF8, 0xF8, 0xF8]⟩
    let t : Sprite := ⟨-2, 5, [0xE0, 0xFF]⟩
    let e : Display := { drawn { d with toggles := false } t with changed := false }
    d.Whole ∧ (d.drawn s).drawn t = (d.drawn t).drawn s ∧
      ((d.drawn t).drawn t).snapshot = d.snapshot ∧
      ((d.drawn t).draw t.x t.y t.rows).result = .ok true ∧
      e.draw t.x t.y t.rows = .succeed (e, []) true := by
  intro d s t e
  have hd : d.Whole := ⟨by decide, by decide, by decide⟩
  have hf : Whole { d with toggles := false } := ⟨by decide, by decide, by decide⟩
  obtain ⟨hcomm, -, -⟩ := draw_algebra hd s t
  obtain ⟨-, htoggles, -⟩ := draw_algebra hd t s
  obtain ⟨-, -, hforces⟩ := draw_algebra hf t s
  obtain ⟨⟨changed, hback⟩, hit, hhit, hiff⟩ := htoggles rfl
  obtain ⟨hit', hdraw, hiff'⟩ := hforces rfl false
  obtain rfl : hit = true := hiff.mpr ⟨3, 2, by decide, rfl⟩
  obtain rfl : hit' = true := hiff'.mpr ⟨3, 2, by decide⟩
  exact ⟨hd, hcomm, by rw [hback]; rfl, hhit, hdraw⟩

end Display

end ChipEight
