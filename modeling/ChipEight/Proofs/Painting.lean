import Mathlib.Data.List.Basic
import ChipEight.Proofs.Drawing
import ChipEight.Proofs.Grid

/-!
# Drawing pixel by pixel

A region of a display is painted if each of its pixels takes the value that a set sprite bit asks
for, no other pixel changes, and a watcher hears of each pixel that changed just once, with its
new value.  Two regions that have no pixel in common are painted one after the other.  A sprite
paints the pixels under its set bits.
-/

namespace ChipEight.Display

open Attempt

variable {d e : Display} {x y a b : Int} {α : Type} {P Q : Int → Int → Prop}

def Inside (d : Display) (x y : Int) : Prop := 0 ≤ x ∧ x < d.width ∧ 0 ≤ y ∧ y < d.height

/-- A pixel of the picture.  It is off where the plane has no cell for it. -/
def pixel (d : Display) (x y : Int) : Bool := (d.plane.get? (d.place x y)).getD false

theorem get?_of_covers (h : d.plane.Covers (d.place x y)) :
    d.plane.get? (d.place x y) = some (d.pixel x y) := by
  cases hget : d.plane.get? (d.place x y) with
  | none => exact absurd h ((d.plane.get?_eq_none_iff _).mp hget)
  | some lit => rw [pixel, hget, Option.getD_some]

theorem Whole.get?_place (hd : d.Whole) (hxy : d.Inside x y) :
    d.plane.get? (d.place x y) = some (d.pixel x y) :=
  get?_of_covers (hd.covers_place hxy.1 hxy.2.1 hxy.2.2.1 hxy.2.2.2)

/-- What a set sprite bit makes of a pixel. -/
def stamp (d : Display) (lit : Bool) : Bool := !d.toggles || !lit

def Altered (d e : Display) (x y : Int) : Prop := d.Inside x y ∧ e.pixel x y ≠ d.pixel x y

theorem SameShape.inside_iff (h : d.SameShape e) : e.Inside x y ↔ d.Inside x y := by
  rw [Inside, Inside, h.width, h.height]

theorem SameShape.stamp (h : d.SameShape e) (lit : Bool) : e.stamp lit = d.stamp lit := by
  rw [Display.stamp, Display.stamp, h.toggles]

theorem place_eq_iff (hxy : d.Inside x y) (hab : d.Inside a b) :
    d.place a b = d.place x y ↔ a = x ∧ b = y :=
  Grid.place_eq_iff hxy.1 hxy.2.1 hab.1 hab.2.1

def paint (d : Display) (x y : Int) (lit : Bool) : Display :=
  { d with plane := d.plane.put (d.place x y) lit, changed := true }

theorem pixel_paint (hxy : d.Inside x y) (hc : d.plane.Covers (d.place x y)) (hab : d.Inside a b)
    (lit : Bool) : (d.paint x y lit).pixel a b = if a = x ∧ b = y then lit else d.pixel a b := by
  change ((d.plane.put (d.place x y) lit).get? (d.place a b)).getD false = _
  simp only [Bank.get?_put, place_eq_iff hxy hab, hc, and_true]
  split
  · rfl
  · rfl

theorem plot_of_beyond (h : d.width ≤ x ∨ d.height ≤ y) : d.plot x y = .succeed (d, []) none :=
  if_pos h

theorem plot_of_unread {cause : Error} (h : ¬ (d.width ≤ x ∨ d.height ≤ y))
    (hr : d.plane.read (d.place x y) = .error cause) : d.plot x y = .refuse (d, []) cause := by
  unfold plot
  rw [if_neg h, hr]
  rfl

theorem plot_of_read {lit : Bool} (h : ¬ (d.width ≤ x ∨ d.height ≤ y))
    (hr : d.plane.read (d.place x y) = .ok lit) :
    d.plot x y =
      if d.stamp lit = lit then .succeed (d, []) (some lit)
      else .succeed (d.paint x y (d.stamp lit), d.tell [.pixel x y (d.stamp lit)]) (some lit) := by
  unfold plot
  rw [if_neg h, hr]
  rfl

/-- Work on a display paints a region.  If it is refused on the way, it has painted a part of the
region.  If not, its answer says whether the region had a lit pixel. -/
structure Paints (P : Int → Int → Prop) (met : α → Bool) (d : Display)
    (work : Attempt (Display × List Signal) α) : Prop where
  shape : d.SameShape work.state.1
  kept : ∀ a b, d.Inside a b → ¬ P a b → work.state.1.pixel a b = d.pixel a b
  mem_sent : ∀ signal, signal ∈ work.state.2 ↔ d.watched = true ∧
    ∃ a b, d.Altered work.state.1 a b ∧ signal = .pixel a b (work.state.1.pixel a b)
  nodup : work.state.2.Nodup
  changed : work.state.1.changed = true ↔
    d.changed = true ∨ ∃ a b, d.Altered work.state.1 a b
  painted : ∀ value, work.result = .ok value →
    (∀ a b, d.Inside a b → P a b → work.state.1.pixel a b = d.stamp (d.pixel a b)) ∧
    (met value = true ↔ ∃ a b, d.Inside a b ∧ P a b ∧ d.pixel a b = true)

namespace Paints

variable {met : α → Bool} {work : Attempt (Display × List Signal) α}

theorem not_altered : ¬ d.Altered d a b := fun h => h.2 rfl

theorem still {result : Except Error α}
    (h : ∀ value, result = .ok value →
      (∀ a b, d.Inside a b → P a b → d.pixel a b = d.stamp (d.pixel a b)) ∧
      (met value = true ↔ ∃ a b, d.Inside a b ∧ P a b ∧ d.pixel a b = true)) :
    Paints P met d ⟨(d, []), result⟩ where
  shape := .refl d
  kept _ _ _ _ := rfl
  mem_sent signal := by simp [not_altered]
  nodup := .nil
  changed := by simp [not_altered]
  painted := h

theorem beside (h : ∀ a b, d.Inside a b → ¬ P a b) {value : α} (hv : met value = false) :
    Paints P met d (.succeed (d, []) value) := by
  apply still
  rintro _ ⟨⟩
  refine ⟨fun a b hab hp => absurd hp (h a b hab), ?_⟩
  rw [hv]
  constructor
  · rintro ⟨⟩
  · rintro ⟨a, b, hab, hp, -⟩
    exact absurd hp (h a b hab)

theorem congr (h : Paints P met d work) (hpq : ∀ a b, d.Inside a b → (P a b ↔ Q a b)) :
    Paints Q met d work :=
  { h with
    kept := fun a b hab hq => h.kept a b hab fun hp => hq ((hpq a b hab).mp hp)
    painted := fun value hv => by
      obtain ⟨hpaint, hmet⟩ := h.painted value hv
      refine ⟨fun a b hab hq => hpaint a b hab ((hpq a b hab).mpr hq), hmet.trans ?_⟩
      refine exists_congr fun a => exists_congr fun b => and_congr_right fun hab => ?_
      rw [hpq a b hab] }

theorem of_altered (h : Paints P met d work) (hab : d.Altered work.state.1 a b) : P a b := by
  by_contra hp
  exact hab.2 (h.kept a b hab.1 hp)

/-- Two regions apart, one after the other. -/
theorem append {β : Type} {met' : β → Bool} {f : Display} {sent sent' : List Signal} {first : α}
    {result : Except Error β} (h : Paints P met d ⟨(e, sent), .ok first⟩)
    (hn : Paints Q met' e ⟨(f, sent'), result⟩) (hpq : ∀ a b, P a b → ¬ Q a b) :
    Paints (fun a b => P a b ∨ Q a b) id d
      ⟨(f, sent ++ sent'), result.map fun second => met first || met' second⟩ := by
  have hs : d.SameShape e := h.shape
  -- what was painted first is not painted over, and what is painted second was untouched
  have hlater {a b : Int} (hab : d.Inside a b) (hp : P a b) : f.pixel a b = e.pixel a b :=
    hn.kept a b (hs.inside_iff.mpr hab) (hpq a b hp)
  have hearlier {a b : Int} (hab : d.Inside a b) (hq : Q a b) : e.pixel a b = d.pixel a b :=
    h.kept a b hab fun hp => hpq a b hp hq
  have haltered (a b : Int) : d.Altered f a b ↔ d.Altered e a b ∨ e.Altered f a b := by
    constructor
    · rintro ⟨hin, hne⟩
      by_cases he : e.pixel a b = d.pixel a b
      · exact .inr ⟨hs.inside_iff.mpr hin, he ▸ hne⟩
      · exact .inl ⟨hin, he⟩
    · rintro (hab | hab)
      · have hkeep := hlater hab.1 (h.of_altered hab)
        exact ⟨hab.1, hkeep ▸ hab.2⟩
      · have hin := hs.inside_iff.mp hab.1
        have hkeep := hearlier hin (hn.of_altered hab)
        exact ⟨hin, hkeep ▸ hab.2⟩
  refine {
    shape := hs.trans hn.shape
    kept := ?_
    mem_sent := ?_
    nodup := ?_
    changed := ?_
    painted := ?_ }
  · intro a b hab hnot
    have hfirst := h.kept a b hab fun hp => hnot (.inl hp)
    have hsecond := hn.kept a b (hs.inside_iff.mpr hab) fun hq => hnot (.inr hq)
    exact hsecond.trans hfirst
  · intro signal
    have hw : e.watched = d.watched := hs.watched
    rw [List.mem_append, h.mem_sent, hn.mem_sent, hw]
    constructor
    · rintro (⟨hd, a, b, hab, rfl⟩ | ⟨hd, a, b, hab, rfl⟩)
      · refine ⟨hd, a, b, (haltered a b).mpr (.inl hab), ?_⟩
        rw [hlater hab.1 (h.of_altered hab)]
      · exact ⟨hd, a, b, (haltered a b).mpr (.inr hab), rfl⟩
    · rintro ⟨hd, a, b, hab, rfl⟩
      obtain hfirst | hsecond := (haltered a b).mp hab
      · refine .inl ⟨hd, a, b, hfirst, ?_⟩
        rw [hlater hfirst.1 (h.of_altered hfirst)]
      · exact .inr ⟨hd, a, b, hsecond, rfl⟩
  · refine List.nodup_append.mpr ⟨h.nodup, hn.nodup, ?_⟩
    intro signal hfirst other hsecond heq
    obtain ⟨-, a, b, hab, rfl⟩ := (h.mem_sent signal).mp hfirst
    obtain ⟨-, a', b', hab', rfl⟩ := (hn.mem_sent other).mp hsecond
    obtain ⟨rfl, rfl, -⟩ := Signal.pixel.inj heq
    exact hpq a b (h.of_altered hab) (hn.of_altered hab')
  · rw [hn.changed, h.changed]
    simp only [haltered, exists_or, or_assoc]
  · intro value hv
    cases result with
    | error cause => cases hv
    | ok second =>
      obtain rfl := Except.ok.inj hv
      obtain ⟨hpaint, hmet⟩ := h.painted first rfl
      obtain ⟨hpaint', hmet'⟩ := hn.painted second rfl
      constructor
      · rintro a b hab (hp | hq)
        · exact (hlater hab hp).trans (hpaint a b hab hp)
        · rw [hpaint' a b (hs.inside_iff.mpr hab) hq, hs.stamp, hearlier hab hq]
      · rw [id, Bool.or_eq_true, hmet, hmet']
        constructor
        · rintro (⟨a, b, hab, hp, hlit⟩ | ⟨a, b, hab, hq, hlit⟩)
          · exact ⟨a, b, hab, .inl hp, hlit⟩
          · have hin := hs.inside_iff.mp hab
            exact ⟨a, b, hin, .inr hq, hearlier hin hq ▸ hlit⟩
        · rintro ⟨a, b, hab, hp | hq, hlit⟩
          · exact .inl ⟨a, b, hab, hp, hlit⟩
          · exact .inr ⟨a, b, hs.inside_iff.mpr hab, hq, hearlier hab hq ▸ hlit⟩

theorem join {β : Type} {met' : β → Bool} {next : Display → Attempt (Display × List Signal) β}
    (h : Paints P met d work) (hn : ∀ e, d.SameShape e → Paints Q met' e (next e))
    (hpq : ∀ a b, P a b → ¬ Q a b) :
    Paints (fun a b => P a b ∨ Q a b) id d
      (work.followedBy fun e first => (next e).followedBy fun f second =>
        .succeed (f, []) (met first || met' second)) := by
  obtain ⟨⟨e, sent⟩, result⟩ := work
  cases result with
  | error cause =>
    rw [followedBy_of_error rfl]
    exact {
      shape := h.shape
      kept := fun a b hab hnot => h.kept a b hab fun hp => hnot (.inl hp)
      mem_sent := h.mem_sent
      nodup := h.nodup
      changed := h.changed
      painted := fun value hv => nomatch hv }
  | ok first =>
    have hboth := h.append (hn e h.shape) hpq
    rw [followedBy_of_ok rfl, followedBy_silent_value]
    exact hboth

theorem dot (hxy : d.Inside x y) (hc : d.plane.Covers (d.place x y))
    (hne : d.stamp (d.pixel x y) ≠ d.pixel x y) :
    Paints (fun a b => a = x ∧ b = y) (· == some true) d
      (.succeed (d.paint x y (d.stamp (d.pixel x y)), d.tell [.pixel x y (d.stamp (d.pixel x y))])
        (some (d.pixel x y))) := by
  have hhere : (d.paint x y (d.stamp (d.pixel x y))).pixel x y = d.stamp (d.pixel x y) := by
    rw [pixel_paint hxy hc hxy, if_pos ⟨rfl, rfl⟩]
  have haltered (a b : Int) :
      d.Altered (d.paint x y (d.stamp (d.pixel x y))) a b ↔ a = x ∧ b = y := by
    constructor
    · rintro ⟨hab, hdiff⟩
      by_contra hn
      rw [pixel_paint hxy hc hab, if_neg hn] at hdiff
      exact hdiff rfl
    · rintro ⟨rfl, rfl⟩
      exact ⟨hxy, by rw [hhere]; exact hne⟩
  refine {
    shape := ⟨rfl, rfl, rfl, rfl, rfl⟩
    kept := ?_
    mem_sent := ?_
    nodup := ?_
    changed := ?_
    painted := ?_ }
  · intro a b hab hn
    exact (pixel_paint hxy hc hab _).trans (if_neg hn)
  · intro signal
    simp only [state_succeed, haltered, tell]
    split
    · rename_i hw
      rw [List.mem_singleton]
      constructor
      · rintro rfl
        exact ⟨hw, x, y, ⟨rfl, rfl⟩, by rw [hhere]⟩
      · rintro ⟨-, a, b, ⟨rfl, rfl⟩, rfl⟩
        rw [hhere]
    · rename_i hw
      simp [hw]
  · simp only [state_succeed, tell]
    split
    · exact List.pairwise_singleton _ _
    · exact .nil
  · simp only [state_succeed, haltered]
    exact ⟨fun _ => .inr ⟨x, y, rfl, rfl⟩, fun _ => rfl⟩
  · rintro _ ⟨⟩
    constructor
    · rintro a b hab ⟨rfl, rfl⟩
      exact hhere
    · rw [beq_iff_eq, Option.some.injEq]
      constructor
      · exact fun hlit => ⟨x, y, hxy, ⟨rfl, rfl⟩, hlit⟩
      · rintro ⟨a, b, -, ⟨rfl, rfl⟩, hlit⟩
        exact hlit

end Paints

theorem plot_paints (hx : 0 ≤ x) (hy : 0 ≤ y) :
    Paints (fun a b => a = x ∧ b = y) (· == some true) d (d.plot x y) := by
  by_cases h : d.width ≤ x ∨ d.height ≤ y
  · rw [plot_of_beyond h]
    refine .beside ?_ rfl
    rintro a b ⟨-, ha, -, hb⟩ ⟨rfl, rfl⟩
    omega
  · have hxy : d.Inside x y := ⟨hx, by omega, hy, by omega⟩
    cases hr : d.plane.read (d.place x y) with
    | error cause =>
      rw [plot_of_unread h hr]
      exact .still fun value hv => nomatch hv
    | ok lit =>
      have hget := (d.plane.read_eq_ok_iff _ lit).mp hr
      have hlit : d.pixel x y = lit := by rw [pixel, hget, Option.getD_some]
      subst hlit
      have hc : d.plane.Covers (d.place x y) := by
        by_contra hn
        rw [(d.plane.get?_eq_none_iff _).mpr hn] at hget
        cases hget
      rw [plot_of_read h hr]
      split
      · rename_i hsame
        refine .still ?_
        rintro _ ⟨⟩
        constructor
        · rintro a b - ⟨rfl, rfl⟩
          exact hsame.symm
        · rw [beq_iff_eq, Option.some.injEq]
          constructor
          · exact fun hlit => ⟨x, y, hxy, ⟨rfl, rfl⟩, hlit⟩
          · rintro ⟨a, b, -, ⟨rfl, rfl⟩, hlit⟩
            exact hlit
      · rename_i hne
        exact .dot hxy hc hne

def OnRow (x y : Int) (row : UInt8) (columns : List Nat) (a b : Int) : Prop :=
  b = y ∧ ∃ column ∈ columns, rowBit row column = true ∧ a = x + column

/-- The pixels under the set bits of a sprite, as if the display had no edges. -/
def OnSprite (x y : Int) (rows : List UInt8) (a b : Int) : Prop :=
  ∃ (i : Nat) (row : UInt8), rows[i]? = some row ∧ OnRow x (y + i) row (List.range 8) a b

theorem drawRow_paints (hx : 0 ≤ x) (hy : 0 ≤ y) (row : UInt8) {columns : List Nat}
    (hc : columns.Nodup) : Paints (OnRow x y row columns) id d (d.drawRow x y row columns) := by
  induction columns generalizing d with
  | nil =>
    refine .beside ?_ rfl
    rintro a b - ⟨-, column, hmem, -⟩
    cases hmem
  | cons column rest ih =>
    obtain ⟨hnot, hrest⟩ := List.nodup_cons.mp hc
    unfold drawRow
    split
    · rename_i hbit
      have hfirst : Paints (fun a b => a = x + column ∧ b = y) (· == some true) d
          (d.plot (x + column) y) := plot_paints (by omega) hy
      -- the columns differ, so the rest of the row stays off this pixel
      refine (hfirst.join (fun e _ => ih (d := e) hrest) ?_).congr ?_
      · rintro a b ⟨rfl, rfl⟩ ⟨-, other, hmem, -, heq⟩
        have : column = other := by omega
        exact hnot (this ▸ hmem)
      · intro a b _
        constructor
        · rintro (⟨rfl, rfl⟩ | ⟨rfl, other, hmem, hset, rfl⟩)
          · exact ⟨rfl, column, List.mem_cons_self, hbit, rfl⟩
          · exact ⟨rfl, other, List.mem_cons_of_mem _ hmem, hset, rfl⟩
        · rintro ⟨rfl, other, hmem, hset, rfl⟩
          obtain rfl | hmem := List.mem_cons.mp hmem
          · exact .inl ⟨rfl, rfl⟩
          · exact .inr ⟨rfl, other, hmem, hset, rfl⟩
    · rename_i hbit
      refine (ih hrest).congr fun a b _ => ?_
      constructor
      · rintro ⟨rfl, other, hmem, hset, rfl⟩
        exact ⟨rfl, other, List.mem_cons_of_mem _ hmem, hset, rfl⟩
      · rintro ⟨rfl, other, hmem, hset, rfl⟩
        obtain rfl | hmem := List.mem_cons.mp hmem
        · exact absurd hset hbit
        · exact ⟨rfl, other, hmem, hset, rfl⟩

theorem onSprite_cons (row : UInt8) (rest : List UInt8) :
    OnSprite x y (row :: rest) a b ↔
      OnRow x y row (List.range 8) a b ∨ OnSprite x (y + 1) rest a b := by
  constructor
  · rintro ⟨i, other, hi, hon⟩
    cases i with
    | zero =>
      obtain rfl := Option.some.inj hi
      exact .inl (by simpa using hon)
    | succ i =>
      have hy : y + (i + 1 : Nat) = y + 1 + i := by omega
      exact .inr ⟨i, other, hi, hy ▸ hon⟩
  · rintro (hon | ⟨i, other, hi, hon⟩)
    · exact ⟨0, row, rfl, by simpa using hon⟩
    · have hy : y + (i + 1 : Nat) = y + 1 + i := by omega
      exact ⟨i + 1, other, hi, hy ▸ hon⟩

theorem drawRows_paints (hx : 0 ≤ x) (hy : 0 ≤ y) (rows : List UInt8) :
    Paints (OnSprite x y rows) id d (d.drawRows x y rows) := by
  induction rows generalizing d y with
  | nil =>
    refine .beside ?_ rfl
    rintro a b - ⟨i, row, hi, -⟩
    cases hi
  | cons row rest ih =>
    unfold drawRows
    split
    · rename_i hlow
      refine .beside ?_ rfl
      rintro a b ⟨-, -, -, hb⟩ ⟨i, other, -, rfl, -⟩
      omega
    · have hfirst : Paints (OnRow x y row (List.range 8)) id d
          (d.drawRow x y row (List.range 8)) := drawRow_paints hx hy row List.nodup_range
      refine (hfirst.join (fun e _ => ih (d := e) (y := y + 1) (by omega)) ?_).congr ?_
      · rintro a b ⟨rfl, -⟩ ⟨i, other, -, heq, -⟩
        omega
      · exact fun a b _ => (onSprite_cons row rest).symm

/-- A sprite paints the pixels under its set bits, from the place on where its position is wrapped
to. -/
theorem draw_paints (hw : 0 < d.width) (hh : 0 < d.height) (x y : Int) (rows : List UInt8) :
    Paints (OnSprite (x.fmod d.width) (y.fmod d.height) rows) id d (d.draw x y rows) := by
  unfold draw
  rw [if_neg (by omega)]
  exact drawRows_paints (Int.fmod_nonneg_of_pos x hw) (Int.fmod_nonneg_of_pos y hh) rows

end ChipEight.Display
