import ChipEight.Proofs.Painting

/-!
# Going through all pixels

To clear a display and to look at its picture takes one pixel after the other, row by row.  A whole
display has a cell for each of them.  A display that was refused its last new size may be short of
cells: clearing it ends where the plane does, and there is no picture to look at.
-/

namespace ChipEight.Display

open Attempt

variable {d : Display} {x y : Int} {count : Nat} {P : Int → Int → Prop}

theorem place_add_one (d : Display) (x y : Int) : d.place (x + 1) y = d.place x y + 1 :=
  (Int.add_assoc _ _ _).symm

theorem place_below (d : Display) (y count : Int) :
    d.place 0 (y + count) = d.place 0 y + count * d.width := by
  unfold place
  rw [Int.add_mul]
  omega

section Telling

theorem tellRow_of_covers (h : d.plane.Covers (d.place x y)) (count : Nat) :
    d.tellRow x y (count + 1) =
      (d.tellRow (x + 1) y count).mapState (.pixel x y (d.pixel x y) :: ·) := by
  rw [tellRow, (d.plane.read_eq_ok_iff _ _).mpr (get?_of_covers h)]

theorem tellRow_of_not_covers (h : ¬ d.plane.Covers (d.place x y)) (count : Nat) :
    d.tellRow x y (count + 1) = .refuse [] (.fault (.outOfBounds (d.place x y))) := by
  have hread : d.plane.read (d.place x y) = .error (.fault (.outOfBounds (d.place x y))) :=
    dif_neg h
  rw [tellRow, hread]

theorem tellRows_of_error {e : Error} (h : (d.tellRow 0 y d.width.toNat).result = .error e)
    (count : Nat) :
    d.tellRows y (count + 1) = .refuse (d.tellRow 0 y d.width.toNat).state e := by
  simp only [tellRows, h]

theorem tellRows_of_ok (h : (d.tellRow 0 y d.width.toNat).result = .ok ()) (count : Nat) :
    d.tellRows y (count + 1) =
      (d.tellRows (y + 1) count).mapState ((d.tellRow 0 y d.width.toNat).state ++ ·) := by
  simp only [tellRows, h]

/-- What is told is true of pixels of a region, and all of the region is told of unless that is
refused. -/
structure Tells (P : Int → Int → Prop) (d : Display) (told : Attempt (List Signal) Unit) :
    Prop where
  true_of_mem : ∀ signal ∈ told.state, ∃ a b, P a b ∧ signal = .pixel a b (d.pixel a b)
  mem_of_ok : told.result = .ok () → ∀ a b, P a b → .pixel a b (d.pixel a b) ∈ told.state

theorem Tells.nothing (h : ∀ a b, ¬ P a b) : Tells P d (.succeed [] ()) where
  true_of_mem _ hmem := nomatch hmem
  mem_of_ok _ a b hab := absurd hab (h a b)

theorem tellRow_tells (d : Display) (x y : Int) (count : Nat) :
    Tells (fun a b => x ≤ a ∧ a < x + count ∧ b = y) d (d.tellRow x y count) := by
  induction count generalizing x with
  | zero => exact .nothing fun a b hab => by omega
  | succ count ih =>
    have hrest := ih (x + 1)
    by_cases hc : d.plane.Covers (d.place x y)
    · rw [tellRow_of_covers hc]
      refine ⟨fun signal hmem => ?_, fun hok a b hab => ?_⟩
      · obtain rfl | hmem := List.mem_cons.mp hmem
        · exact ⟨x, y, by omega, rfl⟩
        · obtain ⟨a, b, hab, rfl⟩ := hrest.true_of_mem signal hmem
          exact ⟨a, b, by omega, rfl⟩
      · by_cases hhere : a = x
        · obtain rfl := hhere
          obtain ⟨-, -, rfl⟩ := hab
          exact List.mem_cons_self
        · exact List.mem_cons_of_mem _ (hrest.mem_of_ok hok a b (by omega))
    · rw [tellRow_of_not_covers hc]
      exact ⟨fun _ hmem => (nomatch hmem), fun hok => (nomatch hok)⟩

theorem tellRows_tells (d : Display) (y : Int) (count : Nat) :
    Tells (fun a b => 0 ≤ a ∧ a < d.width ∧ y ≤ b ∧ b < y + count) d (d.tellRows y count) := by
  induction count generalizing y with
  | zero => exact .nothing fun a b hab => by omega
  | succ count ih =>
    have hrow := tellRow_tells d 0 y d.width.toNat
    have hrest := ih (y + 1)
    have hrow_true (signal) (hmem : signal ∈ (d.tellRow 0 y d.width.toNat).state) :
        ∃ a b, (0 ≤ a ∧ a < d.width ∧ y ≤ b ∧ b < y + (count + 1 : Nat)) ∧
          signal = .pixel a b (d.pixel a b) := by
      obtain ⟨a, b, hab, rfl⟩ := hrow.true_of_mem signal hmem
      exact ⟨a, b, by omega, rfl⟩
    cases hresult : (d.tellRow 0 y d.width.toNat).result with
    | error e =>
      rw [tellRows_of_error hresult]
      exact ⟨hrow_true, fun hok => (nomatch hok)⟩
    | ok =>
      rw [tellRows_of_ok hresult]
      refine ⟨fun signal hmem => ?_, fun hok a b hab => ?_⟩
      · obtain hmem | hmem := List.mem_append.mp hmem
        · exact hrow_true signal hmem
        · obtain ⟨a, b, hab, rfl⟩ := hrest.true_of_mem signal hmem
          exact ⟨a, b, by omega, rfl⟩
      · by_cases hhere : b = y
        · exact List.mem_append_left _ (hrow.mem_of_ok hresult a b (by omega))
        · exact List.mem_append_right _ (hrest.mem_of_ok hok a b (by omega))

theorem result_tellRow (hl : 0 ≤ d.place x y) (hu : d.place x y ≤ d.plane.size) :
    (d.tellRow x y count).result =
      if d.place x y + count ≤ d.plane.size then .ok ()
      else .error (.fault (.outOfBounds d.plane.size)) := by
  induction count generalizing x with
  | zero => rw [if_pos (by omega)]; rfl
  | succ count ih =>
    have hnext := d.place_add_one x y
    by_cases hc : d.plane.Covers (d.place x y)
    · have hin := Bank.covers_iff.mp hc
      rw [tellRow_of_covers hc, mapState, ih (by omega) (by omega), hnext, Int.natCast_succ,
        Int.add_assoc, Int.add_comm 1]
    · have hend : d.place x y = d.plane.size := by
        rw [Bank.covers_iff] at hc
        omega
      rw [tellRow_of_not_covers hc, result_refuse, hend, if_neg (by omega)]

theorem result_tellRows (hw : 0 ≤ d.width) (hy : 0 ≤ y) (hu : d.place 0 y ≤ d.plane.size) :
    (d.tellRows y count).result =
      if d.place 0 (y + count) ≤ d.plane.size then .ok ()
      else .error (.fault (.outOfBounds d.plane.size)) := by
  induction count generalizing y with
  | zero => rw [if_pos (by rwa [Int.natCast_zero, Int.add_zero])]; rfl
  | succ count ih =>
    have hl : 0 ≤ d.place 0 y := Int.add_nonneg (Int.mul_nonneg hy hw) (Int.le_refl 0)
    have hrow : (d.tellRow 0 y d.width.toNat).result = _ := result_tellRow hl hu
    have hnext : d.place 0 (y + 1) = d.place 0 y + d.width := by rw [place_below, Int.one_mul]
    have hrest : y + (count + 1 : Nat) = y + 1 + count := by omega
    by_cases hfits : d.place 0 y + d.width.toNat ≤ d.plane.size
    · rw [if_pos hfits] at hrow
      rw [tellRows_of_ok hrow, mapState, ih (by omega) (by omega), hrest]
    · rw [if_neg hfits] at hrow
      have hbelow : 0 ≤ count * d.width := Int.mul_nonneg (Int.natCast_nonneg count) hw
      rw [tellRows_of_error hrow, result_refuse, hrest, place_below, hnext, if_neg (by omega)]

end Telling

section Clearing

theorem clear_of_watched (h : d.watched = true) :
    d.clear = (d.cleared.tellRows 0 d.height.toNat).mapState fun told => (d.cleared, told) := by
  rw [clear, if_pos h]

theorem clear_of_unwatched (h : d.watched = false) : d.clear = .succeed (d.cleared, []) () := by
  rw [clear, if_neg (Bool.eq_false_iff.mp h), mapState_succeed]

theorem pixel_of_dark {size : Int} (h : d.plane = .ofSize size) (x y : Int) :
    d.pixel x y = false := by
  rw [pixel, h, Bank.get?_ofSize]
  split
  · rfl
  · rfl

theorem pixel_cleared (d : Display) (x y : Int) : d.cleared.pixel x y = false :=
  pixel_of_dark rfl x y

theorem state_clear (d : Display) : d.clear.state.1 = d.cleared := rfl

theorem clear_sameShape (d : Display) : d.SameShape d.clear.state.1 := ⟨rfl, rfl, rfl, rfl, rfl⟩

theorem inside_of_mem_clear {signal : Signal} (h : signal ∈ d.clear.state.2) :
    ∃ a b, d.Inside a b ∧ signal = .pixel a b false := by
  cases hd : d.watched with
  | false =>
    rw [clear_of_unwatched hd] at h
    cases h
  | true =>
    rw [clear_of_watched hd] at h
    obtain ⟨a, b, ⟨ha, haw, hb, hbh⟩, rfl⟩ :=
      (tellRows_tells d.cleared 0 d.height.toNat).true_of_mem signal h
    exact ⟨a, b, ⟨ha, haw, hb, by omega⟩, by rw [pixel_cleared]⟩

/-- To clear a watched display is refused where the plane ends before the picture does. -/
theorem result_clear (hd : d.watched = true) (hw : 0 ≤ d.width) (hh : 0 ≤ d.height)
    (hs : 0 ≤ d.plane.size) :
    d.clear.result =
      if d.width * d.height ≤ d.plane.size then .ok ()
      else .error (.fault (.outOfBounds d.plane.size)) := by
  have hstart : d.cleared.place 0 0 = 0 := by
    unfold place
    omega
  have hend : d.cleared.place 0 (0 + d.height.toNat) = d.width * d.height := by
    rw [place_below, hstart, Int.toNat_of_nonneg hh, Int.zero_add, Int.mul_comm]
    rfl
  have hfirst : d.cleared.place 0 0 ≤ d.cleared.plane.size := by rwa [hstart]
  rw [clear_of_watched hd, mapState, result_tellRows (d := d.cleared) hw (Int.le_refl 0) hfirst,
    hend]
  rfl

theorem Whole.result_clear (hd : d.Whole) : d.clear.result = .ok () := by
  cases hwatched : d.watched with
  | false =>
    rw [clear_of_unwatched hwatched]
    rfl
  | true =>
    have hw := hd.width_pos
    have hh := hd.height_pos
    have hs := hd.size_plane
    have hpixels := Int.mul_nonneg (Int.le_of_lt hw) (Int.le_of_lt hh)
    rw [Display.result_clear hwatched (Int.le_of_lt hw) (Int.le_of_lt hh) (hs ▸ hpixels),
      if_pos (Int.le_of_eq hs.symm)]

theorem Whole.mem_clear (hd : d.Whole) (hwatched : d.watched = true) (signal : Signal) :
    signal ∈ d.clear.state.2 ↔ ∃ a b, d.Inside a b ∧ signal = .pixel a b false := by
  refine ⟨inside_of_mem_clear, ?_⟩
  rintro ⟨a, b, hab, rfl⟩
  have hok := hd.result_clear
  rw [clear_of_watched hwatched] at hok ⊢
  rw [← pixel_cleared d a b]
  obtain ⟨ha, haw, hb, hbh⟩ := hab
  exact (tellRows_tells d.cleared 0 d.height.toNat).mem_of_ok hok a b ⟨ha, haw, hb, by omega⟩

end Clearing

section Looking

variable {α : Type} {value : Nat → Except Error α} {e : Error} {k : Nat}

theorem gather_eq_ok {f : Nat → α} (h : ∀ i, k ≤ i → i < k + count → value i = .ok (f i)) :
    gather value k count = .ok ((List.range' k count).map f) := by
  induction count generalizing k with
  | zero => rfl
  | succ count ih =>
    have hhere := h k (Nat.le_refl k) (by omega)
    have hrest := ih (k := k + 1) fun i hl hu => h i (by omega) (by omega)
    rw [gather, hhere, hrest, List.range'_succ, List.map_cons]
    rfl

theorem eq_of_gather_eq_error (hall : ∀ i cause, value i = .error cause → cause = e) {cause : Error}
    (h : gather value k count = .error cause) : cause = e := by
  induction count generalizing k with
  | zero => cases h
  | succ count ih =>
    obtain hhere | ⟨here, -, hrest⟩ := of_bind_eq_error h
    · exact hall k cause hhere
    · obtain hrest | ⟨rest, -, hok⟩ := of_bind_eq_error hrest
      · exact ih hrest
      · cases hok

theorem gather_eq_error (hall : ∀ i cause, value i = .error cause → cause = e) {i : Nat}
    (hl : k ≤ i) (hu : i < k + count) (h : value i = .error e) :
    gather value k count = .error e := by
  induction count generalizing k with
  | zero => omega
  | succ count ih =>
    cases hhere : value k with
    | error cause =>
      rw [gather, hhere, hall k cause hhere]
      rfl
    | ok here =>
      have hne : k ≠ i := by
        rintro rfl
        rw [hhere] at h
        cases h
      rw [gather, hhere, ih (k := k + 1) (by omega) (by omega)]
      rfl

theorem eq_of_lookUp_eq_error (h : d.lookUp x y = .error e) : e = .noSuchEntry := by
  unfold lookUp at h
  cases hget : d.plane.get? (d.place x y) with
  | none =>
    rw [hget] at h
    exact (Except.error.inj h).symm
  | some lit =>
    rw [hget] at h
    cases h

theorem Whole.lookUp_eq (hd : d.Whole) (hxy : d.Inside x y) : d.lookUp x y = .ok (d.pixel x y) := by
  rw [lookUp, hd.get?_place hxy]
  rfl

theorem Whole.snapshot_eq (hd : d.Whole) :
    d.snapshot = .ok ((List.range d.height.toNat).map fun (y : Nat) =>
      (List.range d.width.toNat).map fun (x : Nat) => d.pixel x y) := by
  simp only [List.range_eq_range']
  refine gather_eq_ok fun y _ hy => gather_eq_ok fun x _ hx => ?_
  exact hd.lookUp_eq ⟨by omega, by omega, by omega, by omega⟩

/-- Where the plane ends before the picture does, the picture cannot be looked at. -/
theorem snapshot_of_short (hw : 0 < d.width) (hs : 0 ≤ d.plane.size)
    (h : d.plane.size < d.width * d.height) : d.snapshot = .error .noSuchEntry := by
  have hrow : d.plane.size / d.width < d.height :=
    Int.ediv_lt_of_lt_mul hw (by rwa [Int.mul_comm] at h)
  have hrow' : 0 ≤ d.plane.size / d.width := Int.ediv_nonneg hs (Int.le_of_lt hw)
  have hcolumn : d.plane.size % d.width < d.width := Int.emod_lt_of_pos _ hw
  have hcolumn' : 0 ≤ d.plane.size % d.width := Int.emod_nonneg _ (Int.ne_of_gt hw)
  -- the first place behind the plane is that of a pixel
  have hmissing : d.lookUp (d.plane.size % d.width).toNat (d.plane.size / d.width).toNat =
      .error .noSuchEntry := by
    have hplace : d.place (d.plane.size % d.width) (d.plane.size / d.width) = d.plane.size :=
      Int.ediv_mul_add_emod _ _
    rw [Int.toNat_of_nonneg hrow', Int.toNat_of_nonneg hcolumn', lookUp, hplace,
      (d.plane.get?_eq_none_iff _).mpr fun hc => absurd (Bank.covers_iff.mp hc).2 (Int.lt_irrefl _)]
    rfl
  have hcells (y : Int) (i : Nat) (cause : Error) :
      d.lookUp i y = .error cause → cause = .noSuchEntry := eq_of_lookUp_eq_error
  refine gather_eq_error (fun y cause => eq_of_gather_eq_error (hcells y)) (Nat.zero_le _)
    (i := (d.plane.size / d.width).toNat) (by omega) ?_
  exact gather_eq_error (hcells _) (Nat.zero_le _) (by omega) hmissing

end Looking

end ChipEight.Display
