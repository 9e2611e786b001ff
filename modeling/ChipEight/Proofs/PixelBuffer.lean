import ChipEight.Proofs.Palettes
import ChipEight.Proofs.Picture

/-!
# The pixel buffer of a window

The buffer of a window is a run of bytes, three for each pixel, and a picture stands in it row by
row.  It follows every new size and every pixel, and a refresh hands it over as it is.  A new size
that there is no room for is refused, and the old picture stays.
-/

namespace ChipEight

open Attempt

namespace Picture

def Inside (p : Picture) (x y : Int) : Prop := 0 ≤ x ∧ x < p.width ∧ 0 ≤ y ∧ y < p.height

instance (p : Picture) (x y : Int) : Decidable (p.Inside x y) :=
  inferInstanceAs (Decidable (_ ∧ _))

theorem Inside.place_bounds {p : Picture} {x y : Int} (h : p.Inside x y) :
    0 ≤ y * p.width + x ∧ y * p.width + x < p.height * p.width :=
  Grid.place_bounds h.1 h.2.1 h.2.2.1 h.2.2.2

/-- The signal is in order for the picture: sizes are not negative, and pixels are inside. -/
def Admits (p : Picture) : Signal → Prop
  | .resolution width height => 0 ≤ width ∧ 0 ≤ height
  | .pixel x y _ => p.Inside x y
  | .refresh _ | .title _ => True

instance (p : Picture) : DecidablePred p.Admits
  | .resolution .. => inferInstanceAs (Decidable (_ ∧ _))
  | .pixel .. => inferInstanceAs (Decidable (p.Inside _ _))
  | .refresh _ | .title _ => inferInstanceAs (Decidable True)

def ShownAt (p : Picture) : Signal → Prop
  | .resolution width height => 0 < width * height
  | .refresh changed => changed = true ∧ 0 < p.width * p.height
  | .pixel .. | .title _ => False

end Picture

namespace Window

variable {p : Picture} {signal : Signal}

section Bytes

/-- Writes over the bytes between two bounds, which have to be as many as the new ones. -/
def overwrite? (buffer : List UInt8) (start stop : Int) (bytes : List UInt8) :
    Option (List UInt8) :=
  let first := slicePlace buffer.length start
  let last := slicePlace buffer.length stop
  if last - first = bytes.length then some (buffer.take first ++ bytes ++ buffer.drop last)
  else none

variable (colours : List Colour)

theorem length_bytes : (colours.flatMap Colour.bytes).length = 3 * colours.length := by
  induction colours with
  | nil => rfl
  | cons c rest ih =>
    rw [List.flatMap_cons, List.length_append, ih, List.length_cons]
    change 3 + 3 * rest.length = _
    omega

theorem drop_bytes (n : Nat) :
    (colours.flatMap Colour.bytes).drop (3 * n) = (colours.drop n).flatMap Colour.bytes := by
  induction colours generalizing n with
  | nil => simp
  | cons c rest ih =>
    cases n with
    | zero => rfl
    | succ n =>
      change (c.red :: c.green :: c.blue :: rest.flatMap Colour.bytes).drop (3 * n + 3) = _
      exact ih n

theorem take_bytes (n : Nat) :
    (colours.flatMap Colour.bytes).take (3 * n) = (colours.take n).flatMap Colour.bytes := by
  induction colours generalizing n with
  | nil => simp
  | cons c rest ih =>
    cases n with
    | zero => rfl
    | succ n =>
      change (c.red :: c.green :: c.blue :: rest.flatMap Colour.bytes).take (3 * n + 3) = _
      rw [List.take_succ_cons, List.take_succ_cons, List.take_succ_cons, ih n]
      rfl

variable {colours}

theorem bytes_of_getElem? {n : Nat} {c : Colour} (h : colours[n]? = some c) :
    ((colours.flatMap Colour.bytes).drop (3 * n)).take 3 = c.bytes := by
  obtain ⟨hn, rfl⟩ := List.getElem?_eq_some_iff.mp h
  rw [drop_bytes, List.drop_eq_getElem_cons hn]
  rfl

end Bytes

namespace Surface

def bytes (s : Surface) : List UInt8 := s.pixels.toList.flatMap Colour.bytes

theorem length_bytes (s : Surface) : s.bytes.length = 3 * s.pixels.size := by
  rw [bytes, Window.length_bytes, Array.length_toList]

/-- A pixel number leads to a place in the buffer just where three bytes can be written over, and
those of the colour are written there. -/
theorem overwrite?_bytes (s : Surface) (number : Int) (c : Colour) :
    overwrite? s.bytes (number * 3) (number * 3 + 3) c.bytes =
      (s.place? number).map fun place =>
        { s with pixels := s.pixels.setIfInBounds place c }.bytes := by
  have hlength := s.length_bytes
  have hthree : c.bytes.length = 3 := rfl
  have hfirst := slicePlace_cases (3 * s.pixels.size) (number * 3)
  have hlast := slicePlace_cases (3 * s.pixels.size) (number * 3 + 3)
  unfold overwrite?
  simp only [hlength, hthree]
  cases hp : s.place? number with
  | none =>
    have hout : slicePlace (3 * s.pixels.size) (number * 3 + 3) -
        slicePlace (3 * s.pixels.size) (number * 3) ≠ 3 := by
      unfold place? at hp
      split at hp
      · cases hp
      · split at hp
        · cases hp
        · omega
    rw [if_neg hout]
    rfl
  | some place =>
    have hplace : place < s.pixels.size ∧ slicePlace (3 * s.pixels.size) (number * 3) = 3 * place ∧
        slicePlace (3 * s.pixels.size) (number * 3 + 3) = 3 * (place + 1) := by
      unfold place? at hp
      split at hp
      · obtain rfl := Option.some.inj hp
        omega
      · split at hp
        · obtain rfl := Option.some.inj hp
          omega
        · cases hp
    obtain ⟨hsize, hfirst, hlast⟩ := hplace
    rw [hfirst, hlast, if_pos (by omega), Option.map_some]
    unfold bytes
    rw [Array.toList_setIfInBounds, List.set_eq_take_append_cons_drop, Array.length_toList,
      if_pos hsize, List.flatMap_append, List.flatMap_cons, take_bytes, drop_bytes,
      List.append_assoc]

end Surface

/-- There is room for the bytes of a new size. -/
def Granted [Room] : Signal → Prop
  | .resolution width height => Room.check (width * height * 3) = .ok ()
  | .pixel .. | .refresh _ | .title _ => True

instance [Room] : DecidablePred Granted
  | .resolution .. => inferInstanceAs (Decidable (_ = _))
  | .pixel .. | .refresh _ | .title _ => inferInstanceAs (Decidable True)

/-- The picture after a signal.  It stays as it is where no room is granted. -/
def follow [Room] (p : Picture) (signal : Signal) : Picture :=
  if Granted signal then p.receive signal else p

theorem follow_of_granted [Room] (p : Picture) (h : Granted signal) :
    follow p signal = p.receive signal := if_pos h

/-- Each of the signals is in order when its turn comes. -/
def InOrder [Room] (p : Picture) : List Signal → Prop
  | [] => True
  | signal :: rest => p.Admits signal ∧ InOrder (follow p signal) rest

instance decidableInOrder [Room] (p : Picture) : DecidablePred (InOrder p)
  | [] => inferInstanceAs (Decidable True)
  | signal :: rest =>
    have := decidableInOrder (follow p signal) rest
    inferInstanceAs (Decidable (_ ∧ _))

def Palette.of (palette : Palette) (lit : Bool) : Colour :=
  if lit then palette.foreground else palette.background

theorem Palette.lookUp_lit (palette : Palette) (lit : Bool) :
    palette.lookUp (if lit then 1 else 0) = .ok (palette.of lit) := by
  cases lit <;> rfl

namespace Surface

variable {s opened : Surface}

def showing (s : Surface) (times : Int) : List Call :=
  [.image s.width s.height s.pixels] ++ List.replicate times.toNat .double ++
    [.stretch s.windowWidth s.windowHeight, .draw, .flip]

theorem asked_iff {changed : Bool} :
    (changed && !s.pixels.isEmpty) = true ↔ changed = true ∧ s.pixels.size ≠ 0 := by
  rw [Bool.and_eq_true, Bool.not_eq_true', ← Bool.not_eq_true, Array.isEmpty_iff_size_eq_zero]

theorem refresh_of_unshown {changed : Bool} (h : changed = false ∨ s.pixels.size = 0) :
    s.refresh changed = .succeed s () := by
  unfold refresh
  rw [if_neg]
  rw [asked_iff]
  rintro ⟨rfl, hne⟩
  exact h.elim nofun hne

theorem refresh_of_number {times : Int} (h : s.pixels.size ≠ 0)
    (hs : s.smoothing = .value times) :
    s.refresh true = .succeed { s with calls := s.calls ++ (s.showing times).toArray } () := by
  unfold refresh
  rw [if_pos (asked_iff.mpr ⟨rfl, h⟩)]
  simp only [call, hs, Setting.number, ofExcept_ok, andThen_succeed, showing]
  congr 2
  simp

theorem refresh_of_blank (h : s.pixels.size ≠ 0) (hs : s.smoothing = .blank) :
    s.refresh true = .refuse (s.call (.image s.width s.height s.pixels)) .blankNumber := by
  unfold refresh
  rw [if_pos (asked_iff.mpr ⟨rfl, h⟩)]
  simp only [call, hs, Setting.number, ofExcept_error, andThen_refuse]

theorem succeeds_refresh_iff {changed : Bool} :
    (s.refresh changed).Succeeds ↔
      (changed = true ∧ s.pixels.size ≠ 0 → s.smoothing ≠ .blank) := by
  by_cases h : changed = true ∧ s.pixels.size ≠ 0
  · obtain ⟨rfl, hne⟩ := h
    cases hs : s.smoothing with
    | value times =>
      rw [refresh_of_number hne hs]
      exact ⟨fun _ _ => nofun, fun _ => succeeds_succeed _ ()⟩
    | blank =>
      rw [refresh_of_blank hne hs]
      exact ⟨fun hr => absurd hr (not_succeeds_refuse _ _), fun hr => absurd rfl (hr ⟨rfl, hne⟩)⟩
  · have hunshown : changed = false ∨ s.pixels.size = 0 := by
      cases changed with
      | false => exact .inl rfl
      | true => exact .inr (by simpa using h)
    rw [refresh_of_unshown hunshown]
    exact ⟨fun _ hshown => absurd hshown h, fun _ => succeeds_succeed _ ()⟩

/-- The window is as it was opened, and the picture stands in its buffer. -/
structure Keeps (opened : Surface) (p : Picture) (s : Surface) : Prop where
  palette : s.palette = opened.palette
  smoothing : s.smoothing = opened.smoothing
  windowWidth : s.windowWidth = opened.windowWidth
  windowHeight : s.windowHeight = opened.windowHeight
  width : s.width = p.width
  height : s.height = p.height
  nonneg : 0 ≤ p.width ∧ 0 ≤ p.height
  size : (s.pixels.size : Int) = p.width * p.height
  pixel : ∀ x y, p.Inside x y →
    s.pixels[(y * p.width + x).toNat]? = some (opened.palette.of (p.lit x y))

/-- The buffer does not depend on the title, nor on what was asked of the window system. -/
theorem Keeps.called (h : Keeps opened p s) (calls : Array Call) (title : String) :
    Keeps opened p { s with calls, title } where
  palette := h.palette
  smoothing := h.smoothing
  windowWidth := h.windowWidth
  windowHeight := h.windowHeight
  width := h.width
  height := h.height
  nonneg := h.nonneg
  size := h.size
  pixel := h.pixel

theorem Keeps.refresh (h : Keeps opened p s) (changed : Bool) :
    Keeps opened p (s.refresh changed).state := by
  by_cases hshown : changed = false ∨ s.pixels.size = 0
  · rw [refresh_of_unshown hshown]
    exact h
  · obtain ⟨hchanged, hne⟩ := not_or.mp hshown
    obtain rfl := (Bool.not_eq_false _).mp hchanged
    cases hs : s.smoothing with
    | value times =>
      rw [refresh_of_number hne hs]
      exact h.called _ _
    | blank =>
      rw [refresh_of_blank hne hs]
      exact h.called _ _

theorem keeps_blankPixels (h : Keeps opened p s) {width height : Int} (hw : 0 ≤ width)
    (hh : 0 ≤ height) :
    Keeps opened ⟨width, height, fun _ _ => false⟩
      { s with width, height, pixels := blankPixels s.palette width height } where
  palette := h.palette
  smoothing := h.smoothing
  windowWidth := h.windowWidth
  windowHeight := h.windowHeight
  width := rfl
  height := rfl
  nonneg := ⟨hw, hh⟩
  size := by
    rw [blankPixels, Array.size_replicate]
    exact Int.toNat_of_nonneg (Int.mul_nonneg hw hh)
  pixel x y hin := by
    have hplace : 0 ≤ y * width + x ∧ y * width + x < height * width := hin.place_bounds
    rw [blankPixels, if_pos hw, Array.getElem?_replicate, h.palette, if_pos]
    · rfl
    · change (y * width + x).toNat < (width * height).toNat
      rw [Int.mul_comm width height]
      omega

section Refill

/-- The pixels of a size, row by row. -/
def cells (width height : Int) : List (Int × Int) :=
  (List.range height.toNat).flatMap fun (y : Nat) =>
    (List.range width.toNat).map fun (x : Nat) => ((x : Int), (y : Int))

def setPixels (s : Surface) (value : Int) : List (Int × Int) → Attempt Surface Unit
  | [] => .succeed s ()
  | (x, y) :: rest => (s.setPixel x y value).andThen fun s _ => s.setPixels value rest

def fill (pixels : Array Colour) (c : Colour) (places : List Nat) : Array Colour :=
  places.foldl (fun pixels place => pixels.setIfInBounds place c) pixels

theorem mem_cells_iff {x y width height : Int} :
    (x, y) ∈ cells width height ↔ 0 ≤ x ∧ x < width ∧ 0 ≤ y ∧ y < height := by
  simp only [cells, List.mem_flatMap, List.mem_map, List.mem_range, Prod.mk.injEq]
  constructor
  · rintro ⟨b, hb, a, ha, rfl, rfl⟩
    omega
  · rintro ⟨hx, hxw, hy, hyh⟩
    exact ⟨y.toNat, by omega, x.toNat, by omega, by omega, by omega⟩

theorem getElem?_fill (pixels : Array Colour) (c : Colour) (places : List Nat) (i : Nat) :
    (fill pixels c places)[i]? = if i ∈ places ∧ i < pixels.size then some c else pixels[i]? := by
  induction places generalizing pixels with
  | nil => simp [fill]
  | cons place rest ih =>
    change (fill (pixels.setIfInBounds place c) c rest)[i]? = _
    rw [ih, Array.size_setIfInBounds, Array.getElem?_setIfInBounds]
    by_cases hplace : place = i
    · by_cases hi : i < pixels.size
      · simp [hplace, hi]
      · simp [hplace, hi]
    · simp [hplace, Ne.symm hplace]

theorem setPixels_eq {value : Int} {c : Colour} (hc : s.palette.lookUp value = .ok c)
    {pixels : List (Int × Int)} (hplaces : ∀ x y, (x, y) ∈ pixels →
      0 ≤ y * s.width + x ∧ y * s.width + x < s.pixels.size) :
    s.setPixels value pixels = .succeed { s with
      pixels := fill s.pixels c (pixels.map fun (x, y) => (y * s.width + x).toNat) } () := by
  induction pixels generalizing s with
  | nil => rfl
  | cons pixel rest ih =>
    obtain ⟨x, y⟩ := pixel
    let next : Surface :=
      { s with pixels := s.pixels.setIfInBounds (y * s.width + x).toNat c }
    have hplace : s.place? (y * s.width + x) = some (y * s.width + x).toNat :=
      if_pos (hplaces x y List.mem_cons_self)
    have hset : s.setPixel x y value = .succeed next () := by
      unfold setPixel
      rw [hc, ofExcept_ok, andThen_succeed, hplace]
    rw [setPixels, hset, andThen_succeed]
    refine ih (s := next) hc fun a b hab => ?_
    change _ ∧ b * s.width + a < (s.pixels.setIfInBounds _ _).size
    rw [Array.size_setIfInBounds]
    exact hplaces a b (List.mem_cons_of_mem _ hab)

theorem toNat_place_mem {width height : Int} (hw : 0 ≤ width) {i : Nat}
    (hi : i < (width * height).toNat) :
    i ∈ (cells width height).map fun (x, y) => (y * width + x).toNat := by
  have hlt : (i : Int) < height * width := by
    rw [Int.mul_comm]
    omega
  have hpos : 0 < width := by
    obtain hpos | rfl := Int.lt_or_eq_of_le hw
    · exact hpos
    · rw [Int.mul_zero] at hlt
      omega
  have hplace : i / width * width + i % width = i := Int.ediv_mul_add_emod i width
  refine List.mem_map.mpr ⟨(i % width, i / width), mem_cells_iff.mpr ⟨?_, ?_, ?_, ?_⟩, ?_⟩
  · exact Int.emod_nonneg _ (Int.ne_of_gt hpos)
  · exact Int.emod_lt_of_pos _ hpos
  · exact Int.ediv_nonneg (Int.natCast_nonneg i) hw
  · exact Int.ediv_lt_of_lt_mul hpos hlt
  · change (i / width * width + i % width).toNat = i
    omega

/-- The buffer of a new size is the one that comes of setting each pixel of a black buffer, row by
row. -/
theorem setPixels_cells (s : Surface) (width height : Int) :
    { s with width, height, pixels := .replicate (width * height).toNat default }.setPixels 0
        (cells width height) =
      .succeed { s with width, height, pixels := blankPixels s.palette width height } () := by
  have hplaces (x y : Int) (hxy : (x, y) ∈ cells width height) : 0 ≤ y * width + x ∧
      y * width + x < (Array.replicate (width * height).toNat (default : Colour)).size := by
    obtain ⟨hx, hxw, hy, hyh⟩ := mem_cells_iff.mp hxy
    have hbounds := Grid.place_bounds hx hxw hy hyh
    rw [Array.size_replicate, Int.mul_comm width height]
    omega
  rw [setPixels_eq (s := { s with width, height, pixels := .replicate _ default }) rfl hplaces]
  refine congrArg (fun pixels => Attempt.succeed { s with width, height, pixels } ()) ?_
  refine Array.ext_getElem? fun i => ?_
  rw [getElem?_fill, Array.size_replicate, blankPixels, Array.getElem?_replicate,
    Array.getElem?_replicate]
  by_cases hi : i < (width * height).toNat
  · by_cases hw : 0 ≤ width
    · rw [if_pos ⟨toNat_place_mem hw hi, hi⟩, if_pos hi, if_pos hw]
    · have hnone : cells width height = [] := by
        rw [cells, Int.toNat_of_nonpos (Int.le_of_lt (Int.not_le.mp hw))]
        simp
      rw [hnone, if_neg (by simp), if_pos hi, if_pos hi, if_neg hw]
  · rw [if_neg fun h => hi h.2, if_neg hi, if_neg hi]

end Refill

theorem setResolution_of_room [Room] {width height : Int} (hw : 0 ≤ width) (hh : 0 ≤ height)
    (hroom : Room.check (width * height * 3) = .ok ()) :
    s.setResolution width height =
      { s with width, height, pixels := blankPixels s.palette width height }.refresh true := by
  have hproduct := Int.mul_nonneg hw hh
  unfold setResolution
  rw [hroom, ofExcept_ok, andThen_succeed, if_neg (by omega)]

theorem setResolution_of_no_room [Room] {width height : Int}
    (hroom : Room.check (width * height * 3) ≠ .ok ()) :
    ∃ e, s.setResolution width height = .refuse s e := by
  unfold setResolution
  cases hcheck : Room.check (width * height * 3) with
  | ok => exact absurd hcheck hroom
  | error e => exact ⟨e, rfl⟩

theorem Keeps.place?_eq (h : Keeps opened p s) {x y : Int} (hin : p.Inside x y) :
    s.place? (y * s.width + x) = some (y * p.width + x).toNat := by
  have hplace := hin.place_bounds
  have hsize := h.size
  rw [Int.mul_comm] at hsize
  unfold place?
  rw [h.width, if_pos (by omega)]

theorem Keeps.setPixel_eq [Room] (h : Keeps opened p s) {x y : Int} (hin : p.Inside x y) (lit : Bool) :
    s.receive (.pixel x y lit) = .succeed
      { s with
        pixels := s.pixels.setIfInBounds (y * p.width + x).toNat (opened.palette.of lit) } () := by
  change s.setPixel x y (if lit then 1 else 0) = _
  unfold setPixel
  rw [Palette.lookUp_lit, ofExcept_ok, andThen_succeed, h.place?_eq hin, h.palette]

theorem Keeps.setPixel [Room] (h : Keeps opened p s) {x y : Int} (hin : p.Inside x y) (lit : Bool) :
    Keeps opened (p.receive (.pixel x y lit)) (s.receive (.pixel x y lit)).state := by
  rw [h.setPixel_eq hin lit]
  refine {
    palette := h.palette
    smoothing := h.smoothing
    windowWidth := h.windowWidth
    windowHeight := h.windowHeight
    width := h.width
    height := h.height
    nonneg := h.nonneg
    size := (congrArg Nat.cast Array.size_setIfInBounds).trans h.size
    pixel := ?_ }
  intro a b (hab : p.Inside a b)
  change (s.pixels.setIfInBounds _ _)[(b * p.width + a).toNat]? =
    some (opened.palette.of (if a = x ∧ b = y then lit else p.lit a b))
  have hplace := hin.place_bounds
  have hplace' := hab.place_bounds
  have hsame : (y * p.width + x).toNat = (b * p.width + a).toNat ↔ a = x ∧ b = y := by
    rw [← Grid.place_eq_iff hin.1 hin.2.1 hab.1 hab.2.1]
    omega
  have hsize := h.size
  rw [Int.mul_comm] at hsize
  rw [Array.getElem?_setIfInBounds]
  by_cases heq : a = x ∧ b = y
  · rw [if_pos (hsame.mpr heq), if_pos (by omega), if_pos heq]
  · rw [if_neg fun h => heq (hsame.mp h), if_neg heq, h.pixel a b hab]

theorem Keeps.receive [Room] (h : Keeps opened p s) (ha : p.Admits signal) :
    Keeps opened (follow p signal) (s.receive signal).state := by
  cases signal with
  | resolution width height =>
    unfold follow
    change Keeps opened _ (s.setResolution width height).state
    split
    case isTrue hroom =>
      rw [setResolution_of_room ha.1 ha.2 hroom]
      exact (keeps_blankPixels h ha.1 ha.2).refresh true
    case isFalse hroom =>
      obtain ⟨e, hrefused⟩ := setResolution_of_no_room (s := s) hroom
      rw [hrefused]
      exact h
  | pixel x y lit =>
    rw [follow_of_granted p (show Granted (.pixel x y lit) from trivial)]
    exact h.setPixel ha lit
  | refresh changed =>
    rw [follow_of_granted p (show Granted (.refresh changed) from trivial)]
    exact h.refresh changed
  | title text =>
    rw [follow_of_granted p (show Granted (.title text) from trivial)]
    exact h.called _ _

theorem Keeps.size_ne_zero_iff (h : Keeps opened p s) :
    s.pixels.size ≠ 0 ↔ 0 < p.width * p.height := by
  have hsize := h.size
  omega

theorem Keeps.succeeds_receive_iff [Room] (h : Keeps opened p s) (ha : p.Admits signal) :
    (s.receive signal).Succeeds ↔
      Granted signal ∧ (p.ShownAt signal → opened.smoothing ≠ .blank) := by
  cases signal with
  | resolution width height =>
    change (s.setResolution width height).Succeeds ↔ Room.check (width * height * 3) = .ok () ∧ _
    by_cases hroom : Room.check (width * height * 3) = .ok ()
    · have hnew := keeps_blankPixels h ha.1 ha.2
      rw [setResolution_of_room ha.1 ha.2 hroom, succeeds_refresh_iff, hnew.smoothing,
        and_iff_right rfl, and_iff_right hroom, hnew.size_ne_zero_iff]
      rfl
    · obtain ⟨e, hrefused⟩ := setResolution_of_no_room (s := s) hroom
      rw [hrefused]
      exact ⟨fun hs => absurd hs (not_succeeds_refuse s e), fun hs => absurd hs.1 hroom⟩
  | pixel x y lit =>
    rw [h.setPixel_eq ha lit]
    exact ⟨fun _ => ⟨trivial, nofun⟩, fun _ => succeeds_succeed _ ()⟩
  | refresh changed =>
    change (s.refresh changed).Succeeds ↔ True ∧ _
    rw [succeeds_refresh_iff, h.smoothing, h.size_ne_zero_iff, true_and]
    rfl
  | title text => exact ⟨fun _ => ⟨trivial, nofun⟩, fun _ => succeeds_succeed _ ()⟩

def after [Room] (s : Surface) (signals : List Signal) : Surface :=
  signals.foldl (fun s signal => (s.receive signal).state) s

theorem Keeps.after [Room] {signals : List Signal} (h : Keeps opened p s) (ho : InOrder p signals) :
    Keeps opened (signals.foldl follow p) (s.after signals) := by
  induction signals generalizing p s with
  | nil => exact h
  | cons signal rest ih => exact ih (h.receive ho.1) ho.2

theorem keeps_opened {scale : Option (Setting Int)} {text : Option (Setting String)}
    {smoothing : Setting Int} (h : (start scale text smoothing).result = .ok opened) :
    opened.smoothing = smoothing ∧ Keeps opened .blank opened := by
  unfold start at h
  cases hscale : (scale.getD (.value standardScale)).number with
  | error e => simp [hscale] at h
  | ok width =>
  cases htext : text.mapM Setting.text with
  | error e => simp [hscale, htext] at h
  | ok text =>
  cases hpalette : Palette.read text with
  | error e => simp [hscale, htext, hpalette] at h
  | ok palette =>
    simp only [hscale, htext, hpalette, ofExcept_ok, andThen_succeed, result_succeed] at h
    obtain rfl := Except.ok.inj h
    exact ⟨rfl, {
      palette := rfl
      smoothing := rfl
      windowWidth := rfl
      windowHeight := rfl
      width := rfl
      height := rfl
      nonneg := ⟨Int.le_refl 0, Int.le_refl 0⟩
      size := rfl
      pixel := fun _ _ hin => absurd (Int.lt_of_le_of_lt hin.1 hin.2.1) (Int.lt_irrefl 0) }⟩

theorem Keeps.bytes_eq (h : Keeps opened p s) {x y : Int} (hin : p.Inside x y) :
    (s.bytes.drop (3 * (y * p.width + x)).toNat).take 3 =
      (opened.palette.of (p.lit x y)).bytes := by
  have hplace := hin.place_bounds
  have hstart : (3 * (y * p.width + x)).toNat = 3 * (y * p.width + x).toNat := by omega
  rw [hstart, bytes, bytes_of_getElem?]
  rw [Array.getElem?_toList]
  exact h.pixel x y hin

theorem Keeps.overwrite?_eq [Room] (h : Keeps opened p s) {x y : Int} (hin : p.Inside x y) (lit : Bool) :
    overwrite? s.bytes ((y * p.width + x) * 3) ((y * p.width + x) * 3 + 3)
        (opened.palette.of lit).bytes =
      some (s.receive (.pixel x y lit)).state.bytes := by
  have hplace := h.place?_eq hin
  rw [h.width] at hplace
  rw [overwrite?_bytes, hplace, h.setPixel_eq hin lit]
  rfl

/-- Whatever was drawn in order, the buffer holds the picture, three bytes for each pixel, and a
pixel is set by writing over its bytes.  Signals in order are refused only for want of room, and
then change nothing, or because a picture is shown and how often to smooth it was left blank.  A
refresh hands the buffer over, and is nothing if nothing changed or there are no pixels. -/
theorem buffer_keeps_picture [Room] {scale : Option (Setting Int)} {text : Option (Setting String)}
    {smoothing : Setting Int} {opened : Surface} {signals : List Signal}
    (hopened : (start scale text smoothing).result = .ok opened) (ho : InOrder .blank signals) :
    let s := opened.after signals
    let p := signals.foldl follow .blank
    (s.bytes.length = 3 * (p.width * p.height) ∧
      ∀ x y, p.Inside x y → (s.bytes.drop (3 * (y * p.width + x)).toNat).take 3 =
        (opened.palette.of (p.lit x y)).bytes) ∧
    (∀ x y lit, p.Inside x y →
      overwrite? s.bytes ((y * p.width + x) * 3) ((y * p.width + x) * 3 + 3)
        (opened.palette.of lit).bytes = some (s.receive (.pixel x y lit)).state.bytes) ∧
    (∀ signal, p.Admits signal →
      ((s.receive signal).Succeeds ↔
        Granted signal ∧ (p.ShownAt signal → smoothing ≠ .blank)) ∧
      (¬ Granted signal → (s.receive signal).state = s)) ∧
    (∀ times, smoothing = .value times → 0 < p.width * p.height →
      let shown : List Call := [.image p.width p.height s.pixels] ++
        List.replicate times.toNat .double ++
        [.stretch opened.windowWidth opened.windowHeight, .draw, .flip]
      s.receive (.refresh true) = .succeed { s with calls := s.calls ++ shown.toArray } ()) ∧
    (∀ changed, changed = false ∨ p.width * p.height = 0 →
      s.receive (.refresh changed) = .succeed s ()) := by
  intro s p
  obtain ⟨rfl, hblank⟩ := keeps_opened hopened
  have h : Keeps opened p s := hblank.after ho
  refine ⟨⟨?_, fun x y hin => h.bytes_eq hin⟩, fun x y lit hin => h.overwrite?_eq hin lit,
    ?_, ?_, ?_⟩
  · rw [s.length_bytes, ← h.size]
    rfl
  · intro signal ha
    refine ⟨h.succeeds_receive_iff ha, fun hroom => ?_⟩
    cases signal with
    | resolution width height =>
      obtain ⟨e, hrefused⟩ := setResolution_of_no_room (s := s) hroom
      exact congrArg Attempt.state hrefused
    | pixel x y lit => exact absurd trivial hroom
    | refresh changed => exact absurd trivial hroom
    | title text => exact absurd trivial hroom
  · intro times htimes hpixels shown
    have hshown : s.showing times = shown := by
      rw [showing, h.width, h.height, h.windowWidth, h.windowHeight]
    rw [← hshown]
    exact refresh_of_number (h.size_ne_zero_iff.mpr hpixels) (h.smoothing.trans htimes)
  · intro changed hunshown
    refine refresh_of_unshown (hunshown.imp_right fun hempty => ?_)
    have hsize := h.size
    omega

/-- The bytes of a picture this wide cannot even be counted. -/
def tooWide : Int := 10000000000000000000000

/-- The second of three sizes is too large, and so the pixel behind it is one of the first.  The
last pixel of the picture is lit and smoothed twice. -/
theorem buffer_keeps_picture_refused :
    letI := Room.standard
    let opened := fresh (some 8) ⟨⟨0x22, 0x22, 0x22⟩, Palette.standardLit⟩ (.value 2)
    let signals : List Signal := [.resolution 2 1, .resolution tooWide 1, .pixel 1 0 true,
      .resolution 1 3, .pixel 0 2 true, .pixel 0 1 true, .title "", .pixel 0 1 false]
    let s := opened.after signals
    ((start (some (.value 8)) none (.value 2)).result = .ok opened ∧ InOrder .blank signals) ∧
    s.bytes.length = 9 ∧
    (s.bytes.drop 3).take 3 = [0x22, 0x22, 0x22] ∧ (s.bytes.drop 6).take 3 = [0xDD, 0xDD, 0xDD] ∧
    ¬ (s.receive (.resolution tooWide 1)).Succeeds ∧
    s.receive (.refresh true) = .succeed { s with calls := s.calls ++
      #[.image 1 3 s.pixels, .double, .double, .stretch 8 4, .draw, .flip] } () := by
  let : Room := .standard
  intro opened signals s
  have hopened : (start (some (.value 8)) none (.value 2)).result = .ok opened :=
    result_start (some 8) none (.value 2)
  have ho : InOrder .blank signals := by decide +kernel
  obtain ⟨⟨hlength, hbytes⟩, -, hsignals, hrefresh, -⟩ := buffer_keeps_picture hopened ho
  have hwide : ¬ Granted (.resolution tooWide 1) := by decide +kernel
  refine ⟨⟨hopened, ho⟩, Int.ofNat_inj.mp hlength, hbytes 0 1 (by decide +kernel),
    hbytes 0 2 (by decide +kernel), fun hs => ?_, hrefresh 2 rfl (by decide +kernel)⟩
  exact hwide ((hsignals (.resolution tooWide 1) (by decide)).1.mp hs).1

/-- No room is granted for a picture that wide, and a blank smoothing is found out at the first
picture that is shown. -/
theorem not_forall_drawing_succeeds :
    letI := Room.standard
    let palette : Palette := ⟨⟨0x22, 0x22, 0x22⟩, Palette.standardLit⟩
    ((start (some (.value 8)) none (.value 0)).result = .ok (fresh (some 8) palette (.value 0)) ∧
      Picture.blank.Admits (.resolution tooWide 1) ∧
      ((fresh (some 8) palette (.value 0)).receive (.resolution tooWide 1)).result =
        .error .countRange) ∧
    (start (some (.value 8)) none .blank).result = .ok (fresh (some 8) palette .blank) ∧
      Picture.blank.Admits (.resolution 1 1) ∧
      ((fresh (some 8) palette .blank).receive (.resolution 1 1)).result =
        .error .blankNumber := by
  let : Room := .standard
  refine ⟨⟨result_start (some 8) none (.value 0), by decide, ?_⟩,
    result_start (some 8) none .blank, by decide, rfl⟩
  have hroom : Room.check (tooWide * 1 * 3) = .error .countRange := by decide
  change ((fresh _ _ _).setResolution tooWide 1).result = _
  unfold setResolution
  rw [hroom]
  rfl

end Surface

end Window

end ChipEight
