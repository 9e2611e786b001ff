import ChipEight.Proofs.Grid
import ChipEight.Proofs.TerminalSetUp

/-!
# The picture on a pad

Below the row of the title a pad holds a picture, each pixel a run of cells as long as the scale.
What a signal writes is said once, cell by cell.  A run of signals leaves in each cell what the
last of them wrote there: the pixel above it, or the last title that was short enough.
-/

namespace ChipEight.Terminal

open Attempt

variable {n width height r c : Int} {signal : Signal} {signals : List Signal}

namespace Pad

def cell? (p : Pad) (row column : Int) : Option Cell :=
  if 0 ≤ column ∧ column < p.columns then p.cells.get? (row * p.columns + column) else none

/-- Each row has all of its cells. -/
def Whole (p : Pad) : Prop := p.cells.size = p.rows * p.columns

theorem whole_new (rows columns : Int) : (new rows columns).Whole := rfl

theorem cell?_new {rows columns : Int} (hr : 0 ≤ r) (hrows : r < rows) (hc : 0 ≤ c)
    (hcolumns : c < columns) : (new rows columns).cell? r c = some ⟨' ', false⟩ := by
  have hwidth : (columns.toNat : Int) = columns := by omega
  have hplace := Grid.place_bounds hc hcolumns hr hrows
  unfold cell? new
  rw [if_pos ⟨hc, hwidth.symm ▸ hcolumns⟩, hwidth, Bank.get?_ofSize, if_pos]
  · rfl
  · have hrows' : (rows.toNat : Int) = rows := by omega
    rw [hrows']
    omega

variable {p : Pad} {row column : Int} {text : List Char}

theorem whole_put (hp : p.Whole) (reversed : Bool) : (p.put row column text reversed).Whole :=
  (Bank.size_putList ..).trans hp

theorem cell?_put (hp : p.Whole) (hfits : p.Fits row column text.length) (hc : 0 ≤ c)
    (hcolumns : c < p.columns) (reversed : Bool) :
    (p.put row column text reversed).cell? r c =
      if r = row ∧ column ≤ c ∧ c < column + text.length then
        text[(c - column).toNat]?.map (⟨·, reversed⟩)
      else p.cell? r c := by
  obtain ⟨hrow, hrows, hcolumn, hend⟩ := hfits
  have hbounds := Grid.run_bounds hcolumn hend (Int.natCast_nonneg _) hrow hrows
  have hblock : p.cells.Fits (row * p.columns + column) (text.map (Cell.mk · reversed)).length := by
    rw [List.length_map]
    exact .inr ⟨hbounds.1, hp ▸ hbounds.2⟩
  have hput : (p.put row column text reversed).cell? r c =
      (p.cells.putList (row * p.columns + column) (text.map (Cell.mk · reversed))).get?
        (r * p.columns + c) := if_pos ⟨hc, hcolumns⟩
  have hold : p.cell? r c = p.cells.get? (r * p.columns + c) := if_pos ⟨hc, hcolumns⟩
  rw [hput, hold, Bank.get?_putList hblock, List.length_map]
  simp only [Grid.place_mem_run_iff hcolumn hend hc hcolumns]
  split
  · rename_i hin
    obtain ⟨rfl, -, -⟩ := hin
    have hindex : r * p.columns + c - (r * p.columns + column) = c - column := by omega
    rw [hindex, List.getElem?_map]
  · rfl

end Pad

def Draws (width height : Int) : Signal → Prop
  | .pixel x y _ => (0 ≤ x ∧ x < width) ∧ 0 ≤ y ∧ y < height
  | .refresh _ | .title _ => True
  | .resolution .. => False

instance (width height : Int) : DecidablePred (Draws width height)
  | .pixel .. => inferInstanceAs (Decidable (_ ∧ _))
  | .refresh _ | .title _ => inferInstanceAs (Decidable True)
  | .resolution .. => inferInstanceAs (Decidable False)

def short? (bar : Int) : Signal → Option String
  | .title text => if text.length < bar then some text else none
  | .pixel .. | .refresh _ | .resolution .. => none

/-- A cell of the bar, with blanks behind the title. -/
def barCell (title : Option String) (column : Int) : Cell :=
  match title with
  | none => ⟨' ', false⟩
  | some text => ⟨text.toList.getD column.toNat ' ', true⟩

/-- What a signal writes to a cell, if it writes there at all. -/
def ink? (n bar : Int) (signal : Signal) (r c : Int) : Option Cell :=
  match signal with
  | .pixel x y lit => if r = y + 1 ∧ x * n ≤ c ∧ c < x * n + n then some ⟨' ', lit⟩ else none
  | .title _ =>
    if r = 0 ∧ 0 ≤ c ∧ c < bar then (short? bar signal).map fun text => barCell (some text) c
    else none
  | .refresh _ | .resolution .. => none

/-- Blanks behind a text do not show where the text ends. -/
theorem getElem?_padded (text : List Char) {blanks i : Nat} (h : i < text.length + blanks) :
    (text ++ List.replicate blanks ' ')[i]? = some (text.getD i ' ') := by
  rw [List.getD_eq_getElem?_getD, List.getElem?_append, List.getElem?_replicate]
  split
  case isTrue hin => simp [hin]
  case isFalse hout =>
    rw [if_pos (by omega), List.getElem?_eq_none (by omega)]
    rfl

namespace Screen

variable {s : Screen}

/-- The pad of the screen has room for a picture of the size, each pixel `n` cells wide. -/
structure Sized [Room] (n width height : Int) (s : Screen) : Prop where
  scale : s.scale = n
  size : s.width = width
  rows : (s.pad.rows : Int) = height + 1
  columns : (s.pad.columns : Int) = width * n + 1
  whole : s.pad.Whole
  room : Room.check (width * n + 1) = .ok ()

theorem pixel_bounds {x : Int} (hn : 1 ≤ n) (hx : 0 ≤ x) (hw : x < width) :
    0 ≤ x * n ∧ x * n + n ≤ width * n := by
  refine ⟨Int.mul_nonneg hx (by omega), ?_⟩
  calc
    x * n + n = (x + 1) * n := by rw [Int.add_mul, Int.one_mul]
    _ ≤ width * n := Int.mul_le_mul_of_nonneg_right (by omega) (by omega)

theorem write_of_fits {row column : Int} {text : List Char} {blanks : Int} {reversed : Bool}
    (h : s.pad.Fits row column (text.length + blanks.toNat)) :
    s.write row column text blanks reversed = .succeed { s with
      pad := s.pad.put row column (text ++ List.replicate blanks.toNat ' ') reversed
      pending := true } () := if_pos h

theorem refresh_keeps (s : Screen) (changed : Bool) :
    (s.refresh changed).scale = s.scale ∧ (s.refresh changed).width = s.width ∧
      ∃ writes, (s.refresh changed).pad = { s.pad with writes } := by
  cases s.refreshed changed with
  | shown _ heq | idle _ _ _ heq | cleared _ heq =>
    rw [heq]
    exact ⟨rfl, rfl, _, rfl⟩

variable [Room]

theorem sized_setResolution (h : (s.setResolution width height).Succeeds) (hw : 1 ≤ width)
    (hh : 1 ≤ height) (hn : 1 ≤ s.scale) :
    (s.setResolution width height).state.Sized s.scale width height ∧
      (s.setResolution width height).state.pad = Pad.new (height + 1) (width * s.scale + 1) := by
  have hproduct : 0 ≤ width * s.scale := Int.mul_nonneg (by omega) (by omega)
  unfold setResolution at h ⊢
  simp only at h ⊢
  rw [if_pos (by omega)] at h ⊢
  obtain ⟨⟨⟩, hroom, -⟩ := succeeds_andThen_iff.mp h
  rw [andThen_of_ok hroom]
  exact ⟨{
    scale := rfl
    size := rfl
    rows := Int.toNat_of_nonneg (by omega)
    columns := Int.toNat_of_nonneg (by omega)
    whole := Pad.whole_new _ _
    room := hroom }, rfl⟩

namespace Sized

theorem write (h : s.Sized n width height) {row column : Int} {text : List Char} {blanks : Int}
    (hfits : s.pad.Fits row column (text.length + blanks.toNat)) (reversed : Bool) :
    ∃ t, s.write row column text blanks reversed = .succeed t () ∧ t.Sized n width height ∧
      ∀ r c, 0 ≤ c → c ≤ width * n → t.pad.cell? r c =
        if r = row ∧ column ≤ c ∧ c < column + (text.length + blanks.toNat : Nat) then
          (text ++ List.replicate blanks.toNat ' ')[(c - column).toNat]?.map (⟨·, reversed⟩)
        else s.pad.cell? r c := by
  have hlength : (text ++ List.replicate blanks.toNat ' ').length = text.length + blanks.toNat := by
    rw [List.length_append, List.length_replicate]
  refine ⟨_, write_of_fits hfits, ⟨h.scale, h.size, h.rows, h.columns, ?_, h.room⟩, ?_⟩
  · exact Pad.whole_put h.whole reversed
  · intro r c hc hcolumns
    have hcolumns' : c < s.pad.columns := by
      rw [h.columns]
      omega
    have hput := Pad.cell?_put (r := r) h.whole (hlength.symm ▸ hfits) hc hcolumns' reversed
    rw [hlength] at hput
    exact hput

theorem receive_pixel (h : s.Sized n width height) (hn : 1 ≤ n) {x y : Int} {lit : Bool}
    (hd : Draws width height (.pixel x y lit)) :
    ∃ t, s.receive (.pixel x y lit) = .succeed t () ∧ t.Sized n width height ∧
      ∀ r c, 0 ≤ c → c ≤ width * n →
        t.pad.cell? r c = (ink? n (width * n) (.pixel x y lit) r c).or (s.pad.cell? r c) := by
  obtain ⟨⟨hx, hxw⟩, hy, hyh⟩ := hd
  have hbounds := pixel_bounds hn hx hxw
  have hfits : s.pad.Fits (y + 1) (x * s.scale) (([] : List Char).length + s.scale.toNat) := by
    rw [Pad.Fits, h.rows, h.columns, h.scale, List.length_nil]
    omega
  obtain ⟨t, heq, ht, hcells⟩ := h.write hfits lit
  refine ⟨t, heq, ht, fun r c hc hcolumns => ?_⟩
  rw [hcells r c hc hcolumns, h.scale, List.length_nil, Nat.zero_add,
    Int.toNat_of_nonneg (by omega), List.nil_append]
  unfold ink?
  simp only
  split
  · rename_i hin
    rw [List.getElem?_replicate, if_pos (by omega)]
    rfl
  · rfl

theorem titled (h : s.Sized n width height) (title : String) :
    { s with title }.Sized n width height :=
  ⟨h.scale, h.size, h.rows, h.columns, h.whole, h.room⟩

theorem receive_title (h : s.Sized n width height) (hh : 1 ≤ height) (text : String) :
    ∃ t, s.receive (.title text) = .succeed t () ∧ t.Sized n width height ∧
      ∀ r c, 0 ≤ c → c ≤ width * n →
        t.pad.cell? r c = (ink? n (width * n) (.title text) r c).or (s.pad.cell? r c) := by
  have hlength : text.toList.length = text.length := String.length_toList
  change ∃ t, s.setTitle text = .succeed t () ∧ _
  unfold setTitle
  simp only
  rw [h.size, h.scale]
  by_cases hshort : (text.length : Int) < width * n
  · have hblanks : Room.check (width * n - text.length) = .ok () :=
      Room.check_of_le h.room (by omega) (by omega)
    have hfits : s.pad.Fits 0 0 (text.toList.length + (width * n - text.length).toNat) := by
      rw [Pad.Fits, h.rows, h.columns]
      omega
    obtain ⟨t, heq, ht, hcells⟩ := h.write hfits true
    rw [if_pos (by omega), hblanks, ofExcept_ok, andThen_succeed, heq, andThen_succeed]
    refine ⟨{ t with title := text }, rfl, ht.titled text, fun r c hc hcolumns => ?_⟩
    refine (hcells r c hc hcolumns).trans ?_
    have hbar : r = 0 ∧ 0 ≤ c ∧ c < 0 +
        ((text.toList.length + (width * n - text.length).toNat : Nat) : Int) ↔
        r = 0 ∧ 0 ≤ c ∧ c < width * n := by omega
    unfold ink? short?
    simp only [hbar, hshort, if_true]
    split
    · rename_i hin
      rw [getElem?_padded _ (by omega), Int.sub_zero]
      rfl
    · rfl
  · rw [if_neg (by omega), andThen_succeed]
    refine ⟨{ s with title := text }, rfl, h.titled text, fun r c _ _ => ?_⟩
    unfold ink? short?
    simp only [hshort, if_false, Option.map_none, ite_self]
    rfl

theorem receive_refresh (h : s.Sized n width height) (changed : Bool) :
    ∃ t, s.receive (.refresh changed) = .succeed t () ∧ t.Sized n width height ∧
      ∀ r c, t.pad.cell? r c = s.pad.cell? r c := by
  obtain ⟨hscale, hsize, writes, hpad⟩ := s.refresh_keeps changed
  refine ⟨s.refresh changed, rfl, ?_, fun r c => ?_⟩
  · exact {
      scale := hscale.trans h.scale
      size := hsize.trans h.size
      rows := hpad ▸ h.rows
      columns := hpad ▸ h.columns
      whole := hpad ▸ h.whole
      room := h.room }
  · rw [hpad]
    rfl

theorem receive (h : s.Sized n width height) (hn : 1 ≤ n) (hh : 1 ≤ height)
    (hd : Draws width height signal) :
    ∃ t, s.receive signal = .succeed t () ∧ t.Sized n width height ∧
      ∀ r c, 0 ≤ c → c ≤ width * n →
        t.pad.cell? r c = (ink? n (width * n) signal r c).or (s.pad.cell? r c) := by
  cases signal with
  | resolution => exact hd.elim
  | pixel x y lit => exact h.receive_pixel hn hd
  | title text => exact h.receive_title hh text
  | refresh changed =>
    obtain ⟨t, heq, ht, hcells⟩ := h.receive_refresh changed
    exact ⟨t, heq, ht, fun r c _ _ => hcells r c⟩

end Sized

def after (s : Screen) (signals : List Signal) : Screen :=
  signals.foldl (fun s signal => (s.receive signal).state) s

theorem Sized.after (h : s.Sized n width height) (hn : 1 ≤ n) (hh : 1 ≤ height)
    (hd : ∀ signal ∈ signals, Draws width height signal) :
    (s.after signals).Sized n width height ∧ ∀ r c, 0 ≤ c → c ≤ width * n →
      (s.after signals).pad.cell? r c =
        signals.foldl (fun cell signal => (ink? n (width * n) signal r c).or cell)
          (s.pad.cell? r c) := by
  induction signals generalizing s with
  | nil => exact ⟨h, fun _ _ _ _ => rfl⟩
  | cons signal rest ih =>
    obtain ⟨hsignal, hrest⟩ := List.forall_mem_cons.mp hd
    obtain ⟨t, heq, ht, hcells⟩ := h.receive hn hh hsignal
    have hafter : s.after (signal :: rest) = t.after rest := by
      unfold Screen.after
      rw [List.foldl_cons, heq]
      rfl
    obtain ⟨hsized, hrun⟩ := ih ht hrest
    refine ⟨hafter ▸ hsized, fun r c hc hcolumns => ?_⟩
    rw [hafter, hrun r c hc hcolumns, hcells r c hc hcolumns, List.foldl_cons]

end Screen

/-- The spare column is not written to. -/
theorem ink?_spare (hn : 1 ≤ n) (hd : Draws width height signal) (r : Int) :
    ink? n (width * n) signal r (width * n) = none := by
  cases signal with
  | pixel x y lit =>
    have hbounds := Screen.pixel_bounds hn hd.1.1 hd.1.2
    exact if_neg (by omega)
  | title text => exact if_neg (by omega)
  | refresh | resolution => rfl

theorem foldl_ink_spare (hn : 1 ≤ n) (hd : ∀ signal ∈ signals, Draws width height signal) (r : Int)
    (cell : Option Cell) :
    signals.foldl (fun cell signal => (ink? n (width * n) signal r (width * n)).or cell) cell =
      cell := by
  induction signals generalizing cell with
  | nil => rfl
  | cons signal rest ih =>
    obtain ⟨hsignal, hrest⟩ := List.forall_mem_cons.mp hd
    rw [List.foldl_cons, ink?_spare hn hsignal]
    exact ih hrest cell

theorem foldl_ink_pixel (hn : 1 ≤ n) (hd : ∀ signal ∈ signals, Draws width height signal)
    (bar : Int) {y : Int} (hy : 0 ≤ y) (p : Picture) :
    signals.foldl (fun cell signal => (ink? n bar signal (y + 1) c).or cell)
        (some ⟨' ', p.lit (c / n) y⟩) =
      some ⟨' ', (signals.foldl Picture.receive p).lit (c / n) y⟩ := by
  induction signals generalizing p with
  | nil => rfl
  | cons signal rest ih =>
    obtain ⟨hsignal, hrest⟩ := List.forall_mem_cons.mp hd
    have hstep : (ink? n bar signal (y + 1) c).or (some ⟨' ', p.lit (c / n) y⟩) =
        some ⟨' ', (p.receive signal).lit (c / n) y⟩ := by
      cases signal with
      | pixel x b lit =>
        have hhere : y + 1 = b + 1 ∧ x * n ≤ c ∧ c < x * n + n ↔ c / n = x ∧ y = b := by
          rw [Int.ediv_eq_iff_of_pos (by omega)]
          omega
        simp only [ink?, Picture.receive, hhere]
        split
        · rfl
        · rfl
      | title text =>
        rw [ink?, if_neg (by omega)]
        rfl
      | refresh => rfl
      | resolution => exact hsignal.elim
    rw [List.foldl_cons, hstep]
    exact ih hrest _

theorem foldl_ink_bar (hd : ∀ signal ∈ signals, Draws width height signal) {bar : Int} (hc : 0 ≤ c)
    (hbar : c < bar) (title : Option String) :
    signals.foldl (fun cell signal => (ink? n bar signal 0 c).or cell) (some (barCell title c)) =
      some (barCell ((signals.filterMap (short? bar)).getLast?.or title) c) := by
  induction signals generalizing title with
  | nil => rfl
  | cons signal rest ih =>
    obtain ⟨hsignal, hrest⟩ := List.forall_mem_cons.mp hd
    have hstep : (ink? n bar signal 0 c).or (some (barCell title c)) =
        some (barCell ((short? bar signal).or title) c) := by
      cases signal with
      | pixel x y lit =>
        have hy := hsignal.2.1
        rw [ink?, if_neg (by omega)]
        rfl
      | title text =>
        rw [ink?, if_pos ⟨rfl, hc, hbar⟩]
        cases short? bar (.title text) <;> rfl
      | refresh => rfl
      | resolution => rfl
    rw [List.foldl_cons, hstep, ih hrest]
    cases hshort : short? bar signal with
    | none => rw [List.filterMap_cons_none hshort]; rfl
    | some text =>
      rw [List.filterMap_cons_some hshort, List.getLast?_cons]
      cases (rest.filterMap (short? bar)).getLast? <;> rfl

end ChipEight.Terminal
