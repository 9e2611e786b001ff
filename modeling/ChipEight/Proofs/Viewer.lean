import ChipEight.Proofs.Picture

/-!
# What a viewer sees

A display is asked to do one thing after another, in any order.  A viewer who hears every signal
from the first on has the picture of the display all the time, and being watched changes nothing
else about a display.
-/

namespace ChipEight

open Attempt

inductive Act
  | draw (x y : Int) (rows : List UInt8)
  | plot (x y : Int)
  | clear
  | takeChanged
  | resize (width height : Int)

/-- Single pixels lie right of and below the corner, and a display has at least one pixel. -/
def Act.Sound : Act → Prop
  | .plot x y => 0 ≤ x ∧ 0 ≤ y
  | .resize width height => 1 ≤ width ∧ 1 ≤ height
  | _ => True

instance (act : Act) : Decidable act.Sound :=
  match act with
  | .plot .. => inferInstanceAs (Decidable (_ ∧ _))
  | .resize .. => inferInstanceAs (Decidable (_ ∧ _))
  | .draw .. | .clear | .takeChanged => inferInstanceAs (Decidable True)

theorem Act.resize_or_not (act : Act) :
    (∃ width height, act = .resize width height) ∨ ∀ width height, act ≠ .resize width height := by
  cases act with
  | resize width height => exact .inl ⟨width, height, rfl⟩
  | _ => exact .inr nofun

namespace Display

variable {d : Display} {act : Act}

def unwatch (d : Display) : Display := { d with watched := false }

abbrev silent (s : Display × List Signal) : Display × List Signal := (s.1.unwatch, [])

theorem plot_unwatch (d : Display) (x y : Int) :
    d.unwatch.plot x y = (d.plot x y).mapState silent := by
  unfold plot
  change (if d.width ≤ x ∨ d.height ≤ y then _ else _) = _
  split
  · rfl
  · change ((ofExcept (d.unwatch, []) (d.plane.read (d.place x y))).followedBy _) = _
    cases d.plane.read (d.place x y) with
    | error cause => rfl
    | ok lit =>
      simp only [ofExcept_ok, followedBy_silent]
      change (if (!d.toggles || !lit) = lit then _ else _) = _
      split
      · rfl
      · rfl

theorem drawRow_unwatch (d : Display) (x y : Int) (row : UInt8) (columns : List Nat) :
    d.unwatch.drawRow x y row columns = (d.drawRow x y row columns).mapState silent := by
  induction columns generalizing d with
  | nil => rfl
  | cons column rest ih =>
    unfold drawRow
    split
    · rw [plot_unwatch]
      refine mapState_followedBy _ fun e lit => ?_
      rw [ih]
      exact mapState_followedBy _ fun f hit => rfl
    · exact ih d

theorem drawRows_unwatch (d : Display) (x y : Int) (rows : List UInt8) :
    d.unwatch.drawRows x y rows = (d.drawRows x y rows).mapState silent := by
  induction rows generalizing d y with
  | nil => rfl
  | cons row rest ih =>
    unfold drawRows
    change (if d.height ≤ y then _ else _) = _
    split
    · rfl
    · rw [drawRow_unwatch]
      refine mapState_followedBy _ fun e hit => ?_
      rw [ih]
      exact mapState_followedBy _ fun f hits => rfl

theorem draw_unwatch (d : Display) (x y : Int) (rows : List UInt8) :
    d.unwatch.draw x y rows = (d.draw x y rows).mapState silent := by
  unfold draw
  change (if d.width = 0 ∨ d.height = 0 then _ else _) = _
  split
  · rfl
  · exact drawRows_unwatch d _ _ rows

theorem clear_unwatch (d : Display) : d.unwatch.clear = .succeed (d.cleared.unwatch, []) () := rfl

section Room

variable [Room]

/-- There is room for as many pixels as the display has by its width and height. -/
def HasRoom (d : Display) : Prop := Room.check (d.width * d.height) = .ok ()

/-- What the display becomes, what it sends, and what it answers. -/
def perform (d : Display) : Act → Attempt (Display × List Signal) (Option Bool)
  | .draw x y rows => (d.draw x y rows).followedBy fun d hit => .succeed (d, []) (some hit)
  | .plot x y => d.plot x y
  | .clear => d.clear.followedBy fun d _ => .succeed (d, []) none
  | .takeChanged => .succeed (d.takeChanged.2, []) (some d.takeChanged.1)
  | .resize width height =>
    ((d.resize width height).mapState fun d => (d, [])).followedBy fun d sent =>
      .succeed (d, sent) none

theorem perform_draw (d : Display) (x y : Int) (rows : List UInt8) :
    d.perform (.draw x y rows) =
      ⟨(d.draw x y rows).state, (d.draw x y rows).result.map some⟩ :=
  followedBy_silent_value _ _

theorem perform_clear (d : Display) :
    d.perform .clear = ⟨d.clear.state, d.clear.result.map fun _ => none⟩ :=
  followedBy_silent_value _ _

/-- A new size is taken in any case, but where there is no room for it the pixels stay. -/
theorem perform_resize (d : Display) (width height : Int) :
    (Room.check (width * height) = .ok () ∧ d.perform (.resize width height) =
      .succeed ({ d with width, height, plane := .ofSize (width * height), changed := true },
        d.tell [.resolution width height]) none) ∨
    (∃ cause, Room.check (width * height) = .error cause ∧
      d.perform (.resize width height) = .refuse ({ d with width, height }, []) cause) := by
  cases hroom : Room.check (width * height) with
  | ok =>
    refine .inl ⟨rfl, ?_⟩
    simp only [perform, resize, Bank.allocate, hroom]
    rfl
  | error cause =>
    refine .inr ⟨cause, rfl, ?_⟩
    simp only [perform, resize, Bank.allocate, hroom]
    rfl

theorem perform_sameShape (d : Display) (hact : ∀ width height, act ≠ .resize width height) :
    d.SameShape (d.perform act).state.1 := by
  cases act with
  | draw x y rows =>
    rw [perform_draw]
    exact draw_sameShape d x y rows
  | plot x y => exact plot_sameShape d x y
  | clear =>
    rw [perform_clear]
    exact clear_sameShape d
  | takeChanged => exact ⟨rfl, rfl, rfl, rfl, rfl⟩
  | resize width height => exact absurd rfl (hact width height)

theorem Whole.perform_reports (hw : d.Whole) (hd : d.watched = true) (hs : act.Sound)
    (hact : ∀ width height, act ≠ .resize width height) :
    Picture.Reports d (d.perform act).state.1 (d.perform act).state.2 := by
  cases act with
  | draw x y rows =>
    rw [perform_draw]
    exact (Display.draw_paints hw.width_pos hw.height_pos x y rows).reports hd
  | plot x y => exact (plot_paints hs.1 hs.2).reports hd
  | clear =>
    rw [perform_clear]
    exact hw.clear_reports hd
  | takeChanged => exact takeChanged_reports d
  | resize width height => exact absurd rfl (hact width height)

theorem Whole.perform_answers (hw : d.Whole) (hs : act.Sound)
    (hsize : ∀ width height, act = .resize width height → Room.check (width * height) = .ok ()) :
    ∃ answer, (d.perform act).result = .ok answer := by
  cases act with
  | draw x y rows =>
    obtain ⟨⟨hit, hhit⟩, -⟩ := draw_completes hw x y rows
    rw [perform_draw, hhit]
    exact ⟨_, rfl⟩
  | plot x y =>
    obtain ⟨hlit, -⟩ := plot_completes hw hs.1 hs.2
    exact hlit
  | clear =>
    rw [perform_clear, hw.result_clear]
    exact ⟨_, rfl⟩
  | takeChanged => exact ⟨_, rfl⟩
  | resize width height =>
    obtain ⟨-, hp⟩ | ⟨cause, hno, -⟩ := d.perform_resize width height
    · rw [hp]
      exact ⟨none, rfl⟩
    · rw [hsize width height rfl] at hno
      cases hno

theorem inside_of_mem_perform {x y : Int} {lit : Bool} (hw : 0 < d.width) (hh : 0 < d.height)
    (hs : act.Sound) (hmem : .pixel x y lit ∈ (d.perform act).state.2) :
    (d.perform act).state.1.Inside x y := by
  cases act with
  | draw u v rows =>
    rw [perform_draw] at hmem ⊢
    have hpaints := draw_paints hw hh u v rows
    obtain ⟨-, a, b, hab, heq⟩ := (hpaints.mem_sent _).mp hmem
    obtain ⟨rfl, rfl, -⟩ := Signal.pixel.inj heq
    exact hpaints.shape.inside_iff.mpr hab.1
  | plot u v =>
    have hpaints := plot_paints (d := d) hs.1 hs.2
    obtain ⟨-, a, b, hab, heq⟩ := (hpaints.mem_sent _).mp hmem
    obtain ⟨rfl, rfl, -⟩ := Signal.pixel.inj heq
    exact hpaints.shape.inside_iff.mpr hab.1
  | clear =>
    rw [perform_clear] at hmem ⊢
    obtain ⟨a, b, hab, heq⟩ := inside_of_mem_clear hmem
    obtain ⟨rfl, rfl, -⟩ := Signal.pixel.inj heq
    exact (clear_sameShape d).inside_iff.mpr hab
  | takeChanged => cases hmem
  | resize width height =>
    obtain ⟨-, hp⟩ | ⟨cause, -, hp⟩ := d.perform_resize width height
    · rw [hp, state_succeed, tell] at hmem
      split at hmem
      · cases List.mem_singleton.mp hmem
      · cases hmem
    · rw [hp] at hmem
      cases hmem

theorem perform_unwatch (hclear : act = .clear → d.clear.result = .ok ()) :
    d.unwatch.perform act = (d.perform act).mapState silent := by
  cases act with
  | draw x y rows =>
    simp only [perform, draw_unwatch]
    exact mapState_followedBy _ fun e hit => rfl
  | plot x y => exact plot_unwatch d x y
  | clear =>
    rw [perform_clear, perform_clear, clear_unwatch, hclear rfl]
    rfl
  | takeChanged => rfl
  | resize width height =>
    simp only [perform, resize]
    cases (Bank.allocate (width * height) : Except Error (Bank Bool)) with
    | error cause => rfl
    | ok plane => rfl

theorem state_perform_unwatch (d : Display) (act : Act) :
    (d.unwatch.perform act).state = silent (d.perform act).state := by
  by_cases h : act = .clear
  · subst h
    rw [perform_clear, perform_clear, clear_unwatch]
    rfl
  · rw [perform_unwatch fun hclear => absurd hclear h]
    rfl

end Room

end Display

/-- A display after some acts, with all that was heard from it and all that it answered. -/
structure Performance where
  display : Display
  heard : List Signal
  answers : List (Except Error (Option Bool))

namespace Performance

variable {p q : Performance} {act : Act} {toggles : Bool} {acts : List Act}

def opening (toggles watched : Bool) : Performance :=
  ⟨(Display.new toggles watched).1, (Display.new toggles watched).2, []⟩

section Room

variable [Room]

def next (p : Performance) (act : Act) : Performance :=
  let work := p.display.perform act
  ⟨work.state.1, p.heard ++ work.state.2, p.answers ++ [work.result]⟩

def after (toggles watched : Bool) (acts : List Act) : Performance :=
  acts.foldl next (opening toggles watched)

theorem next_eq {work : Attempt (Display × List Signal) (Option Bool)}
    (h : p.display.perform act = work) :
    p.next act = ⟨work.state.1, p.heard ++ work.state.2, p.answers ++ [work.result]⟩ := by
  rw [next, h]

/-- A watched display whose viewer has its picture.  Where the last new size was refused for want
of room, the plane is smaller than the display, and there is no picture. -/
structure Faithful (p : Performance) : Prop where
  watched : p.display.watched = true
  width_pos : 0 < p.display.width
  height_pos : 0 < p.display.height
  plane_nonneg : 0 ≤ p.display.plane.size
  plane_room : Room.check p.display.plane.size = .ok ()
  size_plane : p.display.HasRoom → p.display.plane.size = p.display.width * p.display.height
  shows : p.display.HasRoom → (Picture.replay p.heard).Shows p.display

namespace Faithful

theorem opening (toggles : Bool) : (opening toggles true).Faithful where
  watched := rfl
  width_pos := Int.natCast_pos.mpr (by decide : 0 < Layout.displayWidth)
  height_pos := Int.natCast_pos.mpr (by decide : 0 < Layout.displayHeight)
  plane_nonneg := (by decide : (0 : Int) ≤ 2048)
  plane_room := Room.check_of_le_ample (by decide : (0 : Int) ≤ 2048) (by decide : (2048 : Int) ≤ 4096)
  size_plane _ := rfl
  shows _ := ⟨rfl, rfl, fun x y _ => (Display.pixel_of_dark rfl x y).symm⟩

theorem whole (h : p.Faithful) (hroom : p.display.HasRoom) : p.display.Whole :=
  ⟨h.width_pos, h.height_pos, h.size_plane hroom⟩

theorem short (h : p.Faithful) (hno : ¬ p.display.HasRoom) :
    p.display.plane.size < p.display.width * p.display.height := by
  have hpixels := Int.mul_nonneg (Int.le_of_lt h.width_pos) (Int.le_of_lt h.height_pos)
  by_contra hle
  exact hno (Room.check_of_le h.plane_room hpixels (Int.not_lt.mp hle))

theorem result_clear (h : p.Faithful) (hno : ¬ p.display.HasRoom) :
    p.display.clear.result = .error (.fault (.outOfBounds p.display.plane.size)) := by
  rw [Display.result_clear h.watched (Int.le_of_lt h.width_pos) (Int.le_of_lt h.height_pos)
    h.plane_nonneg, if_neg (Int.not_le.mpr (h.short hno))]

theorem resize (h : p.Faithful) {width height : Int} (hw : 1 ≤ width) (hh : 1 ≤ height) :
    (p.next (.resize width height)).Faithful := by
  obtain ⟨hroom, hp⟩ | ⟨cause, hno, hp⟩ := p.display.perform_resize width height
  · rw [next_eq hp]
    refine ⟨h.watched, hw, hh, Int.mul_nonneg (by omega) (by omega), hroom, fun _ => rfl,
      fun _ => ?_⟩
    -- the viewer starts anew, whatever he saw before
    rw [Picture.replay, List.foldl_append, Display.tell, if_pos h.watched]
    exact ⟨rfl, rfl, fun x y _ => (Display.pixel_of_dark rfl x y).symm⟩
  · have hnot : Room.check (width * height) ≠ .ok () := fun hok => by cases hno.symm.trans hok
    rw [next_eq hp]
    exact ⟨h.watched, hw, hh, h.plane_nonneg, h.plane_room, fun hok => absurd hok hnot,
      fun hok => absurd hok hnot⟩

theorem next (h : p.Faithful) (hs : act.Sound) : (p.next act).Faithful := by
  obtain ⟨width, height, rfl⟩ | hact := act.resize_or_not
  · exact h.resize hs.1 hs.2
  · have hshape := p.display.perform_sameShape hact
    have hroom : (p.next act).display.HasRoom ↔ p.display.HasRoom := by
      rw [Display.HasRoom, Display.HasRoom, next_eq rfl, hshape.width, hshape.height]
    refine {
      watched := hshape.watched.trans h.watched
      width_pos := hshape.width.symm ▸ h.width_pos
      height_pos := hshape.height.symm ▸ h.height_pos
      plane_nonneg := hshape.size_plane.symm ▸ h.plane_nonneg
      plane_room := hshape.size_plane.symm ▸ h.plane_room
      size_plane := fun hok => ((h.whole (hroom.mp hok)).of_sameShape hshape).size_plane
      shows := fun hok => ?_ }
    rw [next_eq rfl, Picture.replay, List.foldl_append]
    exact (h.shows (hroom.mp hok)).receive_reports
      ((h.whole (hroom.mp hok)).perform_reports h.watched hs hact)

theorem after (h : p.Faithful) (hs : ∀ act ∈ acts, act.Sound) : (acts.foldl .next p).Faithful := by
  induction acts generalizing p with
  | nil => exact h
  | cons act rest ih =>
    obtain ⟨hact, hrest⟩ := List.forall_mem_cons.mp hs
    exact ih (h.next hact) hrest

end Faithful

theorem faithful_after (toggles : Bool) (h : ∀ act ∈ acts, act.Sound) :
    (after toggles true acts).Faithful := (Faithful.opening toggles).after h

theorem hasRoom_next (h : p.display.HasRoom)
    (hsize : ∀ width height, act = .resize width height → Room.check (width * height) = .ok ()) :
    (p.next act).display.HasRoom := by
  obtain ⟨width, height, rfl⟩ | hact := act.resize_or_not
  · have hroom := hsize width height rfl
    obtain ⟨-, hp⟩ | ⟨cause, hno, -⟩ := p.display.perform_resize width height
    · rw [next_eq hp]
      exact hroom
    · cases hroom.symm.trans hno
  · have hshape := p.display.perform_sameShape hact
    rw [Display.HasRoom, next_eq rfl, hshape.width, hshape.height]
    exact h

theorem hasRoom_opening (toggles watched : Bool) : (opening toggles watched).display.HasRoom :=
  Room.check_of_le_ample (by decide : (0 : Int) ≤ 64 * 32) (by decide : (64 * 32 : Int) ≤ 4096)

def Unwatched (p q : Performance) : Prop := q.display = p.display.unwatch ∧ q.heard = []

theorem Unwatched.next (h : p.Unwatched q) (act : Act) : (p.next act).Unwatched (q.next act) := by
  have hstate := p.display.state_perform_unwatch act
  rw [← h.1] at hstate
  refine ⟨congrArg Prod.fst hstate, ?_⟩
  rw [next_eq rfl, h.2, hstate]
  rfl

theorem Unwatched.after (h : p.Unwatched q) (acts : List Act) :
    (acts.foldl .next p).Unwatched (acts.foldl .next q) := by
  induction acts generalizing p q with
  | nil => exact h
  | cons act rest ih => exact ih (h.next act)

theorem Unwatched.result_eq (h : p.Unwatched q) (hp : p.Faithful)
    (hclear : act = .clear → p.display.HasRoom) :
    (q.display.perform act).result = (p.display.perform act).result := by
  rw [h.1, Display.perform_unwatch fun hact => (hp.whole (hclear hact)).result_clear]
  rfl

theorem Unwatched.answers_eq (h : p.Unwatched q) (hp : p.Faithful) (hroom : p.display.HasRoom)
    (hanswers : q.answers = p.answers) (hs : ∀ act ∈ acts, act.Sound)
    (hsize : ∀ width height, .resize width height ∈ acts → Room.check (width * height) = .ok ()) :
    (acts.foldl .next q).answers = (acts.foldl .next p).answers := by
  induction acts generalizing p q with
  | nil => exact hanswers
  | cons act rest ih =>
    obtain ⟨hact, hrest⟩ := List.forall_mem_cons.mp hs
    refine ih (h.next act) (hp.next hact) (hasRoom_next hroom fun width height heq => ?_) ?_ hrest
      fun width height hmem => hsize width height (List.mem_cons_of_mem _ hmem)
    · exact hsize width height (heq ▸ List.mem_cons_self)
    · rw [next_eq rfl, next_eq rfl, hanswers, h.result_eq hp fun _ => hroom]

/-- What a viewer of a display can rely on, and what the display is without him. -/
structure Agreement (toggles : Bool) (acts : List Act) : Prop where
  picture : let shown := after toggles true acts
    shown.display.HasRoom → shown.display.snapshot = .ok (Picture.replay shown.heard).rows
  answered : let shown := after toggles true acts
    shown.display.HasRoom → ∀ act : Act, act.Sound →
      (∀ width height, act = .resize width height → Room.check (width * height) = .ok ()) →
      ∃ answer, (shown.display.perform act).result = .ok answer
  refused : let shown := after toggles true acts
    ∀ width height cause, Room.check (width * height) = .error cause →
      shown.display.perform (.resize width height) =
        .refuse ({ shown.display with width, height }, []) cause
  /-- From a new size that was refused up to the next one that is granted. -/
  missing : let shown := after toggles true acts
    ¬ shown.display.HasRoom → shown.display.snapshot = .error .noSuchEntry ∧
      (shown.display.perform .clear).result =
        .error (.fault (.outOfBounds shown.display.plane.size))
  inside : let shown := after toggles true acts
    ∀ act : Act, act.Sound → ∀ x y lit, .pixel x y lit ∈ (shown.display.perform act).state.2 →
      (shown.display.perform act).state.1.Inside x y
  drawn : let shown := after toggles true acts
    ∀ x y rows signal, signal ∈ (shown.display.draw x y rows).state.2 ↔
      ∃ a b, shown.display.Altered (shown.display.draw x y rows).state.1 a b ∧
        signal = .pixel a b ((shown.display.draw x y rows).state.1.pixel a b)
  once : let shown := after toggles true acts
    ∀ x y rows, (shown.display.draw x y rows).state.2.Nodup
  unwatched : let shown := after toggles true acts
    (after toggles false acts).display = { shown.display with watched := false } ∧
      (after toggles false acts).heard = []
  alike : let shown := after toggles true acts
    ∀ act : Act, (act = .clear → shown.display.HasRoom) →
      ((after toggles false acts).display.perform act).result = (shown.display.perform act).result
  answers : (∀ width height, .resize width height ∈ acts → Room.check (width * height) = .ok ()) →
    (after toggles false acts).answers = (after toggles true acts).answers

theorem viewer_agrees (toggles : Bool) (acts : List Act) (h : ∀ act ∈ acts, act.Sound) :
    Agreement toggles acts := by
  have hf := faithful_after toggles h
  have hstart : (opening toggles true).Unwatched (opening toggles false) := ⟨rfl, rfl⟩
  have hu : (after toggles true acts).Unwatched (after toggles false acts) := hstart.after acts
  refine {
    picture := fun hroom => (hf.shows hroom).snapshot_eq (hf.whole hroom)
    answered := fun hroom act hs hsize => (hf.whole hroom).perform_answers hs hsize
    refused := ?_
    missing := ?_
    inside := fun act hs x y lit =>
      Display.inside_of_mem_perform hf.width_pos hf.height_pos hs
    drawn := ?_
    once := ?_
    unwatched := hu
    alike := fun act hclear => hu.result_eq hf hclear
    answers := hstart.answers_eq (.opening toggles) (hasRoom_opening toggles true) rfl h }
  · intro shown width height cause hno
    obtain ⟨hroom, -⟩ | ⟨cause', hno', hp⟩ := shown.display.perform_resize width height
    · cases hroom.symm.trans hno
    · obtain rfl := Except.error.inj (hno.symm.trans hno')
      exact hp
  · intro shown hno
    refine ⟨Display.snapshot_of_short hf.width_pos hf.plane_nonneg (hf.short hno), ?_⟩
    rw [Display.perform_clear, hf.result_clear hno]
    rfl
  · intro shown x y rows signal
    rw [(Display.draw_paints hf.width_pos hf.height_pos x y rows).mem_sent]
    exact and_iff_right hf.watched
  · intro shown x y rows
    exact (Display.draw_paints hf.width_pos hf.height_pos x y rows).nodup

end Room

/-- A sprite that wraps around a corner, a new size, and a sprite that is clipped. -/
theorem viewer_agrees_resized :
    letI := Room.standard
    let acts : List Act := [.draw 62 (-1) [0xFF], .resize 3 2, .draw 4 0 [0xE0, 0x80], .plot 0 0,
      .takeChanged]
    (∀ act ∈ acts, act.Sound) ∧
      (Picture.replay (after true true acts).heard).rows =
        [[true, true, true], [false, true, false]] ∧
      Agreement true acts := by
  let : Room := .standard
  intro acts
  have hs : ∀ act ∈ acts, act.Sound := by decide
  have hroom : (after true true acts).display.HasRoom :=
    (by decide +kernel : Room.check _ = .ok ())
  have hsnapshot : (after true true acts).display.snapshot =
      .ok [[true, true, true], [false, true, false]] := by decide +kernel
  have hpicture := (viewer_agrees true acts hs).picture hroom
  exact ⟨hs, Except.ok.inj (hpicture.symm.trans hsnapshot), viewer_agrees true acts hs⟩

/-- A size whose pixels no count can hold. -/
def tooTall : Act := .resize 1 0x8000000000000000

theorem after_tooTall [Room] (watched : Bool) :
    (after true watched [tooTall]).display =
      { (Display.new true watched).1 with width := 1, height := 0x8000000000000000 } := by
  obtain ⟨hroom, -⟩ | ⟨cause, -, hp⟩ :=
    (Display.new true watched).1.perform_resize 1 0x8000000000000000
  · cases hroom
  · exact congrArg (fun work => work.state.1) hp

/-- After a new size that there is no room for, there is nothing to look at, and clearing is
refused just where somebody watches. -/
theorem not_forall_agrees :
    letI := Room.standard
    (¬ ∀ toggles acts, (∀ act ∈ acts, Act.Sound act) →
      (after toggles true acts).display.snapshot =
        .ok (Picture.replay (after toggles true acts).heard).rows) ∧
    ¬ ∀ toggles acts, (∀ act ∈ acts, Act.Sound act) →
      (after toggles false acts).answers = (after toggles true acts).answers := by
  let : Room := .standard
  constructor
  · intro hall
    have hpicture := hall true [tooTall] (by decide)
    rw [after_tooTall, Display.snapshot_of_short (by decide) (by decide) (by decide)] at hpicture
    cases hpicture
  · intro hall
    have hanswers := hall true [tooTall, .clear] (by decide)
    change _ ++ [((after true false [tooTall]).display.perform .clear).result] =
      _ ++ [((after true true [tooTall]).display.perform .clear).result] at hanswers
    have hlast := congrArg List.getLast? hanswers
    have hrefused : (after true true [tooTall]).display.clear.result =
        .error (.fault (.outOfBounds 2048)) := by
      rw [after_tooTall]
      exact Display.result_clear rfl (Int.le_of_lt Int.one_pos) (by decide) (by decide)
    rw [List.getLast?_concat, List.getLast?_concat, Display.perform_clear, Display.perform_clear,
      hrefused, after_tooTall, Display.clear_of_unwatched rfl] at hlast
    cases hlast

end Performance

end ChipEight
