import ChipEight.Proofs.Showing

/-!
# Pictures kept by a viewer

A viewer keeps a picture of his own from the signals that he hears.  If he has the picture of a
display, and is told of every pixel that drawing changes, he has the picture after that as well.
-/

namespace ChipEight

structure Picture where
  width : Int
  height : Int
  lit : Int → Int → Bool

namespace Picture

variable {p : Picture} {d e : Display} {sent : List Signal}

def blank : Picture := ⟨0, 0, fun _ _ => false⟩

/-- A new size starts a dark picture. -/
def receive (p : Picture) : Signal → Picture
  | .resolution width height => ⟨width, height, fun _ _ => false⟩
  | .pixel x y lit => { p with lit := fun a b => if a = x ∧ b = y then lit else p.lit a b }
  | .refresh _ => p
  | .title _ => p

def replay (signals : List Signal) : Picture := signals.foldl receive blank

def rows (p : Picture) : List (List Bool) :=
  (List.range p.height.toNat).map fun (y : Nat) =>
    (List.range p.width.toNat).map fun (x : Nat) => p.lit x y

structure Shows (p : Picture) (d : Display) : Prop where
  width : p.width = d.width
  height : p.height = d.height
  lit : ∀ x y, d.Inside x y → p.lit x y = d.pixel x y

theorem Shows.snapshot_eq (h : p.Shows d) (hd : d.Whole) : d.snapshot = .ok p.rows := by
  rw [hd.snapshot_eq, rows, h.width, h.height]
  refine congrArg Except.ok (List.map_congr_left fun y hy => List.map_congr_left fun x hx => ?_)
  rw [List.mem_range] at hx hy
  exact (h.lit x y ⟨by omega, by omega, by omega, by omega⟩).symm

theorem size_receive_pixels (h : ∀ signal ∈ sent, ∃ x y lit, signal = .pixel x y lit) :
    (sent.foldl receive p).width = p.width ∧ (sent.foldl receive p).height = p.height := by
  induction sent generalizing p with
  | nil => exact ⟨rfl, rfl⟩
  | cons signal rest ih =>
    obtain ⟨x, y, lit, rfl⟩ := h signal List.mem_cons_self
    exact ih fun other hmem => h other (List.mem_cons_of_mem _ hmem)

theorem lit_receive_pixels {a b : Int} {v : Bool}
    (h : ∀ signal ∈ sent, ∃ x y lit, signal = .pixel x y lit)
    (hall : ∀ lit, .pixel a b lit ∈ sent → lit = v) (hv : p.lit a b = v ∨ .pixel a b v ∈ sent) :
    (sent.foldl receive p).lit a b = v := by
  induction sent generalizing p with
  | nil =>
    obtain hv | hv := hv
    · exact hv
    · cases hv
  | cons signal rest ih =>
    obtain ⟨x, y, lit, rfl⟩ := h signal List.mem_cons_self
    refine ih (fun other hmem => h other (List.mem_cons_of_mem _ hmem))
      (fun other hmem => hall other (List.mem_cons_of_mem _ hmem)) ?_
    change (if a = x ∧ b = y then lit else p.lit a b) = v ∨ _
    split
    · rename_i hhere
      obtain ⟨rfl, rfl⟩ := hhere
      exact .inl (hall lit List.mem_cons_self)
    · rename_i helse
      refine hv.imp id fun hmem => ?_
      obtain heq | hmem := List.mem_cons.mp hmem
      · obtain ⟨rfl, rfl, -⟩ := Signal.pixel.inj heq
        exact absurd ⟨rfl, rfl⟩ helse
      · exact hmem

/-- The signals tell how a display became another of the same shape: each is about a pixel of the
display as it is now, and no pixel that changed is left out. -/
structure Reports (d e : Display) (sent : List Signal) : Prop where
  shape : d.SameShape e
  true_of_mem : ∀ signal ∈ sent, ∃ a b, d.Inside a b ∧ signal = .pixel a b (e.pixel a b)
  mem_of_altered : ∀ a b, d.Altered e a b → .pixel a b (e.pixel a b) ∈ sent

theorem Shows.receive_reports (h : p.Shows d) (hr : Reports d e sent) :
    (sent.foldl receive p).Shows e := by
  have hpixels : ∀ signal ∈ sent, ∃ x y lit, signal = .pixel x y lit := by
    intro signal hmem
    obtain ⟨a, b, -, heq⟩ := hr.true_of_mem signal hmem
    exact ⟨a, b, _, heq⟩
  obtain ⟨hwidth, hheight⟩ := size_receive_pixels (p := p) hpixels
  refine {
    width := by rw [hwidth, h.width, hr.shape.width]
    height := by rw [hheight, h.height, hr.shape.height]
    lit := ?_ }
  intro a b hab
  have hin := hr.shape.inside_iff.mp hab
  refine lit_receive_pixels hpixels ?_ ?_
  · intro lit hmem
    obtain ⟨x, y, -, heq⟩ := hr.true_of_mem _ hmem
    obtain ⟨rfl, rfl, rfl⟩ := Signal.pixel.inj heq
    rfl
  -- a pixel that nothing is said about is as it was, and so the old picture has it right
  · by_cases hsame : e.pixel a b = d.pixel a b
    · exact .inl (by rw [h.lit a b hin, hsame])
    · exact .inr (hr.mem_of_altered a b ⟨hin, hsame⟩)

end Picture

namespace Display

variable {d e : Display} {x y a b : Int} {sent : List Signal}

theorem Paints.reports {α : Type} {P : Int → Int → Prop} {met : α → Bool}
    {work : Attempt (Display × List Signal) α} (h : Paints P met d work) (hd : d.watched = true) :
    Picture.Reports d work.state.1 work.state.2 where
  shape := h.shape
  true_of_mem signal hmem := by
    obtain ⟨-, a, b, hab, heq⟩ := (h.mem_sent signal).mp hmem
    exact ⟨a, b, hab.1, heq⟩
  mem_of_altered a b hab := (h.mem_sent _).mpr ⟨hd, a, b, hab, rfl⟩

theorem Whole.clear_reports (hw : d.Whole) (hd : d.watched = true) :
    Picture.Reports d d.clear.state.1 d.clear.state.2 where
  shape := clear_sameShape d
  true_of_mem signal hmem := by
    obtain ⟨a, b, hab, heq⟩ := inside_of_mem_clear hmem
    exact ⟨a, b, hab, by rw [heq, state_clear, pixel_cleared]⟩
  mem_of_altered a b hab := by
    rw [state_clear, pixel_cleared]
    exact (hw.mem_clear hd _).mpr ⟨a, b, hab.1, rfl⟩

theorem takeChanged_reports (d : Display) : Picture.Reports d d.takeChanged.2 [] where
  shape := ⟨rfl, rfl, rfl, rfl, rfl⟩
  true_of_mem _ hmem := nomatch hmem
  mem_of_altered _ _ hab := absurd rfl hab.2

end Display

end ChipEight
