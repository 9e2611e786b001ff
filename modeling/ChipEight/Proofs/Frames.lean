import ChipEight.Proofs.Changes
import ChipEight.Proofs.Picture

/-!
# What a step draws

A step tells a viewer of nothing but pixels, and it tells of each pixel that it changed.  When it
reports that the display did not change, the picture is the one from before the step.
-/

namespace ChipEight

open Attempt

/-- One display becomes another by drawing: a viewer is told, and a change is marked. -/
structure Display.Drawn (d e : Display) (sent : List Signal) : Prop where
  reports : Picture.Reports d e sent
  marked : ∀ x y, d.Altered e x y → e.changed = true

namespace Display

variable {d e f : Display} {sent : List Signal}

theorem Drawn.refl (d : Display) : Drawn d d [] where
  reports := {
    shape := .refl d
    true_of_mem := fun _ hmem => nomatch hmem
    mem_of_altered := fun _ _ h => absurd rfl h.2 }
  marked _ _ h := absurd rfl h.2

theorem clear_drawn (hd : d.watched = true) (hw : d.Whole) :
    Drawn d d.clear.state.1 d.clear.state.2 where
  reports := hw.clear_reports hd
  marked _ _ _ := rfl

theorem draw_drawn (hd : d.watched = true) (hw : d.Whole) (x y : Int) (rows : List UInt8) :
    Drawn d (d.draw x y rows).state.1 (d.draw x y rows).state.2 where
  reports := (draw_paints hw.width_pos hw.height_pos x y rows).reports hd
  marked a b h := (draw_paints hw.width_pos hw.height_pos x y rows).changed.mpr (.inr ⟨a, b, h⟩)

/-- Without a mark the picture is the same, and so it stays when the mark is taken away. -/
theorem Drawn.snapshot_eq (h : Drawn d e sent) (hw : d.Whole) (hn : e.changed = false) :
    e.takeChanged.2.snapshot = d.snapshot := by
  let p : Picture := ⟨d.width, d.height, d.pixel⟩
  have hd : p.Shows d := ⟨rfl, rfl, fun _ _ _ => rfl⟩
  have he : p.Shows e.takeChanged.2 := by
    refine ⟨h.reports.shape.width.symm, h.reports.shape.height.symm, fun x y hxy => ?_⟩
    by_contra hne
    have hmark := h.marked x y ⟨h.reports.shape.inside_iff.mp hxy, Ne.symm hne⟩
    rw [hn] at hmark
    cases hmark
  have hw' : e.takeChanged.2.Whole := hw.of_sameShape (h.reports.shape.trans ⟨rfl, rfl, rfl, rfl, rfl⟩)
  rw [hd.snapshot_eq hw, he.snapshot_eq hw']

end Display

namespace Machine

variable {s : Surroundings} {m : Machine} {op : Operation} {capacity : Int} {outcome : Outcome}

theorem sent_execute (h : ¬ op.Draws) : (m.execute s op).state.2 = [] := by
  cases op with
  | clearDisplay => exact absurd (.inl rfl) h
  | draw x y rows => exact absurd (.inr ⟨x, y, rows, rfl⟩) h
  | ret | call target | skipIfKey x | skipUnlessKey x | readDelay x | loadRegisters x =>
    exact sent_followedBy rfl fun _ _ => rfl
  | _ => rfl

theorem execute_drawn (hd : m.display.watched = true) (hw : m.display.Whole) :
    Display.Drawn m.display (m.execute s op).state.1.display (m.execute s op).state.2 := by
  by_cases hdraws : op.Draws
  · obtain rfl | ⟨x, y, rows, rfl⟩ := hdraws
    · exact Display.clear_drawn hd hw
    · simp only [execute, ask]
      cases m.memory.readBlock m.index rows.val with
      | error e => exact .refl m.display
      | ok sprite =>
        have hdrawn := Display.draw_drawn hd hw m.registers[x].toNat m.registers[y].toNat sprite
        rw [ofExcept_ok, followedBy_silent, onDisplay]
        generalize m.display.draw m.registers[x].toNat m.registers[y].toNat sprite = work at hdrawn
        obtain ⟨⟨display, sent⟩, result⟩ := work
        cases result with
        | error e => exact hdrawn
        | ok hit =>
          rw [followedBy_of_ok rfl]
          simp only [silent, mapState_succeed, state_succeed, List.append_nil]
          exact hdrawn
  · have hkept := (execute_confined s m op).display.resolve_right hdraws
    rw [hkept, sent_execute hdraws]
    exact .refl m.display

structure Framed (d : Display) (step : Step) : Prop where
  watched : step.machine.display.watched = d.watched
  pixels : ∀ signal ∈ step.signals, ∃ x y lit, signal = .pixel x y lit
  picture : ∀ outcome, step.result = .ok outcome → outcome.displayChanged = false →
    step.machine.display.snapshot = d.snapshot

theorem framed_complete {d : Display} {sent : List Signal} (h : d.Drawn m.display sent)
    (hw : d.Whole) (i : Option Instruction) (trace : Option String) :
    Framed d (m.complete i sent trace) where
  watched := h.reports.shape.watched
  pixels signal hmem := by
    obtain ⟨x, y, -, heq⟩ := h.reports.true_of_mem signal hmem
    exact ⟨x, y, _, heq⟩
  picture outcome ho hc := by
    obtain rfl := Except.ok.inj ho
    exact h.snapshot_eq hw hc

theorem framed_recorded (m : Machine) (e : Error) (trace : Option String) :
    Framed m.display ⟨.error e, m.recorded, [], trace⟩ where
  watched := rfl
  pixels _ hmem := nomatch hmem
  picture _ ho := nomatch ho

theorem WellFormed.step_framed (h : m.WellFormed capacity) (hd : m.display.watched = true)
    (s : Surroundings) : Framed m.display (m.step s) := by
  cases m.course with
  | waiting target hp =>
    obtain ⟨registers, phase, htake, -⟩ := m.takeKey_confined target
    rw [step_of_waiting hp, htake]
    exact framed_complete (m := { m with registers, phase }) (.refl m.display) h.whole none none
  | unfetched a hp hf =>
    rw [step_of_unfetched hp hf]
    exact framed_recorded m _ none
  | unknown word hp hf hw =>
    rw [step_of_unknown hp hf hw]
    exact framed_recorded m _ none
  | refused word op f hp hf hw hc =>
    rw [step_of_refused hp hf hw hc]
    exact framed_recorded m _ _
  | executed word op hp hf hw hc =>
    rw [step_of_executed hp hf hw (execute_begun_of_cleared h.steady hc)]
    have hdrawn : m.display.Drawn ((m.begun word).execute s op).state.1.display
        ((m.begun word).execute s op).state.2 := execute_drawn (m := m.begun word) hd h.whole
    exact framed_complete hdrawn h.whole _ _

end Machine

end ChipEight
