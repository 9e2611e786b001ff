import Mathlib.Data.List.Induction
import ChipEight.Proofs.Restart
import ChipEight.Proofs.Changes
import ChipEight.Proofs.KeyWait
import ChipEight.Proofs.Painting

/-!
# What steps report of the display

A display is marked when it is cleared and when a sprite alters a pixel, and the next step that
returns takes the mark off and reports it.  Since a machine starts with a mark, the first step that
returns reports a change in any case.  Each later one reports what its own instruction did.
-/

namespace ChipEight.Machine

open Attempt

variable {s : Surroundings} {m start : Machine} {op : Operation} {e : Error} {outcome : Outcome}

theorem execute_draw_cases (hd : m.display.Whole) (x y : Register) (rows : Fin 16) :
    (∃ e, m.execute s (.draw x y rows) = .refuse (m, []) e) ∨
    ∃ sprite, (m.execute s (.draw x y rows)).result = .ok () ∧
      (m.execute s (.draw x y rows)).state.1.display =
        (m.display.draw (m.registers.get x).toNat (m.registers.get y).toNat sprite).state.1 := by
  simp only [execute, ask]
  cases m.memory.readBlock m.index rows.val with
  | error e => exact .inl ⟨e, rfl⟩
  | ok sprite =>
    obtain ⟨⟨hit, hhit⟩, -⟩ :=
      Display.draw_completes hd m.registers[x].toNat m.registers[y].toNat sprite
    refine .inr ⟨sprite, ?_⟩
    rw [ofExcept_ok, followedBy_silent, onDisplay, eq_succeed hhit, mapState_succeed,
      followedBy_of_ok rfl]
    exact ⟨rfl, rfl⟩

theorem display_execute_of_error (hd : m.display.Whole)
    (h : (m.execute s op).result = .error e) : (m.execute s op).state.1.display = m.display := by
  obtain hkept | rfl | ⟨x, y, rows, rfl⟩ := (execute_confined s m op).display
  · exact hkept
  · cases h
  · obtain ⟨e', hrefused⟩ | ⟨sprite, hok, -⟩ := execute_draw_cases (s := s) hd x y rows
    · rw [hrefused]
      rfl
    · rw [hok] at h
      cases h

/-- A marked display stays marked, and an operation marks it by clearing it or by altering a pixel
with a sprite. -/
theorem changed_execute_iff (hd : m.display.Whole) (h : (m.execute s op).result = .ok ()) :
    (m.execute s op).state.1.display.changed = true ↔
      m.display.changed = true ∨ op = .clearDisplay ∨
        (∃ x y rows, op = .draw x y rows) ∧
          ∃ a b, m.display.Altered (m.execute s op).state.1.display a b := by
  by_cases hdraws : op.Draws
  · obtain rfl | ⟨x, y, rows, rfl⟩ := hdraws
    · exact ⟨fun _ => .inr (.inl rfl), fun _ => rfl⟩
    · obtain ⟨e, hrefused⟩ | ⟨sprite, -, hdrawn⟩ := execute_draw_cases (s := s) hd x y rows
      · rw [hrefused] at h
        cases h
      · rw [hdrawn]
        have hpaints := Display.draw_paints hd.width_pos hd.height_pos
          (m.registers.get x).toNat (m.registers.get y).toNat sprite
        rw [hpaints.changed]
        simp
  · have hkept := (execute_confined s m op).display.resolve_right hdraws
    obtain ⟨hclear, hdraw⟩ := not_or.mp hdraws
    rw [hkept]
    simp [hclear, hdraw]

/-- What a step does to the mark on the display, and what it reports of it. -/
structure Marks (m : Machine) (step : Step) : Prop where
  raised : ∀ e, step.result = .error e → step.machine.display = m.display
  reported : ∀ outcome, step.result = .ok outcome →
    (outcome.displayChanged = true ↔
      m.display.changed = true ∨ outcome.Performed .clearDisplay ∨
        (∃ x y rows, outcome.Performed (.draw x y rows)) ∧
          ∃ a b, m.display.Altered step.machine.display a b)
  taken : ∀ outcome, step.result = .ok outcome → step.machine.display.changed = false

theorem Marks.of_error {machine : Machine} (h : machine.display = m.display)
    (signals : List Signal) (trace : Option String) :
    m.Marks ⟨.error e, machine, signals, trace⟩ where
  raised _ _ := h
  reported _ ho := nomatch ho
  taken _ ho := nomatch ho

theorem Marks.of_kept {n : Machine} (h : n.display = m.display) :
    m.Marks (n.complete none [] none) where
  raised _ he := nomatch he
  reported outcome ho := by
    obtain rfl := Except.ok.inj ho
    change n.display.changed = true ↔ _
    rw [h]
    simp [Outcome.Performed]
  taken _ _ := rfl

theorem Marks.settle {counter word : Int} {work : Work Unit}
    (hraised : ∀ e, work.result = .error e → work.state.1.display = m.display)
    (hreported : work.result = .ok () → (work.state.1.display.changed = true ↔
      m.display.changed = true ∨ op = .clearDisplay ∨
        (∃ x y rows, op = .draw x y rows) ∧
          ∃ a b, m.display.Altered work.state.1.display a b))
    (trace : Option String) : m.Marks (settle counter ⟨op, word⟩ trace work) := by
  cases hr : work.result with
  | error e =>
    rw [settle_of_error hr]
    apply Marks.of_error
    unfold refuse
    split
    · exact hraised e hr
    · exact hraised e hr
  | ok =>
    rw [settle_of_ok hr]
    exact {
      raised := fun e he => nomatch he
      reported := fun outcome ho => by
        obtain rfl := Except.ok.inj ho
        change work.state.1.display.changed = true ↔ _
        rw [hreported hr]
        simp only [Outcome.Performed, Option.map_some, Option.some_inj]
        rfl
      taken := fun outcome ho => rfl }

theorem step_marks (hd : m.display.Whole) (s : Surroundings) : m.Marks (m.step s) := by
  cases hp : m.phase with
  | waitingForKey target =>
    obtain ⟨registers, phase, htake, -⟩ := m.takeKey_confined target
    rw [step_of_waiting hp, htake]
    exact .of_kept rfl
  | running =>
    have hrecorded : m.recorded.display = m.display := rfl
    cases hf : m.fetch with
    | error e =>
      rw [step_of_unfetched hp hf]
      exact .of_error hrecorded [] none
    | ok word =>
      cases hw : Operation.ofWord? word with
      | none =>
        rw [step_of_unknown hp hf hw]
        exact .of_error hrecorded [] none
      | some op =>
        have hb : (m.begun word).display.Whole := hd
        rw [step_of_known hp hf hw]
        apply Marks.settle
        · exact fun e he => display_execute_of_error hb he
        · exact fun hok => changed_execute_iff hb hok

/-- A step of the run returned, and the machine was not reset since. -/
def Reported (m : Machine) (events : List Event) : Prop :=
  ∃ before s after outcome, events = before ++ .step s :: after ∧ .reset ∉ after ∧
    ((m.run before).step s).result = .ok outcome

theorem not_reported_nil (m : Machine) : ¬ m.Reported [] := by
  rintro ⟨before, s, after, outcome, heq, -, -⟩
  cases before with
  | nil => cases heq
  | cons event rest => cases heq

theorem reported_append (m : Machine) (events : List Event) (event : Event) :
    m.Reported (events ++ [event]) ↔ (m.Reported events ∧ event ≠ .reset) ∨
      ∃ s outcome, event = .step s ∧ ((m.run events).step s).result = .ok outcome := by
  constructor
  · rintro ⟨before, s, after, outcome, heq, hafter, ho⟩
    cases after using List.reverseRecOn with
    | nil =>
      obtain ⟨rfl, hlast⟩ := List.append_inj' heq rfl
      exact .inr ⟨s, outcome, List.singleton_inj.mp hlast, ho⟩
    | append_singleton rest last =>
      rw [← List.cons_append, ← List.append_assoc] at heq
      obtain ⟨rfl, hlast⟩ := List.append_inj' heq rfl
      obtain rfl := List.singleton_inj.mp hlast
      simp only [List.mem_append, List.mem_singleton, not_or] at hafter
      exact .inl ⟨⟨before, s, rest, outcome, rfl, hafter.1, ho⟩, Ne.symm hafter.2⟩
  · rintro (⟨⟨before, s, after, outcome, rfl, hafter, ho⟩, hne⟩ | ⟨s, outcome, rfl, ho⟩)
    · refine ⟨before, s, after ++ [event], outcome, by simp, ?_, ho⟩
      simp only [List.mem_append, List.mem_singleton, not_or]
      exact ⟨hafter, Ne.symm hne⟩
    · exact ⟨events, s, [], outcome, rfl, List.not_mem_nil, ho⟩

/-- A machine that was just built or reset, with a display of any size. -/
inductive Started : Machine → Prop
  | built (d : Display) (capacity : Int) (whole : d.Whole) : Started (new d capacity).1
  | reset (m : Machine) (whole : m.display.Whole) : Started m.reset.1

namespace Started

theorem whole (h : start.Started) : start.display.Whole := by
  cases h with
  | built d capacity hd => exact hd.of_sameShape (Display.clear_sameShape d)
  | reset m hd => exact hd.of_sameShape (Display.clear_sameShape m.display)

theorem changed (h : start.Started) : start.display.changed = true := by
  cases h with
  | built d capacity hd => rfl
  | reset m hd => rfl

end Started

theorem display_setKey (m : Machine) (key : Int) (down : Bool) :
    (m.setKey key down).state.display = m.display := by
  change (m.respond (.key key down)).display = m.display
  rw [respond_key]

theorem display_load (m : Machine) (program : List UInt8) :
    (m.load program).state.display = m.display := by
  unfold load
  split
  · rfl
  · rfl

theorem whole_run (hd : m.display.Whole) (events : List Event) :
    (m.run events).display.Whole := by
  induction events generalizing m with
  | nil => exact hd
  | cons event rest ih => exact ih (hd.of_sameShape (respond_sameBuild m event).shape)

theorem run_append_singleton (m : Machine) (events : List Event) (event : Event) :
    m.run (events ++ [event]) = (m.run events).respond event := List.foldl_concat ..

theorem changed_run_iff (h : start.Started) (events : List Event) :
    (start.run events).display.changed = true ↔ ¬ start.Reported events := by
  induction events using List.reverseRecOn with
  | nil => exact iff_of_true h.changed start.not_reported_nil
  | append_singleton events event ih =>
    rw [run_append_singleton, reported_append]
    cases event with
    | step s =>
      have hmarks := step_marks (whole_run h.whole events) s
      change ((start.run events).step s).machine.display.changed = true ↔ _
      cases hr : ((start.run events).step s).result with
      | error e =>
        rw [hmarks.raised e hr, ih]
        simp [hr]
      | ok outcome =>
        rw [hmarks.taken outcome hr]
        simp [hr]
    | key key down =>
      change ((start.run events).setKey key down).state.display.changed = true ↔ _
      rw [display_setKey, ih]
      simp
    | load program =>
      change ((start.run events).load program).state.display.changed = true ↔ _
      rw [display_load, ih]
      simp
    | write address block =>
      change (start.run events).display.changed = true ↔ _
      rw [ih]
      simp
    | reset =>
      change true = true ↔ _
      simp

/-- What a step at the end of a run reports of the display, and that one which raises an error
leaves the display and its mark alone. -/
theorem display_report (h : start.Started) (events : List Event) (s : Surroundings) :
    let m := start.run events
    let step := m.step s
    (∀ e, step.result = .error e → step.machine.display = m.display) ∧
    ∀ outcome, step.result = .ok outcome →
      (¬ start.Reported events → outcome.displayChanged = true) ∧
      (start.Reported events → (outcome.displayChanged = true ↔
        outcome.Performed .clearDisplay ∨
          (∃ x y rows, outcome.Performed (.draw x y rows)) ∧
            ∃ a b, m.display.Altered step.machine.display a b)) := by
  intro m step
  have hmarks : m.Marks step := step_marks (whole_run h.whole events) s
  refine ⟨hmarks.raised, fun outcome ho => ?_⟩
  have hreported := hmarks.reported outcome ho
  rw [changed_run_iff h] at hreported
  constructor
  · intro hfirst
    exact hreported.mpr (.inl hfirst)
  · intro hlater
    rw [hreported, or_iff_right (not_not_intro hlater)]

/-- Set bits force their pixels on, so a glyph drawn where it is already to be seen alters
nothing. -/
theorem display_report_glyph_again :
    let start := boot false false 16
    let events : List Event :=
      [.load [0xA0, 0x50, 0xD0, 0x05, 0xD0, 0x05], .step quiet, .step quiet]
    let m := start.run events
    let step := m.step quiet
    start.Started ∧ start.Reported events ∧ ∃ outcome, step.result = .ok outcome ∧
      outcome.Performed (.draw 0 0 5) ∧ outcome.displayChanged = false ∧
      ∀ a b, ¬ m.display.Altered step.machine.display a b := by
  intro start events m step
  have hruns : m.display.changed = false ∧ step.result.toOption.map (fun outcome =>
      (outcome.instruction.map Instruction.operation, outcome.displayChanged)) =
        some (some (.draw 0 0 5), false) := by decide +kernel
  obtain ⟨hmark, hstep⟩ := hruns
  have hstart : start.Started := .built _ 16 (WellFormed.boot false false 16).whole
  have hevents : start.Reported events := by
    by_contra hn
    cases hmark.symm.trans ((changed_run_iff hstart events).mpr hn)
  obtain ⟨outcome, ho⟩ : ∃ outcome, step.result = .ok outcome :=
    exists_eq_ok (by simpa using congrArg Option.isSome hstep)
  rw [ho] at hstep
  obtain ⟨hdrawn, hchanged⟩ := Prod.mk.inj (Option.some.inj hstep)
  have hreport := ((display_report hstart events quiet).2 outcome ho).2 hevents
  refine ⟨hstart, hevents, outcome, ho, hdrawn, hchanged, fun a b hab => ?_⟩
  have halters := hreport.mpr (.inr ⟨⟨0, 0, 5, hdrawn⟩, a, b, hab⟩)
  cases hchanged.symm.trans halters

end ChipEight.Machine
