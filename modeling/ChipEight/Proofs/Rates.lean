import Mathlib.Algebra.BigOperators.Group.List.Basic
import Mathlib.Data.Rat.Floor
import ChipEight.Proofs.Deadlines

/-!
# The rates that are announced

What the counters hold before a turn is what the turns since the last report have gained, and what
is reported is what they hold.  So no frame and no operation is ever lost, or reported twice.
-/

namespace ChipEight

open Attempt

/-- In exact time the second after an instant has come as soon as the floor is a greater one. -/
theorem Instant.nextSecond_le_iff {a b : Rat} (ha : 0 ≤ a) :
    Instant.le (Instant.nextSecond a) b = true ↔ ⌊a⌋ < ⌊b⌋ := by
  have hnext : Instant.nextSecond a = ((⌊a⌋ + 1 : Int) : Rat) := by
    change (((if a < 0 then a.ceil else a.floor : Int) : Rat) + 1) = _
    rw [if_neg (not_lt.mpr ha), Int.cast_add, Int.cast_one]
    rfl
  rw [Instant.le_iff, hnext, ← Int.le_floor, Int.add_one_le_iff]

variable {τ : Type} [Instant τ] {script : Script τ} {env : Surroundings} {capacity : Int}

namespace Turn

variable {t : Turn τ (List Call)}

theorem executes_iff : t.executes script env = true ↔
    ∃ s, t.session.prepare (recorder script) t.now = .succeed s false ∧ s.machine.phase = .running ∧
      ∃ outcome, (s.machine.step env).result = .ok outcome := by
  unfold executes
  split
  · rename_i s hs
    rw [Machine.executes_step_iff]
    constructor
    · exact fun h => ⟨s, hs, h⟩
    · rintro ⟨s', hs', h⟩
      cases hs.symm.trans hs'
      exact h
  · rename_i hnone
    refine ⟨fun h => (Bool.false_ne_true h).elim, ?_⟩
    rintro ⟨s, hs, -⟩
    exact absurd hs (hnone s)

/-- What a turn finds in the counters and what it gains is what it reports and what it leaves. -/
theorem balance (script : Script τ) (env : Surroundings) (h : t.session.machine.Playable capacity) :
    t.figures.sum + (t.done script env).state.counters =
      t.session.counters + t.gain script env := by
  rw [(tallies script env h).counters, figures]
  split
  · rw [List.sum_singleton]
  · rw [List.sum_nil, zero_add]

theorem titles_eq_nil_iff (h : t.session.machine.Playable capacity) :
    t.titles script env = [] ↔ ¬ t.ReportDue := by
  have htitles := (tallies script env h).titles
  rw [← List.length_eq_zero_iff, htitles.length_eq, List.length_eq_zero_iff, figures]
  split
  · rename_i hdue
    exact ⟨fun hnil => absurd hnil (List.cons_ne_nil _ _), fun hn => absurd hdue hn⟩
  · rename_i hdue
    exact ⟨fun _ => hdue, fun _ => rfl⟩

theorem exists_last_report {turns : List (Turn τ (List Call))} (h : ∃ u ∈ turns, u.ReportDue) :
    ∃ older u newer, turns = older ++ u :: newer ∧ u.ReportDue ∧ ∀ v ∈ newer, ¬ v.ReportDue := by
  induction turns with
  | nil =>
    obtain ⟨u, hu, -⟩ := h
    cases hu
  | cons v rest ih =>
    by_cases hrest : ∃ u ∈ rest, u.ReportDue
    · obtain ⟨older, u, newer, rfl, hdue⟩ := ih hrest
      exact ⟨v :: older, u, newer, rfl, hdue⟩
    · obtain ⟨u, hu, hdue⟩ := h
      obtain rfl | hu := List.mem_cons.mp hu
      · exact ⟨[], u, rest, rfl, hdue, fun w hw hw' => hrest ⟨w, hw, hw'⟩⟩
      · exact absurd ⟨u, hu, hdue⟩ hrest

end Turn

namespace Session

variable {s : Session τ (List Call)} {clock : List (Moment τ)} {t u : Turn τ (List Call)}
  {turns before after newer : List (Turn τ (List Call))}
  {ending : Attempt (Session τ (List Call)) Unit}

theorem Runs.balance (h : Runs (recorder script) env s clock turns ending)
    (hp : s.machine.Playable capacity) :
    (turns.flatMap Turn.figures).sum + ending.state.counters =
      s.counters + (turns.map (Turn.gain script env)).sum := by
  have hfirst {s s' : Session τ (List Call)} {now : Moment τ} {result : Except Error (Ending τ)}
      (hp : s.machine.Playable capacity)
      (turn : s.turn (recorder script) env now = ⟨s', result⟩) :
      (Turn.figures ⟨s, now⟩).sum + s'.counters = s.counters + Turn.gain script env ⟨s, now⟩ := by
    have hbalance := Turn.balance script env (t := ⟨s, now⟩) hp
    rw [Turn.done, turn] at hbalance
    exact hbalance
  induction h with
  | stopped s => exact (zero_add _).trans (add_zero _).symm
  | refused clock turn | quit clock turn | starved turn wait =>
    rw [List.flatMap_singleton, List.map_singleton, List.sum_singleton]
    exact hfirst hp turn
  | @next s s' now due clock rest turns ending turn wait runs ih =>
    have hrest := ih (Turn.playable_of_next (t := ⟨s, now⟩) hp turn)
    -- what the first turn leaves in the counters is what the others find there
    rw [List.flatMap_cons, List.sum_append, List.map_cons, List.sum_cons, add_assoc, hrest,
      ← add_assoc, hfirst hp turn, add_assoc]

theorem Runs.titles (h : Runs (recorder script) env s clock turns ending)
    (hp : s.machine.Playable capacity) :
    List.Forall₂ Announces (turns.flatMap (Turn.titles script env))
      (turns.flatMap Turn.figures) := by
  refine List.rel_flatMap (R := fun t u => t = u ∧ t ∈ turns)
    (List.forall₂_same.mpr fun t ht => ⟨rfl, ht⟩) ?_
  rintro t _ ⟨rfl, ht⟩
  exact (Turn.tallies script env (h.playable_of_mem hp ht)).titles

theorem Runs.counters_of_unreported
    (h : Runs (recorder script) env s clock (before ++ t :: after) ending)
    (hp : s.machine.Playable capacity) (hn : ∀ u ∈ before, ¬ u.ReportDue) :
    t.session.counters = s.counters + (before.map (Turn.gain script env)).sum := by
  induction before generalizing s clock with
  | nil =>
    rw [h.session_head]
    exact (add_zero _).symm
  | cons u rest ih =>
    obtain ⟨s', due, clock', hturn, hruns⟩ := h.tail
    obtain rfl : u.session = s := h.session_head
    obtain ⟨hu, hrest⟩ := List.forall_mem_cons.mp hn
    have hcounters := (Turn.tallies script env hp).counters
    rw [Turn.done, hturn, if_neg hu] at hcounters
    calc t.session.counters
        = s'.counters + (rest.map (Turn.gain script env)).sum :=
          ih hruns (Turn.playable_of_next hp hturn) hrest
      _ = u.session.counters + u.gain script env + (rest.map (Turn.gain script env)).sum :=
          congrArg (· + _) hcounters
      _ = u.session.counters + ((u :: rest).map (Turn.gain script env)).sum := by
          rw [add_assoc, List.map_cons, List.sum_cons]

theorem Runs.counters_of_reported
    (h : Runs (recorder script) env s clock (u :: newer ++ t :: after) ending)
    (hp : s.machine.Playable capacity) (hu : u.ReportDue) (hn : ∀ v ∈ newer, ¬ v.ReportDue) :
    t.session.counters = ((u :: newer).map (Turn.gain script env)).sum := by
  obtain ⟨s', due, clock', hturn, hruns⟩ := h.tail
  obtain rfl : u.session = s := h.session_head
  have hcounters := (Turn.tallies script env hp).counters
  rw [Turn.done, hturn, if_pos hu] at hcounters
  have hrest := hruns.counters_of_unreported (Turn.playable_of_next hp hturn) hn
  rw [hrest, List.map_cons, List.sum_cons]
  exact congrArg (· + _) hcounters

section

variable {script : Script Rat} {s : Session Rat (List Call)} {clock : List (Moment Rat)}
  {t u : Turn Rat (List Call)} {before after newer : List (Turn Rat (List Call))}
  {ending : Attempt (Session Rat (List Call)) Unit}

theorem Runs.steady_nonneg {turns : List (Turn Rat (List Call))}
    (h : Runs (recorder script) env s clock turns ending)
    (hclock : ∀ reading ∈ clock, 0 ≤ reading.steady) (ht : t ∈ turns) : 0 ≤ t.now.steady :=
  hclock t.now (h.readings.subset (List.mem_map_of_mem ht))

theorem Runs.reportDue_head (h : Runs (recorder script) env s clock (t :: after) ending)
    (hclock : ∀ reading ∈ clock, 0 ≤ reading.steady) (hs : s.nextReport = Instant.origin) :
    t.ReportDue := by
  rw [Turn.ReportDue, h.session_head, hs, Instant.origin_eq, Instant.le_iff]
  exact h.steady_nonneg hclock List.mem_cons_self

theorem Runs.titles_of_reported
    (h : Runs (recorder script) env s clock (u :: newer ++ t :: after) ending)
    (hp : s.machine.Playable capacity) (hnow : 0 ≤ u.now.steady) (hu : u.ReportDue)
    (hn : ∀ v ∈ newer, ¬ v.ReportDue) :
    let gained := ((u :: newer).map (Turn.gain script env)).sum
    List.Forall₂ Announces (t.titles script env)
      (if ⌊u.now.steady⌋ < ⌊t.now.steady⌋ then [gained] else []) := by
  have hdue : t.ReportDue ↔ ⌊u.now.steady⌋ < ⌊t.now.steady⌋ := by
    rw [Turn.ReportDue, h.nextReport_of_set hu hn, Instant.nextSecond_le_iff hnow]
  intro gained
  have htitles := (Turn.tallies script env (h.playable hp)).titles
  rw [Turn.figures, h.counters_of_reported hp hu hn] at htitles
  simpa only [hdue] using htitles

/-- What one turn of a run announces, where the run has its other turns before it. -/
structure Accounted (script : Script Rat) (env : Surroundings)
    (before : List (Turn Rat (List Call))) (t : Turn Rat (List Call)) : Prop where
  first : before = [] → List.Forall₂ Announces (t.titles script env) [(0, 0)]
  later : before ≠ [] → ∃ older u newer, before = older ++ u :: newer ∧
    u.titles script env ≠ [] ∧ (∀ v ∈ newer, v.titles script env = []) ∧
    let gained := ((u :: newer).map (Turn.gain script env)).sum
    List.Forall₂ Announces (t.titles script env)
      (if ⌊u.now.steady⌋ < ⌊t.now.steady⌋ then [gained] else [])
  /-- A step that waits for a key, or takes one, is not one that executes. -/
  executes : t.executes script env = true ↔
    ∃ s, t.session.prepare (recorder script) t.now = .succeed s false ∧
      s.machine.phase = .running ∧ ∃ outcome, (s.machine.step env).result = .ok outcome

theorem Runs.accounted (h : Runs (recorder script) env s clock (before ++ t :: after) ending)
    (hp : s.machine.Playable capacity) (hclock : ∀ reading ∈ clock, 0 ≤ reading.steady)
    (hs : s.nextReport = Instant.origin) (hcounters : s.counters = 0) :
    Accounted script env before t := by
  refine ⟨?_, ?_, Turn.executes_iff⟩
  · rintro rfl
    have htitles := (Turn.tallies script env (h.playable hp)).titles
    rwa [Turn.figures, if_pos (h.reportDue_head hclock hs), h.session_head, hcounters] at htitles
  · intro hne
    -- the first turn reports, so there is a last one to do so
    obtain ⟨first, rest, rfl⟩ := List.exists_cons_of_ne_nil hne
    obtain ⟨older, u, newer, heq, hdue, hn⟩ := Turn.exists_last_report
      ⟨first, List.mem_cons_self, h.reportDue_head hclock hs⟩
    rw [heq] at h
    have hsilent {v : Turn Rat (List Call)} (hv : v ∈ older ++ u :: newer) :
        v.titles script env = [] ↔ ¬ v.ReportDue :=
      Turn.titles_eq_nil_iff (h.playable_of_mem hp (List.mem_append_left _ hv))
    have hmem : u ∈ older ++ u :: newer := List.mem_append_right _ List.mem_cons_self
    have hnow := h.steady_nonneg hclock (List.mem_append_left _ hmem)
    refine ⟨older, u, newer, heq, ?_, fun v hv => ?_, ?_⟩
    · exact mt (hsilent hmem).mp (not_not.mpr hdue)
    · exact (hsilent (List.mem_append_right _ (List.mem_cons_of_mem u hv))).mpr (hn v hv)
    · rw [List.append_assoc] at h
      obtain ⟨clock', hsuffix⟩ := h.suffix
      exact hsuffix.titles_of_reported (h.playable hp) hnow hdue hn

end

/-- On a clock that starts at zero or later, on a machine that was switched on with a program. -/
theorem run_accounted (toggles : Bool) (capacity : Int) (rom : List UInt8) (interval : Option Rat)
    (script : Script Rat) (env : Surroundings) (clock : List (Moment Rat))
    (hclock : ∀ reading ∈ clock, 0 ≤ reading.steady) :
    let m := (Machine.boot toggles true capacity).run [.load rom]
    let s : Session Rat (List Call) := start m [] interval
    let ending := s.run (recorder script) env clock
    ∃ turns, Runs (recorder script) env s clock turns ending ∧
      ending.state.frontEnd = turns.flatMap (Turn.calls script env) ∧
      (∃ figures : List (Nat × Nat),
        List.Forall₂ Announces (turns.flatMap (Turn.titles script env)) figures ∧
        (∀ others, List.Forall₂ Announces (turns.flatMap (Turn.titles script env)) others →
          others = figures) ∧
        figures.sum + ending.state.counters = (turns.map (Turn.gain script env)).sum) ∧
      ∀ before t after, turns = before ++ t :: after → Accounted script env before t := by
  intro m s ending
  have hp : s.machine.Playable capacity := Machine.playable_loaded toggles capacity rom
  obtain ⟨turns, hruns⟩ := runs (recorder script) env s clock
  have htitles := hruns.titles hp
  refine ⟨turns, hruns, hruns.log hp, ⟨turns.flatMap Turn.figures, htitles, ?_, ?_⟩, ?_⟩
  · intro others hothers
    exact List.right_unique_forall₂' (fun _ _ _ h h' => h.eq h') hothers htitles
  · exact (hruns.balance hp).trans (zero_add _)
  · rintro before t after rfl
    exact hruns.accounted hp hclock rfl rfl

/-- A program that jumps to itself, without a pause, with the keys left alone.  It is announced at
once, and again with the first turn of another second. -/
theorem run_accounted_unpaused :
    let script : Script Rat := fun _ _ _ => (.ok false, Keypad.released)
    let clock : List (Moment Rat) := [⟨0, 0⟩, ⟨1 / 2, 0⟩, ⟨5 / 2, 0⟩, ⟨11 / 4, 0⟩]
    let m := (Machine.boot true true 16).run [.load [0x12, 0x00]]
    let s : Session Rat (List Call) := start m [] none
    let ending := s.run (recorder script) Machine.quiet clock
    (∀ reading ∈ clock, 0 ≤ reading.steady) ∧
      ∃ turns, Runs (recorder script) Machine.quiet s clock turns ending ∧
        turns.flatMap (Turn.titles script Machine.quiet) =
          ["PyChip8 Interpreter - 0 FPS, 0 OPS", "PyChip8 Interpreter - 2 FPS, 2 OPS"] ∧
        [(0, 0), (2, 2)].sum + ending.state.counters =
          (turns.map (Turn.gain script Machine.quiet)).sum := by
  intro script clock m s ending
  have hclock : ∀ reading ∈ clock, 0 ≤ reading.steady := by
    simp only [clock, List.forall_mem_cons]
    norm_num
  have htold : ending.state.frontEnd.filterMap Call.title? =
      ["PyChip8 Interpreter - 0 FPS, 0 OPS", "PyChip8 Interpreter - 2 FPS, 2 OPS"] := by
    decide +kernel
  obtain ⟨turns, hruns, hlog, ⟨figures, -, hunique, hsum⟩, -⟩ :=
    run_accounted true 16 [0x12, 0x00] none script Machine.quiet clock hclock
  change ending.state.frontEnd = _ at hlog
  rw [hlog, List.filterMap_flatMap] at htold
  have htitles : turns.flatMap (Turn.titles script Machine.quiet) = _ := htold
  rw [htitles] at hunique
  have hfigures := hunique [(0, 0), (2, 2)]
    (.cons (announces_title (0, 0)) (.cons (announces_title (2, 2)) .nil))
  rw [← hfigures] at hsum
  exact ⟨hclock, turns, hruns, htitles, hsum⟩

end Session

end ChipEight
