import Mathlib.Algebra.Order.Field.Rat
import Mathlib.Tactic.NormNum
import ChipEight.Proofs.Entries

/-!
# Deadlines

A session keeps two deadlines, for its next poll and for its next report.  A turn that begins at a
deadline or after it sets a new one; any other turn leaves it alone.  With a clock speed a turn also
waits until the next one is due.
-/

namespace ChipEight

open Attempt

variable {τ σ : Type} [Instant τ] {f : FrontEnd τ σ} {env : Surroundings}

namespace Session

variable {s s' : Session τ σ} {now : Moment τ} {clock rest : List (Moment τ)}

structure SameDeadlines (s s' : Session τ σ) : Prop where
  interval : s'.interval = s.interval
  nextPoll : s'.nextPoll = s.nextPoll
  nextReport : s'.nextReport = s.nextReport

omit [Instant τ] in
theorem refresh_sameDeadlines (f : FrontEnd τ σ) (s : Session τ σ) :
    s.SameDeadlines (s.refresh f).state :=
  keeps_andThen (P := s.SameDeadlines) ⟨rfl, rfl, rfl⟩ fun _ _ h =>
    ⟨h.interval, h.nextPoll, h.nextReport⟩

omit [Instant τ] in
theorem advance_sameDeadlines (f : FrontEnd τ σ) (env : Surroundings) (s : Session τ σ) :
    s.SameDeadlines (s.advance f env).state :=
  keeps_andThen (P := s.SameDeadlines) ⟨rfl, rfl, rfl⟩ fun _ _ h =>
    keeps_andThen (P := s.SameDeadlines) ⟨h.interval, h.nextPoll, h.nextReport⟩ fun _ _ h =>
      ⟨h.interval, h.nextPoll, h.nextReport⟩

theorem deadlines_report (f : FrontEnd τ σ) (now : τ) (s : Session τ σ) :
    SameDeadlines
      { s with nextReport :=
        if Instant.le s.nextReport now = true then Instant.nextSecond now else s.nextReport }
      (s.report f now).state := by
  unfold report
  split
  · exact keeps_andThen (P := SameDeadlines { s with nextReport := Instant.nextSecond now })
      ⟨rfl, rfl, rfl⟩ fun _ _ h => ⟨h.interval, h.nextPoll, h.nextReport⟩
  · exact ⟨rfl, rfl, rfl⟩

theorem deadlines_pollKeys (h : s.pollKeys f now = .succeed s' false) :
    SameDeadlines
      { s with nextPoll :=
        if Instant.le s.nextPoll now.steady = true then
          Instant.add now.steady (Instant.ratio 1 pollRate)
        else s.nextPoll } s' := by
  cases s.polls f now with
  | early due work =>
    obtain rfl := congrArg Attempt.state (work.symm.trans h)
    simp only [due, Bool.false_eq_true, if_false]
    exact ⟨rfl, rfl, rfl⟩
  | failed e due quit work => cases work.symm.trans h
  | quit due quit work => cases work.symm.trans h
  | refreshed due quit work =>
    obtain ⟨s'', ⟨⟩, hrefresh, hs'⟩ := of_andThen (work.symm.trans h)
    have hkept := refresh_sameDeadlines f ((s.polled f now).postponed now.steady)
    obtain rfl := congrArg Attempt.state hs'
    rw [hrefresh] at hkept
    simp only [due, if_true]
    exact ⟨hkept.interval, hkept.nextPoll, hkept.nextReport⟩

theorem suffix_of_wait {due : Option τ} (h : wait due clock = some rest) : rest <:+ clock := by
  unfold wait at h
  split at h
  · exact Option.some.inj h ▸ List.suffix_refl clock
  · rename_i due
    split at h
    · cases h
    · rename_i heq
      obtain rfl := Option.some.inj h
      exact (List.suffix_cons _ _).trans (heq ▸ List.dropWhile_suffix _)

theorem exists_reading_of_wait {due : τ} (h : wait (some due) clock = some rest) :
    ∃ reading, Instant.le due reading.steady = true ∧ reading :: rest <:+ clock := by
  dsimp only [wait] at h
  split at h
  · cases h
  · rename_i reading more heq
    obtain rfl := Option.some.inj h
    have hlate := List.head?_dropWhile_not (fun now : Moment τ => !Instant.le due now.steady) clock
    rw [heq, List.head?_cons] at hlate
    exact ⟨reading, by simpa using hlate, heq ▸ List.dropWhile_suffix _⟩

end Session

namespace Turn

variable {t : Turn τ σ} {s' : Session τ σ} {due : Option τ}

/-- What a turn sets for the turns after it. -/
structure Sets (t : Turn τ σ) (s' : Session τ σ) (due : Option τ) : Prop where
  interval : s'.interval = t.session.interval
  due : due = t.session.interval.map (Instant.add t.now.steady)
  nextPoll : s'.nextPoll =
    if t.PollDue then Instant.add t.now.steady (Instant.ratio 1 Session.pollRate)
    else t.session.nextPoll
  nextReport : s'.nextReport =
    if t.ReportDue then Instant.nextSecond t.now.steady else t.session.nextReport

theorem sets (hn : t.session.turn f env t.now = .succeed s' (.next due)) : t.Sets s' due := by
  rw [Session.turn_eq] at hn
  obtain ⟨s₂, quit, hprepare, hrest⟩ := of_andThen hn
  obtain ⟨s₁, ⟨⟩, hreport, hpoll⟩ := of_andThen hprepare
  cases quit with
  | true => cases hrest
  | false =>
    rw [if_neg Bool.false_ne_true] at hrest
    obtain ⟨s₃, ⟨⟩, hadvance, hend⟩ := of_andThen hrest
    obtain rfl := congrArg Attempt.state hend
    have hr := Session.deadlines_report f t.now.steady t.session
    have hp := Session.deadlines_pollKeys hpoll
    have ha := Session.advance_sameDeadlines f env s₂
    rw [hreport, state_succeed] at hr
    rw [hadvance, state_succeed] at ha
    have hinterval := ha.interval.trans (hp.interval.trans hr.interval)
    refine ⟨hinterval, ?_, ha.nextPoll.trans (hp.nextPoll.trans ?_),
      ha.nextReport.trans (hp.nextReport.trans hr.nextReport)⟩
    · have hdue := Except.ok.inj (congrArg Attempt.result hend)
      rw [← Session.Ending.next.inj hdue, ← hinterval]
    · change (if Instant.le s₁.nextPoll _ = true then _ else s₁.nextPoll) = _
      rw [hr.nextPoll]
      rfl

end Turn

namespace Session

variable {s : Session τ σ} {clock : List (Moment τ)} {t u : Turn τ σ}
  {turns before after newer : List (Turn τ σ)} {ending : Attempt (Session τ σ) Unit}

/-- What no turn set anew is as it was at first. -/
theorem Runs.eq_of_unset {α : Type} {field : Session τ σ → α} {Due : Turn τ σ → Prop}
    (hkeep : ∀ u s' due, ¬ Due u → u.session.turn f env u.now = .succeed s' (.next due) →
      field s' = field u.session)
    (h : Runs f env s clock (before ++ t :: after) ending) (hn : ∀ u ∈ before, ¬ Due u) :
    field t.session = field s := by
  induction before generalizing s clock with
  | nil => rw [h.session_head]
  | cons u rest ih =>
    obtain ⟨s', due, clock', hturn, hruns⟩ := h.tail
    obtain rfl : u.session = s := h.session_head
    obtain ⟨hu, hrest⟩ := List.forall_mem_cons.mp hn
    exact (ih hruns hrest).trans (hkeep u s' due hu hturn)

/-- It is what the last turn that set it made it. -/
theorem Runs.eq_of_set {α : Type} {field : Session τ σ → α} {Due : Turn τ σ → Prop} {value : α}
    (hset : ∀ s' due, u.session.turn f env u.now = .succeed s' (.next due) → field s' = value)
    (hkeep : ∀ u s' due, ¬ Due u → u.session.turn f env u.now = .succeed s' (.next due) →
      field s' = field u.session)
    (h : Runs f env s clock (u :: newer ++ t :: after) ending) (hn : ∀ v ∈ newer, ¬ Due v) :
    field t.session = value := by
  obtain ⟨s', due, clock', hturn, hruns⟩ := h.tail
  obtain rfl : u.session = s := h.session_head
  exact (hruns.eq_of_unset hkeep hn).trans (hset s' due hturn)

theorem Runs.nextPoll_of_unset (h : Runs f env s clock (before ++ t :: after) ending)
    (hn : ∀ u ∈ before, ¬ u.PollDue) : t.session.nextPoll = s.nextPoll :=
  h.eq_of_unset (fun _ _ _ hu hturn => (Turn.sets hturn).nextPoll.trans (if_neg hu)) hn

theorem Runs.nextPoll_of_set (h : Runs f env s clock (u :: newer ++ t :: after) ending)
    (hu : u.PollDue) (hn : ∀ v ∈ newer, ¬ v.PollDue) :
    t.session.nextPoll = Instant.add u.now.steady (Instant.ratio 1 pollRate) :=
  h.eq_of_set (fun _ _ hturn => (Turn.sets hturn).nextPoll.trans (if_pos hu))
    (fun _ _ _ hv hturn => (Turn.sets hturn).nextPoll.trans (if_neg hv)) hn

theorem Runs.nextReport_of_set (h : Runs f env s clock (u :: newer ++ t :: after) ending)
    (hu : u.ReportDue) (hn : ∀ v ∈ newer, ¬ v.ReportDue) :
    t.session.nextReport = Instant.nextSecond u.now.steady :=
  h.eq_of_set (fun _ _ hturn => (Turn.sets hturn).nextReport.trans (if_pos hu))
    (fun _ _ _ hv hturn => (Turn.sets hturn).nextReport.trans (if_neg hv)) hn

theorem Runs.exists_head {now : Moment τ} (h : Runs f env s (now :: clock) turns ending) :
    ∃ after, turns = ⟨s, now⟩ :: after := by
  cases h with
  | refused | quit | starved | next => exact ⟨_, rfl⟩

theorem Runs.readings (h : Runs f env s clock turns ending) :
    (turns.map Turn.now).Sublist clock := by
  induction h with
  | stopped => exact List.nil_sublist []
  | refused | quit | starved => exact (List.nil_sublist _).cons_cons _
  | next turn wait runs ih => exact (ih.trans (suffix_of_wait wait).sublist).cons_cons _

end Session

namespace Instant

theorem le_iff {a b : Rat} : Instant.le a b = true ↔ a ≤ b := decide_eq_true_iff

theorem origin_eq : (origin : Rat) = 0 := div_one _

theorem add_ratio (a : Rat) (n : Nat) : Instant.add a (Instant.ratio 1 n) = a + 1 / (n : Rat) := rfl

end Instant

theorem Machine.playable_loaded (toggles : Bool) (capacity : Int) (rom : List UInt8) :
    ((boot toggles true capacity).run [.load rom]).Playable capacity := by
  refine ⟨(WellFormed.boot toggles true capacity).run _, ?_⟩
  change ((boot toggles true capacity).load rom).state.display.watched = true
  unfold load
  split
  · rfl
  · rfl

namespace Session

variable {capacity : Int} {script : Script Rat}

theorem exists_intervalOf (speed : Option Int) :
    ∃ interval, intervalOf (τ := Rat) speed = .ok interval ∧
      (0 < speed.getD standardSpeed →
        interval = some (1 / (speed.getD standardSpeed : Rat))) := by
  unfold intervalOf
  dsimp only
  by_cases hspeed : speed.getD standardSpeed ≤ 0
  · rw [if_pos hspeed]
    exact ⟨none, rfl, fun hpos => absurd hpos (not_lt.mpr hspeed)⟩
  · rw [if_neg hspeed]
    have hnat : ((speed.getD standardSpeed).toNat : Int) = speed.getD standardSpeed :=
      Int.toNat_of_nonneg (le_of_not_ge hspeed)
    refine ⟨_, rfl, fun _ => congrArg some ?_⟩
    change ((1 : Int) : Rat) / ((speed.getD standardSpeed).toNat : Rat) = _
    rw [← Int.cast_natCast, hnat, Int.cast_one]

theorem Runs.apart {f : FrontEnd Rat σ} {s : Session Rat σ} {clock : List (Moment Rat)}
    {turns : List (Turn Rat σ)} {ending : Attempt (Session Rat σ) Unit} {interval : Rat}
    (h : Runs f env s clock turns ending)
    (hclock : clock.Pairwise fun a b => a.steady ≤ b.steady) (hi : s.interval = some interval) :
    turns.Pairwise fun t u => t.now.steady + interval ≤ u.now.steady := by
  induction h with
  | stopped => exact .nil
  | refused | quit | starved => exact List.pairwise_singleton _ _
  | @next s s' now due clock rest turns ending turn wait runs ih =>
    have hset := Turn.sets (t := ⟨s, now⟩) turn
    have hdue : due = some (Instant.add now.steady interval) := by
      rw [hset.due, hi]
      rfl
    rw [hdue] at wait
    -- the reading that ends the wait lies between the two turns, and belongs to neither
    obtain ⟨reading, hlate, hsuffix⟩ := exists_reading_of_wait wait
    have hrest := (List.pairwise_cons.mp hclock).2.sublist hsuffix.sublist
    obtain ⟨hlater, hrest⟩ := List.pairwise_cons.mp hrest
    refine .cons (fun u hu => ?_) (ih hrest (hset.interval.trans hi))
    have hmem : u.now ∈ rest := runs.readings.subset (List.mem_map_of_mem hu)
    exact (of_decide_eq_true hlate).trans (hlater u.now hmem)

/-- What one turn of a run keeps to, where the run has its other turns before and after it. -/
structure Paced (speed : Int) (script : Script Rat) (env : Surroundings)
    (before : List (Turn Rat (List Call))) (t : Turn Rat (List Call))
    (after : List (Turn Rat (List Call))) : Prop where
  /-- A turn polls and steps no more than once. -/
  course : t.Course script env
  turns : 0 < speed → ∀ u ∈ after, t.now.steady + 1 / speed ≤ u.now.steady
  first : (∀ u ∈ before, ¬ u.Polls script env) → (t.Polls script env ↔ 0 ≤ t.now.steady)
  polls : ∀ older u newer, before = older ++ u :: newer → u.Polls script env →
    (∀ v ∈ newer, ¬ v.Polls script env) →
    (t.Polls script env ↔ u.now.steady + 1 / 60 ≤ t.now.steady)

theorem Runs.paced {s : Session Rat (List Call)} {clock : List (Moment Rat)}
    {before after : List (Turn Rat (List Call))} {t : Turn Rat (List Call)}
    {ending : Attempt (Session Rat (List Call)) Unit} {speed : Int}
    (h : Runs (recorder script) env s clock (before ++ t :: after) ending)
    (hp : s.machine.Playable capacity)
    (hclock : clock.Pairwise fun a b => a.steady ≤ b.steady)
    (hi : 0 < speed → s.interval = some (1 / (speed : Rat))) (hs : s.nextPoll = Instant.origin) :
    Paced speed script env before t after := by
  have ht := h.playable hp
  have hpolls {v : Turn Rat (List Call)} (hv : v ∈ before) : v.Polls script env ↔ v.PollDue :=
    (Turn.tallies script env (h.playable_of_mem hp (List.mem_append_left _ hv))).polls
  refine {
    course := t.course script env ht.watched
    turns := fun hspeed => ?_
    first := fun hn => ?_
    polls := ?_ }
  · have hapart := (List.pairwise_append.mp (h.apart hclock (hi hspeed))).2.1
    exact (List.pairwise_cons.mp hapart).1
  · have hnext := h.nextPoll_of_unset fun u hu hdue => hn u hu ((hpolls hu).mpr hdue)
    rw [(Turn.tallies script env ht).polls, Turn.PollDue, hnext, hs, Instant.origin_eq,
      Instant.le_iff]
  · rintro older u newer rfl hu hn
    have hdue : u.PollDue := (hpolls (List.mem_append_right _ List.mem_cons_self)).mp hu
    rw [List.append_assoc] at h
    obtain ⟨clock', hsuffix⟩ := h.suffix
    have hnext := hsuffix.nextPoll_of_set hdue fun v hv hv' => hn v hv ((hpolls ?_).mpr hv')
    · rw [(Turn.tallies script env ht).polls, Turn.PollDue, hnext, Instant.add_ratio,
        Instant.le_iff]
      rfl
    · exact List.mem_append_right _ (List.mem_cons_of_mem u hv)

/-- The loop at any clock speed, on a machine that was switched on with a program. -/
theorem run_paced (toggles : Bool) (capacity : Int) (rom : List UInt8) (speed : Option Int)
    (script : Script Rat) (env : Surroundings) (clock : List (Moment Rat))
    (hclock : clock.Pairwise fun a b => a.steady ≤ b.steady) :
    let m := (Machine.boot toggles true capacity).run [.load rom]
    ∃ interval, intervalOf speed = .ok interval ∧
      let s : Session Rat (List Call) := start m [] interval
      ∃ turns, Runs (recorder script) env s clock turns (s.run (recorder script) env clock) ∧
        ∀ before t after, turns = before ++ t :: after →
          Paced (speed.getD standardSpeed) script env before t after := by
  intro m
  obtain ⟨interval, hspeed, hi⟩ := exists_intervalOf speed
  obtain ⟨turns, hruns⟩ := runs (recorder script) env (start m [] interval) clock
  refine ⟨interval, hspeed, turns, hruns, ?_⟩
  rintro before t after rfl
  exact hruns.paced (Machine.playable_loaded toggles capacity rom) hclock hi rfl

/-- A program that jumps to itself, thirty times a second, with the keys left alone. -/
theorem run_paced_thirty :
    let script : Script Rat := fun _ _ _ => (.ok false, Keypad.released)
    let clock : List (Moment Rat) := [⟨0, 0⟩, ⟨1 / 50, 0⟩, ⟨1 / 25, 0⟩, ⟨1 / 25, 0⟩, ⟨2, 0⟩]
    (clock.Pairwise fun a b => a.steady ≤ b.steady) ∧
      ∃ interval, intervalOf (τ := Rat) (some 30) = .ok interval ∧
        let m := (Machine.boot true true 16).run [.load [0x12, 0x00]]
        let s : Session Rat (List Call) := start m [] interval
        ∃ t after,
          Runs (recorder script) Machine.quiet s clock (t :: after)
            (s.run (recorder script) Machine.quiet clock) ∧
          t.Polls script Machine.quiet ∧ ∀ u ∈ after, 1 / 30 ≤ u.now.steady := by
  intro script clock
  have hclock : clock.Pairwise fun a b => a.steady ≤ b.steady := by norm_num [clock]
  obtain ⟨interval, hspeed, turns, hruns, hpaced⟩ :=
    run_paced true 16 [0x12, 0x00] (some 30) script Machine.quiet clock hclock
  refine ⟨hclock, interval, hspeed, ?_⟩
  obtain ⟨after, rfl⟩ := hruns.exists_head
  have hfirst := hpaced [] _ after rfl
  refine ⟨_, after, hruns, (hfirst.first (by simp)).mpr le_rfl, fun u hu => ?_⟩
  simpa using hfirst.turns (by decide) u hu

end Session

end ChipEight
