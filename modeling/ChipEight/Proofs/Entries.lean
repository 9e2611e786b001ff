import Mathlib.Algebra.Group.Nat.Defs
import Mathlib.Algebra.Group.Prod
import Mathlib.Data.List.Forall2
import ChipEight.Proofs.FrontEnds
import ChipEight.Proofs.HexText
import ChipEight.Proofs.Refreshing
import ChipEight.Proofs.Swapped

/-!
# What a turn puts on record

A turn announces the rates when a report is due, and only then, with the counters as they stand,
which begin again from zero.  After that every refresh counts as a frame and every instruction that
was executed as an operation.  The keys are polled just when that is due.
-/

namespace ChipEight

open Attempt

/-- A title with the frames and the operations since the last one. -/
def Announces (title : String) (n : Nat × Nat) : Prop :=
  title = "PyChip8 Interpreter - " ++ toString n.1 ++ " FPS, " ++ toString n.2 ++ " OPS"

theorem announces_title (n : Nat × Nat) : Announces (Banner.title n.1 n.2) n := rfl

theorem decimal_append_inj {n n' : Nat} {t t' : String} (ht : t.toList.takeWhile Char.isDigit = [])
    (ht' : t'.toList.takeWhile Char.isDigit = []) :
    toString n ++ t = toString n' ++ t' ↔ n = n' ∧ t = t' := by
  constructor
  · intro heq
    have hdigit {n : Nat} : ∀ c ∈ Nat.toDigits 10 n, c.isDigit :=
      fun c hc => Nat.isDigit_of_mem_toDigits (by decide) (by decide) hc
    have hlists := congrArg String.toList heq
    simp only [String.toList_append, Nat.toString_eq_repr, Nat.toList_repr] at hlists
    obtain ⟨hnumeral, hrest⟩ := eq_of_append_eq hlists hdigit hdigit ht ht'
    have hn := congrArg (Nat.ofDigitChars 10 · 0) hnumeral
    simp only [Nat.ofDigitChars_ten_toDigits] at hn
    exact ⟨hn, String.toList_inj.mp hrest⟩
  · rintro ⟨rfl, rfl⟩
    rfl

/-- A title tells its two numbers. -/
theorem Announces.eq {title : String} {n n' : Nat × Nat} (h : Announces title n)
    (h' : Announces title n') : n = n' := by
  have hops : (" OPS" : String).toList.takeWhile Char.isDigit = [] := by decide
  have hfps (t : String) : (" FPS, " ++ t : String).toList.takeWhile Char.isDigit = [] := by
    rw [String.toList_append]
    rfl
  have heq := h.symm.trans h'
  simp only [String.append_assoc, String.append_right_inj] at heq
  obtain ⟨hframes, hrest⟩ := (decimal_append_inj (hfps _) (hfps _)).mp heq
  rw [String.append_right_inj] at hrest
  obtain ⟨hoperations, -⟩ := (decimal_append_inj hops hops).mp hrest
  exact Prod.ext hframes hoperations

namespace Call

def title? : Call → Option String
  | .signal (.title text) => some text
  | _ => none

def isRefresh : Call → Bool
  | .signal (.refresh _) => true
  | _ => false

end Call

def Step.executes (step : Step) : Bool :=
  step.result.toOption.any fun outcome => outcome.instruction.isSome

namespace Machine

variable {s : Surroundings} {m : Machine} {outcome : Outcome}

theorem exists_instruction (hp : m.phase = .running) (ho : (m.step s).result = .ok outcome) :
    ∃ i, outcome.instruction = some i := by
  cases m.course with
  | waiting target hw => cases hp.symm.trans hw
  | unfetched a hp hf =>
    rw [step_of_unfetched hp hf] at ho
    cases ho
  | unknown word hp hf hw =>
    rw [step_of_unknown hp hf hw] at ho
    cases ho
  | refused word op f hp hf hw hc | executed word op hp hf hw hc =>
    rw [step_of_known hp hf hw] at ho
    exact ⟨_, instruction_settle ho⟩

/-- A machine that waits for a key executes nothing, even in the step that takes the key. -/
theorem executes_step_iff (s : Surroundings) (m : Machine) :
    (m.step s).executes = true ↔
      m.phase = .running ∧ ∃ outcome, (m.step s).result = .ok outcome := by
  cases hp : m.phase with
  | waitingForKey target =>
    rw [step_of_waiting hp]
    exact ⟨fun h => (Bool.false_ne_true h).elim, fun h => nomatch h.1⟩
  | running =>
    rw [and_iff_right rfl, Step.executes]
    cases hr : (m.step s).result with
    | error e => exact ⟨fun h => (Bool.false_ne_true h).elim, fun ⟨_, h⟩ => nomatch h⟩
    | ok outcome =>
      obtain ⟨i, hi⟩ := exists_instruction hp hr
      refine ⟨fun _ => ⟨outcome, rfl⟩, fun _ => ?_⟩
      change outcome.instruction.isSome = true
      rw [hi]
      rfl

end Machine

variable {τ : Type}

namespace Session

variable {s s' s'' : Session τ (List Call)} {made made' : List Call} {n n' : Nat}

def counters {σ : Type} (s : Session τ σ) : Nat × Nat := (s.frames, s.operations)

/-- Calls were made, none of them an announcement, and refreshes and operations were counted. -/
structure Books (s s' : Session τ (List Call)) (made : List Call) (operations : Nat) : Prop where
  log : s'.frontEnd = s.frontEnd ++ made
  untitled : made.filterMap Call.title? = []
  counters : s'.counters = s.counters + (made.countP Call.isRefresh, operations)

theorem Books.trans (h : s.Books s' made n) (h' : s'.Books s'' made' n') :
    s.Books s'' (made ++ made') (n + n') where
  log := by rw [h'.log, h.log, List.append_assoc]
  untitled := by rw [List.filterMap_append, h.untitled, h'.untitled, List.append_nil]
  counters := by
    rw [h'.counters, h.counters, add_assoc, List.countP_append]
    rfl

theorem advance_books (script : Script τ) (env : Surroundings)
    (hpixels : ∀ signal ∈ (s.machine.step env).signals, ∃ x y lit, signal = .pixel x y lit) :
    s.Books (s.advance (recorder script) env).state ((s.machine.step env).signals.map .signal)
      (s.machine.step env).executes.toNat := by
  have huntitled : ((s.machine.step env).signals.map Call.signal).filterMap Call.title? = [] := by
    rw [List.filterMap_eq_nil_iff]
    intro call hcall
    obtain ⟨signal, hsignal, rfl⟩ := List.mem_map.mp hcall
    obtain ⟨x, y, lit, rfl⟩ := hpixels signal hsignal
    rfl
  have hnone : ((s.machine.step env).signals.map Call.signal).countP Call.isRefresh = 0 := by
    rw [List.countP_eq_zero]
    intro call hcall
    obtain ⟨signal, hsignal, rfl⟩ := List.mem_map.mp hcall
    obtain ⟨x, y, lit, rfl⟩ := hpixels signal hsignal
    exact Bool.false_ne_true
  unfold advance
  simp only [send_recorder, andThen_succeed]
  rw [Step.executes]
  cases hr : (s.machine.step env).result with
  | error e => exact ⟨rfl, huntitled, by rw [hnone]; rfl⟩
  | ok outcome =>
    refine ⟨rfl, huntitled, ?_⟩
    rw [hnone]
    change (s.frames, if outcome.instruction.isSome = true then s.operations + 1 else s.operations) =
      (s.frames, s.operations + outcome.instruction.isSome.toNat)
    cases outcome.instruction <;> rfl

variable [Instant τ]

/-- The session after its report, if one was due. -/
def reported (now : τ) (s : Session τ (List Call)) : Session τ (List Call) :=
  if Instant.le s.nextReport now = true then
    { s with
      nextReport := Instant.nextSecond now
      frontEnd := s.frontEnd ++ [.signal (.title (Banner.title s.frames s.operations))]
      frames := 0
      operations := 0 }
  else s

theorem report_eq_reported (script : Script τ) (now : τ)
    (hw : s.machine.display.watched = true) :
    s.report (recorder script) now = .succeed (s.reported now) () := by
  unfold report reported Display.reportRate Display.tell
  split
  · simp only [hw, if_true, send_recorder, andThen_succeed, List.map_singleton]
  · rfl

theorem reported_of_due {now : τ} (h : Instant.le s.nextReport now = true) :
    s.reported now = { s with
      nextReport := Instant.nextSecond now
      frontEnd := s.frontEnd ++ [.signal (.title (Banner.title s.frames s.operations))]
      frames := 0
      operations := 0 } := if_pos h

theorem reported_of_not_due {now : τ} (h : ¬ Instant.le s.nextReport now = true) :
    s.reported now = s := if_neg h

theorem machine_reported (now : τ) (s : Session τ (List Call)) :
    (s.reported now).machine = s.machine ∧ (s.reported now).nextPoll = s.nextPoll := by
  unfold reported
  split
  · exact ⟨rfl, rfl⟩
  · exact ⟨rfl, rfl⟩

theorem pollKeys_books (script : Script τ) (now : Moment τ)
    (hw : s.machine.display.watched = true) :
    ∃ made, s.Books (s.pollKeys (recorder script) now).state made 0 ∧
      ((∃ quit, .poll quit ∈ made) ↔ Instant.le s.nextPoll now.steady = true) := by
  cases s.polls (recorder script) now with
  | early due work =>
    rw [work]
    exact ⟨[], ⟨(List.append_nil _).symm, rfl, rfl⟩, by simp [due]⟩
  | failed e due quit work | quit due quit work =>
    rw [work]
    exact ⟨[.poll _], ⟨rfl, rfl, rfl⟩, by simp [due]⟩
  | refreshed due quit work =>
    rw [work, refresh_recorder, andThen_succeed]
    · exact ⟨[.poll _, .signal (.refresh s.dirty)], ⟨List.append_assoc _ _ _, rfl, rfl⟩,
        by simp [due]⟩
    · exact hw

end Session

namespace Turn

variable [Instant τ] {script : Script τ} {env : Surroundings} {capacity : Int}

def ReportDue {σ : Type} (t : Turn τ σ) : Prop :=
  Instant.le t.session.nextReport t.now.steady = true

def PollDue {σ : Type} (t : Turn τ σ) : Prop := Instant.le t.session.nextPoll t.now.steady = true

instance {σ : Type} (t : Turn τ σ) : Decidable t.ReportDue := inferInstanceAs (Decidable (_ = _))

instance {σ : Type} (t : Turn τ σ) : Decidable t.PollDue := inferInstanceAs (Decidable (_ = _))

variable {t : Turn τ (List Call)}

def executes (script : Script τ) (env : Surroundings) (t : Turn τ (List Call)) : Bool :=
  match t.session.prepare (recorder script) t.now with
  | ⟨s, .ok false⟩ => (s.machine.step env).executes
  | _ => false

/-- How often the turn refreshes the picture, and how many instructions it executes. -/
def gain (script : Script τ) (env : Surroundings) (t : Turn τ (List Call)) : Nat × Nat :=
  ((t.calls script env).countP Call.isRefresh, (t.executes script env).toNat)

def titles (script : Script τ) (env : Surroundings) (t : Turn τ (List Call)) : List String :=
  (t.calls script env).filterMap Call.title?

def Polls (script : Script τ) (env : Surroundings) (t : Turn τ (List Call)) : Prop :=
  ∃ quit, Call.poll quit ∈ t.calls script env

/-- The frames and the operations that the turn reports, if it does. -/
def figures (t : Turn τ (List Call)) : List (Nat × Nat) :=
  if t.ReportDue then [t.session.counters] else []

theorem prepare_eq (hw : t.session.machine.display.watched = true) :
    t.session.prepare (recorder script) t.now =
      (t.session.reported t.now.steady).pollKeys (recorder script) t.now := by
  rw [Session.prepare, Session.report_eq_reported script t.now.steady hw, andThen_succeed]

theorem booked (script : Script τ) (env : Surroundings)
    (h : t.session.machine.Playable capacity) :
    ∃ made, (t.session.reported t.now.steady).Books (t.done script env).state made
        (t.executes script env).toNat ∧
      ((∃ quit, .poll quit ∈ made) ↔ t.PollDue) := by
  obtain ⟨hmachine, hpoll⟩ := Session.machine_reported t.now.steady t.session
  obtain ⟨made, hbooks, hpolls⟩ :=
    Session.pollKeys_books (s := t.session.reported t.now.steady) script t.now (hmachine ▸ h.watched)
  rw [← prepare_eq h.watched] at hbooks
  have hdue : (∃ quit, .poll quit ∈ made) ↔ t.PollDue := by rw [hpolls, hpoll, PollDue]
  -- the pixels of a step are neither polls nor refreshes, whether or not the step is refused
  have hstepped {s : Session τ (List Call)}
      (hs : t.session.prepare (recorder script) t.now = .succeed s false) :
      ∃ made, (t.session.reported t.now.steady).Books (s.advance (recorder script) env).state made
          (t.executes script env).toNat ∧ ((∃ quit, .poll quit ∈ made) ↔ t.PollDue) := by
    have hready : t.ready script = s := congrArg Attempt.state hs
    have hexecutes : t.executes script env = (s.machine.step env).executes := by
      rw [executes, hs]
      rfl
    have hpixels := (step_framed script env h).pixels
    rw [step, hready] at hpixels
    have hadvance := Session.advance_books script env hpixels
    rw [hs] at hbooks
    rw [hexecutes]
    refine ⟨_, (Nat.zero_add _) ▸ hbooks.trans hadvance, ?_⟩
    simpa using hdue
  cases t.goes (recorder script) env with
  | failed s e prepared turn | quit s prepared turn =>
    have hnone : t.executes script env = false := by
      rw [executes, prepared]
      rfl
    rw [prepared] at hbooks
    rw [done, turn, hnone]
    exact ⟨made, hbooks, hdue⟩
  | refused s e prepared advance turn | next s due prepared advance turn =>
    rw [done, turn]
    exact hstepped prepared

/-- The calls and the counters of a turn. -/
structure Tallies (script : Script τ) (env : Surroundings) (t : Turn τ (List Call)) : Prop where
  titles : List.Forall₂ Announces (t.titles script env) t.figures
  polls : t.Polls script env ↔ t.PollDue
  counters : (t.done script env).state.counters =
    if t.ReportDue then t.gain script env else t.session.counters + t.gain script env

theorem tallies (script : Script τ) (env : Surroundings)
    (h : t.session.machine.Playable capacity) : t.Tallies script env := by
  obtain ⟨made, hbooks, hpolls⟩ := booked script env h
  by_cases hdue : t.ReportDue
  · rw [Session.reported_of_due hdue] at hbooks
    have hcalls : t.calls script env =
        .signal (.title (Banner.title t.session.frames t.session.operations)) :: made :=
      calls_eq (hbooks.log.trans (List.append_assoc _ _ _))
    refine ⟨?_, ?_, ?_⟩
    · rw [titles, figures, hcalls, if_pos hdue, List.filterMap_cons, hbooks.untitled]
      exact .cons (announces_title t.session.counters) .nil
    · rw [Polls, hcalls, ← hpolls]
      simp
    · rw [hbooks.counters, if_pos hdue, gain, hcalls]
      exact zero_add _
  · rw [Session.reported_of_not_due hdue] at hbooks
    have hcalls : t.calls script env = made := calls_eq hbooks.log
    refine ⟨?_, ?_, ?_⟩
    · rw [titles, figures, hcalls, if_neg hdue, hbooks.untitled]
      exact .nil
    · rw [Polls, hcalls, hpolls]
    · rw [hbooks.counters, if_neg hdue, gain, hcalls]

end Turn

theorem Session.Runs.playable_of_mem [Instant τ] {script : Script τ} {env : Surroundings}
    {capacity : Int} {s : Session τ (List Call)} {clock : List (Moment τ)}
    {turns : List (Turn τ (List Call))} {t : Turn τ (List Call)}
    {ending : Attempt (Session τ (List Call)) Unit}
    (h : Runs (recorder script) env s clock turns ending) (hp : s.machine.Playable capacity)
    (ht : t ∈ turns) : t.session.machine.Playable capacity := by
  obtain ⟨before, after, rfl⟩ := List.append_of_mem ht
  exact h.playable hp

end ChipEight
