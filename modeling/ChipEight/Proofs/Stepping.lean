import Mathlib.Data.List.Basic
import ChipEight.Machine.Step
import ChipEight.Proofs.Decoding
import ChipEight.Proofs.Execution

/-!
# The courses of a step

A step goes one of five ways: the machine waits for a key, the word cannot be fetched, the word
is no instruction, the operation is refused, or the operation is executed.  Which way it goes is
settled before anything is changed, and neither the random values nor the record of the latest
instruction have a part in it.
-/

namespace ChipEight

/-- The word at an address, most significant byte first.  Outside of memory bytes count as
zero. -/
def Memory.word (m : Memory) (address : Int) : Int :=
  256 * ((m.get? address).getD 0).toNat + ((m.get? (address + 1)).getD 0).toNat

namespace Machine

open Attempt

variable {s : Surroundings} {m : Machine} {op : Operation} {word : Int} {target : Register}

theorem fetch_of_fits (h : m.memory.Fits m.counter 2) :
    m.fetch = .ok (m.memory.word m.counter) := by
  obtain ⟨bytes, hr, hlen, hget⟩ :=
    Bank.readBlock_of_ok ((m.memory.checkRange_eq_ok_iff m.counter (2 : Nat)).mpr h)
  obtain ⟨high, low, rfl⟩ := List.length_eq_two.mp hlen
  have hhigh : m.memory.get? m.counter = some high := by simpa using (hget 0 (by omega)).symm
  have hlow : m.memory.get? (m.counter + 1) = some low := (hget 1 (by omega)).symm
  have hf : m.fetch = .ok ((256 * (256 * 0 + high.toNat) + low.toNat : Nat) : Int) := by
    unfold fetch
    rw [show m.memory.readBlock m.counter 2 = .ok [high, low] from hr]
    rfl
  rw [hf, Memory.word, hhigh, hlow]
  simp

theorem fetch_eq_reported (h : ¬ m.memory.Fits m.counter 2) :
    m.fetch = .error (.fault (.outOfBounds (m.memory.reported m.counter 2))) := by
  unfold fetch
  rw [Bank.readBlock_of_error (Bank.checkRange_eq_error h)]
  rfl

theorem fetch_of_not_fits (h : ¬ m.memory.Fits m.counter 2) :
    ∃ a, m.fetch = .error (.fault (.outOfBounds a)) :=
  ⟨m.memory.reported m.counter 2, fetch_eq_reported h⟩

/-- The machine on which a word that was fetched is executed. -/
def begun (m : Machine) (word : Int) : Machine :=
  { m with lastCounter := m.counter, lastWord := word, counter := m.counter + 2 }

/-- The machine with the attempted instruction on record.  A word that could not be fetched is
not recorded. -/
def recorded (m : Machine) : Machine :=
  { m with lastCounter := m.counter, lastWord := m.fetch.toOption.getD m.lastWord }

/-- What can be said in advance of a step that does not wait. -/
def verdict (m : Machine) : Except Error Unit := do
  let instruction ← Instruction.decode (← m.fetch)
  m.clearance instruction.operation

inductive Course (m : Machine) : Prop
  | waiting (target : Register) (phase : m.phase = .waitingForKey target)
  | unfetched (address : Int) (phase : m.phase = .running)
      (fetch : m.fetch = .error (.fault (.outOfBounds address)))
  | unknown (word : Int) (phase : m.phase = .running) (fetch : m.fetch = .ok word)
      (decode : Operation.ofWord? word = none)
  | refused (word : Int) (op : Operation) (f : Fault) (phase : m.phase = .running)
      (fetch : m.fetch = .ok word) (decode : Operation.ofWord? word = some op)
      (clearance : m.clearance op = .error (.fault f))
  | executed (word : Int) (op : Operation) (phase : m.phase = .running)
      (fetch : m.fetch = .ok word) (decode : Operation.ofWord? word = some op)
      (clearance : m.clearance op = .ok ())

theorem clearance_cases (m : Machine) (op : Operation) :
    m.clearance op = .ok () ∨ ∃ f, m.clearance op = .error (.fault f) := by
  unfold clearance
  split
  · split
    · exact .inr ⟨_, rfl⟩
    · exact .inl rfl
  · unfold CallStack.checkPush
    split
    · exact .inr ⟨_, rfl⟩
    · exact .inl rfl
  · by_cases h : m.memory.Fits m.index op.span
    · exact .inl (Bank.checkRange_of_fits h)
    · obtain ⟨a, ha⟩ := Bank.checkRange_of_not_fits h
      exact .inr ⟨_, ha⟩

theorem course (m : Machine) : m.Course := by
  cases hp : m.phase with
  | waitingForKey target => exact .waiting target hp
  | running =>
    by_cases hfits : m.memory.Fits m.counter 2
    · have hf := fetch_of_fits hfits
      cases hw : Operation.ofWord? (m.memory.word m.counter) with
      | none => exact .unknown _ hp hf hw
      | some op =>
        obtain hc | ⟨f, hc⟩ := m.clearance_cases op
        · exact .executed _ op hp hf hw hc
        · exact .refused _ op f hp hf hw hc
    · obtain ⟨a, hf⟩ := fetch_of_not_fits hfits
      exact .unfetched a hp hf

theorem clearance_congr {n : Machine} (hmemory : n.memory = m.memory) (hindex : n.index = m.index)
    (hstack : n.stack = m.stack) (op : Operation) : n.clearance op = m.clearance op := by
  unfold clearance
  rw [hmemory, hindex, hstack]

theorem clearance_begun (m : Machine) (word : Int) (op : Operation) :
    (m.begun word).clearance op = m.clearance op := clearance_congr rfl rfl rfl op

theorem clearance_recorded (m : Machine) (op : Operation) :
    m.recorded.clearance op = m.clearance op := clearance_congr rfl rfl rfl op

def traceOf (s : Surroundings) (m : Machine) (word : Int) (op : Operation) : Option String :=
  if s.traced then some ((m.begun word).line op.assembly) else none

def fetched (m : Machine) (word : Int) : Machine :=
  { m with lastWord := word, counter := m.counter + 2 }

/-- The step that executing an instruction comes to. -/
def settle (counter : Int) (i : Instruction) (trace : Option String) (work : Work Unit) : Step :=
  match work.result with
  | .error e => ⟨.error e, work.state.1.refuse counter e, work.state.2, trace⟩
  | .ok () => work.state.1.complete (some i) work.state.2 trace

theorem settle_of_error {counter : Int} {i : Instruction} {trace : Option String}
    {work : Work Unit} {e : Error} (h : work.result = .error e) :
    settle counter i trace work =
      ⟨.error e, work.state.1.refuse counter e, work.state.2, trace⟩ := by
  rw [settle, h]

theorem settle_of_ok {counter : Int} {i : Instruction} {trace : Option String}
    {work : Work Unit} (h : work.result = .ok ()) :
    settle counter i trace work = work.state.1.complete (some i) work.state.2 trace := by
  rw [settle, h]

theorem perform_of_unknown (hw : Operation.ofWord? word = none) (s : Surroundings) (m : Machine)
    (counter : Int) :
    perform s m counter word =
      ⟨.error (.fault (.unknownOpcode word)),
        (m.fetched word).refuse counter (.fault (.unknownOpcode word)), [], none⟩ := by
  simp only [perform, Instruction.decode_of_none hw]
  rfl

theorem perform_of_known (hw : Operation.ofWord? word = some op) (s : Surroundings) (m : Machine)
    (counter : Int) :
    perform s m counter word =
      settle counter ⟨op, word⟩ (if s.traced then some ((m.fetched word).line op.assembly) else none)
        ((m.fetched word).execute s op) := by
  simp only [perform, Instruction.decode_of_some hw]
  rfl

theorem step_of_waiting (hp : m.phase = .waitingForKey target) :
    m.step s = (m.takeKey target).complete none [] none := by
  unfold step
  rw [hp]

theorem step_of_running (hp : m.phase = .running) :
    m.step s = match m.fetch with
      | .error e => ⟨.error e, { m with lastCounter := m.counter }, [], none⟩
      | .ok word => perform s { m with lastCounter := m.counter } m.counter word := by
  unfold step
  rw [hp]
  rfl

theorem step_of_unfetched {e : Error} (hp : m.phase = .running) (hf : m.fetch = .error e) :
    m.step s = ⟨.error e, m.recorded, [], none⟩ := by
  rw [step_of_running hp, recorded, hf]
  rfl

theorem step_of_fetched (hp : m.phase = .running) (hf : m.fetch = .ok word) :
    m.step s = perform s { m with lastCounter := m.counter } m.counter word := by
  rw [step_of_running hp, hf]

theorem recorded_of_fetched (hf : m.fetch = .ok word) :
    m.recorded = { m with lastCounter := m.counter, lastWord := word } := by
  unfold recorded
  rw [hf]
  rfl

theorem recorded_recorded (m : Machine) : m.recorded.recorded = m.recorded := by
  have hw : m.fetch.toOption.getD (m.fetch.toOption.getD m.lastWord) =
      m.fetch.toOption.getD m.lastWord := by
    cases m.fetch with
    | ok word => rfl
    | error e => rfl
  exact congrArg (fun word => { m.recorded with lastWord := word }) hw

theorem step_of_unknown (hp : m.phase = .running) (hf : m.fetch = .ok word)
    (hw : Operation.ofWord? word = none) :
    m.step s = ⟨.error (.fault (.unknownOpcode word)), m.recorded, [], none⟩ := by
  rw [step_of_fetched hp hf, recorded_of_fetched hf, perform_of_unknown hw]
  rfl

theorem step_of_known (hp : m.phase = .running) (hf : m.fetch = .ok word)
    (hw : Operation.ofWord? word = some op) :
    m.step s = settle m.counter ⟨op, word⟩ (traceOf s m word op) ((m.begun word).execute s op) := by
  rw [step_of_fetched hp hf, perform_of_known hw]
  rfl

theorem step_of_refused {f : Fault} (hp : m.phase = .running) (hf : m.fetch = .ok word)
    (hw : Operation.ofWord? word = some op) (hc : m.clearance op = .error (.fault f)) :
    m.step s = ⟨.error (.fault f), m.recorded, [], traceOf s m word op⟩ := by
  have hx : (m.begun word).execute s op = .refuse (m.begun word, []) (.fault f) :=
    execute_of_refused ((clearance_begun m word op).trans hc)
  rw [step_of_known hp hf hw, hx, recorded_of_fetched hf]
  rfl

theorem step_of_executed (hp : m.phase = .running) (hf : m.fetch = .ok word)
    (hw : Operation.ofWord? word = some op)
    (hx : ((m.begun word).execute s op).result = .ok ()) :
    m.step s = ((m.begun word).execute s op).state.1.complete (some ⟨op, word⟩)
      ((m.begun word).execute s op).state.2 (traceOf s m word op) :=
  (step_of_known hp hf hw).trans (settle_of_ok hx)

theorem step_of_silent {n : Machine} (hp : m.phase = .running) (hf : m.fetch = .ok word)
    (hw : Operation.ofWord? word = some op) (hx : (m.begun word).execute s op = silent n) :
    m.step s = n.complete (some ⟨op, word⟩) [] (traceOf s m word op) := by
  have hok : ((m.begun word).execute s op).result = .ok () := by
    rw [hx]
    rfl
  rw [step_of_executed hp hf hw hok, hx]
  rfl

theorem Steady.begun (hm : m.Steady) (word : Int) : (m.begun word).Steady :=
  ⟨hm.whole, hm.delay_nonneg, hm.delay_lt⟩

theorem execute_begun_of_cleared (hm : m.Steady) (hc : m.clearance op = .ok ()) :
    ((m.begun word).execute s op).result = .ok () :=
  execute_of_cleared (hm.begun word) ((clearance_begun m word op).trans hc)

theorem verdict_of_unfetched {e : Error} (hf : m.fetch = .error e) : m.verdict = .error e := by
  unfold verdict
  rw [hf]
  rfl

theorem verdict_of_fetched (hf : m.fetch = .ok word) :
    m.verdict = (Instruction.decode word).bind fun i => m.clearance i.operation := by
  unfold verdict
  rw [hf]
  rfl

theorem verdict_of_unknown (hf : m.fetch = .ok word) (hw : Operation.ofWord? word = none) :
    m.verdict = .error (.fault (.unknownOpcode word)) := by
  rw [verdict_of_fetched hf, Instruction.decode_of_none hw]
  rfl

theorem verdict_of_known (hf : m.fetch = .ok word) (hw : Operation.ofWord? word = some op) :
    m.verdict = m.clearance op := by
  rw [verdict_of_fetched hf, Instruction.decode_of_some hw]
  rfl

theorem verdict_recorded (m : Machine) : m.recorded.verdict = m.verdict := by
  unfold verdict
  simp only [clearance_recorded]
  rfl

theorem result_step_of_waiting (hp : m.phase = .waitingForKey target) :
    ∃ outcome, (m.step s).result = .ok outcome := by
  rw [step_of_waiting hp]
  exact ⟨_, rfl⟩

theorem result_step_eq_error_iff (hm : m.Steady) (hp : m.phase = .running) (e : Error) :
    (m.step s).result = .error e ↔ m.verdict = .error e := by
  cases m.course with
  | waiting target hw =>
    rw [hp] at hw
    cases hw
  | unfetched a _ hf =>
    rw [step_of_unfetched hp hf, verdict_of_unfetched hf]
    simp
  | unknown word _ hf hw =>
    rw [step_of_unknown hp hf hw, verdict_of_unknown hf hw]
    simp
  | refused word op f _ hf hw hc =>
    rw [step_of_refused hp hf hw hc, verdict_of_known hf hw, hc]
    simp
  | executed word op _ hf hw hc =>
    rw [step_of_executed hp hf hw (execute_begun_of_cleared hm hc), verdict_of_known hf hw, hc]
    simp [complete]

theorem step_of_error (hm : m.Steady) {e : Error} (h : (m.step s).result = .error e) :
    (m.step s).machine = m.recorded ∧ (m.step s).signals = [] := by
  cases m.course with
  | waiting target hp =>
    obtain ⟨outcome, ho⟩ := result_step_of_waiting (s := s) hp
    rw [h] at ho
    cases ho
  | unfetched a hp hf =>
    rw [step_of_unfetched hp hf]
    exact ⟨rfl, rfl⟩
  | unknown word hp hf hw =>
    rw [step_of_unknown hp hf hw]
    exact ⟨rfl, rfl⟩
  | refused word op f hp hf hw hc =>
    rw [step_of_refused hp hf hw hc]
    exact ⟨rfl, rfl⟩
  | executed word op hp hf hw hc =>
    rw [step_of_executed hp hf hw (execute_begun_of_cleared hm hc)] at h
    cases h

end Machine

end ChipEight
