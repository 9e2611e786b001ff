import ChipEight.Proofs.Restart
import ChipEight.Proofs.Swapped

/-!
# Tracing

A step that fetches and decodes an instruction can have it traced before it is executed.  Tracing
takes no part in the run: with and without it every step comes from the same machine, answers the
same and leaves the same machine behind.  What is printed can therefore be told from a run that
is not traced.
-/

namespace ChipEight

def Surroundings.withTrace (s : Surroundings) (traced : Bool) : Surroundings := { s with traced }

def Deed.withTrace (traced : Bool) : Deed → Deed
  | .event (.step s) => .event (.step (s.withTrace traced))
  | deed => deed

def Step.tracedAs (step : Step) (trace : Option String) : Step := { step with trace }

/-- A step of a run, and the machine it was taken on. -/
structure Taken where
  before : Machine
  step : Step

def Taken.untraced (taken : Taken) : Taken := { taken with step := taken.step.tracedAs none }

namespace Machine

variable {s : Surroundings} {m : Machine} {op : Operation} {word : Int}

def steps (m : Machine) : List Deed → List Taken
  | [] => []
  | .event (.step s) :: rest => ⟨m, m.step s⟩ :: (m.step s).machine.steps rest
  | deed :: rest => (m.undergo deed).steps rest

def printed (m : Machine) (deeds : List Deed) : List String :=
  (m.steps deeds).filterMap fun taken => taken.step.trace

/-- What there is to be said of the next step before it is taken: the machine as it is, with the
address, the word and the text of the instruction.  Nothing is said of a machine that waits, nor
of a word that cannot be fetched or is no instruction. -/
def announcement? (m : Machine) : Option String :=
  match m.phase with
  | .waitingForKey _ => none
  | .running => do
    let word ← m.fetch.toOption
    let instruction ← (Instruction.decode word).toOption
    some ({ m with lastCounter := m.counter, lastWord := word }.line instruction.assembly)

theorem announcement?_of_waiting {target : Register} (hp : m.phase = .waitingForKey target) :
    m.announcement? = none := by
  simp only [announcement?, hp]

theorem announcement?_of_unfetched {e : Error} (hp : m.phase = .running)
    (hf : m.fetch = .error e) : m.announcement? = none := by
  simp only [announcement?, hp, hf]
  rfl

theorem announcement?_of_unknown (hp : m.phase = .running) (hf : m.fetch = .ok word)
    (hw : Operation.ofWord? word = none) : m.announcement? = none := by
  simp only [announcement?, hp, hf]
  change (Instruction.decode word).toOption.bind _ = none
  rw [Instruction.decode_of_none hw]
  rfl

theorem announcement?_of_known (hp : m.phase = .running) (hf : m.fetch = .ok word)
    (hw : Operation.ofWord? word = some op) :
    m.announcement? = some ((m.begun word).line op.assembly) := by
  simp only [announcement?, hp, hf]
  change (Instruction.decode word).toOption.bind _ = _
  rw [Instruction.decode_of_some hw]
  rfl

theorem execute_withTrace (s : Surroundings) (m : Machine) (op : Operation) (traced : Bool) :
    m.execute (s.withTrace traced) op = m.execute s op := by
  cases op <;> rfl

theorem step_withTrace (s : Surroundings) (m : Machine) (traced : Bool) :
    m.step (s.withTrace traced) =
      (m.step s).tracedAs (if traced then m.announcement? else none) := by
  cases hp : m.phase with
  | waitingForKey target =>
    rw [step_of_waiting hp, step_of_waiting hp, announcement?_of_waiting hp, ite_self]
    rfl
  | running =>
    cases hf : m.fetch with
    | error e =>
      rw [step_of_unfetched hp hf, step_of_unfetched hp hf, announcement?_of_unfetched hp hf,
        ite_self]
      rfl
    | ok word =>
      cases hw : Operation.ofWord? word with
      | none =>
        rw [step_of_unknown hp hf hw, step_of_unknown hp hf hw, announcement?_of_unknown hp hf hw,
          ite_self]
        rfl
      | some op =>
        rw [step_of_known hp hf hw, step_of_known hp hf hw, announcement?_of_known hp hf hw,
          execute_withTrace]
        exact settle_trace m.counter ⟨op, word⟩ (traceOf s m word op) _ _

theorem undergo_withTrace (m : Machine) (deed : Deed) (traced : Bool) :
    m.undergo (deed.withTrace traced) = m.undergo deed := by
  cases deed with
  | event event =>
    cases event with
    | step s =>
      change (m.step (s.withTrace traced)).machine = (m.step s).machine
      rw [step_withTrace]
      rfl
    | _ => rfl
  | _ => rfl

theorem after_withTrace (m : Machine) (deeds : List Deed) (traced : Bool) :
    m.after (deeds.map (Deed.withTrace traced)) = m.after deeds := by
  induction deeds generalizing m with
  | nil => rfl
  | cons deed rest ih =>
    change (m.undergo (deed.withTrace traced)).after _ = (m.undergo deed).after rest
    rw [undergo_withTrace, ih]

theorem steps_withTrace (m : Machine) (deeds : List Deed) (traced : Bool) :
    m.steps (deeds.map (Deed.withTrace traced)) = (m.steps deeds).map fun taken =>
      { taken with
        step := taken.step.tracedAs (if traced then taken.before.announcement? else none) } := by
  induction deeds generalizing m with
  | nil => rfl
  | cons deed rest ih =>
    cases deed with
    | event event =>
      cases event with
      | step s =>
        simp only [List.map_cons, Deed.withTrace, steps, step_withTrace]
        rw [← ih]
        rfl
      | _ => exact ih (m.undergo (.event _))
    | _ => exact ih (m.undergo _)

theorem printed_withTrace (m : Machine) (deeds : List Deed) (traced : Bool) :
    m.printed (deeds.map (Deed.withTrace traced)) =
      if traced then (m.steps deeds).filterMap fun taken => taken.before.announcement? else [] := by
  unfold printed
  rw [steps_withTrace, List.filterMap_map]
  cases traced with
  | true => rfl
  | false => exact List.filterMap_eq_nil_iff.mpr fun _ _ => rfl

/-- A return from no call is a fault, and is announced all the same. -/
example : (booted 16 [0x00, 0xEE]).announcement? =
    some ("V: 0x00000000000000000000000000000000 I: 0x0000 DT: 0x00 ST: 0x00 PC: 0x200 " ++
      "OP: 0x00ee IN: RET") := by
  decide +kernel

end Machine

end ChipEight
