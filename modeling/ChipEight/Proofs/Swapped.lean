import ChipEight.Proofs.Stepping

/-!
# Other keys and another word

Of the keypad an operation sees the answer to the one question it asks, if it asks any, and of
the random stream the value at its place.  The word on record it does not see at all.  With
another keypad and another word an operation does the same to the rest of the machine.
-/

namespace ChipEight

open Attempt

/-- What is put in the place of the keypad and of the word on record. -/
structure Swap where
  keypad : Keypad → Keypad
  word : Int → Int

namespace Swap

def keys (keypad : Keypad) : Swap := ⟨fun _ => keypad, id⟩

def words (word : Int) : Swap := ⟨id, fun _ => word⟩

end Swap

/-- The register that holds the number of the key an operation asks for. -/
def Operation.asked? : Operation → Option Register
  | skipIfKey x | skipUnlessKey x => some x
  | _ => none

def Instruction.swapped (i : Instruction) (w : Swap) : Instruction :=
  { i with word := w.word i.word }

namespace Machine

def swapped (m : Machine) (w : Swap) : Machine :=
  { m with keypad := w.keypad m.keypad, lastWord := w.word m.lastWord }

def Work.swapped {α : Type} (work : Work α) (w : Swap) : Work α :=
  work.mapState fun after => (after.1.swapped w, after.2)

/-- What an operation is told from outside the machine is the same. -/
structure ToldAlike (s s' : Surroundings) (m : Machine) (w : Swap) (op : Operation) : Prop where
  key : ∀ x, op.asked? = some x →
    (w.keypad m.keypad).isDown (m.registers.get x).toNat = m.keypad.isDown (m.registers.get x).toNat
  random : ∀ x byte, op = .random x byte → s'.random m.draws = s.random m.draws

end Machine

def Step.swapped (step : Step) (w : Swap) : Step :=
  { step with
    result := step.result.map fun outcome =>
      { outcome with instruction := outcome.instruction.map fun i => i.swapped w }
    machine := step.machine.swapped w }

namespace Machine

variable {s s' : Surroundings} {m : Machine} {w : Swap} {op : Operation} {word : Int}

theorem Work.swapped_followedBy {α : Type} {next : Machine → α → Work Unit}
    (h : ∀ n value, next (n.swapped w) value = Work.swapped (next n value) w) (work : Work α) :
    followedBy (Work.swapped work w) next = Work.swapped (followedBy work next) w :=
  map_followedBy (f := fun n : Machine => n.swapped w) (g := id) (fun _ _ => rfl) work h

theorem skipIf_swapped (m : Machine) (w : Swap) (condition : Bool) :
    (m.swapped w).skipIf condition = (m.skipIf condition).swapped w := by
  cases condition <;> rfl

theorem execute_swapped (h : ToldAlike s s' m w op) :
    (m.swapped w).execute s' op = Work.swapped (m.execute s op) w := by
  cases op with
  | ret =>
    unfold execute
    exact Work.swapped_followedBy (fun n target => rfl) (m.onStack CallStack.pop)
  | call target =>
    unfold execute
    exact Work.swapped_followedBy (fun n _ => rfl) (m.onStack fun stack => stack.push m.counter)
  | skipIfByte x byte | skipUnlessByte x byte | skipIfEqual x y | skipUnlessEqual x y =>
    exact congrArg silent (skipIf_swapped m w _)
  | random x byte =>
    have hr := h.random x byte rfl
    change silent (({ m with draws := m.draws + 1 }.swapped w).setRegister x
      (UInt8.ofInt (s'.random m.draws) &&& byte)) = _
    rw [hr]
    rfl
  | draw x y rows =>
    unfold execute
    refine Work.swapped_followedBy (fun n sprite => ?_)
      (m.ask (m.memory.readBlock m.index rows.val))
    exact Work.swapped_followedBy (fun n' hit => rfl) (n.onDisplay fun display =>
      display.draw m.registers[x].toNat m.registers[y].toNat sprite)
  | skipIfKey x | skipUnlessKey x =>
    have hask : (m.swapped w).ask ((m.swapped w).keypad.isDown (m.registers.get x).toNat) =
        Work.swapped (m.ask (m.keypad.isDown (m.registers.get x).toNat)) w :=
      congrArg (m.swapped w).ask (h.key x rfl)
    unfold execute
    refine (congrArg (fun work => followedBy work _) hask).trans (Work.swapped_followedBy ?_ _)
    exact fun n down => congrArg silent (skipIf_swapped n w _)
  | readDelay x =>
    unfold execute
    exact Work.swapped_followedBy (fun n value => rfl) (m.ask (byteOfInt m.delay))
  | loadRegisters x =>
    unfold execute
    exact Work.swapped_followedBy (fun n values => rfl)
      (m.ask (m.memory.readBlock m.index (x.val + 1)))
  | _ => rfl

theorem refuse_swapped (m : Machine) (w : Swap) (counter : Int) (e : Error) :
    (m.swapped w).refuse counter e = (m.refuse counter e).swapped w := by
  unfold refuse
  cases e.isFault <;> rfl

theorem settle_swapped (w : Swap) (counter : Int) (i : Instruction) (trace : Option String)
    (work : Work Unit) :
    settle counter (i.swapped w) trace (Work.swapped work w) =
      (settle counter i trace work).swapped w := by
  have hr : (Work.swapped work w).result = work.result := rfl
  cases h : work.result with
  | error e =>
    rw [settle_of_error h, settle_of_error (hr.trans h)]
    change Step.mk _ ((work.state.1.swapped w).refuse counter e) _ _ = _
    rw [refuse_swapped]
    rfl
  | ok =>
    rw [settle_of_ok h, settle_of_ok (hr.trans h)]
    rfl

theorem settle_trace (counter : Int) (i : Instruction) (trace trace' : Option String)
    (work : Work Unit) :
    settle counter i trace' work = { settle counter i trace work with trace := trace' } := by
  unfold settle
  cases work.result <;> rfl

theorem instruction_settle {counter : Int} {i : Instruction} {trace : Option String}
    {work : Work Unit} {outcome : Outcome}
    (h : (settle counter i trace work).result = .ok outcome) : outcome.instruction = some i := by
  cases hr : work.result with
  | error e =>
    rw [settle_of_error hr] at h
    cases h
  | ok =>
    rw [settle_of_ok hr] at h
    cases h
    rfl

theorem takeKey_swapped {target : Register} (h : (w.keypad m.keypad).first? = m.keypad.first?) :
    (m.swapped w).takeKey target = (m.takeKey target).swapped w := by
  have hf : (m.swapped w).keypad.first? = m.keypad.first? := h
  unfold takeKey
  rw [hf]
  cases m.keypad.first? <;> rfl

end Machine

end ChipEight
