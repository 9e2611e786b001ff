import Mathlib.Algebra.GroupWithZero.Nat
import ChipEight.Proofs.KeyWait
import ChipEight.Proofs.Swapped

/-!
# What the outside world can change

Keys and random values are all that a running machine is given.  A key counts only for a step
that waits for one, or that skips on just that key, and a random value only for the instruction
that takes it.  Two machines that differ in their keypads go the same way as long as they are
told the same where it counts.
-/

namespace ChipEight

def Operation.taken : Operation → Nat
  | random _ _ => 1
  | _ => 0

def Machine.withKeypad (m : Machine) (keypad : Keypad) : Machine := { m with keypad }

namespace Step

/-- What a step executed, if it did and was not refused. -/
def operation? (step : Step) : Option Operation :=
  step.result.toOption.bind fun outcome => outcome.instruction.map Instruction.operation

def taken (step : Step) : Nat := (step.operation?.map Operation.taken).getD 0

def withKeypad (step : Step) (keypad : Keypad) : Step :=
  { step with machine := step.machine.withKeypad keypad }

theorem swapped_keys (step : Step) (keypad : Keypad) :
    step.swapped (.keys keypad) = step.withKeypad keypad := by
  have hid : (fun i : Instruction => i.swapped (.keys keypad)) = id := rfl
  obtain ⟨result, machine, signals, trace⟩ := step
  cases result with
  | error e => rfl
  | ok outcome =>
    simp only [swapped, hid, Option.map_id_fun, id_eq]
    rfl

end Step

namespace Machine

open Attempt

variable {s s' : Surroundings} {m : Machine} {keypad : Keypad} {op : Operation} {word : Int}

/-- What the machine is about to execute, if it does not wait and finds an instruction. -/
def next? (m : Machine) : Option Operation :=
  match m.phase with
  | .running => m.fetch.toOption.bind Operation.ofWord?
  | .waitingForKey _ => none

/-- Another keypad would say the same to the next step: to one that waits for a key, which is the
first that is down, and to one that skips, whether that key is down, if there is such a key. -/
structure Alike (m : Machine) (keypad : Keypad) : Prop where
  wait : m.isWaiting = true → keypad.first? = m.keypad.first?
  skip : ∀ x, m.next?.bind Operation.asked? = some x →
    ∀ key : Fin 16, (m.registers.get x).toNat = key.val → keypad.get key = m.keypad.get key

instance (m : Machine) (keypad : Keypad) : Decidable (m.Alike keypad) :=
  decidable_of_iff (_ ∧ _) ⟨fun h => ⟨h.1, h.2⟩, fun h => ⟨h.wait, h.skip⟩⟩

theorem next?_of_fetched (hp : m.phase = .running) (hf : m.fetch = .ok word) :
    m.next? = Operation.ofWord? word := by
  unfold next?
  rw [hp, hf]
  rfl

theorem step_of_next? (h : m.next? = some op) (s : Surroundings) :
    ∃ word, m.step s =
      settle m.counter ⟨op, word⟩ (traceOf s m word op) ((m.begun word).execute s op) := by
  unfold next? at h
  cases hp : m.phase with
  | waitingForKey target =>
    rw [hp] at h
    cases h
  | running =>
    cases hf : m.fetch with
    | error e =>
      rw [hp, hf] at h
      cases h
    | ok word =>
      rw [hp, hf] at h
      exact ⟨word, step_of_known hp hf h⟩

theorem step_of_no_next? (h : m.next? = none) (s : Surroundings) :
    (m.step s).operation? = none ∧ (m.step s).machine.draws = m.draws := by
  unfold next? at h
  cases hp : m.phase with
  | waitingForKey target =>
    rw [step_of_waiting hp]
    refine ⟨rfl, ?_⟩
    change (m.takeKey target).draws = m.draws
    unfold takeKey
    cases m.keypad.first? <;> rfl
  | running =>
    cases hf : m.fetch with
    | error e =>
      rw [step_of_unfetched hp hf]
      exact ⟨rfl, rfl⟩
    | ok word =>
      rw [hp, hf] at h
      rw [step_of_unknown hp hf h]
      exact ⟨rfl, rfl⟩

theorem draws_skipIf (m : Machine) (condition : Bool) : (m.skipIf condition).draws = m.draws := by
  cases condition <;> rfl

theorem draws_withRegisters (m : Machine) (registers : Registers) :
    { m with registers }.draws = m.draws := rfl

theorem draws_execute (s : Surroundings) (m : Machine) (op : Operation) :
    (m.execute s op).state.1.draws = m.draws + op.taken := by
  let Kept (n : Machine) : Prop := n.draws = m.draws
  cases op with
  | ret | call target | readDelay x => exact keeps_followedBy (P := Kept) rfl fun n _ hn => hn
  | skipIfByte x byte | skipUnlessByte x byte | skipIfEqual x y | skipUnlessEqual x y =>
    exact draws_skipIf m _
  | draw x y rows =>
    refine keeps_followedBy (P := Kept) rfl fun n _ hn => ?_
    exact keeps_followedBy (P := Kept) hn fun n' _ hn' => hn'
  | skipIfKey x | skipUnlessKey x =>
    exact keeps_followedBy (P := Kept) rfl fun n _ hn => (draws_skipIf n _).trans hn
  | loadRegisters x =>
    exact keeps_followedBy (P := Kept) rfl fun n _ hn => (draws_withRegisters n _).trans hn
  | _ => rfl

theorem taken_of_refused {e : Error} (h : (m.execute s op).result = .error e) : op.taken = 0 := by
  cases op with
  | random x byte => cases h
  | _ => rfl

theorem draws_refuse (m : Machine) (counter : Int) (e : Error) :
    (m.refuse counter e).draws = m.draws := by
  unfold refuse
  cases e.isFault <;> rfl

theorem draws_settle (counter : Int) (trace : Option String) (m : Machine) :
    let step := settle counter ⟨op, word⟩ trace (m.execute s op)
    step.machine.draws = m.draws + step.taken := by
  have hdraws := draws_execute s m op
  intro step
  cases hr : (m.execute s op).result with
  | error e =>
    have hstep : step = _ := settle_of_error hr
    have htaken := taken_of_refused hr
    rw [hstep]
    change ((m.execute s op).state.1.refuse counter e).draws = m.draws + 0
    rw [draws_refuse, hdraws, htaken]
  | ok =>
    have hstep : step = _ := settle_of_ok hr
    rw [hstep]
    exact hdraws

theorem draws_step (s : Surroundings) (m : Machine) :
    (m.step s).machine.draws = m.draws + (m.step s).taken := by
  cases hn : m.next? with
  | none =>
    obtain ⟨hoperation, hdraws⟩ := step_of_no_next? hn s
    rw [Step.taken, hoperation]
    exact hdraws
  | some op =>
    obtain ⟨word, hstep⟩ := step_of_next? hn s
    rw [hstep]
    exact draws_settle m.counter _ (m.begun word)

theorem operation?_settle {counter : Int} {i : Instruction} {trace : Option String}
    {work : Work Unit} (h : (settle counter i trace work).operation? = some op) :
    op = i.operation ∧ work.result = .ok () := by
  cases hr : work.result with
  | error e =>
    rw [settle_of_error hr] at h
    cases h
  | ok =>
    rw [settle_of_ok hr] at h
    exact ⟨(Option.some.inj h).symm, rfl⟩

theorem next?_of_operation? (h : (m.step s).operation? = some op) : m.next? = some op := by
  cases hn : m.next? with
  | none =>
    rw [(step_of_no_next? hn s).1] at h
    cases h
  | some op' =>
    obtain ⟨word, hstep⟩ := step_of_next? hn s
    rw [hstep] at h
    rw [(operation?_settle h).1]

variable {x : Register} {byte : UInt8}

theorem step_of_random (h : m.next? = some (.random x byte)) (s : Surroundings) :
    (m.step s).operation? = some (.random x byte) ∧
    (m.step s).machine.registers.get x = UInt8.ofInt (s.random m.draws) &&& byte := by
  obtain ⟨word, hstep⟩ := step_of_next? h s
  rw [hstep]
  exact ⟨rfl, Vector.getElem_set_self _⟩

theorem isDown_eq_of_agree {k l : Keypad} {value : Nat}
    (h : ∀ key : Fin 16, value = key.val → k.get key = l.get key) : k.isDown value = l.isDown value := by
  unfold Keypad.isDown
  by_cases hv : (16 : Int) ≤ value
  · rw [if_pos hv, if_pos hv]
  · have hlt : value < 16 := by omega
    have hnonneg : (0 : Int) ≤ value ∧ (value : Int) < 16 := by omega
    rw [if_neg hv, if_neg hv, dif_pos hnonneg, dif_pos hnonneg]
    exact congrArg Except.ok (h ⟨value, hlt⟩ rfl)

theorem Alike.told (h : m.Alike keypad) (hn : m.next? = some op)
    (hr : ∀ x byte, op = .random x byte → s'.random m.draws = s.random m.draws) (word : Int) :
    ToldAlike s s' (m.begun word) (.keys keypad) op where
  key x hx := by
    apply isDown_eq_of_agree
    apply h.skip x
    rw [hn]
    exact hx
  random := hr

theorem trace_settle (counter : Int) (i : Instruction) (trace : Option String) (work : Work Unit) :
    (settle counter i trace work).trace = trace := by
  unfold settle
  cases work.result <;> rfl

theorem settle_keys (keypad : Keypad) (counter : Int) (i : Instruction)
    (trace trace' : Option String) (work : Work Unit) :
    settle counter i trace' (Work.swapped work (.keys keypad)) =
      { (settle counter i trace work).withKeypad keypad with trace := trace' } := by
  have hswapped := settle_swapped (.keys keypad) counter i trace' work
  rw [Step.swapped_keys, settle_trace counter i trace trace'] at hswapped
  exact hswapped

theorem step_withKeypad (h : m.Alike keypad)
    (hr : ∀ x byte, m.next? = some (.random x byte) → s'.random m.draws = s.random m.draws) :
    ∃ trace, (s'.traced = s.traced → trace = (m.step s).trace) ∧
      (m.withKeypad keypad).step s' =
        { (m.step s).withKeypad keypad with trace := trace } := by
  let n := m.withKeypad keypad
  cases hp : m.phase with
  | waitingForKey target =>
    have hw : m.isWaiting = true := by rw [isWaiting, hp]
    have htake : n.takeKey target = (m.takeKey target).swapped (.keys keypad) :=
      takeKey_swapped (w := .keys keypad) (h.wait hw)
    refine ⟨none, fun _ => by rw [step_of_waiting hp]; rfl, ?_⟩
    rw [step_of_waiting (m := n) hp, step_of_waiting hp, htake]
    rfl
  | running =>
    cases hf : m.fetch with
    | error e =>
      refine ⟨none, fun _ => by rw [step_of_unfetched hp hf], ?_⟩
      rw [step_of_unfetched (m := n) hp hf, step_of_unfetched hp hf]
      rfl
    | ok word =>
      cases hw : Operation.ofWord? word with
      | none =>
        refine ⟨none, fun _ => by rw [step_of_unknown hp hf hw], ?_⟩
        rw [step_of_unknown (m := n) hp hf hw, step_of_unknown hp hf hw]
        rfl
      | some op =>
        have hn : m.next? = some op := by rw [next?_of_fetched hp hf, hw]
        have htold := h.told hn (fun x byte hop => hr x byte (hop ▸ hn)) word
        have hx : (n.begun word).execute s' op =
            Work.swapped ((m.begun word).execute s op) (.keys keypad) :=
          execute_swapped (m := m.begun word) htold
        refine ⟨traceOf s' n word op, ?_, ?_⟩
        · intro ht
          rw [step_of_known hp hf hw, trace_settle, traceOf, traceOf, ht]
          rfl
        · rw [step_of_known (m := n) hp hf hw, step_of_known hp hf hw, hx]
          exact settle_keys keypad m.counter ⟨op, word⟩ _ _ _

/-- The steps of a machine, with the key events that come before each of them. -/
def play (s : Surroundings) (m : Machine) : List (List (Int × Bool)) → List Step
  | [] => []
  | taps :: rest =>
    let step := (m.afterTaps taps).step s
    step :: step.machine.play s rest

/-- At each step the keypads of the two machines say the same to it, where the step asks. -/
def PlaysAlike (s s' : Surroundings) (m n : Machine) :
    List (List (Int × Bool)) → List (List (Int × Bool)) → Prop
  | [], [] => True
  | taps :: rest, taps' :: rest' =>
    let m' := m.afterTaps taps
    let n' := n.afterTaps taps'
    m'.Alike n'.keypad ∧ PlaysAlike s s' (m'.step s).machine (n'.step s').machine rest rest'
  | _, _ => False

instance decidablePlaysAlike (s s' : Surroundings) :
    (m n : Machine) → (schedule schedule' : List (List (Int × Bool))) →
      Decidable (PlaysAlike s s' m n schedule schedule')
  | _, _, [], [] => inferInstanceAs (Decidable True)
  | m, n, taps :: rest, taps' :: rest' =>
    have := decidablePlaysAlike s s' ((m.afterTaps taps).step s).machine
      ((n.afterTaps taps').step s').machine rest rest'
    inferInstanceAs (Decidable (_ ∧ _))
  | _, _, [], _ :: _ => inferInstanceAs (Decidable False)
  | _, _, _ :: _, [] => inferInstanceAs (Decidable False)

def takenIn (steps : List Step) : Nat := (steps.map Step.taken).sum

theorem takenIn_cons (step : Step) (rest : List Step) :
    takenIn (step :: rest) = step.taken + takenIn rest := List.sum_cons

theorem draws_afterTaps (m : Machine) (taps : List (Int × Bool)) :
    (m.afterTaps taps).draws = m.draws := by rw [afterTaps_eq]

theorem draws_round (s : Surroundings) (m : Machine) (taps : List (Int × Bool)) :
    let first := (m.afterTaps taps).step s
    first.machine.draws = m.draws + first.taken := by
  rw [← draws_afterTaps m taps]
  exact draws_step s _

theorem draws_play {before after : List Step} {step : Step} {schedule : List (List (Int × Bool))}
    (h : m.play s schedule = before ++ step :: after) :
    step.machine.draws = m.draws + takenIn before + step.taken ∧
    ∀ x byte, step.operation? = some (.random x byte) →
      step.machine.registers.get x =
        UInt8.ofInt (s.random (m.draws + takenIn before)) &&& byte := by
  induction schedule generalizing m before with
  | nil => simp [play] at h
  | cons taps rest ih =>
    have hdraws := draws_afterTaps m taps
    cases before with
    | nil =>
      obtain ⟨rfl, -⟩ := List.cons.inj h
      change _ = m.draws + _ ∧ ∀ x byte, _ → _ = UInt8.ofInt (s.random m.draws) &&& byte
      rw [← hdraws]
      exact ⟨draws_step s _, fun x byte hx => (step_of_random (next?_of_operation? hx) s).2⟩
    | cons first before =>
      obtain ⟨rfl, hrest⟩ := List.cons.inj h
      rw [takenIn_cons, ← Nat.add_assoc, ← draws_round s m taps]
      exact ih hrest

/-- Two steps are the same in all but the keypad. -/
structure SameButKeypad (s s' : Surroundings) (a b : Step) : Prop where
  result : b.result = a.result
  signals : b.signals = a.signals
  trace : s'.traced = s.traced → b.trace = a.trace
  machine : b.machine = { a.machine with keypad := b.machine.keypad }

theorem round_sameButKeypad {taps taps' : List (Int × Bool)}
    (h : (m.afterTaps taps).Alike ((m.withKeypad keypad).afterTaps taps').keypad)
    (hr : ((m.afterTaps taps).step s).taken = 1 → s'.random m.draws = s.random m.draws) :
    SameButKeypad s s' ((m.afterTaps taps).step s)
      (((m.withKeypad keypad).afterTaps taps').step s') := by
  let other := taps'.foldl Keypad.tap keypad
  have hother : (m.withKeypad keypad).afterTaps taps' = (m.afterTaps taps).withKeypad other := by
    rw [afterTaps_eq, afterTaps_eq]
    rfl
  have hvalue : ∀ x byte, (m.afterTaps taps).next? = some (.random x byte) →
      s'.random (m.afterTaps taps).draws = s.random (m.afterTaps taps).draws := by
    intro x byte hn
    rw [draws_afterTaps]
    apply hr
    rw [Step.taken, (step_of_random hn s).1]
    rfl
  rw [hother] at h ⊢
  change (m.afterTaps taps).Alike other at h
  obtain ⟨trace, ht, hstep⟩ := step_withKeypad h hvalue
  rw [hstep]
  exact ⟨rfl, rfl, ht, rfl⟩

theorem forall_sameButKeypad {schedule schedule' : List (List (Int × Bool))}
    (h : PlaysAlike s s' m (m.withKeypad keypad) schedule schedule')
    (hr : ∀ j < takenIn (m.play s schedule), s'.random (m.draws + j) = s.random (m.draws + j)) :
    List.Forall₂ (SameButKeypad s s') (m.play s schedule)
      ((m.withKeypad keypad).play s' schedule') := by
  induction schedule generalizing m keypad schedule' with
  | nil =>
    cases schedule' with
    | nil => exact .nil
    | cons taps' rest' => cases h
  | cons taps rest ih =>
    cases schedule' with
    | nil => cases h
    | cons taps' rest' =>
      obtain ⟨halike, hrest⟩ := h
      let first := (m.afterTaps taps).step s
      have htotal : takenIn (m.play s (taps :: rest)) = _ :=
        takenIn_cons first (first.machine.play s rest)
      have hplace : first.machine.draws = m.draws + first.taken := draws_round s m taps
      have hsame := round_sameButKeypad halike fun (htaken : first.taken = 1) => hr 0 (by omega)
      obtain ⟨other, hmachine⟩ : ∃ other, (((m.withKeypad keypad).afterTaps taps').step s').machine =
          first.machine.withKeypad other := ⟨_, hsame.machine⟩
      refine .cons hsame ?_
      rw [hmachine] at hrest ⊢
      apply ih hrest
      intro j hj
      change j < takenIn (first.machine.play s rest) at hj
      rw [hplace, Nat.add_assoc]
      exact hr (first.taken + j) (by omega)

/-- Non-interference of the keypad and the random source.  Two machines that differ in nothing but
their keypads, with other key events and other random values, go through the same steps, as long
as the keypads agree on what a step asks and the streams on the values that are taken.  The
instructions that take random values take them in order, one each, and nothing else takes any. -/
theorem noninterference {schedule schedule' : List (List (Int × Bool))}
    (h : PlaysAlike s s' m { m with keypad } schedule schedule')
    (hr : ∀ j < takenIn (m.play s schedule), s'.random (m.draws + j) = s.random (m.draws + j)) :
    List.Forall₂ (SameButKeypad s s') (m.play s schedule)
      ({ m with keypad }.play s' schedule') ∧
    ∀ before step after, m.play s schedule = before ++ step :: after →
      step.machine.draws = m.draws + takenIn before + step.taken ∧
      ∀ x byte, step.operation? = some (.random x byte) →
        step.machine.registers.get x =
          UInt8.ofInt (s.random (m.draws + takenIn before)) &&& byte :=
  ⟨forall_sameButKeypad h hr, fun _ _ _ hplay => draws_play hplay⟩

/-- Both machines take their one random value, skip on key 0 and on key 10, and find key 4 as the
lowest.  They never have the same keypad. -/
theorem noninterference_booted :
    let m := booted 16 [0xC0, 0x0F, 0xE1, 0x9E, 0xF2, 0x0A, 0xE0, 0xA1]
    let keypad := Keypad.released.press 12 true
    let s : Surroundings := ⟨fun _ => 42, false⟩
    let s' : Surroundings := ⟨fun n => if n = 0 then 42 else 7, false⟩
    let schedule := [[], [(9, true)], [], [(4, true)], [(9, false)]]
    let schedule' := [[], [], [(200, true)], [(12, false), (12, true), (4, true)], [(5, true)]]
    takenIn (m.play s schedule) = 1 ∧
    List.Forall₂ (SameButKeypad s s') (m.play s schedule)
      ({ m with keypad }.play s' schedule') ∧
    ∀ before step after, m.play s schedule = before ++ step :: after →
      step.machine.draws = m.draws + takenIn before + step.taken := by
  intro m keypad s s' schedule schedule'
  have hruns : takenIn (m.play s schedule) = 1 ∧
      PlaysAlike s s' m { m with keypad } schedule schedule' := by decide +kernel
  obtain ⟨htaken, hplays⟩ := hruns
  obtain ⟨hsame, hdraws⟩ := noninterference hplays fun j hj => by
    have hzero : j = 0 := by omega
    rw [hzero]
    rfl
  exact ⟨htaken, hsame, fun before step after h => (hdraws before step after h).1⟩

end Machine

end ChipEight
