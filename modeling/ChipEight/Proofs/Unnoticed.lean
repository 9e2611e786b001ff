import ChipEight.Proofs.Stepping
import ChipEight.Proofs.Viewer

/-!
# What a machine does not notice

A machine takes random values from a stream, one after the other, and its display may be watched.
Where it stands in the stream, and whether anybody watches, shows in nothing but the values it
takes and the signals it sends.
-/

namespace ChipEight

open Attempt

/-- A way to look at displays, and at some of what they send, of which drawing takes no notice. -/
structure View where
  display : Display → Display
  hears : Signal → Bool
  draw : ∀ d x y rows, (display d).draw x y rows =
    (d.draw x y rows).mapState fun after => (display after.1, after.2.filter hears)
  clear : ∀ d, (display d).clear.state =
    (display d.clear.state.1, d.clear.state.2.filter hears)
  takeChanged : ∀ d, (display d).takeChanged = (d.takeChanged.1, display d.takeChanged.2)

namespace View

def plain : View where
  display d := d
  hears _ := true
  draw d x y rows := by simp only [List.filter_true, mapState]
  clear d := by rw [List.filter_true]
  takeChanged _ := rfl

/-- Without the watcher, and what he hears. -/
def unwatched : View where
  display := Display.unwatch
  hears _ := false
  draw d x y rows := by simp only [Display.draw_unwatch, List.filter_false]
  clear d := by rw [List.filter_false]; rfl
  takeChanged _ := rfl

end View

/-- The same surroundings, with the first values of the stream already gone. -/
def Surroundings.ahead (s : Surroundings) (places : Nat) : Surroundings :=
  { s with random := fun n => s.random (n + places) }

/-- A machine further on in the stream, with its display looked at in another way. -/
def Machine.seen (m : Machine) (v : View) (places : Nat) : Machine :=
  { m with display := v.display m.display, draws := m.draws + places }

def Step.seen (step : Step) (v : View) (places : Nat) : Step :=
  { step with
    machine := step.machine.seen v places
    signals := step.signals.filter v.hears }

namespace Machine

variable {v : View} {places : Nat}

def Work.seen {α : Type} (work : Work α) (v : View) (places : Nat) : Work α :=
  work.mapState fun after => (after.1.seen v places, after.2.filter v.hears)

theorem Work.seen_followedBy {α : Type} {next : Machine → α → Work Unit}
    (h : ∀ n value, next (n.seen v places) value = Work.seen (next n value) v places)
    (work : Work α) :
    followedBy (Work.seen work v places) next = Work.seen (followedBy work next) v places :=
  map_followedBy (f := fun n : Machine => n.seen v places) List.filter_append work h

theorem skipIf_seen (m : Machine) (v : View) (places : Nat) (condition : Bool) :
    (m.seen v places).skipIf condition = (m.skipIf condition).seen v places := by
  cases condition <;> rfl

theorem draw_seen (m : Machine) (v : View) (places : Nat) (x y : Int) (rows : List UInt8) :
    (m.seen v places).onDisplay (fun display => display.draw x y rows) =
      Work.seen (m.onDisplay fun display => display.draw x y rows) v places := by
  have hd : (m.seen v places).display.draw x y rows = _ := v.draw m.display x y rows
  simp only [onDisplay, hd]
  rfl

theorem execute_seen (s : Surroundings) (m : Machine) (v : View) (places : Nat) (op : Operation) :
    (m.seen v places).execute s op = Work.seen (m.execute (s.ahead places) op) v places := by
  cases op with
  | clearDisplay =>
    have hc : (m.seen v places).display.clear.state = _ := v.clear m.display
    simp only [execute, onDisplay, hc]
    rfl
  | ret =>
    unfold execute
    exact Work.seen_followedBy (fun n target => rfl) (m.onStack CallStack.pop)
  | call target =>
    unfold execute
    exact Work.seen_followedBy (fun n _ => rfl) (m.onStack fun stack => stack.push m.counter)
  | skipIfByte x byte | skipUnlessByte x byte | skipIfEqual x y | skipUnlessEqual x y =>
    exact congrArg silent (skipIf_seen m v places _)
  | random x byte =>
    -- the value at the machine's place in the stream is the one as far ahead of its place before
    have hplace : m.draws + places + 1 = m.draws + 1 + places := Nat.add_right_comm _ _ _
    simp only [execute, seen, Work.seen, Surroundings.ahead, setRegister, silent, hplace,
      mapState_succeed, List.filter_nil]
  | draw x y rows =>
    unfold execute
    refine Work.seen_followedBy (fun n sprite => ?_) (m.ask (m.memory.readBlock m.index rows.val))
    rw [draw_seen]
    exact Work.seen_followedBy (fun n' hit => rfl) _
  | skipIfKey x | skipUnlessKey x =>
    unfold execute
    refine Work.seen_followedBy ?_ (m.ask (m.keypad.isDown m.registers[x].toNat))
    exact fun n down => congrArg silent (skipIf_seen n v places _)
  | readDelay x =>
    unfold execute
    exact Work.seen_followedBy (fun n value => rfl) (m.ask (byteOfInt m.delay))
  | loadRegisters x =>
    unfold execute
    exact Work.seen_followedBy (fun n values => rfl)
      (m.ask (m.memory.readBlock m.index (x.val + 1)))
  | _ => rfl

theorem takeKey_seen (m : Machine) (v : View) (places : Nat) (target : Register) :
    (m.seen v places).takeKey target = (m.takeKey target).seen v places := by
  have hk : (m.seen v places).keypad = m.keypad := rfl
  unfold takeKey
  rw [hk]
  cases m.keypad.first? <;> rfl

theorem refuse_seen (m : Machine) (v : View) (places : Nat) (counter : Int) (e : Error) :
    (m.seen v places).refuse counter e = (m.refuse counter e).seen v places := by
  unfold refuse
  cases e.isFault <;> rfl

theorem complete_seen (m : Machine) (v : View) (places : Nat) (instruction : Option Instruction)
    (signals : List Signal) (trace : Option String) :
    (m.seen v places).complete instruction (signals.filter v.hears) trace =
      (m.complete instruction signals trace).seen v places := by
  have hd : (m.seen v places).tick.display.takeChanged =
      (m.display.takeChanged.1, v.display m.display.takeChanged.2) := v.takeChanged m.display
  simp only [complete, hd]
  rfl

theorem settle_seen (v : View) (places : Nat) (counter : Int) (i : Instruction)
    (trace : Option String) (work : Work Unit) :
    settle counter i trace (Work.seen work v places) =
      (settle counter i trace work).seen v places := by
  have hr : (Work.seen work v places).result = work.result := rfl
  cases h : work.result with
  | error e =>
    rw [settle_of_error h, settle_of_error (hr.trans h)]
    change Step.mk _ ((work.state.1.seen v places).refuse counter e) _ _ = _
    rw [refuse_seen]
    rfl
  | ok =>
    rw [settle_of_ok h, settle_of_ok (hr.trans h)]
    exact complete_seen work.state.1 v places (some i) work.state.2 trace

theorem perform_seen (s : Surroundings) (m : Machine) (v : View) (places : Nat)
    (counter word : Int) :
    perform s (m.seen v places) counter word =
      (perform (s.ahead places) m counter word).seen v places := by
  cases hw : Operation.ofWord? word with
  | none =>
    rw [perform_of_unknown hw, perform_of_unknown hw]
    change Step.mk _ (((m.fetched word).seen v places).refuse _ _) _ _ = _
    rw [refuse_seen]
    rfl
  | some op =>
    rw [perform_of_known hw, perform_of_known hw]
    change settle _ _ _ (((m.fetched word).seen v places).execute s op) = _
    rw [execute_seen, settle_seen]
    rfl

theorem step_seen (s : Surroundings) (m : Machine) (v : View) (places : Nat) :
    (m.seen v places).step s = (m.step (s.ahead places)).seen v places := by
  cases hp : m.phase with
  | waitingForKey target =>
    rw [step_of_waiting (m := m.seen v places) hp, step_of_waiting hp, takeKey_seen,
      ← complete_seen, List.filter_nil]
  | running =>
    have hf : (m.seen v places).fetch = m.fetch := rfl
    rw [step_of_running (m := m.seen v places) hp, step_of_running hp, hf]
    cases m.fetch with
    | error e => rfl
    | ok word => exact perform_seen s { m with lastCounter := m.counter } v places m.counter word

end Machine

end ChipEight
