import ChipEight.Proofs.Reachable
import ChipEight.Proofs.Unnoticed

/-!
# Starting over

A host may do to a machine what it likes.  Once the machine is reset and a program loaded, nothing
is left of that but the place in the random stream: it is what a new machine with a display of the
same kind and the same room on its stack would be, and goes on like it.
-/

namespace ChipEight

/-- All that a host can do to a machine: events, and writes to its parts. -/
inductive Deed
  | event (event : Event)
  | setRegister (x : Register) (value : UInt8)
  | setIndex (index : Int)
  | setCounter (counter : Int)
  | setDelay (delay : Int)
  | setSound (sound : Int)
  | push (entry : Int)
  | setStack (entries : List Int)

/-- The same, with the first values of the random stream already gone. -/
def Deed.ahead (places : Nat) : Deed → Deed
  | .event (.step s) => .event (.step (s.ahead places))
  | deed => deed

/-- What a host gets back: for a step also its outcome. -/
structure Answer where
  result : Except Error (Option Outcome)
  signals : List Signal
  trace : Option String

def Answer.seen (answer : Answer) (v : View) : Answer :=
  { answer with signals := answer.signals.filter v.hears }

theorem Deed.ahead_zero : Deed.ahead 0 = id := by
  funext deed
  cases deed with
  | event event => cases event <;> rfl
  | _ => rfl

/-- Displays that are watched alike are compared as they are, others without the watcher. -/
def View.between (d e : Display) : View := if d.watched = e.watched then plain else unwatched

theorem Display.clear_of_sameShape {d e : Display} (h : d.SameShape e) :
    e.clear.state.1 = d.clear.state.1 := by
  simp only [state_clear, cleared, Bank.clear, h.width, h.height, h.size_plane, h.toggles,
    h.watched]

theorem View.between_clear {d e : Display} (h : d.unwatch.SameShape e.unwatch) :
    (between d e).display e.clear.state.1 = (between d e).display d.clear.state.1 := by
  unfold between
  split
  · rename_i hw
    exact Display.clear_of_sameShape ⟨h.width, h.height, h.size_plane, h.toggles, hw.symm⟩
  · exact Display.clear_of_sameShape h

namespace Machine

open Attempt

variable {m n : Machine} {d e : Display} {capacity : Int}

def undergo (m : Machine) : Deed → Machine
  | .event event => m.respond event
  | .setRegister x value => m.setRegister x value
  | .setIndex index => { m with index }
  | .setCounter counter => { m with counter }
  | .setDelay delay => { m with delay }
  | .setSound sound => { m with sound }
  | .push entry => { m with stack := (m.stack.push entry).state }
  | .setStack entries => { m with stack := { m.stack with entries } }

def after (m : Machine) (deeds : List Deed) : Machine := deeds.foldl undergo m

def answer (m : Machine) : Deed → Answer
  | .event (.step s) => ⟨(m.step s).result.map some, (m.step s).signals, (m.step s).trace⟩
  | .event (.key key down) => ⟨(m.setKey key down).result.map fun _ => none, [], none⟩
  | .event (.load program) => ⟨(m.load program).result.map fun _ => none, [], none⟩
  | .event (.write address block) =>
    ⟨(m.memory.writeBlock address block).result.map fun _ => none, [], none⟩
  | .event .reset => ⟨.ok none, m.reset.2, none⟩
  | .push entry => ⟨(m.stack.push entry).result.map fun _ => none, [], none⟩
  | _ => ⟨.ok none, [], none⟩

def answers (m : Machine) : List Deed → List Answer
  | [] => []
  | deed :: rest => m.answer deed :: (m.undergo deed).answers rest

/-- Two machines were built with the same kind of display and the same room on the stack. -/
structure SameBuild (m n : Machine) : Prop where
  shape : m.display.SameShape n.display
  capacity : n.stack.capacity = m.stack.capacity

namespace SameBuild

theorem refl (m : Machine) : m.SameBuild m := ⟨.refl m.display, rfl⟩

theorem trans {o : Machine} (h : m.SameBuild n) (k : n.SameBuild o) : m.SameBuild o :=
  ⟨h.shape.trans k.shape, k.capacity.trans h.capacity⟩

theorem withDisplay (h : m.SameBuild n) {display : Display} (hd : n.display.SameShape display) :
    m.SameBuild { n with display } := ⟨h.shape.trans hd, h.capacity⟩

theorem withRegisters (h : m.SameBuild n) (registers : Registers) :
    m.SameBuild { n with registers } := ⟨h.shape, h.capacity⟩

theorem skipIf (h : m.SameBuild n) (condition : Bool) : m.SameBuild (n.skipIf condition) := by
  unfold Machine.skipIf
  split
  · exact ⟨h.shape, h.capacity⟩
  · exact h

theorem refuse (h : m.SameBuild n) (counter : Int) (e : Error) :
    m.SameBuild (n.refuse counter e) := by
  unfold Machine.refuse
  split
  · exact ⟨h.shape, h.capacity⟩
  · exact h

theorem takeKey (h : m.SameBuild n) (target : Register) : m.SameBuild (n.takeKey target) := by
  unfold Machine.takeKey
  split
  · exact ⟨h.shape, h.capacity⟩
  · exact h

theorem complete (h : m.SameBuild n) (instruction : Option Instruction) (signals : List Signal)
    (trace : Option String) : m.SameBuild (n.complete instruction signals trace).machine :=
  ⟨h.shape.trans ⟨rfl, rfl, rfl, rfl, rfl⟩, h.capacity⟩

theorem settle {work : Work Unit} (h : m.SameBuild work.state.1) (counter : Int) (i : Instruction)
    (trace : Option String) : m.SameBuild (settle counter i trace work).machine := by
  cases hr : work.result with
  | error e =>
    rw [settle_of_error hr]
    exact h.refuse counter e
  | ok =>
    rw [settle_of_ok hr]
    exact h.complete (some i) work.state.2 trace

end SameBuild

theorem capacity_pop (stack : CallStack) : stack.pop.state.capacity = stack.capacity := by
  unfold CallStack.pop
  split <;> rfl

theorem capacity_push (stack : CallStack) (entry : Int) :
    (stack.push entry).state.capacity = stack.capacity := by
  unfold CallStack.push
  cases stack.checkPush <;> rfl

theorem execute_sameBuild (s : Surroundings) (m : Machine) (op : Operation) :
    m.SameBuild (m.execute s op).state.1 := by
  have h := SameBuild.refl m
  cases op with
  | clearDisplay => exact h.withDisplay (Display.clear_sameShape m.display)
  | ret =>
    have hp : m.SameBuild { m with stack := m.stack.pop.state } := ⟨h.shape, capacity_pop m.stack⟩
    exact keeps_followedBy (P := m.SameBuild) hp fun n target hn => ⟨hn.shape, hn.capacity⟩
  | call target =>
    have hp : m.SameBuild { m with stack := (m.stack.push m.counter).state } :=
      ⟨h.shape, capacity_push m.stack m.counter⟩
    exact keeps_followedBy (P := m.SameBuild) hp fun n _ hn => ⟨hn.shape, hn.capacity⟩
  | skipIfByte x byte | skipUnlessByte x byte | skipIfEqual x y | skipUnlessEqual x y =>
    exact h.skipIf _
  | draw x y rows =>
    refine keeps_followedBy (P := m.SameBuild) h fun n sprite hn => ?_
    have hd := hn.withDisplay (Display.draw_sameShape n.display m.registers[x].toNat
      m.registers[y].toNat sprite)
    exact keeps_followedBy (P := m.SameBuild) hd fun n' hit hn' => hn'.withRegisters _
  | skipIfKey x | skipUnlessKey x =>
    exact keeps_followedBy (P := m.SameBuild) h fun n down hn => hn.skipIf _
  | readDelay x =>
    exact keeps_followedBy (P := m.SameBuild) h fun n value hn => hn.withRegisters _
  | loadRegisters x =>
    exact keeps_followedBy (P := m.SameBuild) h fun n values hn => hn.withRegisters _
  | _ => exact ⟨h.shape, h.capacity⟩

theorem perform_sameBuild (s : Surroundings) (m : Machine) (counter word : Int) :
    m.SameBuild (perform s m counter word).machine := by
  have hb : m.SameBuild (m.fetched word) := ⟨.refl m.display, rfl⟩
  cases hw : Operation.ofWord? word with
  | none =>
    rw [perform_of_unknown hw]
    exact hb.refuse counter (.fault (.unknownOpcode word))
  | some op =>
    rw [perform_of_known hw]
    exact (hb.trans (execute_sameBuild s (m.fetched word) op)).settle counter _ _

theorem step_sameBuild (s : Surroundings) (m : Machine) : m.SameBuild (m.step s).machine := by
  cases hp : m.phase with
  | waitingForKey target =>
    rw [step_of_waiting hp]
    exact ((SameBuild.refl m).takeKey target).complete _ _ _
  | running =>
    have hl : m.SameBuild { m with lastCounter := m.counter } := ⟨.refl m.display, rfl⟩
    rw [step_of_running hp]
    cases m.fetch with
    | error e => exact hl
    | ok word => exact hl.trans (perform_sameBuild s _ m.counter word)

theorem respond_sameBuild (m : Machine) (event : Event) : m.SameBuild (m.respond event) := by
  have h := SameBuild.refl m
  cases event with
  | step s => exact step_sameBuild s m
  | key key down =>
    change m.SameBuild (m.setKey key down).state
    unfold setKey
    cases m.keypad.setKey key down with
    | error e => exact h
    | ok keypad => exact ⟨h.shape, h.capacity⟩
  | load program =>
    change m.SameBuild (m.load program).state
    unfold load
    split
    · exact h
    · exact ⟨h.shape, h.capacity⟩
  | write address block => exact ⟨h.shape, h.capacity⟩
  | reset => exact ⟨Display.clear_sameShape m.display, rfl⟩

theorem undergo_sameBuild (m : Machine) (deed : Deed) : m.SameBuild (m.undergo deed) := by
  cases deed with
  | event event => exact respond_sameBuild m event
  | push entry => exact ⟨.refl m.display, capacity_push m.stack entry⟩
  | _ => exact ⟨.refl m.display, rfl⟩

theorem after_sameBuild (m : Machine) (deeds : List Deed) : m.SameBuild (m.after deeds) := by
  induction deeds generalizing m with
  | nil => exact .refl m
  | cons deed rest ih => exact (undergo_sameBuild m deed).trans (ih (m.undergo deed))

/-- After whatever was done to it, a machine that is reset is a new one. -/
theorem reset_after_eq_new (h : d.unwatch.SameShape e.unwatch) (deeds : List Deed) :
    let m := (new d capacity).1.after deeds
    m.reset.1.seen (.between d e) 0 = (new e capacity).1.seen (.between d e) m.draws := by
  intro m
  have hb : (new d capacity).1.SameBuild m := after_sameBuild (new d capacity).1 deeds
  have hd : d.SameShape m.display := (Display.clear_sameShape d).trans hb.shape
  have hs : m.stack.capacity = capacity := hb.capacity
  simp only [new, reset, seen, Display.clear_of_sameShape hd, View.between_clear h, CallStack.clear,
    CallStack.empty, hs, Nat.zero_add, Nat.add_zero]

theorem load_seen (m : Machine) (v : View) (places : Nat) (program : List UInt8) :
    (m.seen v places).load program = (m.load program).mapState fun n => n.seen v places := by
  unfold load
  split <;> rfl

theorem setKey_seen (m : Machine) (v : View) (places : Nat) (key : Int) (down : Bool) :
    (m.seen v places).setKey key down =
      (m.setKey key down).mapState fun n => n.seen v places := by
  have hk : (m.seen v places).keypad = m.keypad := rfl
  unfold setKey
  rw [hk]
  cases m.keypad.setKey key down <;> rfl

theorem reset_seen (m : Machine) (v : View) (places : Nat) :
    (m.seen v places).reset = (m.reset.1.seen v places, m.reset.2.filter v.hears) := by
  have hc : (m.seen v places).display.clear.state = _ := v.clear m.display
  simp only [reset, hc]
  rfl

theorem undergo_seen (m : Machine) (v : View) (places : Nat) (deed : Deed) :
    (m.seen v places).undergo deed = (m.undergo (deed.ahead places)).seen v places := by
  cases deed with
  | event event =>
    cases event with
    | step s => exact congrArg Step.machine (step_seen s m v places)
    | key key down => exact congrArg Attempt.state (setKey_seen m v places key down)
    | load program => exact congrArg Attempt.state (load_seen m v places program)
    | write address block => rfl
    | reset => exact congrArg Prod.fst (reset_seen m v places)
  | _ => rfl

theorem answer_seen (m : Machine) (v : View) (places : Nat) (deed : Deed) :
    (m.seen v places).answer deed = (m.answer (deed.ahead places)).seen v := by
  cases deed with
  | event event =>
    cases event with
    | step s =>
      simp only [answer, Deed.ahead, step_seen]
      rfl
    | key key down =>
      simp only [answer, Deed.ahead, setKey_seen]
      rfl
    | load program =>
      simp only [answer, Deed.ahead, load_seen]
      rfl
    | write address block => rfl
    | reset =>
      simp only [answer, Deed.ahead, reset_seen]
      rfl
  | _ => rfl

theorem after_seen (m : Machine) (v : View) (places : Nat) (deeds : List Deed) :
    (m.seen v places).after deeds = (m.after (deeds.map (Deed.ahead places))).seen v places := by
  induction deeds generalizing m with
  | nil => rfl
  | cons deed rest ih =>
    change ((m.seen v places).undergo deed).after rest = _
    rw [undergo_seen, ih]
    rfl

theorem answers_seen (m : Machine) (v : View) (places : Nat) (deeds : List Deed) :
    (m.seen v places).answers deeds =
      (m.answers (deeds.map (Deed.ahead places))).map fun answer => answer.seen v := by
  induction deeds generalizing m with
  | nil => rfl
  | cons deed rest ih =>
    simp only [answers, List.map_cons]
    rw [answer_seen, undergo_seen, ih]

/-- Memory with a program and the font, and zero elsewhere. -/
def image (program : List UInt8) (address : Int) : Option UInt8 :=
  if 0x200 ≤ address ∧ address < 0x200 + program.length then program[(address - 0x200).toNat]?
  else if 0x50 ≤ address ∧ address < 0xA0 then Layout.font[(address - 0x50).toNat]?
  else if 0 ≤ address ∧ address < 0x1000 then some 0
  else none

theorem get?_putList_freshMemory {program : List UInt8}
    (h : program.length ≤ Layout.programLimit) (address : Int) :
    (freshMemory.putList Layout.programStart program).get? address = image program address := by
  have hlimit : Layout.programLimit = 0xE00 := rfl
  have hsize : freshMemory.size = 0x1000 := Bank.size_putList _ _ _
  have hp : freshMemory.Fits (0x200 : Int) program.length := .inr (by omega)
  have hf : (Bank.ofSize (0x1000 : Int) : Memory).Fits (0x50 : Int) Layout.font.length :=
    .inr (by decide)
  have hfont := Bank.get?_putList hf address
  rw [Bank.get?_ofSize] at hfont
  exact (Bank.get?_putList hp address).trans (if_congr Iff.rfl rfl hfont)

/-- A machine that is reset and given a program has forgotten all that was done to it. -/
theorem reset_load_forgets (h : d.unwatch.SameShape e.unwatch) (capacity : Int)
    (deeds : List Deed) (program : List UInt8) :
    let m := (new d capacity).1.after deeds
    let again := m.reset.1.load program
    let fresh := (new e capacity).1.load program
    let v := View.between d e
    (again.result = fresh.result ∧ again.state.seen v 0 = fresh.state.seen v m.draws) ∧
    (∀ n : Machine,
      ((n.load program).result = .error (.fault (.romTooLarge program.length 3584)) ↔
        3584 < program.length) ∧
      (3584 < program.length → (n.load program).state = n)) ∧
    (program.length ≤ 3584 →
      again.result = .ok () ∧ ∀ address, again.state.memory.get? address = image program address) ∧
    ∀ later : List Deed,
      let later' := later.map (Deed.ahead m.draws)
      (again.state.answers later).map (fun answer => answer.seen v) =
        (fresh.state.answers later').map (fun answer => answer.seen v) ∧
      (again.state.after later).seen v 0 = (fresh.state.after later').seen v m.draws := by
  intro m again fresh v
  have hlimit : Layout.programLimit = 3584 := rfl
  have hload : (again.mapState fun n => n.seen v 0) = fresh.mapState fun n => n.seen v m.draws := by
    rw [← load_seen, ← load_seen, reset_after_eq_new h]
  have hstate : again.state.seen v 0 = fresh.state.seen v m.draws := congrArg Attempt.state hload
  have hresult : again.result = fresh.result := by
    have hr := congrArg Attempt.result hload
    exact hr
  refine ⟨⟨hresult, hstate⟩, ?_, ?_, ?_⟩
  · intro n
    refine ⟨⟨?_, ?_⟩, ?_⟩
    · intro hr
      by_contra hsmall
      exact result_load_of_small (by omega) n _ _ hr
    · intro hlarge
      rw [load_of_large (by omega)]
      rfl
    · intro hlarge
      rw [load_of_large (by omega)]
      rfl
  · intro hfits
    have hagain : again = _ := load_of_fits (m := m.reset.1) (by omega) (Bank.size_putList _ _ _)
    rw [hagain]
    exact ⟨rfl, get?_putList_freshMemory (by omega)⟩
  · intro later later'
    have ha := answers_seen again.state v 0 later
    have hs := after_seen again.state v 0 later
    rw [Deed.ahead_zero, List.map_id] at ha hs
    constructor
    · rw [← ha, hstate, answers_seen]
    · rw [← hs, hstate, after_seen]

theorem reset_load_forgets_wait :
    let d : Display := { (Display.new true false).1 with changed := false }
    let e := (Display.new true true).1
    let m := (new d 16).1.after
      [.event (.load [0xC0, 0xFF, 0xF3, 0x0A]), .setDelay 7, .push 5, .event (.step quiet),
        .event (.key 3 true), .event (.step quiet)]
    let again := m.reset.1.load [0x12, 0x34]
    d.unwatch.SameShape e.unwatch ∧
    (m.phase = .waitingForKey 3 ∧ m.delay = 5 ∧ m.stack.entries = [5] ∧ m.draws = 1 ∧
      m.memory.get? 0x202 = some 0xF3) ∧
    again.state.seen .unwatched 0 =
      ((new e 16).1.load [0x12, 0x34]).state.seen .unwatched 1 ∧
    again.state.memory.get? 0x202 = some 0 := by
  intro d e m again
  have h : d.unwatch.SameShape e.unwatch := ⟨rfl, rfl, rfl, rfl, rfl⟩
  have hm : m.phase = .waitingForKey 3 ∧ m.delay = 5 ∧ m.stack.entries = [5] ∧ m.draws = 1 ∧
      m.memory.get? 0x202 = some 0xF3 := by decide +kernel
  obtain ⟨⟨-, hstate⟩, -, hmemory, -⟩ := reset_load_forgets h 16
    [.event (.load [0xC0, 0xFF, 0xF3, 0x0A]), .setDelay 7, .push 5, .event (.step quiet),
      .event (.key 3 true), .event (.step quiet)] [0x12, 0x34]
  refine ⟨h, hm, ?_, ?_⟩
  · rw [← hm.2.2.2.1]
    exact hstate
  · exact ((hmemory (by decide)).2 0x202).trans (by decide)

end Machine

end ChipEight
