import ChipEight.Proofs.Showing
import ChipEight.Proofs.Stepping

/-!
# Reachable machines

A host steps a machine, presses its keys, loads programs, writes to its memory and resets it, in
any order.  The bounds of the program counter, the index register and the stack entries are
checked nowhere.  They hold all the same, after every sequence of such events.
-/

namespace ChipEight

inductive Event
  | step (surroundings : Surroundings)
  | key (key : Int) (down : Bool)
  | load (program : List UInt8)
  | write (address : Int) (block : List UInt8)
  | reset

namespace Machine

variable {s : Surroundings} {m : Machine} {op : Operation} {capacity : Int}

/-- The machine after an event, whether that was refused or not. -/
def respond (m : Machine) : Event → Machine
  | .step s => (m.step s).machine
  | .key key down => (m.setKey key down).state
  | .load program => (m.load program).state
  | .write address block => { m with memory := (m.memory.writeBlock address block).state }
  | .reset => m.reset.1

def run (m : Machine) (events : List Event) : Machine := events.foldl respond m

/-- A machine with a display of the standard size that was just switched on. -/
def boot (toggles watched : Bool) (capacity : Int) : Machine :=
  (new (Display.new toggles watched).1 capacity).1

def Reachable (capacity : Int) (m : Machine) : Prop :=
  ∃ toggles watched events, m = (boot toggles watched capacity).run events

theorem load_of_large {program : List UInt8} (h : Layout.programLimit < program.length)
    (m : Machine) :
    m.load program = .refuse m (.fault (.romTooLarge program.length Layout.programLimit)) :=
  if_pos h

/-- A program that is not too long may be refused by a smaller memory, which is another fault. -/
theorem result_load_of_small {program : List UInt8} (h : program.length ≤ Layout.programLimit)
    (m : Machine) (size limit : Int) :
    (m.load program).result ≠ .error (.fault (.romTooLarge size limit)) := by
  unfold load
  rw [if_neg (by omega)]
  by_cases hf : m.memory.Fits Layout.programStart program.length
  · rw [Bank.writeBlock_of_ok (Bank.checkRange_of_fits hf)]
    exact fun hr => nomatch hr
  · obtain ⟨a, ha⟩ := Bank.checkRange_of_not_fits hf
    rw [Bank.writeBlock_of_error ha]
    exact fun hr => nomatch hr

theorem load_of_fits {program : List UInt8} (h : program.length ≤ Layout.programLimit)
    (hm : m.memory.size = Layout.memorySize) :
    m.load program =
      .succeed { m with memory := m.memory.putList Layout.programStart program } () := by
  have hlimit : Layout.programLimit = 0xE00 := rfl
  have hstart : Layout.programStart = 0x200 := rfl
  have hsize : Layout.memorySize = 0x1000 := rfl
  have hf : m.memory.Fits Layout.programStart program.length := .inr (by omega)
  unfold load
  rw [if_neg (by omega), Bank.writeBlock_of_ok (Bank.checkRange_of_fits hf)]
  rfl

/-- The bounds that every reachable machine keeps. -/
structure WellFormed (capacity : Int) (m : Machine) : Prop where
  size_memory : m.memory.size = 4096
  index_nonneg : 0 ≤ m.index
  index_le : m.index ≤ 0xFFFF
  counter_nonneg : 0 ≤ m.counter
  counter_le : m.counter ≤ 0x10FE
  delay_nonneg : 0 ≤ m.delay
  delay_le : m.delay ≤ 255
  sound_nonneg : 0 ≤ m.sound
  sound_le : m.sound ≤ 255
  stack_capacity : m.stack.capacity = capacity
  depth_le : m.stack.depth ≤ capacity.toNat
  entry_bounds : ∀ entry ∈ m.stack.entries, 2 ≤ entry ∧ entry ≤ 0x1000
  width : m.display.width = 64
  height : m.display.height = 32
  size_plane : m.display.plane.size = 2048

namespace WellFormed

theorem whole (h : m.WellFormed capacity) : m.display.Whole where
  width_pos := by rw [h.width]; decide
  height_pos := by rw [h.height]; decide
  size_plane := by rw [h.width, h.height, h.size_plane]; decide

/-- No machine that is reset, or told to clear its display, passes over a refusal. -/
theorem result_clear (h : m.WellFormed capacity) : m.display.clear.result = .ok () :=
  h.whole.result_clear

theorem steady (h : m.WellFormed capacity) : m.Steady :=
  ⟨h.whole, h.delay_nonneg, Int.lt_of_le_of_lt h.delay_le (by decide)⟩

theorem of_reset (hs : m.stack.capacity = capacity) (hw : m.display.width = 64)
    (hh : m.display.height = 32) (hp : m.display.plane.size = 2048) :
    m.reset.1.WellFormed capacity where
  size_memory := Bank.size_putList _ _ _
  index_nonneg := Int.le_refl 0
  index_le := (by decide : (0 : Int) ≤ 0xFFFF)
  counter_nonneg := (by decide : (0 : Int) ≤ 0x200)
  counter_le := (by decide : (0x200 : Int) ≤ 0x10FE)
  delay_nonneg := Int.le_refl 0
  delay_le := (by decide : (0 : Int) ≤ 255)
  sound_nonneg := Int.le_refl 0
  sound_le := (by decide : (0 : Int) ≤ 255)
  stack_capacity := hs
  depth_le := Nat.zero_le _
  entry_bounds entry he := by cases he
  width := hw
  height := hh
  size_plane := hp

theorem boot (toggles watched : Bool) (capacity : Int) :
    (boot toggles watched capacity).WellFormed capacity := of_reset rfl rfl rfl rfl

theorem reset (h : m.WellFormed capacity) : m.reset.1.WellFormed capacity :=
  of_reset h.stack_capacity h.width h.height h.size_plane

theorem withRegisters (h : m.WellFormed capacity) (registers : Registers) :
    { m with registers }.WellFormed capacity := { h with }

theorem setRegister (h : m.WellFormed capacity) (x : Register) (value : UInt8) :
    (m.setRegister x value).WellFormed capacity := h.withRegisters _

theorem jumpTo (h : m.WellFormed capacity) {target : Int} (hl : 0 ≤ target)
    (hu : target ≤ 0x10FE) : (m.jumpTo target).WellFormed capacity :=
  { h with counter_nonneg := hl, counter_le := hu }

theorem skipIf (h : m.WellFormed capacity) (hu : m.counter ≤ 0x1000) (condition : Bool) :
    (m.skipIf condition).WellFormed capacity := by
  have hl := h.counter_nonneg
  unfold Machine.skipIf
  split
  · exact h.jumpTo (by omega) (by omega)
  · exact h

theorem withIndex (h : m.WellFormed capacity) {index : Int} (hl : 0 ≤ index)
    (hu : index ≤ 0xFFFF) : { m with index }.WellFormed capacity :=
  { h with index_nonneg := hl, index_le := hu }

theorem withMemory (h : m.WellFormed capacity) (address : Int) (block : List UInt8) :
    { m with memory := (m.memory.writeBlock address block).state }.WellFormed capacity :=
  { h with size_memory := (Bank.size_writeBlock _ _ _).trans h.size_memory }

theorem withDisplay (h : m.WellFormed capacity) {display : Display}
    (hd : m.display.SameShape display) : { m with display }.WellFormed capacity :=
  { h with
    width := hd.width.trans h.width
    height := hd.height.trans h.height
    size_plane := hd.size_plane.trans h.size_plane }

theorem push (h : m.WellFormed capacity) (hroom : m.stack.depth < m.stack.capacity)
    (hl : 2 ≤ m.counter) (hu : m.counter ≤ 0x1000) :
    { m with stack := (m.stack.push m.counter).state }.WellFormed capacity := by
  have hc := h.stack_capacity
  rw [CallStack.push_of_room hroom]
  refine { h with depth_le := ?_, entry_bounds := ?_ }
  · change m.stack.depth + 1 ≤ capacity.toNat
    omega
  · intro entry he
    obtain rfl | hrest := List.mem_cons.mp he
    · exact ⟨hl, hu⟩
    · exact h.entry_bounds entry hrest

theorem pop (h : m.WellFormed capacity) {entry : Int} {rest : List Int}
    (he : m.stack.entries = entry :: rest) :
    { m with counter := entry, stack := { m.stack with entries := rest } }.WellFormed capacity := by
  have hd := h.depth_le
  have hb := h.entry_bounds
  rw [he] at hb
  unfold CallStack.depth at hd
  rw [he, List.length_cons] at hd
  obtain ⟨hl, hu⟩ := hb entry List.mem_cons_self
  exact { h with
    counter_nonneg := by change 0 ≤ entry; omega
    counter_le := by change entry ≤ 0x10FE; omega
    depth_le := Nat.le_of_succ_le hd
    entry_bounds := fun other ho => hb other (List.mem_cons_of_mem _ ho) }

theorem execute (h : m.WellFormed capacity) (hl : 2 ≤ m.counter) (hu : m.counter ≤ 0x1000)
    (hc : m.clearance op = .ok ()) : (m.execute s op).state.1.WellFormed capacity := by
  -- the counter is past a word that lay in memory, so it makes an entry and leaves room to skip
  cases op with
  | clearDisplay => exact h.withDisplay (Display.clear_sameShape m.display)
  | ret =>
    obtain ⟨entry, rest, he⟩ := entries_of_cleared hc
    rw [execute_ret he]
    exact h.pop he
  | call target =>
    have hroom := room_of_cleared hc
    rw [execute_call target hroom]
    exact (h.push hroom hl hu).jumpTo (by omega) (by omega)
  | jump target => exact h.jumpTo (by omega) (by omega)
  | skipIfByte x byte | skipUnlessByte x byte | skipIfEqual x y | skipUnlessEqual x y =>
    exact h.skipIf hu _
  | loadByte x byte | addByte x byte | copy x y | or x y | and x y | xor x y =>
    exact h.setRegister x _
  | add x y | sub x y | subFrom x y | shiftRight x | shiftLeft x =>
    exact (h.setRegister x _).setRegister flagRegister _
  | loadIndex target => exact h.withIndex (by omega) (by omega)
  | jumpOffset target =>
    -- not masked: the highest target is 0xFFF + 0xFF
    have hv := (m.registers.get ⟨0, by decide⟩).toNat_lt
    exact h.jumpTo (by omega) (by omega)
  | random x byte => exact { h with }
  | draw x y rows =>
    obtain ⟨-, display, registers, hd, hx⟩ := execute_draw_completes (s := s) h.whole x y hc
    rw [hx]
    exact (h.withDisplay hd).withRegisters registers
  | skipIfKey x | skipUnlessKey x =>
    obtain ⟨down, hk⟩ := m.keypad.isDown_of_nonneg (Int.natCast_nonneg m.registers[x].toNat)
    simp only [Machine.execute, ask, hk, Attempt.ofExcept_ok, Attempt.followedBy_silent]
    exact h.skipIf hu _
  | readDelay x =>
    have hb := byteOfInt_of_bounds h.steady.delay_nonneg h.steady.delay_lt
    simp only [Machine.execute, ask, hb, Attempt.ofExcept_ok, Attempt.followedBy_silent]
    exact h.setRegister x _
  | awaitKey x => exact { h with }
  | setDelay x =>
    have hv := m.registers[x].toNat_lt
    exact { h with
      delay_nonneg := Int.natCast_nonneg _
      delay_le := by change (m.registers[x].toNat : Int) ≤ 255; omega }
  | setSound x =>
    have hv := m.registers[x].toNat_lt
    exact { h with
      sound_nonneg := Int.natCast_nonneg _
      sound_le := by change (m.registers[x].toNat : Int) ≤ 255; omega }
  | addIndex x => exact h.withIndex (by omega) (by omega)
  | loadGlyph x =>
    have hv := m.registers[x].toNat_lt
    have hstart : Layout.fontStart = 80 := rfl
    have hsize : Layout.glyphSize = 5 := rfl
    exact h.withIndex (by rw [hstart, hsize]; omega) (by rw [hstart, hsize]; omega)
  | storeDecimal x => exact h.withMemory _ _
  | storeRegisters x => exact h.withMemory _ _
  | loadRegisters x =>
    obtain ⟨values, hr, -⟩ := Bank.readBlock_of_ok hc
    have hv : m.memory.readBlock m.index (x.val + 1) = .ok values := hr
    simp only [Machine.execute, ask, hv, Attempt.ofExcept_ok, Attempt.followedBy_silent]
    exact h.withRegisters _

theorem fits_counter_iff (h : m.WellFormed capacity) :
    m.memory.Fits m.counter 2 ↔ m.counter ≤ 0xFFE := by
  have hl := h.counter_nonneg
  have hs := h.size_memory
  unfold Bank.Fits
  omega

theorem counter_le_of_fetched (h : m.WellFormed capacity) {word : Int} (hf : m.fetch = .ok word) :
    m.counter ≤ 0xFFE := by
  apply h.fits_counter_iff.mp
  apply Classical.byContradiction
  intro hn
  obtain ⟨a, ha⟩ := fetch_of_not_fits hn
  rw [hf] at ha
  cases ha

theorem begun (h : m.WellFormed capacity) (hu : m.counter ≤ 0xFFE) (word : Int) :
    (m.begun word).WellFormed capacity := by
  have hl := h.counter_nonneg
  exact { h with
    counter_nonneg := by change 0 ≤ m.counter + 2; omega
    counter_le := by change m.counter + 2 ≤ 0x10FE; omega }

theorem recorded (h : m.WellFormed capacity) : m.recorded.WellFormed capacity := { h with }

theorem takeKey (h : m.WellFormed capacity) (target : Register) :
    (m.takeKey target).WellFormed capacity := by
  unfold Machine.takeKey
  split
  · rename_i key _
    exact { h.setRegister target (UInt8.ofNat key.val) with }
  · exact h

theorem complete (h : m.WellFormed capacity) (i : Option Instruction) (signals : List Signal)
    (trace : Option String) : (m.complete i signals trace).machine.WellFormed capacity := by
  have hdl := h.delay_nonneg
  have hdu := h.delay_le
  have hsl := h.sound_nonneg
  have hsu := h.sound_le
  refine { h with delay_nonneg := ?_, delay_le := ?_, sound_nonneg := ?_, sound_le := ?_ }
  · change 0 ≤ if 0 < m.delay then m.delay - 1 else m.delay
    omega
  · change (if 0 < m.delay then m.delay - 1 else m.delay) ≤ 255
    omega
  · change 0 ≤ if 0 < m.sound then m.sound - 1 else m.sound
    omega
  · change (if 0 < m.sound then m.sound - 1 else m.sound) ≤ 255
    omega

theorem step (h : m.WellFormed capacity) (s : Surroundings) :
    (m.step s).machine.WellFormed capacity := by
  cases m.course with
  | waiting target hp =>
    rw [step_of_waiting hp]
    exact (h.takeKey target).complete _ _ _
  | unfetched a hp hf =>
    rw [step_of_unfetched hp hf]
    exact h.recorded
  | unknown word hp hf hw =>
    rw [step_of_unknown hp hf hw]
    exact h.recorded
  | refused word op f hp hf hw hc =>
    rw [step_of_refused hp hf hw hc]
    exact h.recorded
  | executed word op hp hf hw hc =>
    have hl := h.counter_nonneg
    have hu := h.counter_le_of_fetched hf
    have hlow : 2 ≤ (m.begun word).counter := by change 2 ≤ m.counter + 2; omega
    have hhigh : (m.begun word).counter ≤ 0x1000 := by change m.counter + 2 ≤ 0x1000; omega
    rw [step_of_executed hp hf hw (execute_begun_of_cleared h.steady hc)]
    exact ((h.begun hu word).execute hlow hhigh ((clearance_begun m word op).trans hc)).complete _ _ _

theorem key (h : m.WellFormed capacity) (key : Int) (down : Bool) :
    (m.setKey key down).state.WellFormed capacity := by
  unfold setKey
  cases m.keypad.setKey key down with
  | error e => exact h
  | ok keypad => exact { h with }

theorem load (h : m.WellFormed capacity) (program : List UInt8) :
    (m.load program).state.WellFormed capacity := by
  unfold Machine.load
  split
  · exact h
  · exact h.withMemory _ _

theorem respond (h : m.WellFormed capacity) (event : Event) :
    (m.respond event).WellFormed capacity := by
  cases event with
  | step s => exact h.step s
  | key key down => exact h.key key down
  | load program => exact h.load program
  | write address block => exact h.withMemory address block
  | reset => exact h.reset

theorem run (h : m.WellFormed capacity) (events : List Event) :
    (m.run events).WellFormed capacity := by
  induction events generalizing m with
  | nil => exact h
  | cons event rest ih => exact ih (h.respond event)

end WellFormed

theorem Reachable.run (h : m.Reachable capacity) (events : List Event) :
    (m.run events).Reachable capacity := by
  obtain ⟨toggles, watched, before, rfl⟩ := h
  refine ⟨toggles, watched, before ++ events, ?_⟩
  unfold Machine.run
  rw [List.foldl_append]

theorem Reachable.step (h : m.Reachable capacity) (s : Surroundings) :
    (m.step s).machine.Reachable capacity := h.run [.step s]

def booted (capacity : Int) (program : List UInt8) : Machine :=
  (boot false false capacity).run [.load program]

theorem reachable_booted (capacity : Int) (program : List UInt8) :
    (booted capacity program).Reachable capacity := ⟨false, false, [.load program], rfl⟩

def quiet : Surroundings := ⟨fun _ => 0, false⟩

theorem Reachable.wellFormed (h : m.Reachable capacity) : m.WellFormed capacity := by
  obtain ⟨toggles, watched, events, rfl⟩ := h
  exact (WellFormed.boot toggles watched capacity).run events

/-- What a machine keeps to, whatever its host does with it.  That pixels and keys are either on
or off, and that a key wait has a register, is said by their types. -/
theorem run_boot_bounds (toggles watched : Bool) (capacity : Int) (events : List Event) :
    let m := (boot toggles watched capacity).run events
    m.memory.cells.size = 4096 ∧
    (m.registers.toList.length = 16 ∧ ∀ value ∈ m.registers.toList, value.toNat ≤ 255) ∧
    (0 ≤ m.index ∧ m.index ≤ 0xFFFF) ∧
    (0 ≤ m.delay ∧ m.delay ≤ 255) ∧
    (0 ≤ m.sound ∧ m.sound ≤ 255) ∧
    (0 ≤ m.counter ∧ m.counter ≤ 0x10FE) ∧
    (m.stack.toList.length ≤ capacity.toNat ∧
      ∀ entry ∈ m.stack.toList, 2 ≤ entry ∧ entry ≤ 0x1000) ∧
    (m.display.width = 64 ∧ m.display.height = 32 ∧ m.display.plane.cells.size = 2048) ∧
    m.keypad.toList.length = 16 ∧
    (m.isWaiting = true ↔ ∃ target : Register, m.phase = .waitingForKey target) := by
  intro m
  have h : m.WellFormed capacity := (WellFormed.boot toggles watched capacity).run events
  refine ⟨?_, ⟨Vector.length_toList, ?_⟩, ⟨h.index_nonneg, h.index_le⟩,
    ⟨h.delay_nonneg, h.delay_le⟩, ⟨h.sound_nonneg, h.sound_le⟩,
    ⟨h.counter_nonneg, h.counter_le⟩, ⟨?_, ?_⟩, ⟨h.width, h.height, ?_⟩,
    Vector.length_toList, ?_⟩
  · rw [m.memory.size_cells, h.size_memory]
    rfl
  · intro value _
    exact Nat.le_of_lt_succ value.toNat_lt
  · unfold CallStack.toList
    rw [List.length_reverse]
    exact h.depth_le
  · intro entry he
    exact h.entry_bounds entry (List.mem_reverse.mp he)
  · rw [m.display.plane.size_cells, h.size_plane]
    rfl
  · unfold isWaiting
    cases m.phase with
    | running => simp
    | waitingForKey target => simp

end Machine

end ChipEight
