import ChipEight.Proofs.Changes

/-!
# Waiting for a key

A machine that waits looks at nothing but the keypad, and only when it is stepped.  Steps without
a key let the timers run and nothing else, for as long as it takes and wherever the program
counter points.  The first step that finds keys down takes the lowest of them, and the program
goes on behind the instruction that asked for it.
-/

namespace ChipEight

/-- Steps and key events, as a host delivers them to a running program. -/
def Event.Live : Event → Prop
  | .step _ | .key _ _ => True
  | _ => False

def Event.isStep : Event → Bool
  | .step _ => true
  | _ => false

theorem Display.takeChanged_of_unchanged {d : Display} (h : d.changed = false) :
    d.takeChanged = (false, d) := by
  cases d
  cases h
  rfl

namespace Keypad

theorem exists_first? {k : Keypad} (h : ∃ key, k.get key = true) :
    ∃ key, k.first? = some key ∧ k.get key = true ∧
      ∀ lower, lower < key → k.get lower = false := by
  cases hf : k.first? with
  | none =>
    obtain ⟨key, hk⟩ := h
    rw [(k.first?_eq_none_iff.mp hf) key] at hk
    cases hk
  | some key =>
    obtain ⟨hk, i, hi, rfl, hbefore⟩ := List.find?_eq_some_iff_getElem.mp hf
    refine ⟨_, rfl, hk, ?_⟩
    intro lower hl
    have hlt : lower.val < i := by simpa [Fin.lt_def] using hl
    change k[lower] = false
    simpa using hbefore lower.val hlt

/-- The keypad after a key event.  A number that names no key is refused. -/
def tap (k : Keypad) (t : Int × Bool) : Keypad := (k.setKey t.1 t.2).toOption.getD k

theorem get_tap (k : Keypad) (t : Int × Bool) (key : Fin 16) :
    (k.tap t).get key = if t.1 = key.val then t.2 else k.get key := by
  unfold tap setKey
  split
  · rename_i h
    have hiff : (⟨t.1.toNat, by omega⟩ : Fin 16) = key ↔ t.1 = key.val := by
      rw [Fin.ext_iff]
      change t.1.toNat = key.val ↔ t.1 = key.val
      omega
    simp only [Except.toOption, Option.getD_some, get_press, hiff]
  · have hne : t.1 ≠ key.val := by omega
    simp [Except.toOption, hne]

def without (key : Fin 16) (taps : List (Int × Bool)) : List (Int × Bool) :=
  taps.filter fun t => t.1 ≠ (key.val : Int)

theorem get_foldl_tap_without (k : Keypad) (key : Fin 16) (taps : List (Int × Bool)) :
    ((without key taps).foldl tap k).get key = k.get key := by
  induction taps generalizing k with
  | nil => rfl
  | cons t rest ih =>
    by_cases ht : t.1 = key.val
    · have hw : without key (t :: rest) = without key rest := by simp [without, ht]
      rw [hw, ih]
    · have hw : without key (t :: rest) = t :: without key rest := by simp [without, ht]
      rw [hw, List.foldl_cons, ih, get_tap, if_neg ht]

theorem get_foldl_tap_without_of_ne {k l : Keypad} {key other : Fin 16} (hne : other ≠ key)
    (taps : List (Int × Bool)) (hkl : l.get other = k.get other) :
    ((without key taps).foldl tap l).get other = (taps.foldl tap k).get other := by
  induction taps generalizing k l with
  | nil => exact hkl
  | cons t rest ih =>
    rw [List.foldl_cons]
    by_cases ht : t.1 = key.val
    · have hw : without key (t :: rest) = without key rest := by simp [without, ht]
      have ho : t.1 ≠ other.val := by
        rw [ht]
        exact fun he => hne (Fin.ext (Int.ofNat.inj he.symm))
      rw [hw]
      apply ih
      rw [get_tap, if_neg ho, hkl]
    · have hw : without key (t :: rest) = t :: without key rest := by simp [without, ht]
      rw [hw, List.foldl_cons]
      apply ih
      rw [get_tap, get_tap, hkl]

theorem foldl_tap_without {k : Keypad} {key : Fin 16} {taps : List (Int × Bool)}
    (h : (taps.foldl tap k).get key = k.get key) :
    (without key taps).foldl tap k = taps.foldl tap k := by
  apply Vector.ext
  intro i hi
  obtain he | hne := eq_or_ne (⟨i, hi⟩ : Fin 16) key
  · subst he
    exact (get_foldl_tap_without k ⟨i, hi⟩ taps).trans h.symm
  · exact get_foldl_tap_without_of_ne hne taps rfl

end Keypad

namespace Machine

variable {s : Surroundings} {m : Machine} {x : Register} {capacity : Int} {outcome : Outcome}
  {events : List Event}

/-- The machine when its timers have ticked a number of times. -/
def passed (m : Machine) (ticks : Nat) : Machine :=
  { m with delay := max 0 (m.delay - ticks), sound := max 0 (m.sound - ticks) }

theorem passed_passed (m : Machine) (first second : Nat) :
    (m.passed first).passed second = m.passed (first + second) := by
  have hd : max 0 (max 0 (m.delay - first) - second) =
      max 0 (m.delay - (first + second : Nat)) := by omega
  have hs : max 0 (max 0 (m.sound - first) - second) =
      max 0 (m.sound - (first + second : Nat)) := by omega
  simp only [passed, hd, hs]

theorem tick_eq_passed (hd : 0 ≤ m.delay) (hs : 0 ≤ m.sound) : m.tick = m.passed 1 := by
  have hdelay : (if 0 < m.delay then m.delay - 1 else m.delay) = max 0 (m.delay - (1 : Nat)) := by
    omega
  have hsound : (if 0 < m.sound then m.sound - 1 else m.sound) = max 0 (m.sound - (1 : Nat)) := by
    omega
  rw [tick, hdelay, hsound, passed]

def afterTaps (m : Machine) (taps : List (Int × Bool)) : Machine :=
  m.run (taps.map fun t => .key t.1 t.2)

theorem respond_key (m : Machine) (key : Int) (down : Bool) :
    m.respond (.key key down) = { m with keypad := m.keypad.tap (key, down) } := by
  change (m.setKey key down).state = _
  unfold setKey Keypad.tap
  cases m.keypad.setKey key down with
  | error e => rfl
  | ok keypad => rfl

theorem afterTaps_eq (m : Machine) (taps : List (Int × Bool)) :
    m.afterTaps taps = { m with keypad := taps.foldl Keypad.tap m.keypad } := by
  induction taps generalizing m with
  | nil => rfl
  | cons t rest ih =>
    change (m.respond (.key t.1 t.2)).afterTaps rest = _
    rw [respond_key, ih]
    rfl

@[simp] theorem phase_afterTaps (m : Machine) (taps : List (Int × Bool)) :
    (m.afterTaps taps).phase = m.phase := by rw [afterTaps_eq]

@[simp] theorem counter_afterTaps (m : Machine) (taps : List (Int × Bool)) :
    (m.afterTaps taps).counter = m.counter := by rw [afterTaps_eq]

@[simp] theorem memory_afterTaps (m : Machine) (taps : List (Int × Bool)) :
    (m.afterTaps taps).memory = m.memory := by rw [afterTaps_eq]

/-- A machine in the middle of a key wait. -/
structure Waits (x : Register) (m : Machine) : Prop where
  phase : m.phase = .waitingForKey x
  unchanged : m.display.changed = false
  delay_nonneg : 0 ≤ m.delay
  sound_nonneg : 0 ≤ m.sound

/-- No step among the events finds a key down. -/
def Unanswered (m : Machine) : List Event → Prop
  | [] => True
  | event :: rest =>
    (event.isStep = true → ∀ key : Fin 16, m.keypad.get key = false) ∧
      (m.respond event).Unanswered rest

namespace Waits

theorem complete_eq (hu : m.display.changed = false) (hd : 0 ≤ m.delay) (hs : 0 ≤ m.sound) :
    m.complete none [] none =
      ⟨.ok ⟨none, false, (m.passed 1).delay, (m.passed 1).sound, m.isWaiting⟩, m.passed 1, [],
        none⟩ := by
  have htake : (m.passed 1).display.takeChanged = (false, m.display) :=
    Display.takeChanged_of_unchanged hu
  rw [complete, tick_eq_passed hd hs]
  simp only [htake]
  rfl

theorem step_of_up (h : m.Waits x) (hk : ∀ key : Fin 16, m.keypad.get key = false)
    (s : Surroundings) :
    m.step s =
      ⟨.ok ⟨none, false, (m.passed 1).delay, (m.passed 1).sound, true⟩, m.passed 1, [], none⟩ := by
  have htake : m.takeKey x = m := by
    unfold takeKey
    rw [m.keypad.first?_eq_none_iff.mpr hk]
  have hw : m.isWaiting = true := by
    unfold isWaiting
    rw [h.phase]
  rw [step_of_waiting h.phase, htake, complete_eq h.unchanged h.delay_nonneg h.sound_nonneg, hw]

theorem step_of_first? (h : m.Waits x) {key : Fin 16} (hk : m.keypad.first? = some key)
    (s : Surroundings) :
    m.step s =
      ⟨.ok ⟨none, false, (m.passed 1).delay, (m.passed 1).sound, false⟩,
        { (m.passed 1).setRegister x (UInt8.ofNat key.val) with phase := .running }, [], none⟩ := by
  have htake : m.takeKey x =
      { m.setRegister x (UInt8.ofNat key.val) with phase := .running } := by
    unfold takeKey
    rw [hk]
  rw [step_of_waiting h.phase, htake]
  exact complete_eq h.unchanged h.delay_nonneg h.sound_nonneg

theorem passed (h : m.Waits x) (ticks : Nat) : (m.passed ticks).Waits x where
  phase := h.phase
  unchanged := h.unchanged
  delay_nonneg := le_max_left 0 _
  sound_nonneg := le_max_left 0 _

theorem withKeypad (h : m.Waits x) (keypad : Keypad) : { m with keypad }.Waits x :=
  ⟨h.phase, h.unchanged, h.delay_nonneg, h.sound_nonneg⟩

theorem run (h : m.Waits x) (hlive : ∀ event ∈ events, event.Live) (hun : m.Unanswered events) :
    ∃ keypad, m.run events = { m.passed (events.countP Event.isStep) with keypad } := by
  induction events generalizing m with
  | nil =>
    have hd : max 0 (m.delay - (0 : Nat)) = m.delay := by
      have := h.delay_nonneg
      omega
    have hs : max 0 (m.sound - (0 : Nat)) = m.sound := by
      have := h.sound_nonneg
      omega
    refine ⟨m.keypad, ?_⟩
    change m = { m with delay := max 0 (m.delay - (0 : Nat)), sound := max 0 (m.sound - (0 : Nat)) }
    rw [hd, hs]
  | cons event rest ih =>
    have hrest : ∀ other ∈ rest, other.Live := fun other ho => hlive other (.tail event ho)
    obtain ⟨hup, htail⟩ := hun
    change ∃ keypad, (m.respond event).run rest = _
    cases event with
    | key key down =>
      rw [respond_key] at htail ⊢
      exact ih (h.withKeypad _) hrest htail
    | step s =>
      have hrespond : m.respond (.step s) = m.passed 1 := by
        change (m.step s).machine = m.passed 1
        rw [h.step_of_up (hup rfl)]
      have hcount : (Event.step s :: rest).countP Event.isStep =
          1 + rest.countP Event.isStep := by
        rw [List.countP_cons_of_pos rfl, Nat.add_comm]
      rw [hrespond] at htail ⊢
      obtain ⟨keypad, hrun⟩ := ih (h.passed 1) hrest htail
      rw [passed_passed, ← hcount] at hrun
      exact ⟨keypad, hrun⟩
    | load program | write address block | reset => exact absurd (hlive _ List.mem_cons_self) id

end Waits

theorem waits_of_performed (h : m.WellFormed capacity) (ho : (m.step s).result = .ok outcome)
    (hx : outcome.Performed (.awaitKey x)) :
    outcome.waiting = true ∧ (m.step s).machine.Waits x ∧
    (m.step s).machine.counter = m.counter + 2 ∧ (m.step s).machine.memory = m.memory := by
  have hn := h.step s
  obtain ⟨target, hw⟩ | ⟨op, hp, hu, hc⟩ := h.step_of_ok ho
  · rw [step_of_waiting hw] at ho
    cases ho
    cases hx
  · obtain rfl := Option.some.inj ((h.performed_of_upcoming hp hu ho).symm.trans hx)
    rw [h.step_of_upcoming hp hu hc] at hn ho ⊢
    cases ho
    exact ⟨rfl, ⟨rfl, rfl, hn.delay_nonneg, hn.sound_nonneg⟩, rfl, rfl⟩

/-- The key wait, whatever is stepped and pressed after the instruction.  Steps that find no key
down only let the timers run.  The first that finds one puts the lowest key that is down into the
register, changes nothing else but the timers, and the step after it fetches behind the
instruction.  Only the keys that are down when the machine is stepped count. -/
theorem key_wait (h : m.Reachable capacity) (ho : (m.step s).result = .ok outcome)
    (hx : outcome.Performed (.awaitKey x)) (hlive : ∀ event ∈ events, event.Live)
    (hun : (m.step s).machine.Unanswered events) :
    let n := (m.step s).machine
    let w := n.run events
    outcome.waiting = true ∧
    (w.phase = .waitingForKey x ∧ w.counter = m.counter + 2 ∧
      ∃ keypad, w = { n.passed (events.countP Event.isStep) with keypad }) ∧
    (∀ s', (∀ key : Fin 16, w.keypad.get key = false) →
      w.step s' =
        ⟨.ok ⟨none, false, (w.passed 1).delay, (w.passed 1).sound, true⟩, w.passed 1, [], none⟩) ∧
    (∀ s', (∃ key : Fin 16, w.keypad.get key = true) →
      ∃ key : Fin 16, w.keypad.get key = true ∧
        (∀ lower : Fin 16, lower < key → w.keypad.get lower = false) ∧
        w.step s' =
          ⟨.ok ⟨none, false, (w.passed 1).delay, (w.passed 1).sound, false⟩,
            { (w.passed 1).setRegister x (UInt8.ofNat key.val) with phase := .running }, [], none⟩ ∧
        ∀ taps s'', let r := (w.step s').machine.afterTaps taps
          (r.step s'').machine.lastCounter = m.counter + 2 ∧
          (m.counter + 2 ≤ 0xFFE →
            (r.step s'').machine.lastWord = m.memory.word (m.counter + 2)) ∧
          (0xFFE < m.counter + 2 →
            ∃ a, (r.step s'').result = .error (.fault (.outOfBounds a)))) ∧
    ∀ (taps : List (Int × Bool)) (key : Fin 16),
      (w.afterTaps taps).keypad.get key = w.keypad.get key →
      w.afterTaps (Keypad.without key taps) = w.afterTaps taps := by
  intro n w
  have hm := h.wellFormed
  obtain ⟨hwaiting, hn, hcounter, hmemory⟩ := waits_of_performed hm ho hx
  obtain ⟨keypad, hrun⟩ : ∃ keypad, w = { n.passed (events.countP Event.isStep) with keypad } :=
    hn.run hlive hun
  have hwell : w.WellFormed capacity := (hm.step s).run events
  have hw : w.Waits x := by
    rw [hrun]
    exact (hn.passed _).withKeypad keypad
  have hbehind : w.counter = m.counter + 2 := by
    rw [hrun]
    exact hcounter
  have hsame : w.memory = m.memory := by
    rw [hrun]
    exact hmemory
  refine ⟨hwaiting, ⟨hw.phase, hbehind, keypad, hrun⟩, ?_, ?_, ?_⟩
  · exact fun s' hk => hw.step_of_up hk s'
  · intro s' hk
    obtain ⟨key, hfirst, hdown, hlower⟩ := Keypad.exists_first? hk
    have hstep := hw.step_of_first? hfirst s'
    refine ⟨key, hdown, hlower, hstep, ?_⟩
    intro taps s'' r
    have hp : r.phase = .running := (phase_afterTaps _ taps).trans (by rw [hstep])
    have hc : r.counter = m.counter + 2 :=
      (counter_afterTaps _ taps).trans (by rw [hstep]; exact hbehind)
    have hmem : r.memory = m.memory := (memory_afterTaps _ taps).trans (by rw [hstep]; exact hsame)
    have hfetch := ((hwell.step s').run _).step_fetches hp s''
    rw [← hc, ← hmem]
    exact hfetch
  · intro taps key hkey
    rw [afterTaps_eq] at hkey
    rw [afterTaps_eq, afterTaps_eq, Keypad.foldl_tap_without hkey]

/-- A wait behind the last word of memory: key 9 comes and goes between two steps, and of the keys
5 and 12 the lower one counts. -/
theorem key_wait_booted :
    let m := (booted 16 [0x1F, 0xFE]).run [.write 0xFFE [0xF3, 0x0A], .step quiet]
    let w := (m.step quiet).machine.run
      [.step quiet, .key 9 true, .key 9 false, .step quiet, .key 12 true, .key 5 true]
    m.Reachable 16 ∧ m.counter = 0xFFE ∧ w.phase = .waitingForKey 3 ∧
    (∃ key : Fin 16, w.keypad.get key = true ∧
      (w.step quiet).machine.registers = w.registers.set 3 (UInt8.ofNat key.val)) ∧
    ∃ a, ((w.step quiet).machine.step quiet).result = .error (.fault (.outOfBounds a)) := by
  intro m w
  have h : m.Reachable 16 := (reachable_booted 16 _).run _
  have hs : m.phase = .running ∧ m.counter = 0xFFE ∧
      Operation.ofWord? (m.memory.word m.counter) = some (.awaitKey 3) ∧
      m.clearance (.awaitKey 3) = .ok () ∧ w.keypad.get 5 = true ∧
      (∀ key : Fin 16, (m.step quiet).machine.keypad.get key = false) ∧
      ∀ key : Fin 16, ((m.step quiet).machine.run
        [.step quiet, .key 9 true, .key 9 false]).keypad.get key = false := by
    decide +kernel
  obtain ⟨hp, hcounter, hw, hc, hdown, hfirst, hsecond⟩ := hs
  have hu : m.Upcoming (.awaitKey 3) := ⟨hcounter.le, hw⟩
  obtain ⟨outcome, ho⟩ : ∃ outcome, (m.step quiet).result = .ok outcome := by
    rw [h.wellFormed.step_of_upcoming hp hu hc]
    exact ⟨_, rfl⟩
  have hx := h.wellFormed.performed_of_upcoming hp hu ho
  have hun : (m.step quiet).machine.Unanswered
      [.step quiet, .key 9 true, .key 9 false, .step quiet, .key 12 true, .key 5 true] :=
    ⟨fun _ => hfirst, nofun, nofun, fun _ => hsecond, nofun, nofun, trivial⟩
  obtain ⟨-, ⟨hphase, -, -⟩, -, hanswer, -⟩ := key_wait h ho hx (by simp [Event.Live]) hun
  obtain ⟨key, hkey, -, hstep, hnext⟩ := hanswer quiet ⟨5, hdown⟩
  obtain ⟨-, -, hfault⟩ := hnext [] quiet
  have hlate : 0xFFE < m.counter + 2 := by
    rw [hcounter]
    decide
  have hset (n : Machine) (value : UInt8) :
      ((n.passed 1).setRegister 3 value).registers = n.registers.set 3 value := rfl
  have hregisters : (w.step quiet).machine.registers = w.registers.set 3 (UInt8.ofNat key.val) := by
    simp only [w, hstep, hset]
  exact ⟨h, hcounter, hphase, ⟨key, hkey, hregisters⟩, hfault hlate⟩

end Machine

end ChipEight
