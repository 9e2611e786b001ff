import ChipEight.Proofs.CallDiscipline

/-!
# What a step changes

A step that returns has either executed the instruction at the program counter or looked at the
keypad for a key wait.  To the footprint of that instruction it adds the tick of the timers, and
the end of a wait writes the one register that waits.  Everything else is as it was before.
-/

namespace ChipEight

def Outcome.Performed (outcome : Outcome) (op : Operation) : Prop :=
  outcome.instruction.map Instruction.operation = some op

namespace Machine

variable {s : Surroundings} {m n : Machine} {op : Operation} {capacity : Int} {outcome : Outcome}
  {target : Register} {word : Int}

theorem WellFormed.step_of_ok (h : m.WellFormed capacity)
    (ho : (m.step s).result = .ok outcome) :
    (∃ target, m.phase = .waitingForKey target) ∨
    ∃ op, m.phase = .running ∧ m.Upcoming op ∧ m.clearance op = .ok () := by
  cases m.course with
  | waiting target hp => exact .inl ⟨target, hp⟩
  | unfetched a hp hf =>
    rw [step_of_unfetched hp hf] at ho
    cases ho
  | unknown word hp hf hw =>
    rw [step_of_unknown hp hf hw] at ho
    cases ho
  | refused word op f hp hf hw hc =>
    rw [step_of_refused hp hf hw hc] at ho
    cases ho
  | executed word op hp hf hw hc => exact .inr ⟨op, hp, h.upcoming_of_fetched hf hw, hc⟩

theorem WellFormed.performed_of_upcoming (h : m.WellFormed capacity) (hp : m.phase = .running)
    (hu : m.Upcoming op) (ho : (m.step s).result = .ok outcome) : outcome.Performed op := by
  rw [h.step_of_upcoming hp hu (h.clearance_of_ok hp hu ho)] at ho
  cases ho
  rfl

theorem record_step (hm : m.Steady) (hp : m.phase = .running) (s : Surroundings) :
    (m.step s).machine.lastCounter = m.counter ∧
    (m.step s).machine.lastWord = m.fetch.toOption.getD m.lastWord := by
  cases m.course with
  | waiting target hw =>
    rw [hp] at hw
    cases hw
  | unfetched a _ hf =>
    rw [step_of_unfetched hp hf]
    exact ⟨rfl, rfl⟩
  | unknown word _ hf hw =>
    rw [step_of_unknown hp hf hw]
    exact ⟨rfl, rfl⟩
  | refused word op f _ hf hw hc =>
    rw [step_of_refused hp hf hw hc]
    exact ⟨rfl, rfl⟩
  | executed word op _ hf hw hc =>
    have hx := execute_confined s (m.begun word) op
    rw [step_of_executed hp hf hw (execute_begun_of_cleared hm hc), hf]
    exact ⟨hx.lastCounter, hx.lastWord⟩

theorem WellFormed.step_fetches (h : m.WellFormed capacity) (hp : m.phase = .running)
    (s : Surroundings) :
    (m.step s).machine.lastCounter = m.counter ∧
    (m.counter ≤ 0xFFE → (m.step s).machine.lastWord = m.memory.word m.counter) ∧
    (0xFFE < m.counter → ∃ a, (m.step s).result = .error (.fault (.outOfBounds a))) := by
  obtain ⟨hcounter, hword⟩ := record_step h.steady hp s
  refine ⟨hcounter, ?_, ?_⟩
  · intro hu
    rw [hword, h.fetch_eq_ok hu]
    rfl
  · intro hu
    obtain ⟨a, ha⟩ := h.fetch_eq_error hu
    refine ⟨a, ?_⟩
    rw [step_of_unfetched hp ha]

/-- All that may differ after a step that returned, and by which instruction. -/
structure Changes (m : Machine) (outcome : Outcome) (n : Machine) : Prop where
  performed : ∀ op, outcome.Performed op → m.phase = .running ∧ m.Upcoming op
  memory : ∀ a, n.memory.get? a ≠ m.memory.get? a →
    (∃ x, outcome.Performed (.storeDecimal x) ∧ m.index ≤ a ∧ a ≤ m.index + 2) ∨
    ∃ x, outcome.Performed (.storeRegisters x) ∧ m.index ≤ a ∧ a ≤ m.index + x.val
  pixels : ∀ x y, n.display.isLit x y ≠ m.display.isLit x y →
    ∃ op, outcome.Performed op ∧ op.Draws
  stack : n.stack ≠ m.stack →
    (∃ target, outcome.Performed (.call target) ∧
      n.stack.toList = m.stack.toList ++ [m.counter + 2]) ∨
    (outcome.Performed .ret ∧ ∃ entry, m.stack.toList = n.stack.toList ++ [entry])
  index : n.index ≠ m.index → ∃ op, outcome.Performed op ∧ op.SetsIndex
  delay : n.delay ≠ max 0 (m.delay - 1) → ∃ x, outcome.Performed (.setDelay x)
  sound : n.sound ≠ max 0 (m.sound - 1) → ∃ x, outcome.Performed (.setSound x)
  phase : n.phase ≠ m.phase →
    (∃ x, outcome.Performed (.awaitKey x) ∧ n.phase = .waitingForKey x) ∨
    (outcome.instruction = none ∧ m.isWaiting = true ∧ n.phase = .running)
  keypad : n.keypad = m.keypad
  registers : ∀ r : Register, n.registers.get r ≠ m.registers.get r →
    (∃ op, outcome.Performed op ∧ op.Writes r) ∨
    (outcome.instruction = none ∧ m.phase = .waitingForKey r ∧ n.phase = .running)

theorem delay_tick (h : 0 ≤ m.delay) : m.tick.delay = max 0 (m.delay - 1) := by
  change (if 0 < m.delay then m.delay - 1 else m.delay) = _
  omega

theorem sound_tick (h : 0 ≤ m.sound) : m.tick.sound = max 0 (m.sound - 1) := by
  change (if 0 < m.sound then m.sound - 1 else m.sound) = _
  omega

theorem takeKey_confined (m : Machine) (target : Register) :
    ∃ registers phase, m.takeKey target = { m with registers, phase } ∧
      ((registers = m.registers ∧ phase = m.phase) ∨
        (phase = .running ∧ ∀ r : Register, r ≠ target → registers.get r = m.registers.get r)) := by
  unfold takeKey
  split
  · exact ⟨_, _, rfl, .inr ⟨rfl, fun r hr => get_setRegister_of_ne m hr _⟩⟩
  · exact ⟨_, _, rfl, .inl ⟨rfl, rfl⟩⟩

theorem WellFormed.changes_of_waiting (h : m.WellFormed capacity)
    (hp : m.phase = .waitingForKey target) (ho : (m.step s).result = .ok outcome) :
    m.Changes outcome (m.step s).machine := by
  rw [step_of_waiting hp] at ho ⊢
  obtain rfl := Except.ok.inj ho
  obtain ⟨registers, phase, htake, hkey⟩ := m.takeKey_confined target
  rw [htake]
  exact {
    performed := fun op hop => nomatch hop
    memory := fun a ha => absurd rfl ha
    pixels := fun x y hn => absurd rfl hn
    stack := fun hn => absurd rfl hn
    index := fun hn => absurd rfl hn
    delay := fun hn => absurd (delay_tick (m := { m with registers, phase }) h.delay_nonneg) hn
    sound := fun hn => absurd (sound_tick (m := { m with registers, phase }) h.sound_nonneg) hn
    phase := fun hn => by
      obtain ⟨-, hkept⟩ | ⟨hr, -⟩ := hkey
      · exact absurd hkept hn
      · refine .inr ⟨rfl, ?_, hr⟩
        rw [isWaiting, hp]
    keypad := rfl
    registers := fun r hn => by
      obtain ⟨rfl, -⟩ | ⟨hr, hothers⟩ := hkey
      · exact absurd rfl hn
      · obtain rfl | hne := eq_or_ne r target
        · exact .inr ⟨rfl, hp, hr⟩
        · exact absurd (hothers r hne) hn }

theorem WellFormed.changes_of_upcoming (h : m.WellFormed capacity) (hp : m.phase = .running)
    (hu : m.Upcoming op) (ho : (m.step s).result = .ok outcome) :
    m.Changes outcome (m.step s).machine := by
  have hperf {op' : Operation} (hu' : m.Upcoming op') : outcome.Performed op' :=
    h.performed_of_upcoming hp hu' ho
  have hx := execute_confined s (m.begun (m.memory.word m.counter)) op
  have hmove := stackMove_step h s
  rw [h.step_of_upcoming hp hu (h.clearance_of_ok hp hu ho)] at hmove ⊢
  exact {
    performed := fun op' hop => by
      obtain rfl := Option.some.inj (hop.symm.trans (hperf hu))
      exact ⟨hp, hu⟩
    memory := fun a ha => by
      obtain hkept | ⟨hl, hr⟩ := hx.memory a
      · exact absurd hkept ha
      · change m.index ≤ a at hl
        change a < m.index + op.stored at hr
        obtain ⟨x, rfl, hs⟩ | ⟨x, rfl, hs⟩ := op.stored_cases (by omega)
        · exact .inl ⟨x, hperf hu, hl, by omega⟩
        · exact .inr ⟨x, hperf hu, hl, by omega⟩
    pixels := fun x y hn => by
      obtain hkept | hd := hx.display
      · exact absurd (congrArg (fun d => d.isLit x y) hkept) hn
      · exact ⟨op, hperf hu, hd⟩
    stack := fun hn => by
      cases hmove with
      | kept stack => exact absurd stack hn
      | called target upcoming entries =>
        refine .inl ⟨target, hperf upcoming, ?_⟩
        simp [CallStack.toList, entries]
      | returned entry _ upcoming entries _ _ _ =>
        refine .inr ⟨hperf upcoming, entry, ?_⟩
        simp [CallStack.toList, entries]
    index := fun hn => by
      obtain hkept | hi := hx.index
      · exact absurd hkept hn
      · exact ⟨op, hperf hu, hi⟩
    delay := fun hn => by
      obtain hkept | ⟨x, rfl⟩ := hx.delay
      · have hl : 0 ≤ m.delay := h.delay_nonneg
        exact absurd ((delay_tick (hkept ▸ hl)).trans (by rw [hkept]; rfl)) hn
      · exact ⟨x, hperf hu⟩
    sound := fun hn => by
      obtain hkept | ⟨x, rfl⟩ := hx.sound
      · have hl : 0 ≤ m.sound := h.sound_nonneg
        exact absurd ((sound_tick (hkept ▸ hl)).trans (by rw [hkept]; rfl)) hn
      · exact ⟨x, hperf hu⟩
    phase := fun hn => by
      obtain hkept | ⟨x, rfl, hw⟩ := hx.phase
      · exact absurd hkept hn
      · exact .inl ⟨x, hperf hu, hw⟩
    keypad := hx.keypad
    registers := fun r hn => by
      obtain hkept | hw := hx.registers r
      · exact absurd hkept hn
      · exact .inl ⟨op, hperf hu, hw⟩ }

/-- A step that returns changes nothing but what its instruction is there to change. -/
theorem step_changes (h : m.Reachable capacity) (ho : (m.step s).result = .ok outcome) :
    m.Changes outcome (m.step s).machine := by
  have hm := h.wellFormed
  obtain ⟨target, hp⟩ | ⟨op, hp, hu, -⟩ := hm.step_of_ok ho
  · exact hm.changes_of_waiting hp ho
  · exact hm.changes_of_upcoming hp hu ho

theorem step_changes_booted :
    let m := (booted 16 [0xA3, 0x00, 0xF3, 0x55]).run [.step quiet]
    let n := (m.step quiet).machine
    m.Reachable 16 ∧ m.phase = .running ∧ m.Upcoming (.storeRegisters 3) ∧
    (∃ outcome, (m.step quiet).result = .ok outcome ∧ m.Changes outcome n) ∧
    (∀ a, a < 0x300 ∨ 0x303 < a → n.memory.get? a = m.memory.get? a) ∧ n.index = 0x300 := by
  intro m n
  have h : m.Reachable 16 := (reachable_booted 16 _).run _
  have hs : m.phase = .running ∧ m.counter ≤ 0xFFE ∧
      Operation.ofWord? (m.memory.word m.counter) = some (.storeRegisters 3) ∧
      m.clearance (.storeRegisters 3) = .ok () ∧ m.index = 0x300 := by
    decide +kernel
  obtain ⟨hp, hcounter, hw, hc, hindex⟩ := hs
  have hu : m.Upcoming (.storeRegisters 3) := ⟨hcounter, hw⟩
  obtain ⟨outcome, ho⟩ : ∃ outcome, (m.step quiet).result = .ok outcome := by
    rw [h.wellFormed.step_of_upcoming hp hu hc]
    exact ⟨_, rfl⟩
  have hchanges := step_changes h ho
  have hperf := h.wellFormed.performed_of_upcoming hp hu ho
  refine ⟨h, hp, hu, ⟨outcome, ho, hchanges⟩, ?_, ?_⟩
  · intro a ha
    by_contra hn
    obtain ⟨x, hop, -, -⟩ | ⟨x, hop, hl, hr⟩ := hchanges.memory a hn
    · cases hop.symm.trans hperf
    · cases hop.symm.trans hperf
      rw [hindex] at hl hr
      change a ≤ 0x300 + 3 at hr
      omega
  · by_contra hn
    have hne : n.index ≠ m.index := by rwa [hindex]
    obtain ⟨op, hop, hi⟩ := hchanges.index hne
    obtain rfl := Option.some.inj (hop.symm.trans hperf)
    simp [Operation.SetsIndex] at hi

end Machine

end ChipEight
