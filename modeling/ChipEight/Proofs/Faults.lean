import ChipEight.Proofs.Reachable

/-!
# Faults

A fault leaves a machine as it was.  It comes back with every further step, until the host steps
in, and which fault it is can be told from the machine before the step.
-/

namespace ChipEight.Machine

variable {s : Surroundings} {m : Machine} {e : Error} {capacity : Int}

structure Stuck (m : Machine) (e : Error) : Prop where
  steady : m.Steady
  running : m.phase = .running
  verdict : m.verdict = .error e
  recorded : m.recorded = m

theorem Stuck.result_step (h : m.Stuck e) (s : Surroundings) : (m.step s).result = .error e :=
  (result_step_eq_error_iff h.steady h.running e).mpr h.verdict

theorem Stuck.machine_step (h : m.Stuck e) (s : Surroundings) : (m.step s).machine = m :=
  (step_of_error h.steady (h.result_step s)).1.trans h.recorded

theorem Stuck.run (h : m.Stuck e) (later : List Surroundings) : m.run (later.map .step) = m := by
  induction later with
  | nil => rfl
  | cons s rest ih =>
    change (m.step s).machine.run (rest.map .step) = m
    rw [h.machine_step s]
    exact ih

theorem running_of_error (h : (m.step s).result = .error e) : m.phase = .running := by
  cases hp : m.phase with
  | running => rfl
  | waitingForKey target =>
    obtain ⟨outcome, ho⟩ := result_step_of_waiting (s := s) hp
    rw [h] at ho
    cases ho

theorem stuck_of_error (hm : m.Steady) (h : (m.step s).result = .error e) :
    (m.step s).machine.Stuck e := by
  have hp := running_of_error h
  have hv := (result_step_eq_error_iff hm hp e).mp h
  rw [(step_of_error hm h).1]
  exact ⟨⟨hm.whole, hm.delay_nonneg, hm.delay_lt⟩, hp, m.verdict_recorded.trans hv,
    m.recorded_recorded⟩

/-- A fault changes nothing but the record of the attempted instruction, and nothing is shown.
Further steps then change nothing at all and come to the same fault. -/
theorem step_of_fault {f : Fault} (h : m.Reachable capacity)
    (hf : (m.step s).result = .error (.fault f)) :
    (m.step s).machine =
      { m with
        lastCounter := m.counter
        lastWord := match m.fetch with
          | .ok word => word
          | .error _ => m.lastWord } ∧
    (m.step s).signals = [] ∧
    ∀ (later : List Surroundings) (s' : Surroundings),
      (m.step s).machine.run (later.map .step) = (m.step s).machine ∧
      (((m.step s).machine.run (later.map .step)).step s').result = .error (.fault f) := by
  have hm := h.wellFormed.steady
  have hs := stuck_of_error hm hf
  obtain ⟨hmachine, hsignals⟩ := step_of_error hm hf
  refine ⟨?_, hsignals, ?_⟩
  · rw [hmachine]
    unfold recorded
    cases m.fetch with
    | ok word => rfl
    | error e => rfl
  · intro later s'
    have hr := hs.run later
    rw [hr]
    exact ⟨rfl, hs.result_step s'⟩

theorem step_of_fault_booted :
    (booted 16 [0x00, 0xEE]).Reachable 16 ∧
    ((booted 16 [0x00, 0xEE]).step quiet).result = .error (.fault .stackUnderflow) ∧
    ((booted 16 [0x00, 0xEE]).step quiet).signals = [] ∧
    ∀ later : List Surroundings, (((booted 16 [0x00, 0xEE]).step quiet).machine.run
      (later.map .step)).stack.entries = [] := by
  have h := reachable_booted 16 [0x00, 0xEE]
  have hf : ((booted 16 [0x00, 0xEE]).step quiet).result = .error (.fault .stackUnderflow) := by
    apply (result_step_eq_error_iff h.wellFormed.steady rfl _).mpr
    decide +kernel
  obtain ⟨hmachine, hsignals, hlater⟩ := step_of_fault h hf
  refine ⟨h, hf, hsignals, ?_⟩
  intro later
  rw [(hlater later quiet).1, hmachine]
  rfl

/-- The operation at the program counter, if a word can be fetched from there. -/
def Upcoming (m : Machine) (op : Operation) : Prop :=
  m.counter ≤ 0xFFE ∧ Operation.ofWord? (m.memory.word m.counter) = some op

instance : Decidable (m.Upcoming op) :=
  inferInstanceAs (Decidable (m.counter ≤ 0xFFE ∧ _))

/-- Whether the bytes an operation touches go past the end of memory. -/
def Overreaches (m : Machine) : Operation → Prop
  | .draw _ _ rows => 0 < rows.val ∧ 0xFFF < m.index + rows.val - 1
  | .storeDecimal _ => 0xFFF < m.index + 2
  | .storeRegisters x => 0xFFF < m.index + x.val
  | .loadRegisters x => 0xFFF < m.index + x.val
  | _ => False

/-- The faults that the next step runs into, with a stack of the given capacity. -/
inductive Foreseen (m : Machine) (capacity : Int) : Fault → Prop
  | unfetched {a : Int} (counter : 0xFFE < m.counter)
      (fetch : m.fetch = .error (.fault (.outOfBounds a))) : Foreseen m capacity (.outOfBounds a)
  | unlisted (counter : m.counter ≤ 0xFFE) (word : ¬ Word.Listed (m.memory.word m.counter)) :
      Foreseen m capacity (.unknownOpcode (m.memory.word m.counter))
  | overreach {op : Operation} {a : Int} (upcoming : m.Upcoming op) (past : m.Overreaches op)
      (clearance : m.clearance op = .error (.fault (.outOfBounds a))) :
      Foreseen m capacity (.outOfBounds a)
  | overflow {target : Address} (upcoming : m.Upcoming (.call target))
      (full : m.stack.depth = capacity.toNat) : Foreseen m capacity .stackOverflow
  | underflow (upcoming : m.Upcoming .ret) (empty : m.stack.depth = 0) :
      Foreseen m capacity .stackUnderflow

namespace WellFormed

variable {op : Operation} {f : Fault}

theorem fits_span_iff (h : m.WellFormed capacity) (op : Operation) :
    m.memory.Fits m.index op.span ↔ ¬ m.Overreaches op := by
  have hl := h.index_nonneg
  have hs := h.size_memory
  unfold Bank.Fits
  cases op with
  | draw x y rows | storeDecimal x | storeRegisters x | loadRegisters x =>
    simp only [Operation.span, Overreaches]
    omega
  | _ => simp [Operation.span, Overreaches]

theorem clearance_of_overreaches (h : m.WellFormed capacity) (ho : m.Overreaches op) :
    ∃ a, m.clearance op = .error (.fault (.outOfBounds a)) := by
  have hn : ¬ m.memory.Fits m.index op.span := fun hf => (h.fits_span_iff op).mp hf ho
  obtain ⟨a, ha⟩ := Bank.checkRange_of_not_fits hn
  cases op with
  | ret => cases ho
  | call target => cases ho
  | _ => exact ⟨a, ha⟩

theorem fetch_eq_ok (h : m.WellFormed capacity) (hu : m.counter ≤ 0xFFE) :
    m.fetch = .ok (m.memory.word m.counter) := fetch_of_fits (h.fits_counter_iff.mpr hu)

theorem fetch_eq_error (h : m.WellFormed capacity) (hu : 0xFFE < m.counter) :
    ∃ a, m.fetch = .error (.fault (.outOfBounds a)) := by
  apply fetch_of_not_fits
  intro hf
  have hc := h.fits_counter_iff.mp hf
  omega

theorem verdict_of_upcoming (h : m.WellFormed capacity) (hu : m.Upcoming op) :
    m.verdict = m.clearance op := verdict_of_known (h.fetch_eq_ok hu.1) hu.2

theorem upcoming_of_fetched {word : Int} (h : m.WellFormed capacity) (hf : m.fetch = .ok word)
    (hw : Operation.ofWord? word = some op) : m.Upcoming op := by
  have hu := h.counter_le_of_fetched hf
  rw [h.fetch_eq_ok hu] at hf
  exact ⟨hu, Except.ok.inj hf ▸ hw⟩

theorem step_of_upcoming (h : m.WellFormed capacity) (hp : m.phase = .running)
    (hu : m.Upcoming op) (hc : m.clearance op = .ok ()) :
    m.step s =
      ((m.begun (m.memory.word m.counter)).execute s op).state.1.complete
        (some ⟨op, m.memory.word m.counter⟩)
        ((m.begun (m.memory.word m.counter)).execute s op).state.2
        (traceOf s m (m.memory.word m.counter) op) :=
  step_of_executed hp (h.fetch_eq_ok hu.1) hu.2 (execute_begun_of_cleared h.steady hc)

theorem clearance_of_ok {outcome : Outcome} (h : m.WellFormed capacity) (hp : m.phase = .running)
    (hu : m.Upcoming op) (ho : (m.step s).result = .ok outcome) : m.clearance op = .ok () := by
  obtain hc | ⟨f, hc⟩ := m.clearance_cases op
  · exact hc
  · have hv := (h.verdict_of_upcoming hu).trans hc
    have he := (result_step_eq_error_iff (s := s) h.steady hp _).mpr hv
    rw [ho] at he
    cases he

theorem foreseen_of_clearance {e : Error} (h : m.WellFormed capacity) (hu : m.Upcoming op)
    (hc : m.clearance op = .error e) : ∃ f, e = .fault f ∧ m.Foreseen capacity f := by
  by_cases ho : m.Overreaches op
  · -- neither calls nor returns overreach
    obtain ⟨a, ha⟩ := h.clearance_of_overreaches ho
    rw [hc] at ha
    obtain rfl := Except.error.inj ha
    exact ⟨_, rfl, .overreach hu ho hc⟩
  · have hok := Bank.checkRange_of_fits ((h.fits_span_iff op).mpr ho)
    cases op with
    | ret =>
      simp only [clearance] at hc
      split at hc
      · rename_i hn
        cases hc
        exact ⟨_, rfl, .underflow hu (congrArg List.length hn)⟩
      · cases hc
    | call target =>
      have hcap := h.stack_capacity
      have hd := h.depth_le
      change m.stack.checkPush = .error e at hc
      unfold CallStack.checkPush at hc
      split at hc
      · cases hc
        exact ⟨_, rfl, .overflow hu (by omega)⟩
      · cases hc
    | _ => cases hok.symm.trans hc

theorem foreseen_of_verdict {e : Error} (h : m.WellFormed capacity)
    (hv : m.verdict = .error e) : ∃ f, e = .fault f ∧ m.Foreseen capacity f := by
  by_cases hu : m.counter ≤ 0xFFE
  · cases hw : Operation.ofWord? (m.memory.word m.counter) with
    | none =>
      rw [verdict_of_unknown (h.fetch_eq_ok hu) hw] at hv
      cases hv
      exact ⟨_, rfl, .unlisted hu ((Operation.ofWord?_eq_none_iff _).mp hw)⟩
    | some op =>
      have hup : m.Upcoming op := ⟨hu, hw⟩
      rw [h.verdict_of_upcoming hup] at hv
      exact h.foreseen_of_clearance hup hv
  · have hb : 0xFFE < m.counter := by omega
    obtain ⟨a, ha⟩ := h.fetch_eq_error hb
    rw [verdict_of_unfetched ha] at hv
    cases hv
    exact ⟨_, rfl, .unfetched hb ha⟩

theorem verdict_of_foreseen (h : m.WellFormed capacity) (hf : m.Foreseen capacity f) :
    m.verdict = .error (.fault f) := by
  cases hf with
  | unfetched _ fetch => exact verdict_of_unfetched fetch
  | unlisted counter word =>
    exact verdict_of_unknown (h.fetch_eq_ok counter) ((Operation.ofWord?_eq_none_iff _).mpr word)
  | overreach upcoming _ clearance => exact (h.verdict_of_upcoming upcoming).trans clearance
  | overflow upcoming full =>
    have hcap := h.stack_capacity
    rw [h.verdict_of_upcoming upcoming]
    exact if_pos (by omega)
  | underflow upcoming empty =>
    rw [h.verdict_of_upcoming upcoming]
    exact if_pos (List.eq_nil_of_length_eq_zero empty)

theorem result_step_eq_fault_iff (h : m.WellFormed capacity) (hp : m.phase = .running)
    (s : Surroundings) (f : Fault) :
    (m.step s).result = .error (.fault f) ↔ m.Foreseen capacity f := by
  rw [result_step_eq_error_iff h.steady hp]
  constructor
  · intro hv
    obtain ⟨f', he, hf⟩ := h.foreseen_of_verdict hv
    cases he
    exact hf
  · exact h.verdict_of_foreseen

end WellFormed

/-- Exactly when a step fails, and with which fault.  There is no other way to fail. -/
theorem result_step_of_reachable (h : m.Reachable capacity) (s : Surroundings) :
    (m.isWaiting = true → ∃ outcome, (m.step s).result = .ok outcome) ∧
    (m.phase = .running →
      ((∃ a, (m.step s).result = .error (.fault (.outOfBounds a))) ↔
        0xFFE < m.counter ∨ ∃ op, m.Upcoming op ∧ m.Overreaches op) ∧
      (∀ word, (m.step s).result = .error (.fault (.unknownOpcode word)) ↔
        m.counter ≤ 0xFFE ∧ word = m.memory.word m.counter ∧ ¬ Word.Listed word) ∧
      ((m.step s).result = .error (.fault .stackOverflow) ↔
        (∃ target, m.Upcoming (.call target)) ∧ m.stack.depth = capacity.toNat) ∧
      ((m.step s).result = .error (.fault .stackUnderflow) ↔
        m.Upcoming .ret ∧ m.stack.depth = 0)) ∧
    (∀ e, (m.step s).result = .error e →
      (∃ a, e = .fault (.outOfBounds a)) ∨ (∃ word, e = .fault (.unknownOpcode word)) ∨
      e = .fault .stackOverflow ∨ e = .fault .stackUnderflow) := by
  have hm := h.wellFormed
  refine ⟨?_, ?_, ?_⟩
  · intro hw
    cases hp : m.phase with
    | running =>
      unfold isWaiting at hw
      rw [hp] at hw
      cases hw
    | waitingForKey target => exact result_step_of_waiting hp
  · intro hp
    have hiff := hm.result_step_eq_fault_iff hp s
    simp only [hiff]
    refine ⟨⟨?_, ?_⟩, ?_, ⟨?_, ?_⟩, ⟨?_, ?_⟩⟩
    · rintro ⟨a, hf⟩
      cases hf with
      | unfetched counter _ => exact .inl counter
      | overreach upcoming past _ => exact .inr ⟨_, upcoming, past⟩
    · rintro (hb | ⟨op, hu, ho⟩)
      · obtain ⟨a, ha⟩ := hm.fetch_eq_error hb
        exact ⟨a, .unfetched hb ha⟩
      · obtain ⟨a, ha⟩ := hm.clearance_of_overreaches ho
        exact ⟨a, .overreach hu ho ha⟩
    · intro word
      constructor
      · intro hf
        cases hf with
        | unlisted counter hl => exact ⟨counter, rfl, hl⟩
      · rintro ⟨hu, rfl, hl⟩
        exact .unlisted hu hl
    · intro hf
      cases hf with
      | overflow upcoming full => exact ⟨⟨_, upcoming⟩, full⟩
    · rintro ⟨⟨target, hu⟩, hd⟩
      exact .overflow hu hd
    · intro hf
      cases hf with
      | underflow upcoming empty => exact ⟨upcoming, empty⟩
    · rintro ⟨hu, hd⟩
      exact .underflow hu hd
  · intro e he
    have hv := (result_step_eq_error_iff hm.steady (running_of_error he) e).mp he
    obtain ⟨f, rfl, hf⟩ := hm.foreseen_of_verdict hv
    cases hf with
    | unfetched _ _ => exact .inl ⟨_, rfl⟩
    | unlisted _ _ => exact .inr (.inl ⟨_, rfl⟩)
    | overreach _ _ _ => exact .inl ⟨_, rfl⟩
    | overflow _ _ => exact .inr (.inr (.inl rfl))
    | underflow _ _ => exact .inr (.inr (.inr rfl))

theorem result_step_of_reachable_booted :
    let m := (booted 1 [0x22, 0x00]).run [.step quiet]
    m.Reachable 1 ∧ m.Upcoming (.call 0x200) ∧ m.stack.depth = 1 ∧
    (m.step quiet).result = .error (.fault .stackOverflow) := by
  intro m
  have h : m.Reachable 1 := (reachable_booted 1 [0x22, 0x00]).run _
  have hs : m.phase = .running ∧ m.counter ≤ 0xFFE ∧
      Operation.ofWord? (m.memory.word m.counter) = some (.call 0x200) ∧ m.stack.depth = 1 := by
    decide +kernel
  obtain ⟨hp, hc, hw, hd⟩ := hs
  have hr := (result_step_of_reachable h quiet).2.1 hp
  exact ⟨h, ⟨hc, hw⟩, hd, hr.2.2.1.mpr ⟨⟨0x200, hc, hw⟩, hd⟩⟩

end ChipEight.Machine
