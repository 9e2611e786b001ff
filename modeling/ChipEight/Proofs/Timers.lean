import ChipEight.Proofs.KeyWait

/-!
# The timers

Each timer goes down by one with every step that returns, until it is zero, whatever the step did.
A step that does not return leaves both alone.  An instruction sets a timer before the tick of its
own step, and reads the delay timer before that tick as well.
-/

namespace ChipEight

inductive Timer
  | delay
  | sound

namespace Timer

def read (m : Machine) : Timer → Int
  | delay => m.delay
  | sound => m.sound

def shown (outcome : Outcome) : Timer → Int
  | delay => outcome.delay
  | sound => outcome.sound

/-- The instruction that sets the timer from a register. -/
def setter (x : Register) : Timer → Operation
  | delay => .setDelay x
  | sound => .setSound x

end Timer

namespace Machine

variable {s : Surroundings} {m : Machine} {capacity : Int} {outcome : Outcome} {x : Register}
  {events : List Event}

/-- One for a step that returns. -/
def ticks (m : Machine) : Event → Nat
  | .step s =>
    match (m.step s).result with
    | .ok _ => 1
    | .error _ => 0
  | _ => 0

def returned (m : Machine) : List Event → Nat
  | [] => 0
  | event :: rest => m.ticks event + (m.respond event).returned rest

/-- The operation that an event executes, if it is a step that does and returns. -/
def performed? (m : Machine) : Event → Option Operation
  | .step s =>
    (m.step s).result.toOption.bind fun outcome => outcome.instruction.map Instruction.operation
  | _ => none

/-- No step among the events sets the timer. -/
def Spares (t : Timer) (m : Machine) : List Event → Prop
  | [] => True
  | event :: rest =>
    (∀ x, m.performed? event ≠ some (t.setter x)) ∧ Spares t (m.respond event) rest

instance decidableSpares (t : Timer) :
    (m : Machine) → (events : List Event) → Decidable (m.Spares t events)
  | _, [] => inferInstanceAs (Decidable True)
  | m, event :: rest =>
    have := decidableSpares t (m.respond event) rest
    inferInstanceAs (Decidable (_ ∧ _))

theorem performed?_of_performed {op : Operation} (ho : (m.step s).result = .ok outcome)
    (hop : outcome.Performed op) : m.performed? (.step s) = some op := by
  rw [performed?, ho]
  exact hop

namespace WellFormed

variable {t : Timer}

theorem read_nonneg (h : m.WellFormed capacity) (t : Timer) : 0 ≤ t.read m := by
  cases t with
  | delay => exact h.delay_nonneg
  | sound => exact h.sound_nonneg

theorem shown_of_ok (h : m.WellFormed capacity) (t : Timer) (ho : (m.step s).result = .ok outcome) :
    t.shown outcome = t.read (m.step s).machine := by
  obtain ⟨target, hp⟩ | ⟨op, hp, hu, hc⟩ := h.step_of_ok ho
  · rw [step_of_waiting hp] at ho ⊢
    obtain rfl := Except.ok.inj ho
    cases t <;> rfl
  · rw [h.step_of_upcoming hp hu hc] at ho ⊢
    obtain rfl := Except.ok.inj ho
    cases t <;> rfl

theorem changes_of_ok (h : m.WellFormed capacity) (ho : (m.step s).result = .ok outcome) :
    m.Changes outcome (m.step s).machine := by
  obtain ⟨target, hp⟩ | ⟨op, hp, hu, -⟩ := h.step_of_ok ho
  · exact h.changes_of_waiting hp ho
  · exact h.changes_of_upcoming hp hu ho

theorem read_step_of_ok (h : m.WellFormed capacity) (ho : (m.step s).result = .ok outcome)
    (hs : ∀ x, ¬ outcome.Performed (t.setter x)) :
    t.read (m.step s).machine = max 0 (t.read m - 1) := by
  have hchanges := h.changes_of_ok ho
  by_contra hn
  obtain ⟨x, hx⟩ : ∃ x, outcome.Performed (t.setter x) := by
    cases t with
    | delay => exact hchanges.delay hn
    | sound => exact hchanges.sound hn
  exact hs x hx

theorem read_step_of_error (h : m.WellFormed capacity) (t : Timer) {e : Error}
    (he : (m.step s).result = .error e) : t.read (m.step s).machine = t.read m := by
  rw [(step_of_error h.steady he).1]
  cases t <;> rfl

theorem read_step_of_set (h : m.WellFormed capacity) (ho : (m.step s).result = .ok outcome)
    (hx : outcome.Performed (t.setter x)) :
    t.read (m.step s).machine = max 0 (((m.registers.get x).toNat : Int) - 1) := by
  obtain ⟨hp, hu⟩ := (h.changes_of_ok ho).performed _ hx
  have hv : (0 : Int) ≤ (m.registers.get x).toNat := Int.natCast_nonneg _
  rw [h.step_of_upcoming hp hu (h.clearance_of_ok hp hu ho)]
  cases t with
  | delay => exact delay_tick (m := { m.begun _ with delay := (m.registers.get x).toNat }) hv
  | sound => exact sound_tick (m := { m.begun _ with sound := (m.registers.get x).toNat }) hv

theorem step_of_readDelay (h : m.WellFormed capacity) (ho : (m.step s).result = .ok outcome)
    (hx : outcome.Performed (.readDelay x)) :
    (((m.step s).machine.registers.get x).toNat : Int) = m.delay := by
  obtain ⟨hp, hu⟩ := (h.changes_of_ok ho).performed _ hx
  have hl := h.delay_nonneg
  have hd := h.delay_le
  have hb := byteOfInt_of_bounds h.steady.delay_nonneg h.steady.delay_lt
  have hexecute : (m.begun (m.memory.word m.counter)).execute s (.readDelay x) =
      silent ((m.begun (m.memory.word m.counter)).setRegister x (UInt8.ofNat m.delay.toNat)) := by
    have hd : (m.begun (m.memory.word m.counter)).delay = m.delay := rfl
    simp only [Machine.execute, ask, hd, hb]
    rfl
  rw [h.step_of_upcoming hp hu (h.clearance_of_ok hp hu ho), hexecute]
  have hset : (m.registers.set x (UInt8.ofNat m.delay.toNat))[x] = UInt8.ofNat m.delay.toNat :=
    Vector.getElem_set_self _
  change ((m.registers.set x (UInt8.ofNat m.delay.toNat))[x].toNat : Int) = m.delay
  rw [hset, UInt8.toNat_ofNat']
  omega

theorem read_step (h : m.WellFormed capacity)
    (hs : ∀ x, m.performed? (.step s) ≠ some (t.setter x)) :
    t.read (m.step s).machine = max 0 (t.read m - m.ticks (.step s)) := by
  have hl := h.read_nonneg t
  cases hr : (m.step s).result with
  | ok outcome =>
    have hn : ∀ x, ¬ outcome.Performed (t.setter x) := fun x hx =>
      hs x (performed?_of_performed hr hx)
    rw [h.read_step_of_ok hr hn, ticks, hr]
    rfl
  | error e =>
    rw [h.read_step_of_error t hr, ticks, hr]
    change t.read m = max 0 (t.read m - 0)
    omega

theorem read_of_same {n : Machine} (hl : 0 ≤ t.read m) (hd : n.delay = m.delay)
    (hs : n.sound = m.sound) : t.read n = max 0 (t.read m - (0 : Nat)) := by
  have hr : t.read n = t.read m := by
    cases t with
    | delay => exact hd
    | sound => exact hs
  omega

theorem read_respond (h : m.WellFormed capacity) {event : Event} (hr : event ≠ .reset)
    (hs : ∀ x, m.performed? event ≠ some (t.setter x)) :
    t.read (m.respond event) = max 0 (t.read m - m.ticks event) := by
  have hl := h.read_nonneg t
  cases event with
  | step s => exact h.read_step hs
  | key key down =>
    rw [respond_key]
    exact read_of_same hl rfl rfl
  | load program =>
    change t.read (m.load program).state = _
    unfold Machine.load
    split
    · exact read_of_same hl rfl rfl
    · exact read_of_same hl rfl rfl
  | write address block => exact read_of_same hl rfl rfl
  | reset => exact absurd rfl hr

theorem read_run (h : m.WellFormed capacity) (hr : .reset ∉ events) (hs : m.Spares t events) :
    t.read (m.run events) = max 0 (t.read m - m.returned events) := by
  induction events generalizing m with
  | nil =>
    have hl := h.read_nonneg t
    change t.read m = max 0 (t.read m - 0)
    omega
  | cons event rest ih =>
    obtain ⟨hevent, hrest⟩ := List.ne_and_not_mem_of_not_mem_cons hr
    have hone := h.read_respond hevent.symm hs.1
    have hothers := ih (h.respond event) hrest hs.2
    change t.read ((m.respond event).run rest) = max 0 (t.read m - (m.ticks event + _ : Nat))
    rw [hothers, hone]
    omega

end WellFormed

/-- The law of either timer: over any run, and in any step. -/
theorem timer_law (t : Timer) (h : m.Reachable capacity) :
    (∀ events, .reset ∉ events → m.Spares t events →
      t.read (m.run events) = max 0 (t.read m - m.returned events)) ∧
    ∀ s outcome, (m.step s).result = .ok outcome →
      t.shown outcome = t.read (m.step s).machine ∧
      (∀ x, outcome.Performed (t.setter x) →
        t.read (m.step s).machine = max 0 (((m.registers.get x).toNat : Int) - 1)) ∧
      ∀ x, outcome.Performed (.readDelay x) →
        (((m.step s).machine.registers.get x).toNat : Int) = m.delay := by
  have hm := h.wellFormed
  refine ⟨fun events hr hs => hm.read_run hr hs, ?_⟩
  intro s outcome ho
  exact ⟨hm.shown_of_ok t ho, fun x hx => hm.read_step_of_set ho hx,
    fun x hx => hm.step_of_readDelay ho hx⟩

/-- The delay timer stands at four.  The instruction that waits for a key, a step without one and
the step that finds one take three from it, and the unknown word behind takes nothing. -/
theorem timer_law_booted :
    let m := (booted 16 [0x60, 0x05, 0xF0, 0x15, 0xF1, 0x0A, 0xFF, 0xFF]).run
      [.step quiet, .step quiet]
    let events : List Event := [.step quiet, .step quiet, .key 99 true, .key 3 true,
      .load [0x62, 0x07], .step quiet, .step quiet]
    m.Reachable 16 ∧ m.delay = 4 ∧ m.Spares .delay events ∧ m.returned events = 3 ∧
    (m.run events).delay = 1 := by
  intro m events
  have h : m.Reachable 16 := (reachable_booted 16 _).run _
  have hm : m.delay = 4 ∧ m.Spares .delay events ∧ m.returned events = 3 := by decide +kernel
  obtain ⟨hdelay, hspares, hreturned⟩ := hm
  have hrun := (timer_law .delay h).1 events (by simp [events]) hspares
  refine ⟨h, hdelay, hspares, hreturned, ?_⟩
  change (m.run events).delay = max 0 (m.delay - m.returned events) at hrun
  rw [hrun, hdelay, hreturned]
  decide

end Machine

end ChipEight
