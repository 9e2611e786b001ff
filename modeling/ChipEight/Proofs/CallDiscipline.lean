import ChipEight.Proofs.Faults
import ChipEight.Proofs.Footprint

/-!
# Calls and returns

Programs cannot reach the stack but by calls and returns, so a subroutine comes back behind its
call with the stack as the call found it.  Whatever it does to memory, its own instructions
included, cannot change that.
-/

namespace ChipEight.Machine

variable {s : Surroundings} {m : Machine} {op : Operation} {capacity address : Int}
  {below : List Int}

inductive StackMove (m : Machine) (after : Step) : Prop
  | kept (stack : after.machine.stack = m.stack)
  | called (target : Address) (upcoming : m.Upcoming (.call target))
      (entries : after.machine.stack.entries = (m.counter + 2) :: m.stack.entries)
  | returned (entry : Int) (outcome : Outcome) (upcoming : m.Upcoming .ret)
      (entries : m.stack.entries = entry :: after.machine.stack.entries)
      (counter : after.machine.counter = entry) (result : after.result = .ok outcome)
      (instruction : outcome.instruction.map Instruction.operation = some .ret)

@[simp] theorem stack_takeKey (m : Machine) (target : Register) :
    (m.takeKey target).stack = m.stack := by
  unfold takeKey
  split <;> rfl

theorem entries_step_of_call {target : Address} (h : m.WellFormed capacity)
    (hp : m.phase = .running) (hu : m.Upcoming (.call target))
    (hc : m.clearance (.call target) = .ok ()) :
    (m.step s).machine.stack.entries = (m.counter + 2) :: m.stack.entries := by
  have hroom := room_of_cleared hc
  have hx : (m.begun (m.memory.word m.counter)).execute s (.call target) = silent _ :=
    execute_call target hroom
  have hpush : m.stack.push (m.counter + 2) = _ := CallStack.push_of_room hroom _
  rw [h.step_of_upcoming hp hu hc, hx]
  change (m.stack.push (m.counter + 2)).state.entries = _
  rw [hpush]
  rfl

theorem stackMove_step (h : m.WellFormed capacity) (s : Surroundings) : m.StackMove (m.step s) := by
  cases m.course with
  | waiting target hp =>
    rw [step_of_waiting hp]
    exact .kept (m.stack_takeKey target)
  | unfetched a hp hf =>
    rw [step_of_unfetched hp hf]
    exact .kept rfl
  | unknown word hp hf hw =>
    rw [step_of_unknown hp hf hw]
    exact .kept rfl
  | refused word op f hp hf hw hc =>
    rw [step_of_refused hp hf hw hc]
    exact .kept rfl
  | executed word op hp hf hw hc =>
    -- only returns and calls can reach the stack
    have hu := h.upcoming_of_fetched hf hw
    have hstep := h.step_of_upcoming (s := s) hp hu hc
    by_cases hl : op.Links
    · obtain rfl | ⟨target, rfl⟩ := hl
      · obtain ⟨entry, rest, he⟩ := entries_of_cleared hc
        have hx : (m.begun (m.memory.word m.counter)).execute s .ret = silent _ := execute_ret he
        rw [hx] at hstep
        rw [hstep]
        exact .returned entry _ hu he rfl rfl rfl
      · exact .called target hu (entries_step_of_call h hp hu hc)
    · rw [hstep]
      exact .kept (stack_execute hl)

theorem stack_respond {event : Event} (hs : ∀ s, event ≠ .step s) (hr : event ≠ .reset) :
    (m.respond event).stack = m.stack := by
  cases event with
  | step s => exact absurd rfl (hs s)
  | key key down =>
    change (m.setKey key down).state.stack = m.stack
    unfold setKey
    cases m.keypad.setKey key down with
    | ok keypad => rfl
    | error e => rfl
  | load program =>
    change (m.load program).state.stack = m.stack
    unfold Machine.load
    split
    · rfl
    · rfl
  | write address block => rfl
  | reset => exact absurd rfl hr

/-- A call from below `address` has not returned yet: its return address is on the stack, right
above the entries that the caller had. -/
def Pending (m : Machine) (address : Int) (below : List Int) : Prop :=
  ∃ above, m.stack.entries = above ++ address :: below

theorem Pending.of_stack {n : Machine} (h : m.Pending address below) (hs : n.stack = m.stack) :
    n.Pending address below := by
  obtain ⟨above, ha⟩ := h
  exact ⟨above, (congrArg CallStack.entries hs).trans ha⟩

theorem Pending.lt_depth (h : m.Pending address below) : below.length < m.stack.depth := by
  obtain ⟨above, ha⟩ := h
  unfold CallStack.depth
  rw [ha]
  simp only [List.length_append, List.length_cons]
  omega

theorem Pending.take_toList (h : m.Pending address below) :
    m.stack.toList.take (below.length + 1) = below.reverse ++ [address] := by
  obtain ⟨above, ha⟩ := h
  have hlen : below.length + 1 = (below.reverse ++ [address]).length := by simp
  have hlist : m.stack.toList = (below.reverse ++ [address]) ++ above.reverse := by
    unfold CallStack.toList
    rw [ha]
    simp
  rw [hlist, hlen, List.take_left]

/-- The step that ends a pending call: it is a return to the address behind the call, and leaves
the stack as the caller had it. -/
def Comeback (m : Machine) (event : Event) (address : Int) (below : List Int) : Prop :=
  ∃ s outcome, event = .step s ∧ (m.step s).result = .ok outcome ∧
    outcome.instruction.map Instruction.operation = some .ret ∧
    (m.step s).machine.counter = address ∧ (m.step s).machine.stack.entries = below

theorem Pending.respond {event : Event} (h : m.Pending address below)
    (hm : m.WellFormed capacity) (hr : event ≠ .reset) :
    (m.respond event).Pending address below ∨ m.Comeback event address below := by
  by_cases hs : ∃ s, event = .step s
  · obtain ⟨s, rfl⟩ := hs
    obtain ⟨above, ha⟩ := h
    cases stackMove_step hm s with
    | kept stack => exact .inl ⟨above, (congrArg CallStack.entries stack).trans ha⟩
    | called target _ entries =>
      refine .inl ⟨(m.counter + 2) :: above, ?_⟩
      change (m.step s).machine.stack.entries = _
      rw [entries, ha]
      rfl
    | returned entry outcome _ entries counter result instruction =>
      rw [ha] at entries
      cases above with
      | nil =>
        obtain ⟨rfl, hbelow⟩ := List.cons.inj entries
        exact .inr ⟨s, outcome, rfl, result, instruction, counter, hbelow.symm⟩
      | cons latest above =>
        obtain ⟨-, habove⟩ := List.cons.inj entries
        exact .inl ⟨above, habove.symm⟩
  · exact .inl (h.of_stack (stack_respond (fun s he => hs ⟨s, he⟩) hr))

theorem Pending.run {events : List Event} (h : m.Pending address below)
    (hm : m.WellFormed capacity) (hr : .reset ∉ events)
    (hd : ∀ seen, seen <+: events → below.length < (m.run seen).stack.depth) :
    (m.run events).Pending address below := by
  induction events generalizing m with
  | nil => exact h
  | cons event rest ih =>
    have hne : event ≠ .reset := fun he => hr (he ▸ List.mem_cons_self)
    have hfirst : below.length < (m.respond event).stack.depth :=
      hd [event] (List.cons_prefix_cons.mpr ⟨rfl, List.nil_prefix⟩)
    -- a comeback would leave just the entries below
    have hnext : (m.respond event).Pending address below := by
      obtain hp | ⟨s, outcome, rfl, -, -, -, hback⟩ := h.respond hm hne
      · exact hp
      · change below.length < (m.step s).machine.stack.depth at hfirst
        unfold CallStack.depth at hfirst
        rw [hback] at hfirst
        exact absurd hfirst (Nat.lt_irrefl _)
    apply ih hnext (hm.respond event) fun hmem => hr (List.mem_cons_of_mem _ hmem)
    intro seen hseen
    exact hd (event :: seen) (List.cons_prefix_cons.mpr ⟨rfl, hseen⟩)

theorem depth_step_le (h : m.WellFormed capacity) (s : Surroundings) :
    (m.step s).machine.stack.depth ≤ m.stack.depth + 1 ∧
    m.stack.depth ≤ (m.step s).machine.stack.depth + 1 := by
  unfold CallStack.depth
  cases stackMove_step h s with
  | kept stack =>
    rw [stack]
    omega
  | called _ _ entries =>
    rw [entries, List.length_cons]
    omega
  | returned _ _ _ entries _ _ _ =>
    rw [entries, List.length_cons]
    omega

/-- Calls and returns pair up.  A call that succeeds pushes the address behind it.  From then on,
whatever is stepped, pressed, loaded or written, that address and the entries below stay as they
are while the stack is deeper than before the call.  What first brings it back to that depth is
a return, after which the machine is behind the call with the stack the caller had.  And no step
changes the depth by more than one. -/
theorem call_discipline {target : Address} {outcome : Outcome} (h : m.Reachable capacity)
    (hp : m.phase = .running) (hu : m.Upcoming (.call target))
    (ho : (m.step s).result = .ok outcome) :
    (m.step s).machine.stack.toList = m.stack.toList ++ [m.counter + 2] ∧
    (∀ events : List Event, .reset ∉ events →
      (∀ seen, seen <+: events → m.stack.depth < ((m.step s).machine.run seen).stack.depth) →
      let n := (m.step s).machine.run events
      n.stack.toList.take (m.stack.depth + 1) = m.stack.toList ++ [m.counter + 2] ∧
      ∀ event, event ≠ .reset → (n.respond event).stack.depth = m.stack.depth →
        ∃ s' outcome', event = .step s' ∧ (n.step s').result = .ok outcome' ∧
          outcome'.instruction.map Instruction.operation = some .ret ∧
          (n.step s').machine.counter = m.counter + 2 ∧
          (n.step s').machine.stack.toList = m.stack.toList) ∧
    ∀ (n : Machine) (s' : Surroundings), n.Reachable capacity →
      (n.step s').machine.stack.depth ≤ n.stack.depth + 1 ∧
      n.stack.depth ≤ (n.step s').machine.stack.depth + 1 := by
  have hm := h.wellFormed
  have hentries := entries_step_of_call (s := s) hm hp hu (hm.clearance_of_ok hp hu ho)
  have hpending : (m.step s).machine.Pending (m.counter + 2) m.stack.entries := ⟨[], hentries⟩
  refine ⟨?_, ?_, ?_⟩
  · unfold CallStack.toList
    rw [hentries, List.reverse_cons]
  · intro events hr hd n
    have hn := hpending.run (hm.step s) hr hd
    refine ⟨hn.take_toList, ?_⟩
    intro event hne hdepth
    obtain hstill | ⟨s', outcome', rfl, hok, hret, hcounter, hback⟩ :=
      hn.respond ((hm.step s).run events) hne
    · have hlt : m.stack.depth < (n.respond event).stack.depth := hstill.lt_depth
      omega
    · exact ⟨s', outcome', rfl, hok, hret, hcounter, congrArg List.reverse hback⟩
  · intro n s' hn
    exact depth_step_le hn.wellFormed s'

theorem call_discipline_booted :
    let m := booted 16 [0x22, 0x04, 0x00, 0x00, 0x00, 0xEE]
    let called := (m.step quiet).machine
    m.Reachable 16 ∧ m.Upcoming (.call 0x204) ∧ called.stack.toList = m.stack.toList ++ [0x202] ∧
    (called.step quiet).machine.counter = 0x202 ∧
    (called.step quiet).machine.stack.toList = m.stack.toList := by
  intro m called
  have h : m.Reachable 16 := reachable_booted 16 _
  have hs : m.phase = .running ∧ m.counter = 0x200 ∧
      Operation.ofWord? (m.memory.word m.counter) = some (.call 0x204) ∧
      m.clearance (.call 0x204) = .ok () ∧ m.stack.depth = 0 ∧ called.stack.depth = 1 ∧
      (called.step quiet).machine.stack.depth = 0 := by
    decide +kernel
  obtain ⟨hp, hcounter, hw, hc, hbefore, hcalled, hback⟩ := hs
  have hu : m.Upcoming (.call 0x204) := ⟨by omega, hw⟩
  have ho : ∃ outcome, (m.step quiet).result = .ok outcome := by
    rw [h.wellFormed.step_of_upcoming hp hu hc]
    exact ⟨_, rfl⟩
  obtain ⟨outcome, ho⟩ := ho
  obtain ⟨hpush, hlater, -⟩ := call_discipline h hp hu ho
  have hdeeper : ∀ seen, seen <+: [] → m.stack.depth < (called.run seen).stack.depth := by
    intro seen hseen
    obtain rfl := List.prefix_nil.mp hseen
    change m.stack.depth < called.stack.depth
    omega
  obtain ⟨-, hreturn⟩ := hlater [] List.not_mem_nil hdeeper
  obtain ⟨s', outcome', hevent, -, -, hbehind, hstack⟩ :=
    hreturn (.step quiet) Event.noConfusion (hback.trans hbefore.symm)
  obtain rfl := Event.step.inj hevent
  rw [hcounter] at hpush hbehind
  exact ⟨h, hu, hpush, hbehind, hstack⟩

end ChipEight.Machine
