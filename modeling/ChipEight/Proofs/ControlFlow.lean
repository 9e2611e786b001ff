import ChipEight.Proofs.Changes

/-!
# Where a program goes on

A step that returns has moved the program counter: to the target of a jump or a call, back to the
latest return address, past the next instruction where a skip is taken, and to the next
instruction after all others.  Skips come in opposite pairs, of which one is taken in any state.
-/

namespace ChipEight

namespace Operation

def Skipping : Operation → Prop
  | skipIfByte _ _ | skipUnlessByte _ _ | skipIfEqual _ _ | skipUnlessEqual _ _ | skipIfKey _
  | skipUnlessKey _ => True
  | _ => False

/-- Whether an operation sets the program counter to an address of its own. -/
def Branching : Operation → Prop
  | ret | jump _ | call _ | jumpOffset _ => True
  | _ => False

/-- Two skips of which one asks for what the other rules out. -/
inductive Opposite : Operation → Operation → Prop
  | byte (x : Register) (byte : UInt8) : Opposite (.skipIfByte x byte) (.skipUnlessByte x byte)
  | register (x y : Register) : Opposite (.skipIfEqual x y) (.skipUnlessEqual x y)
  | key (x : Register) : Opposite (.skipIfKey x) (.skipUnlessKey x)

theorem Opposite.skipping {op other : Operation} (h : Opposite op other) :
    op.Skipping ∧ other.Skipping := by
  cases h with
  | byte x byte => exact ⟨trivial, trivial⟩
  | register x y => exact ⟨trivial, trivial⟩
  | key x => exact ⟨trivial, trivial⟩

end Operation

theorem Keypad.isDown_byte (k : Keypad) (value : UInt8) :
    ∃ down, k.isDown value.toNat = .ok down ∧
      (down = true ↔ ∃ key : Fin 16, key.val = value.toNat ∧ k.get key = true) := by
  by_cases hv : (16 : Int) ≤ value.toNat
  · refine ⟨false, if_pos hv, ?_⟩
    constructor
    · nofun
    · rintro ⟨key, hkey, -⟩
      omega
  · have hlt : value.toNat < 16 := by omega
    refine ⟨k.get ⟨value.toNat, hlt⟩, ?_, ?_⟩
    · rw [isDown, if_neg hv, dif_pos ⟨by omega, by omega⟩]
      rfl
    · constructor
      · exact fun hdown => ⟨⟨value.toNat, hlt⟩, rfl, hdown⟩
      · rintro ⟨key, hkey, hdown⟩
        rwa [show (⟨value.toNat, hlt⟩ : Fin 16) = key from Fin.ext hkey.symm]

namespace Machine

open Attempt Operation

variable {s : Surroundings} {m : Machine} {op other : Operation} {capacity : Int} {x : Register}
  {word : Int}

/-- A key is down that has the number in a register.  Numbers above the pad have no key. -/
def HoldsKey (m : Machine) (x : Register) : Prop :=
  ∃ key : Fin 16, key.val = (m.registers.get x).toNat ∧ m.keypad.get key = true

/-- The condition of a skip.  All other operations have none and never skip. -/
def Skips (m : Machine) : Operation → Prop
  | .skipIfByte x byte => m.registers.get x = byte
  | .skipUnlessByte x byte => m.registers.get x ≠ byte
  | .skipIfEqual x y => m.registers.get x = m.registers.get y
  | .skipUnlessEqual x y => m.registers.get x ≠ m.registers.get y
  | .skipIfKey x => m.HoldsKey x
  | .skipUnlessKey x => ¬ m.HoldsKey x
  | _ => False

/-- The program counter after an instruction, told from the machine before it. -/
def Follows (m : Machine) (op : Operation) (n : Machine) : Prop :=
  match op with
  | .jump target | .call target => n.counter = target.val
  | .jumpOffset target =>
    ∀ first : Register, first.val = 0 → n.counter = target.val + (m.registers.get first).toNat
  | .ret => m.stack.toList = n.stack.toList ++ [n.counter]
  | op => (m.Skips op → n.counter = m.counter + 4) ∧ (¬ m.Skips op → n.counter = m.counter + 2)

/-- The machine after a step whose instruction does nothing but move the program counter. -/
def paced (m : Machine) (word counter : Int) : Machine :=
  { m.tick with
    counter, lastCounter := m.counter, lastWord := word, display := m.display.takeChanged.2 }

theorem not_holdsKey_of_large (h : 16 ≤ (m.registers.get x).toNat) : ¬ m.HoldsKey x := by
  rintro ⟨key, hkey, -⟩
  omega

theorem skips_iff_of_opposite (h : Opposite op other) : m.Skips other ↔ ¬ m.Skips op := by
  cases h with
  | byte x byte => rfl
  | register x y => rfl
  | key x => rfl

theorem skips_begun (m : Machine) (word : Int) (op : Operation) :
    (m.begun word).Skips op ↔ m.Skips op := .rfl

theorem execute_skipping (s : Surroundings) (m : Machine) (h : op.Skipping) :
    ∃ taken, (taken = true ↔ m.Skips op) ∧ m.execute s op = silent (m.skipIf taken) := by
  cases op with
  | skipIfByte x byte => exact ⟨_, beq_iff_eq, rfl⟩
  | skipUnlessByte x byte => exact ⟨_, bne_iff_ne, rfl⟩
  | skipIfEqual x y => exact ⟨_, beq_iff_eq, rfl⟩
  | skipUnlessEqual x y => exact ⟨_, bne_iff_ne, rfl⟩
  | skipIfKey x =>
    obtain ⟨down, hk, hiff⟩ := m.keypad.isDown_byte m.registers[x]
    refine ⟨down, hiff, ?_⟩
    simp only [execute, ask, hk, ofExcept_ok, followedBy_silent]
  | skipUnlessKey x =>
    obtain ⟨down, hk, hiff⟩ := m.keypad.isDown_byte m.registers[x]
    refine ⟨!down, ?_, ?_⟩
    · rw [Bool.not_eq_true', ← Bool.not_eq_true]
      exact not_congr hiff
    · simp only [execute, ask, hk, ofExcept_ok, followedBy_silent]
  | _ => exact absurd h id

theorem execute_of_skips (h : op.Skipping) (hs : m.Skips op) (s : Surroundings) :
    m.execute s op = silent { m with counter := m.counter + 2 } := by
  obtain ⟨taken, hiff, hx⟩ := execute_skipping s m h
  rw [hx, hiff.mpr hs]
  rfl

theorem execute_of_not_skips (h : op.Skipping) (hs : ¬ m.Skips op) (s : Surroundings) :
    m.execute s op = silent m := by
  obtain ⟨taken, hiff, hx⟩ := execute_skipping s m h
  have hf : taken = false := Bool.eq_false_iff.mpr (mt hiff.mp hs)
  rw [hx, hf]
  rfl

theorem execute_opposite (h : Opposite op other) (s : Surroundings) (m : Machine) :
    (m.execute s op = silent m ∧
      m.execute s other = silent { m with counter := m.counter + 2 }) ∨
    (m.execute s op = silent { m with counter := m.counter + 2 } ∧
      m.execute s other = silent m) := by
  obtain ⟨hop, hother⟩ := h.skipping
  have hiff : m.Skips other ↔ ¬ m.Skips op := skips_iff_of_opposite h
  by_cases hs : m.Skips op
  · right
    exact ⟨execute_of_skips hop hs s, execute_of_not_skips hother (fun ho => hiff.mp ho hs) s⟩
  · left
    exact ⟨execute_of_not_skips hop hs s, execute_of_skips hother (hiff.mpr hs) s⟩

theorem not_skips_of_not_skipping (h : ¬ op.Skipping) : ¬ m.Skips op := by
  cases op with
  | skipIfByte x byte | skipUnlessByte x byte | skipIfEqual x y | skipUnlessEqual x y | skipIfKey x
  | skipUnlessKey x => exact absurd trivial h
  | _ => exact id

theorem counter_execute (s : Surroundings) (m : Machine) (hb : ¬ op.Branching)
    (hs : ¬ op.Skipping) : (m.execute s op).state.1.counter = m.counter := by
  cases op with
  | ret | jump target | call target | jumpOffset target => exact absurd trivial hb
  | skipIfByte x byte | skipUnlessByte x byte | skipIfEqual x y | skipUnlessEqual x y | skipIfKey x
  | skipUnlessKey x => exact absurd trivial hs
  | draw x y rows =>
    refine keeps_followedBy (P := fun n : Machine => n.counter = m.counter) rfl ?_
    intro n sprite hn
    exact keeps_followedBy (P := fun n : Machine => n.counter = m.counter) hn fun _ _ hd => hd
  | readDelay x | loadRegisters x =>
    exact keeps_followedBy (P := fun n : Machine => n.counter = m.counter) rfl fun _ _ hn => hn
  | _ => rfl

theorem follows_of_counter (hb : ¬ op.Branching) {n : Machine}
    (hskip : m.Skips op → n.counter = m.counter + 4)
    (hnext : ¬ m.Skips op → n.counter = m.counter + 2) : m.Follows op n := by
  cases op with
  | ret | jump target | call target | jumpOffset target => exact absurd trivial hb
  | _ => exact ⟨hskip, hnext⟩

theorem step_of_skipping (hp : m.phase = .running) (hf : m.fetch = .ok word)
    (hw : ofWord? word = some op) (h : op.Skipping) (s : Surroundings) :
    ∃ counter, (m.step s).machine = m.paced word counter ∧
      (m.Skips op → counter = m.counter + 4) ∧ (¬ m.Skips op → counter = m.counter + 2) := by
  by_cases hs : m.Skips op
  · have hx := execute_of_skips h ((skips_begun m word op).mpr hs) s
    refine ⟨m.counter + 4, ?_, fun _ => rfl, fun hn => absurd hs hn⟩
    rw [step_of_silent hp hf hw hx]
    simp only [complete, begun, paced, tick, Int.add_assoc]
    rfl
  · have hx := execute_of_not_skips h (mt (skips_begun m word op).mp hs) s
    refine ⟨m.counter + 2, ?_, fun hy => absurd hy hs, fun _ => rfl⟩
    rw [step_of_silent hp hf hw hx]
    rfl

namespace WellFormed

theorem follows_of_branching (h : m.WellFormed capacity) (hp : m.phase = .running)
    (hu : m.Upcoming op) (hc : m.clearance op = .ok ()) (hb : op.Branching) :
    m.Follows op (m.step s).machine := by
  have hbegun := (clearance_begun m (m.memory.word m.counter) op).trans hc
  rw [h.step_of_upcoming hp hu hc]
  cases op with
  | jump target => rfl
  | jumpOffset target =>
    intro first hfirst
    obtain rfl : first = 0 := Fin.ext hfirst
    rfl
  | call target =>
    rw [execute_call target (room_of_cleared hbegun)]
    rfl
  | ret =>
    obtain ⟨entry, rest, he⟩ := entries_of_cleared hbegun
    rw [execute_ret he]
    change m.stack.entries.reverse = rest.reverse ++ [entry]
    rw [← List.reverse_cons]
    exact congrArg List.reverse he
  | _ => exact absurd hb id

theorem follows_step (h : m.WellFormed capacity) (hp : m.phase = .running) (hu : m.Upcoming op)
    (hc : m.clearance op = .ok ()) : m.Follows op (m.step s).machine := by
  by_cases hb : op.Branching
  · exact h.follows_of_branching hp hu hc hb
  · by_cases hs : op.Skipping
    · obtain ⟨counter, hn, htaken, hpassed⟩ :=
        step_of_skipping hp (h.fetch_eq_ok hu.1) hu.2 hs s
      rw [hn]
      exact follows_of_counter hb htaken hpassed
    · have hcounter := counter_execute s (m.begun (m.memory.word m.counter)) hb hs
      rw [h.step_of_upcoming hp hu hc]
      exact follows_of_counter hb (fun hy => absurd hy (not_skips_of_not_skipping hs))
        fun _ => hcounter

end WellFormed

/-- A jump with an offset is told by the first nibble of its word alone. -/
theorem ofWord?_jumpOffset (hb : Word.family word = 0xB) :
    ofWord? word = some (.jumpOffset (Word.fields word).address) := by
  unfold ofWord?
  rw [hb]
  rfl

theorem address_fields (word : Int) : ((Word.fields word).address.val : Int) = word % 4096 := by
  change ((Word.low word % 4096 : Nat) : Int) = word % 4096
  unfold Word.low
  omega

/-- Where a step that returns has taken the program counter.  A jump with an offset adds V0 to the
low twelve bits of its word, of whatever second nibble, and does not mask the sum.  An instruction
that skips does nothing else.  Of two opposite skips one is taken in any state, and where a
register holds no key it is the one that asks for the key to be up. -/
theorem control_flow (h : m.Reachable capacity) :
    (∀ s outcome, m.phase = .running → (m.step s).result = .ok outcome →
      ∃ op, m.Upcoming op ∧ outcome.Performed op ∧ m.Follows op (m.step s).machine ∧
        (Word.family (m.memory.word m.counter) = 0xB → (m.step s).machine.counter =
          m.memory.word m.counter % 4096 + (m.registers.get 0).toNat) ∧
        (op.Skipping → (m.step s).machine =
          m.paced (m.memory.word m.counter) (m.step s).machine.counter)) ∧
    (∀ (n : Machine) (s : Surroundings) (op other : Operation), Opposite op other →
      (n.execute s op = silent n ∧
        n.execute s other = silent { n with counter := n.counter + 2 }) ∨
      (n.execute s op = silent { n with counter := n.counter + 2 } ∧
        n.execute s other = silent n)) ∧
    ∀ (n : Machine) (s : Surroundings) (x : Register), 16 ≤ (n.registers.get x).toNat →
      n.execute s (.skipIfKey x) = silent n ∧
      n.execute s (.skipUnlessKey x) = silent { n with counter := n.counter + 2 } := by
  have hm := h.wellFormed
  refine ⟨?_, ?_, ?_⟩
  · intro s outcome hp ho
    obtain ⟨target, hw⟩ | ⟨op, -, hu, hc⟩ := hm.step_of_ok ho
    · rw [hp] at hw
      cases hw
    · have hfollows : m.Follows op (m.step s).machine := hm.follows_step hp hu hc
      refine ⟨op, hu, hm.performed_of_upcoming hp hu ho, hfollows, ?_, ?_⟩
      · intro hb
        obtain rfl := Option.some.inj (hu.2.symm.trans (ofWord?_jumpOffset hb))
        rw [← address_fields]
        exact hfollows 0 rfl
      · intro hs
        obtain ⟨counter, hn, -⟩ := step_of_skipping hp (hm.fetch_eq_ok hu.1) hu.2 hs s
        rw [hn]
        rfl
  · intro n s op other hopposite
    exact execute_opposite hopposite s n
  · intro n s x hx
    have hn : ¬ n.HoldsKey x := not_holdsKey_of_large hx
    have hup : n.Skips (.skipUnlessKey x) := hn
    obtain ⟨hif, hunless⟩ := (Opposite.key x).skipping
    exact ⟨execute_of_not_skips hif hn s, execute_of_skips hunless hup s⟩

/-- The second nibble of the jump names V2, but V0 is what is added.  No key has the number in V0,
so of the two skips it is the one for keys that are up that is taken. -/
theorem control_flow_offset :
    let m := (booted 16 [0x60, 0x20, 0xB2, 0x10]).run [.step quiet]
    m.Reachable 16 ∧ m.memory.word m.counter = 0xB210 ∧
    (m.step quiet).machine.counter = 0x230 ∧
    m.execute quiet (.skipIfKey 0) = silent m ∧
    m.execute quiet (.skipUnlessKey 0) = silent { m with counter := m.counter + 2 } := by
  intro m
  have h : m.Reachable 16 := (reachable_booted 16 _).run _
  have hs : m.phase = .running ∧ m.counter ≤ 0xFFE ∧ m.memory.word m.counter = 0xB210 ∧
      m.registers.get 0 = 0x20 := by
    decide +kernel
  obtain ⟨hp, hcounter, hword, hvalue⟩ := hs
  have hw : ofWord? (m.memory.word m.counter) = some (.jumpOffset 0x210) := by rw [hword]; decide
  obtain ⟨outcome, ho⟩ : ∃ outcome, (m.step quiet).result = .ok outcome := by
    rw [h.wellFormed.step_of_upcoming hp ⟨hcounter, hw⟩ rfl]
    exact ⟨_, rfl⟩
  obtain ⟨hflow, -, hkeys⟩ := control_flow h
  obtain ⟨op, -, -, -, hoffset, -⟩ := hflow quiet outcome hp ho
  have hlarge : 16 ≤ (m.registers.get 0).toNat := by rw [hvalue]; decide
  refine ⟨h, hword, ?_, hkeys m quiet 0 hlarge⟩
  rw [hoffset (by rw [hword]; decide), hword, hvalue]
  decide

end Machine

end ChipEight
