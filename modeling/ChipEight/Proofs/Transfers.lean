import ChipEight.Proofs.Changes

/-!
# Registers in memory

A block of registers that was stored is found again by a later load, if the index register and the
block were left alone in between.  To store what was just loaded changes nothing.  A number that
was stored in decimal can be loaded digit by digit.
-/

namespace ChipEight.Machine

variable {s : Surroundings} {m : Machine} {op : Operation} {capacity : Int} {x : Register}
  {first last : Int} {events : List Event}

/-- The next step executes the operation. -/
def Faces (m : Machine) (op : Operation) : Prop :=
  m.phase = .running ∧ ∃ word, m.fetch = .ok word ∧ Operation.ofWord? word = some op

/-- All events leave the index register and a range of memory alone, each of them. -/
def Preserves (first last : Int) (m : Machine) : List Event → Prop
  | [] => True
  | event :: rest =>
    ((m.respond event).index = m.index ∧
      ∀ a, first ≤ a → a ≤ last → (m.respond event).memory.get? a = m.memory.get? a) ∧
    Preserves first last (m.respond event) rest

theorem Preserves.run (h : m.Preserves first last events) :
    (m.run events).index = m.index ∧
    ∀ a, first ≤ a → a ≤ last → (m.run events).memory.get? a = m.memory.get? a := by
  induction events generalizing m with
  | nil => exact ⟨rfl, fun _ _ _ => rfl⟩
  | cons event rest ih =>
    obtain ⟨⟨hindex, hmemory⟩, hrest⟩ := h
    obtain ⟨hindex', hmemory'⟩ := ih hrest
    exact ⟨hindex'.trans hindex,
      fun a hl hu => (hmemory' a hl hu).trans (hmemory a hl hu)⟩

theorem WellFormed.faces_of_upcoming (h : m.WellFormed capacity) (hp : m.phase = .running)
    (hu : m.Upcoming op) : m.Faces op := ⟨hp, _, h.fetch_eq_ok hu.1, hu.2⟩

theorem Preserves.step (h : m.WellFormed capacity) (hp : m.phase = .running) (hu : m.Upcoming op)
    (hc : m.clearance op = .ok ()) (hi : ¬ op.SetsIndex) (hs : op.stored = 0)
    (hrest : (m.step s).machine.Preserves first last events) :
    m.Preserves first last (.step s :: events) := by
  have hx := execute_confined s (m.begun (m.memory.word m.counter)) op
  refine ⟨?_, hrest⟩
  change (m.step s).machine.index = m.index ∧
    ∀ a, first ≤ a → a ≤ last → (m.step s).machine.memory.get? a = m.memory.get? a
  rw [h.step_of_upcoming hp hu hc]
  refine ⟨hx.index.resolve_right hi, fun a _ _ => (hx.memory a).resolve_right ?_⟩
  rw [hs]
  omega

/-- The registers up to one hold what memory holds from the index register on. -/
def Matches (m : Machine) (x : Register) : Prop :=
  ∀ r : Register, r ≤ x → m.memory.get? (m.index + r.val) = some (m.registers.get r)

theorem getElem?_registersUpTo (m : Machine) {r x : Register} (h : r ≤ x) :
    (m.registersUpTo x)[r.val]? = some (m.registers.get r) := by
  have hr : r.val < x.val + 1 := Nat.lt_succ_of_le h
  rw [registersUpTo, List.getElem?_take_of_lt hr, Vector.getElem?_toList]
  exact Vector.getElem?_eq_getElem r.isLt

theorem Matches.putList_eq (h : m.Matches x) (hf : m.memory.Fits m.index (x.val + 1 : Nat)) :
    m.memory.putList m.index (m.registersUpTo x) = m.memory := by
  have hlen := m.length_registersUpTo x
  have hx := x.isLt
  apply Bank.putList_eq_self (hlen ▸ hf)
  intro i hi
  rw [hlen] at hi
  have hr : (⟨i, by omega⟩ : Register) ≤ x := Nat.le_of_lt_succ hi
  exact (m.getElem?_registersUpTo hr).trans (h _ hr).symm

theorem execute_loadRegisters (hf : m.memory.Fits m.index (x.val + 1 : Nat)) :
    ∃ registers, m.execute s (.loadRegisters x) = silent { m with registers } ∧
      { m with registers }.Matches x ∧
      ∀ r : Register, x < r → registers.get r = m.registers.get r := by
  obtain ⟨values, hr, hlen, hget⟩ := Bank.readBlock_of_ok (Bank.checkRange_of_fits hf)
  have hv : m.memory.readBlock m.index (x.val + 1) = .ok values := hr
  have hentry (r : Register) : (loadRegisterList m.registers values).get r =
      values[r.val]?.getD (m.registers.get r) := Vector.getElem_ofFn r.isLt
  refine ⟨loadRegisterList m.registers values, ?_, ?_, ?_⟩
  · simp only [execute, ask, hv, Attempt.ofExcept_ok, Attempt.followedBy_silent]
  · intro r hrx
    have hlt : r.val < x.val + 1 := Nat.lt_succ_of_le hrx
    have hvalue : values[r.val]? = some values[r.val] := List.getElem?_eq_getElem (hlen ▸ hlt)
    change m.memory.get? (m.index + r.val) = some ((loadRegisterList m.registers values).get r)
    rw [hentry, ← hget r.val hlt, hvalue]
    rfl
  · intro r hxr
    have hge : values.length ≤ r.val := hlen ▸ hxr
    rw [hentry, List.getElem?_eq_none hge]
    rfl

theorem step_loadRegisters (h : m.Faces (.loadRegisters x))
    (hf : m.memory.Fits m.index (x.val + 1 : Nat)) (s : Surroundings) :
    (∃ outcome, (m.step s).result = .ok outcome ∧ outcome.Performed (.loadRegisters x)) ∧
    (m.step s).machine.memory = m.memory ∧ (m.step s).machine.index = m.index ∧
    (m.step s).machine.Matches x ∧
    ∀ r : Register, x < r → (m.step s).machine.registers.get r = m.registers.get r := by
  obtain ⟨hp, word, hfetch, hw⟩ := h
  have hbegun : (m.begun word).memory.Fits (m.begun word).index (x.val + 1 : Nat) := hf
  obtain ⟨registers, hx, hmatches, hothers⟩ := execute_loadRegisters (s := s) hbegun
  rw [step_of_silent hp hfetch hw hx]
  exact ⟨⟨_, rfl, rfl⟩, rfl, rfl, hmatches, hothers⟩

theorem onMemory_writeBlock {block : List UInt8} (hf : m.memory.Fits m.index block.length) :
    (m.onMemory fun memory => memory.writeBlock m.index block) =
      silent { m with memory := m.memory.putList m.index block } := by
  have hw := Bank.writeBlock_of_ok (Bank.checkRange_of_fits hf)
  simp only [onMemory, hw, Attempt.mapState_succeed]
  rfl

theorem step_of_stores {block : List UInt8} (h : m.Faces op)
    (hx : ∀ word, (m.begun word).execute s op =
      (m.begun word).onMemory fun memory => memory.writeBlock (m.begun word).index block)
    (hf : m.memory.Fits m.index block.length) :
    (∃ outcome, (m.step s).result = .ok outcome ∧ outcome.Performed op) ∧
    (m.step s).machine.memory = m.memory.putList m.index block ∧
    (m.step s).machine.index = m.index ∧ (m.step s).machine.registers = m.registers := by
  obtain ⟨hp, word, hfetch, hw⟩ := h
  have hbegun : (m.begun word).memory.Fits (m.begun word).index block.length := hf
  rw [step_of_silent hp hfetch hw ((hx word).trans (onMemory_writeBlock hbegun))]
  exact ⟨⟨_, rfl, rfl⟩, rfl, rfl, rfl⟩

theorem step_storeRegisters (h : m.Faces (.storeRegisters x))
    (hf : m.memory.Fits m.index (x.val + 1 : Nat)) (s : Surroundings) :
    (∃ outcome, (m.step s).result = .ok outcome ∧ outcome.Performed (.storeRegisters x)) ∧
    (m.step s).machine.memory = m.memory.putList m.index (m.registersUpTo x) ∧
    (m.step s).machine.index = m.index ∧ (m.step s).machine.registers = m.registers :=
  step_of_stores h (fun _ => rfl) (m.length_registersUpTo x ▸ hf)

theorem step_storeDecimal (h : m.Faces (.storeDecimal x)) (hf : m.memory.Fits m.index 3)
    (s : Surroundings) :
    (∃ outcome, (m.step s).result = .ok outcome ∧ outcome.Performed (.storeDecimal x)) ∧
    (m.step s).machine.memory =
      m.memory.putList m.index (decimalDigits (m.registers.get x)) ∧
    (m.step s).machine.index = m.index ∧ (m.step s).machine.registers = m.registers :=
  step_of_stores h (fun _ => rfl) hf

theorem get?_step_storeRegisters (h : m.Faces (.storeRegisters x))
    (hf : m.memory.Fits m.index (x.val + 1 : Nat)) (s : Surroundings) {r : Register} (hr : r ≤ x) :
    (m.step s).machine.memory.get? (m.index + r.val) = some (m.registers.get r) := by
  have hlen := m.length_registersUpTo x
  have hrx : r.val ≤ x.val := hr
  obtain ⟨-, hmemory, -, -⟩ := step_storeRegisters h hf s
  rw [hmemory, Bank.get?_putList (hlen ▸ hf), if_pos (by omega),
    show (m.index + r.val - m.index).toNat = r.val by omega]
  exact m.getElem?_registersUpTo hr

theorem toNat_decimalDigits (value : UInt8) :
    (value / 100).toNat ≤ 9 ∧ (value / 10 % 10).toNat ≤ 9 ∧ (value % 10).toNat ≤ 9 ∧
    100 * (value / 100).toNat + 10 * (value / 10 % 10).toNat + (value % 10).toNat =
      value.toNat := by
  have hv := value.toNat_lt
  simp only [UInt8.toNat_div, UInt8.toNat_mod, UInt8.reduceToNat]
  omega

/-- The digits that a decimal store leaves in memory, read back into the first three registers. -/
theorem Matches.decimal (hm : m.Matches 2) (memory : Memory) (value : UInt8)
    (hmemory : m.memory = memory.putList m.index (decimalDigits value))
    (hf : memory.Fits m.index 3) :
    m.registers.get 0 = value / 100 ∧ m.registers.get 1 = value / 10 % 10 ∧
    m.registers.get 2 = value % 10 := by
  have hdigit (r : Register) (hr : r ≤ 2) :
      some (m.registers.get r) = (decimalDigits value)[r.val]? := by
    have hlt : r.val ≤ 2 := hr
    have hlen : ((decimalDigits value).length : Int) = 3 := rfl
    rw [← hm r hr, hmemory, Bank.get?_putList hf, if_pos (by omega),
      show (m.index + r.val - m.index).toNat = r.val by omega]
  exact ⟨Option.some.inj (hdigit 0 (by decide)), Option.some.inj (hdigit 1 (by decide)),
    Option.some.inj (hdigit 2 (by decide))⟩

theorem WellFormed.fits_index (h : m.WellFormed capacity) (hx : m.index + x.val ≤ 0xFFF) :
    m.memory.Fits m.index (x.val + 1 : Nat) := by
  have hl := h.index_nonneg
  have hs := h.size_memory
  exact .inr (by omega)

/-- A load finds what a store has left, on any machine that agrees with the one that has stored
about the index register and the block. -/
theorem registers_reloaded {n : Machine} {s' : Surroundings} {r y : Register}
    (hstore : m.Faces (.storeRegisters x)) (hf : m.memory.Fits m.index (x.val + 1 : Nat))
    (hindex : n.index = m.index)
    (hmemory : ∀ a, m.index ≤ a → a ≤ m.index + x.val →
      n.memory.get? a = (m.step s).machine.memory.get? a)
    (hload : n.Faces (.loadRegisters y)) (hfn : n.memory.Fits n.index (y.val + 1 : Nat))
    (hry : r ≤ y) (hyx : y ≤ x) :
    (n.step s').machine.registers.get r = m.registers.get r := by
  obtain ⟨-, hkept, hindex', hmatches, -⟩ := step_loadRegisters hload hfn s'
  have hrx : r.val ≤ x.val := le_trans hry hyx
  apply Option.some.inj
  rw [← hmatches r hry, hkept, hindex', hindex, hmemory _ (by omega) (by omega)]
  exact get?_step_storeRegisters hstore hf s hrx

/-- Registers that were stored come back with a load, whatever was executed in between, if all of
it left the index register and the block alone.  Registers beyond the load and the index register
are not touched by it.  To store registers right after they were loaded changes nothing in memory.
Of a register that was stored in decimal, a load right after it gives the three digits. -/
theorem block_transfers (h : m.Reachable capacity) :
    (∀ (x y : Register) (s s' : Surroundings) (events : List Event),
      y ≤ x → m.index + x.val ≤ 0xFFF → m.Faces (.storeRegisters x) →
      let n := (m.step s).machine
      let w := n.run events
      n.Preserves m.index (m.index + x.val) events → w.Faces (.loadRegisters y) →
      (∃ outcome, (m.step s).result = .ok outcome ∧ outcome.Performed (.storeRegisters x)) ∧
      (∃ outcome, (w.step s').result = .ok outcome ∧ outcome.Performed (.loadRegisters y)) ∧
      (∀ r, r ≤ y → (w.step s').machine.registers.get r = m.registers.get r) ∧
      (∀ r, y < r → (w.step s').machine.registers.get r = w.registers.get r) ∧
      (w.step s').machine.index = m.index) ∧
    (∀ (x : Register) (s s' : Surroundings), m.index + x.val ≤ 0xFFF →
      m.Faces (.loadRegisters x) →
      let n := (m.step s).machine
      n.Faces (.storeRegisters x) →
      (∃ outcome, (m.step s).result = .ok outcome ∧ outcome.Performed (.loadRegisters x)) ∧
      (∃ outcome, (n.step s').result = .ok outcome ∧ outcome.Performed (.storeRegisters x)) ∧
      (n.step s').machine.memory = m.memory) ∧
    ∀ (k : Machine) (x : Register) (s s' : Surroundings),
      k.memory.size = 4096 → 0 ≤ k.index → k.index + 2 ≤ 0xFFF → k.Faces (.storeDecimal x) →
      let n := (k.step s).machine
      n.Faces (.loadRegisters 2) →
      (∃ outcome, (k.step s).result = .ok outcome ∧ outcome.Performed (.storeDecimal x)) ∧
      (∃ outcome, (n.step s').result = .ok outcome ∧ outcome.Performed (.loadRegisters 2)) ∧
      let v (r : Register) := ((n.step s').machine.registers.get r).toNat
      v 0 ≤ 9 ∧ v 1 ≤ 9 ∧ v 2 ≤ 9 ∧ 100 * v 0 + 10 * v 1 + v 2 = (k.registers.get x).toNat := by
  have hm := h.wellFormed
  refine ⟨?_, ?_, ?_⟩
  · intro x y s s' events hyx hx hfaces n w hkept hload
    have hf := hm.fits_index hx
    obtain ⟨hstored, -, hindex, -⟩ := step_storeRegisters hfaces hf s
    obtain ⟨hindexw, hmemoryw⟩ := hkept.run
    have hw : w.index = m.index := hindexw.trans hindex
    have hwell : w.WellFormed capacity := (hm.step s).run events
    have hle : y.val ≤ x.val := hyx
    have hfw : w.memory.Fits w.index (y.val + 1 : Nat) := hwell.fits_index (by rw [hw]; omega)
    obtain ⟨hloaded, -, hindexv, -, hothers⟩ := step_loadRegisters hload hfw s'
    refine ⟨hstored, hloaded, ?_, hothers, hindexv.trans hw⟩
    intro r hr
    exact registers_reloaded hfaces hf hw hmemoryw hload hfw hr hyx
  · intro x s s' hx hfaces n hstore
    have hf := hm.fits_index hx
    obtain ⟨hloaded, hmemory, hindex, hmatches, -⟩ := step_loadRegisters hfaces hf s
    have hfn : n.memory.Fits n.index (x.val + 1 : Nat) := by
      rw [show n.memory = m.memory from hmemory, show n.index = m.index from hindex]
      exact hf
    obtain ⟨hstored, hmemory', -, -⟩ := step_storeRegisters hstore hfn s'
    exact ⟨hloaded, hstored, hmemory'.trans ((hmatches.putList_eq hfn).trans hmemory)⟩
  · intro k x s s' hsize hl hu hfaces n hload
    have hf : k.memory.Fits k.index 3 := .inr (by omega)
    obtain ⟨hstored, hmemory, hindex, -⟩ := step_storeDecimal hfaces hf s
    have hfn : n.memory.Fits n.index ((2 : Register).val + 1 : Nat) := by
      refine .inr ?_
      rw [show n.memory = _ from hmemory, show n.index = _ from hindex, Bank.size_putList]
      omega
    obtain ⟨hloaded, hmemory', hindex', hmatches, -⟩ := step_loadRegisters hload hfn s'
    have hn : (n.step s').machine.index = k.index := hindex'.trans hindex
    have hdigits : (n.step s').machine.memory =
        k.memory.putList (n.step s').machine.index (decimalDigits (k.registers.get x)) := by
      rw [hn]
      exact hmemory'.trans hmemory
    obtain ⟨hfirst, hsecond, hthird⟩ := hmatches.decimal _ _ hdigits (hn ▸ hf)
    refine ⟨hstored, hloaded, ?_⟩
    intro v
    simp only [v, hfirst, hsecond, hthird]
    exact toNat_decimalDigits _

/-- V0 and V1 are stored, V0 is set to something else, and a load of V0 alone brings it back.  To
store V0 right after that load changes nothing.  Then 254 in V5 is stored in decimal and loaded as
the digits 2, 5 and 4. -/
theorem block_transfers_kept :
    let m := (booted 16 [0xA3, 0x00, 0x60, 0x07, 0xF1, 0x55, 0x60, 0x09, 0xF0, 0x65, 0xF0, 0x55,
      0x65, 0xFE, 0xF5, 0x33, 0xF2, 0x65]).run [.step quiet, .step quiet]
    let n := (m.step quiet).machine
    let w := n.run [.step quiet]
    let l := (w.step quiet).machine
    let k := l.run [.step quiet, .step quiet]
    let d := (k.step quiet).machine
    (m.Reachable 16 ∧ m.Faces (.storeRegisters 1) ∧
      n.Preserves m.index (m.index + 1) [.step quiet] ∧ w.Faces (.loadRegisters 0) ∧
      w.registers.get 0 = 9 ∧ l.registers.get 0 = m.registers.get 0 ∧ l.index = m.index) ∧
    (w.Reachable 16 ∧ l.Faces (.storeRegisters 0) ∧ (l.step quiet).machine.memory = w.memory) ∧
    k.registers.get 5 = 254 ∧ k.Faces (.storeDecimal 5) ∧ d.Faces (.loadRegisters 2) ∧
    ((d.step quiet).machine.registers.get 0).toNat = 2 ∧
    ((d.step quiet).machine.registers.get 1).toNat = 5 ∧
    ((d.step quiet).machine.registers.get 2).toNat = 4 := by
  intro m n w l k d
  have h : m.Reachable 16 := (reachable_booted 16 _).run _
  have hn : n.Reachable 16 := h.step quiet
  have hw : w.Reachable 16 := hn.run _
  have hl : l.Reachable 16 := hw.step quiet
  have hk : k.Reachable 16 := hl.run _
  have hd : d.Reachable 16 := hk.step quiet
  have hs :
      (m.phase = .running ∧ m.Upcoming (.storeRegisters 1) ∧ m.index + 1 ≤ 0xFFF) ∧
      (n.phase = .running ∧ n.Upcoming (.loadByte 0 9)) ∧
      (w.phase = .running ∧ w.Upcoming (.loadRegisters 0) ∧ w.index ≤ 0xFFF ∧
        w.registers.get 0 = 9) ∧
      (l.phase = .running ∧ l.Upcoming (.storeRegisters 0)) ∧
      (k.phase = .running ∧ k.Upcoming (.storeDecimal 5) ∧ k.memory.size = 4096 ∧
        0 ≤ k.index ∧ k.index + 2 ≤ 0xFFF ∧ k.registers.get 5 = 254) ∧
      (d.phase = .running ∧ d.Upcoming (.loadRegisters 2)) := by
    decide +kernel
  obtain ⟨⟨hpm, hum, hroom⟩, ⟨hpn, hun⟩, ⟨hpw, huw, hindexw, hvalue⟩,
    ⟨hpl, hul⟩, ⟨hpk, huk, hsize, hlow, hhigh, hnumber⟩, hpd, hud⟩ := hs
  have hstore : m.Faces (.storeRegisters 1) := h.wellFormed.faces_of_upcoming hpm hum
  have hkept : n.Preserves m.index (m.index + 1) [.step quiet] :=
    .step hn.wellFormed hpn hun rfl (by simp [Operation.SetsIndex]) rfl trivial
  have hload : w.Faces (.loadRegisters 0) := hw.wellFormed.faces_of_upcoming hpw huw
  have hagain : l.Faces (.storeRegisters 0) := hl.wellFormed.faces_of_upcoming hpl hul
  have hdecimal : k.Faces (.storeDecimal 5) := hk.wellFormed.faces_of_upcoming hpk huk
  have hdigits : d.Faces (.loadRegisters 2) := hd.wellFormed.faces_of_upcoming hpd hud
  obtain ⟨hback, -, hnumerals⟩ := block_transfers h
  obtain ⟨-, -, hkeep, -, hindex⟩ :=
    hback 1 0 quiet quiet [.step quiet] (by decide) hroom hstore hkept hload
  obtain ⟨-, hnothing, -⟩ := block_transfers hw
  obtain ⟨-, -, hmemory⟩ := hnothing 0 quiet quiet (by simpa using hindexw) hload hagain
  obtain ⟨-, -, hv⟩ := hnumerals k 5 quiet quiet hsize hlow hhigh hdecimal hdigits
  have hsum : (k.registers.get 5).toNat = 254 := congrArg UInt8.toNat hnumber
  refine ⟨⟨h, hstore, hkept, hload, hvalue, ?_, ?_⟩, ⟨hw, hagain, ?_⟩, hnumber, hdecimal,
    hdigits, ?_⟩
  · simpa only [l, w, n] using hkeep 0 (by decide)
  · simpa only [l, w, n] using hindex
  · simpa only [l] using hmemory
  · simp only [hsum] at hv
    simp only [d]
    omega

end ChipEight.Machine
