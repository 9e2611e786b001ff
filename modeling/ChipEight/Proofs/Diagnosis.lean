import ChipEight.Proofs.Changes

/-!
# What a failing step reports

A step fails before it executes anything if its word cannot be fetched or is no instruction.  The
report names the program counter or the word, with one exception: a fetch from the last byte of
memory reports the address behind it, where the second byte of the word is missing.
-/

namespace ChipEight.Machine

variable {m : Machine} {e : Error} {capacity : Int} {word : Int}

namespace WellFormed

theorem exists_byte (h : m.WellFormed capacity) {address : Int} (hl : 0 ≤ address)
    (hu : address ≤ 0xFFF) : ∃ byte, m.memory.get? address = some byte := by
  have hs := h.size_memory
  apply Option.ne_none_iff_exists'.mp
  intro hn
  apply (m.memory.get?_eq_none_iff address).mp hn
  exact Bank.covers_iff.mpr ⟨hl, by omega⟩

theorem exists_fetch_eq_error_iff (h : m.WellFormed capacity) :
    (∃ e, m.fetch = .error e) ↔ 0xFFE < m.counter := by
  constructor
  · rintro ⟨e, he⟩
    by_contra hn
    rw [h.fetch_eq_ok (not_lt.mp hn)] at he
    cases he
  · intro hu
    obtain ⟨a, ha⟩ := h.fetch_eq_error hu
    exact ⟨_, ha⟩

/-- Only from the last byte of memory a word begins inside and ends outside. -/
theorem reported_counter (h : m.WellFormed capacity) (hu : 0xFFE < m.counter) :
    m.memory.reported m.counter 2 = if m.counter = 0xFFF then 0x1000 else m.counter := by
  have hs := h.size_memory
  have hc : m.memory.Covers m.counter ↔ m.counter = 0xFFF := by
    rw [Bank.covers_iff]
    omega
  unfold Bank.reported
  simp only [hc]
  split
  · omega
  · rfl

theorem fetch_report (h : m.WellFormed capacity) (he : m.fetch = .error e) :
    e = .fault (.outOfBounds (if m.counter = 0xFFF then 0x1000 else m.counter)) := by
  have hu := h.exists_fetch_eq_error_iff.mp ⟨e, he⟩
  have hf : ¬ m.memory.Fits m.counter 2 := by
    rw [h.fits_counter_iff]
    exact not_le.mpr hu
  rw [fetch_eq_reported hf, h.reported_counter hu] at he
  exact (Except.error.inj he).symm

theorem exists_bytes_of_fetched (h : m.WellFormed capacity) (hf : m.fetch = .ok word) :
    ∃ high low, m.memory.get? m.counter = some high ∧ m.memory.get? (m.counter + 1) = some low ∧
      word = 256 * high.toNat + low.toNat := by
  have hl := h.counter_nonneg
  have hu := h.counter_le_of_fetched hf
  obtain ⟨high, hhigh⟩ := h.exists_byte hl (by omega)
  obtain ⟨low, hlow⟩ : ∃ low, m.memory.get? (m.counter + 1) = some low :=
    h.exists_byte (by omega) (by omega)
  refine ⟨high, low, hhigh, hlow, ?_⟩
  rw [h.fetch_eq_ok hu, Memory.word, hhigh, hlow] at hf
  exact (Except.ok.inj hf).symm

end WellFormed

theorem of_decode_eq_error (h : Instruction.decode word = .error e) :
    Operation.ofWord? word = none ∧ e = .fault (.unknownOpcode word) := by
  cases hw : Operation.ofWord? word with
  | none =>
    rw [Instruction.decode_of_none hw] at h
    exact ⟨rfl, (Except.error.inj h).symm⟩
  | some op =>
    rw [Instruction.decode_of_some hw] at h
    cases h

/-- A step that cannot fetch reports the program counter.  Only where that is at the last byte of
memory, the address behind it is reported.  A step that cannot decode reports the word, most
significant byte first.  The record says in both cases where the step was. -/
theorem step_diagnosis (h : m.Reachable capacity) (hp : m.phase = .running) (s : Surroundings) :
    ((∃ e, m.fetch = .error e) ↔ 0xFFE < m.counter) ∧
    (∀ e, m.fetch = .error e →
      (m.step s).result = .error e ∧ (m.step s).machine.lastCounter = m.counter ∧
      (m.counter ≠ 0xFFF → e = .fault (.outOfBounds m.counter)) ∧
      (m.counter = 0xFFF → e = .fault (.outOfBounds 0x1000))) ∧
    ∀ word, m.fetch = .ok word →
      (∃ high low, m.memory.get? m.counter = some high ∧
        m.memory.get? (m.counter + 1) = some low ∧ word = 256 * high.toNat + low.toNat) ∧
      ∀ e, Instruction.decode word = .error e →
        (m.step s).result = .error e ∧ (m.step s).machine.lastCounter = m.counter ∧
        e = .fault (.unknownOpcode word) := by
  have hm := h.wellFormed
  have hrecord := (record_step hm.steady hp s).1
  refine ⟨hm.exists_fetch_eq_error_iff, ?_, ?_⟩
  · intro e he
    have hreport := hm.fetch_report he
    refine ⟨?_, hrecord, ?_, ?_⟩
    · rw [step_of_unfetched hp he]
    · intro hn
      rw [hreport, if_neg hn]
    · intro hlast
      rw [hreport, if_pos hlast]
  · intro word hf
    refine ⟨hm.exists_bytes_of_fetched hf, ?_⟩
    intro e he
    obtain ⟨hw, rfl⟩ := of_decode_eq_error he
    refine ⟨?_, hrecord, rfl⟩
    rw [step_of_unknown hp hf hw]

/-- A jump to the last byte of memory. -/
theorem step_diagnosis_last :
    let m := (booted 16 [0x1F, 0xFF]).run [.step quiet]
    m.Reachable 16 ∧ m.phase = .running ∧ m.counter = 0xFFF ∧
    (m.step quiet).result = .error (.fault (.outOfBounds 0x1000)) ∧
    (m.step quiet).machine.lastCounter = 0xFFF := by
  intro m
  have h : m.Reachable 16 := (reachable_booted 16 _).run _
  have hs : m.phase = .running ∧ m.counter = 0xFFF := by decide +kernel
  obtain ⟨hp, hcounter⟩ := hs
  obtain ⟨hfails, hreport, -⟩ := step_diagnosis h hp quiet
  obtain ⟨e, he⟩ := hfails.mpr (by rw [hcounter]; decide)
  obtain ⟨hresult, hlast, -, haddress⟩ := hreport e he
  rw [haddress hcounter] at hresult
  exact ⟨h, hp, hcounter, hresult, hlast.trans hcounter⟩

theorem not_forall_fetch_reports_counter :
    ¬ ∀ (capacity : Int) (m : Machine) (s : Surroundings), m.Reachable capacity →
      m.phase = .running → 0xFFE < m.counter →
      (m.step s).result = .error (.fault (.outOfBounds m.counter)) := by
  intro hall
  have h := (reachable_booted 16 [0x1F, 0xFF]).run [.step quiet]
  have hs : ((booted 16 [0x1F, 0xFF]).run [.step quiet]).phase = .running ∧
      ((booted 16 [0x1F, 0xFF]).run [.step quiet]).counter = 0xFFF := by
    decide +kernel
  obtain ⟨hp, hcounter⟩ := hs
  have hreported := hall 16 _ quiet h hp (by rw [hcounter]; decide)
  obtain ⟨e, he⟩ := h.wellFormed.exists_fetch_eq_error_iff.mpr (by rw [hcounter]; decide)
  rw [step_of_unfetched hp he, h.wellFormed.fetch_report he, if_pos hcounter, hcounter] at hreported
  exact absurd (Except.error.inj hreported) (by decide)

end ChipEight.Machine
