import ChipEight.Proofs.AssemblyText
import ChipEight.Proofs.Swapped

/-!
# What assembly text says

Two words with one text are one operation, and a machine that executes the one or the other does
the same, but for the word it keeps on record.
-/

namespace ChipEight

open Machine

variable {v w : Int} {i j : Instruction} {op : Operation}

theorem Instruction.of_decode_eq_ok (h : decode w = .ok i) :
    Operation.ofWord? w = some i.operation ∧ i.word = w := by
  cases hw : Operation.ofWord? w with
  | none =>
    rw [decode_of_none hw] at h
    cases h
  | some op =>
    rw [decode_of_some hw] at h
    cases h
    exact ⟨rfl, rfl⟩

theorem Machine.perform_of_other_word (hv : Operation.ofWord? v = some op)
    (hw : Operation.ofWord? w = some op) (s : Surroundings) (m : Machine) (counter : Int) :
    ∃ trace, m.perform s counter w =
      { (m.perform s counter v).swapped (.words w) with trace := trace } := by
  have hx : (m.fetched w).execute s op = Work.swapped ((m.fetched v).execute s op) (.words w) :=
    execute_swapped (m := m.fetched v) (w := .words w) ⟨fun _ _ => rfl, fun _ _ _ => rfl⟩
  let line (word : Int) := if s.traced then some ((m.fetched word).line op.assembly) else none
  have hsettle := settle_swapped (.words w) counter ⟨op, v⟩ (line v) ((m.fetched v).execute s op)
  refine ⟨line w, ?_⟩
  rw [perform_of_known hw, perform_of_known hv, hx, ← hsettle]
  exact settle_trace counter ⟨op, w⟩ (line v) (line w) _

theorem Machine.instruction_perform {s : Surroundings} {m : Machine} {counter : Int}
    {outcome : Outcome} (hw : Operation.ofWord? w = some op)
    (h : (m.perform s counter w).result = .ok outcome) : outcome.instruction = some ⟨op, w⟩ := by
  rw [perform_of_known hw] at h
  exact instruction_settle h

/-- Words with one text have one operation, and it makes no difference which of them a machine
executes, whether it is refused or not. -/
theorem Instruction.assembly_faithful (hi : decode v = .ok i) (hj : decode w = .ok j)
    (h : i.assembly = j.assembly) :
    i.operation = j.operation ∧
    ∀ (s : Surroundings) (m : Machine),
      m.execute s i.operation = m.execute s j.operation ∧
      ∀ counter : Int, let a := m.perform s counter v; let b := m.perform s counter w
        b.machine = { a.machine with lastWord := w } ∧ b.signals = a.signals ∧
        b.result = a.result.map fun outcome => { outcome with instruction := some j } := by
  obtain ⟨hv, rfl⟩ := of_decode_eq_ok hi
  obtain ⟨hw, rfl⟩ := of_decode_eq_ok hj
  obtain ⟨op, v⟩ := i
  obtain ⟨op', w⟩ := j
  obtain rfl : op = op' := Operation.assembly_injective h
  refine ⟨rfl, fun s m => ⟨rfl, ?_⟩⟩
  intro counter a b
  obtain ⟨trace, hb⟩ := m.perform_of_other_word hv hw s counter
  change b = { a.swapped (.words w) with trace := trace } at hb
  refine ⟨?_, ?_, ?_⟩
  · rw [hb]
    rfl
  · rw [hb]
    rfl
  · rw [hb]
    change (a.result.map _) = _
    cases hr : a.result with
    | error e => rfl
    | ok outcome =>
      have hinstruction := instruction_perform hv hr
      simp [Except.map, hinstruction, Instruction.swapped, Swap.words]

/-- Two words for shifting V1 to the right, with other operands in the bits that do not count. -/
theorem Instruction.assembly_faithful_shift :
    ∃ i j, decode 0x8126 = .ok i ∧ decode 0x18196 = .ok j ∧ i.fields ≠ j.fields ∧
      i.assembly = j.assembly ∧ i.operation = j.operation ∧
      ∀ (s : Surroundings) (m : Machine) (counter : Int),
        (m.perform s counter 0x18196).machine =
          { (m.perform s counter 0x8126).machine with lastWord := 0x18196 } := by
  have hi : decode 0x8126 = .ok ⟨.shiftRight 1, 0x8126⟩ := rfl
  have hj : decode 0x18196 = .ok ⟨.shiftRight 1, 0x18196⟩ := rfl
  obtain ⟨hop, hsame⟩ := assembly_faithful hi hj rfl
  refine ⟨_, _, hi, hj, by decide, rfl, hop, ?_⟩
  intro s m counter
  exact ((hsame s m).2 counter).1

end ChipEight
